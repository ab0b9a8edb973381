import SchedMon.Lib.Getopt
import SchedMon.Tool.Cmd

/-!
# The commands that run a program

`parse_stat` and `parse_roof` of `tool/src/cmd.c`, which are cut-down copies of `parse_profile`,
and `smon_parse_input`, which chooses among the parsers. Each gets the argument vector without its
first element, and leaves in `argindex` where the program to run begins in the whole vector. `main`
hands the words from there on to the program.

`main` keeps the `struct smon_cmd` on its stack and does not initialise it. What a parser does not
set has the value it had before.

## Main definitions

* `parseStat`, `parseRoof`, `smonParseInput`
* `Command` — the commands that run a program
* `Command.program` — the argument vector the program gets
-/

namespace SchedMon

open CString

/-! ### `smon stat` -/

/-- The options of `parse_stat`. -/
def statTakesArg (c : Char) : Option Bool :=
  if c ∈ ['c', 'e', 'o'] then some true
  else if c ∈ ['i'] then some false
  else none

/-- `parse_stat` before its loop. `cpumask` is not set. -/
def statDefaults (cmd : SmonCmd) : ProfileState where
  envir := { profileDefaults.envir with
    batchSize := 1
    options := { profileDefaults.envir.options with stat := true } }
  cmd := { cmd with mmapPages := 8, outFile := "smon.data".toList }
  eflag := 0

/-- One turn of the loop of `parse_stat`. Of the event sets only the first is kept. -/
def statOpt (st : ProfileState) : Char × Option CString → Except Stop ProfileState
  | ('e', some optarg) => do
    let st ← profileOpt st ('e', some optarg)
    return { st with
      envir.nEsids := 1
      envir.esids := fun i => if i = 0 then st.envir.esids 0 else -1 }
  | opt => profileOpt st opt

/-- `parse_stat`, on the words behind `stat`. -/
def parseStat (cmd : SmonCmd) (argv : List CString) : Except Stop (SmonEnvir × SmonCmd) := do
  let (opts, operands) := getopt statTakesArg argv
  let st ← opts.foldlM statOpt (statDefaults cmd)
  if operands = [] then throw (.returns 1)
  else if st.eflag = 0 then throw (.returns 1)
  else return (st.envir, { st.cmd with argindex := argv.length - operands.length + 2 })

/-! ### `smon roof` -/

/-- The options of `parse_roof`. -/
def roofTakesArg (c : Char) : Option Bool :=
  if c ∈ ['b', 'c', 'o', 'p', 't'] then some true
  else if c ∈ ['f', 'i', 'm', 'r', 's'] then some false
  else none

/-- The variables of `parse_roof`. -/
structure RoofState extends ProfileState where
  countMode : U32

/-- `parse_roof` before its loop. `cpumask` is not set. -/
def roofDefaults (cmd : SmonCmd) : RoofState where
  envir := { profileDefaults.envir with
    nEsids := 2
    -- the rest is left at 0
    esids := fun i => if i = 1 then 1 else if i = 2 then -1 else 0 }
  cmd := { cmd with mmapPages := defaultMmapPages, outFile := "smon.data".toList }
  eflag := 0
  countMode := 0

/-- One turn of the loop of `parse_roof`. A sample time of 0 asks for counting alone. -/
def roofOpt (st : RoofState) : Char × Option CString → Except Stop RoofState
  | ('t', some optarg) =>
    if toUInt (strtoul optarg) = 0 then return { st with countMode := 1 }
    else return { st with envir.sampleTime := toUInt (strtoul optarg) }
  | opt => do
    let st' ← profileOpt st.toProfileState opt
    return { st with toProfileState := st' }

/-- `parse_roof`, on the words behind `roof`. -/
def parseRoof (cmd : SmonCmd) (argv : List CString) : Except Stop (SmonEnvir × SmonCmd × U32) := do
  let (opts, operands) := getopt roofTakesArg argv
  let st ← opts.foldlM roofOpt (roofDefaults cmd)
  if operands = [] then throw (.returns 1)
  else return (st.envir, { st.cmd with argindex := argv.length - operands.length + 2 },
    st.countMode)

/-! ### The choice among the parsers -/

/-- The commands that run a program. -/
inductive Command where
  | profile
  | stat
  | roof
  deriving DecidableEq

/-- `struct smon_cmd`, for the commands that run a program. -/
structure RunCmd extends SmonCmd where
  type : Command
  countMode : U32

/-- What `smon_parse_input` leaves behind when it returns 0. -/
inductive Input where
  | event (subcmd : Char) (event : Event)
  | evset (subcmd : Char) (evset : Evset)
  | run (cmd : RunCmd) (envir : SmonEnvir)

/-- `smon_parse_input`, for what the stack holds before. -/
def smonParseInput (cmd : RunCmd) : List CString → Except Stop Input
  | _ :: name :: argv =>
    if name = "event".toList then do
      let (subcmd, event) ← parseEvent (name :: argv)
      return .event subcmd event
    else if name = "evset".toList then do
      let (subcmd, evset) ← parseEvset (name :: argv)
      return .evset subcmd evset
    else if name = "profile".toList then do
      let (envir, cmd') ← parseProfile argv
      return .run ⟨cmd', .profile, cmd.countMode⟩ envir
    else if name = "stat".toList then do
      let (envir, cmd') ← parseStat cmd.toSmonCmd argv
      return .run ⟨cmd', .stat, cmd.countMode⟩ envir
    else if name = "roof".toList then do
      let (envir, cmd', countMode) ← parseRoof cmd.toSmonCmd argv
      return .run ⟨cmd', .roof, countMode⟩ envir
    else throw (.returns 1)
  | _ => throw (.returns 1)

namespace Command

/-- How a command is called. -/
def name : Command → CString
  | profile => "profile".toList
  | stat => "stat".toList
  | roof => "roof".toList

/-- Its options. -/
def takesArg : Command → Char → Option Bool
  | profile => profileTakesArg
  | stat => statTakesArg
  | roof => roofTakesArg

/-- `&argv[cmd.argindex]` in `main`, when `getopt` has permuted the vector. -/
def program (command : Command) (argv : List CString) (cmd : RunCmd) : List CString :=
  (argv.take 2 ++ permuted command.takesArg (argv.drop 2)).drop cmd.argindex

end Command

end SchedMon
