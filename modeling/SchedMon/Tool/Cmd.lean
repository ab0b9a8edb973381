import SchedMon.Driver.Sample
import SchedMon.Lib.CString

/-!
# Command lines

`tool/src/cmd.c`: the parsers of `smon event -a`, `smon evset -a` and `smon profile`. Each fills
its structure and returns 0, or stops early with a count of errors. A sub-option without `=` has a
null value, which every branch reads; only `strtok` takes a null pointer for the string of its last
call, if there was one.

## Main definitions

* `parseEvent`, `parseEventAdd` — the parser of `smon event`, and its `-a` option
* `parseEvset`, `parseEvsetAdd` — the parser of `smon evset`
* `parseProfile` — the parser of `smon profile`
-/

namespace SchedMon

open CString

/-- How a parser ends that does not accept. -/
inductive Stop where
  /-- It returns a count of errors. -/
  | returns (err : ℕ)
  | segfault
  deriving DecidableEq

/-- Reading a string through a pointer. -/
def deref (val : Option CString) : Except Stop CString :=
  match val with
  | some val => .ok val
  | none => .error .segfault

/-- Conversion to `unsigned int` or `int`. -/
def toUInt (x : I64) : U32 := x.setWidth 32

/-! ### Events -/

/-- `struct smon_event`, with its tag. -/
structure Event extends SmonEvent where
  tag : CString

/-- `event_add_opts`. -/
def eventAddOpts : List CString := ["tag".toList, "mode".toList, "evsel".toList, "umask".toList]

/-- The variables of `parse_event`. -/
structure EventState where
  event : Event
  ftag : ℕ
  fevsel : ℕ
  fumask : ℕ

/-- One turn of the loop over the sub-options. -/
def eventAddOpt (st : EventState) (part : CString) : Except Stop EventState :=
  let (key, val) := getsubopt eventAddOpts part
  match key with
  | some 0 => do
    let val ← deref val
    return { st with event.tag := val.take 63, ftag := st.ftag + 1 }
  | some 1 => do
    let tmp := strtoul (← deref val) &&& 0x03
    let perfevtsel := st.event.perfevtsel ||| (toUInt (tmp <<< 16)).setWidth 64
    return { st with event.perfevtsel := perfevtsel ||| ((1 : I64) <<< 22) }
  | some 2 => do
    let tmp := strtoul (← deref val) &&& 0xff
    return { st with
      event.perfevtsel := st.event.perfevtsel ||| (toUInt (tmp <<< 0)).setWidth 64
      fevsel := st.fevsel + 1 }
  | some 3 => do
    let tmp := strtoul (← deref val) &&& 0xff
    return { st with
      event.perfevtsel := st.event.perfevtsel ||| (toUInt (tmp <<< 8)).setWidth 64
      fumask := st.fumask + 1 }
  | _ => throw (.returns 1)

/-- `event.usr`. -/
def SmonEvent.usr (event : SmonEvent) : Bool := event.perfevtsel.getLsbD 16

/-- `event.os`. -/
def SmonEvent.os (event : SmonEvent) : Bool := event.perfevtsel.getLsbD 17

/-- `parse_event` at `-a`. -/
def parseEventAdd (optarg : CString) : Except Stop Event := do
  let st ← (suboptions optarg).foldlM eventAddOpt ⟨⟨⟨0⟩, []⟩, 0, 0, 0⟩
  if st.ftag &&& st.fevsel &&& st.fumask = 0 then throw (.returns 1)
  else if !st.event.usr && !st.event.os then
    -- user & os (default)
    return { st.event with perfevtsel := st.event.perfevtsel ||| ((3 : I64) <<< 16) }
  else return st.event

/-- The options of `parse_event` and `parse_evset`. -/
def addTakesArg : Char → Option Bool
  | 'a' => some true
  | 'l' => some false
  | _ => none

theorem getopt_add (s : CString) :
    getopt addTakesArg ["-a".toList, s] = ([('a', some s)], []) := by
  have hword : "-a".toList = ['-', 'a'] := rfl
  rw [hword, getopt]
  · simp [cluster, addTakesArg, getopt]
  · decide

/-- `parse_event`, on the words behind the program's name. The loop ends with the first `-a` or
`-l`. -/
def parseEvent (argv : List CString) : Except Stop (Char × Event) :=
  match (getopt addTakesArg argv).1.find? fun opt => opt.1 = 'a' ∨ opt.1 = 'l' with
  | some ('a', optarg) => do
    let event ← parseEventAdd (← deref optarg)
    return ('a', event)
  | some (c, _) => return (c, ⟨⟨0⟩, []⟩)
  | none => throw (.returns 1)

/-- The fields that `local_print_event` prints: evsel, umask, mode and the whole word. -/
def localPrintEvent (event : SmonEvent) : U32 × U32 × U32 × U32 :=
  (toUInt (event.perfevtsel &&& 0x000000ff), toUInt ((event.perfevtsel &&& 0x0000ff00) >>> 8),
    toUInt ((event.perfevtsel &&& 0x000f0000) >>> 16), toUInt event.perfevtsel)

/-! ### Event sets -/

/-- `MAX_EVENTS`. -/
def maxEvents : ℤ := 64

/-- `struct smon_evset`, with its tag. -/
structure Evset extends SmonEvset where
  tag : CString

/-- `evset_add_opts`. -/
def evsetAddOpts : List CString := ["tag".toList, "events".toList, "fixed".toList]

/-- The variables of `parse_evset`, and the string that a `strtok (NULL, ":")` goes on with, which is
null before the first call. -/
structure EvsetState where
  evset : Evset
  ftag : ℕ
  fevents : ℕ
  saved : Option CString

/-- `parse_evset` before its loop. -/
def evsetCleared : EvsetState where
  evset := ⟨⟨fun _ => 0, 0, 0⟩, []⟩
  ftag := 0
  fevents := 0
  saved := none

/-- The loop of `parse_evset` over the tokens of `events`, with `ntok` behind it. -/
def readEvids : ℕ → List CString → Except Stop (List U32)
  | _, [] => .ok []
  | ntok, token :: tokens =>
    if ntok = maxGpCtrs then throw (.returns 1)
    else
      let evid := toUInt (strtoul token)
      if maxEvents ≤ evid.toInt then throw (.returns 1)
      else do return evid :: (← readEvids (ntok + 1) tokens)

/-- One turn of the loop over the sub-options. -/
def evsetAddOpt (st : EvsetState) (part : CString) : Except Stop EvsetState :=
  let (key, val) := getsubopt evsetAddOpts part
  match key with
  | some 0 => do
    let val ← deref val
    return { st with evset.tag := val.take 63, ftag := st.ftag + 1 }
  | some 1 => do
    -- without a value, `strtok` goes on where it stopped
    let tokens := strtokAll ':' (← deref (val.or st.saved))
    if tokens = [] then throw (.returns 1)
    else
      let read ← readEvids 0 tokens
      let evids (i : Fin maxGpCtrs) : U32 := read.getD i (-1)
      let globalCtrl := (List.finRange maxGpCtrs).foldl (fun (ctrl : I64) (i : Fin maxGpCtrs) =>
        if (evids i).toInt < 0 then ctrl else ctrl ||| ((1 : I64) <<< i.val)) st.evset.globalCtrl
      return { st with
        evset.evids := evids
        evset.globalCtrl := globalCtrl
        fevents := st.fevents + 1
        saved := some [] }
  | some 2 => do
    let tmp := toUInt (strtoul (← deref val)) &&& 0x0333
    let globalCtrl := st.evset.globalCtrl
    let globalCtrl := if tmp &&& 0x003 ≠ 0 then globalCtrl ||| ((1 : I64) <<< 32) else globalCtrl
    let globalCtrl := if tmp &&& 0x030 ≠ 0 then globalCtrl ||| ((1 : I64) <<< 33) else globalCtrl
    let globalCtrl := if tmp &&& 0x300 ≠ 0 then globalCtrl ||| ((1 : I64) <<< 34) else globalCtrl
    return { st with
      evset.fixedCtrl := st.evset.fixedCtrl ||| tmp.setWidth 64
      evset.globalCtrl := globalCtrl }
  | _ => throw (.returns 1)

/-- `parse_evset` at `-a`. -/
def parseEvsetAdd (optarg : CString) : Except Stop Evset := do
  let st ← (suboptions optarg).foldlM evsetAddOpt evsetCleared
  if st.ftag &&& st.fevents = 0 then throw (.returns 1)
  else return st.evset

/-- `parse_evset`, on the words behind the program's name. -/
def parseEvset (argv : List CString) : Except Stop (Char × Evset) :=
  match (getopt addTakesArg argv).1.find? fun opt => opt.1 = 'a' ∨ opt.1 = 'l' with
  | some ('a', optarg) => do
    let evset ← parseEvsetAdd (← deref optarg)
    return ('a', evset)
  | some (c, _) => return (c, ⟨⟨fun _ => 0, 0, 0⟩, []⟩)
  | none => throw (.returns 1)

/-! ### Profiles -/

/-- `MAX_EVSETS`. -/
def maxEvsets : ℤ := 64

/-- `DEFAULT_BURST`. -/
def defaultBurst : U32 := 1000

/-- `DEFAULT_MMAP_PAGES`. -/
def defaultMmapPages : U32 := 1024

/-- The part of `struct smon_cmd` that a profile fills. -/
structure SmonCmd where
  argindex : ℕ
  cpumask : U32
  mmapPages : U32
  outFile : CString

/-- The variables of `parse_profile`. -/
structure ProfileState where
  envir : SmonEnvir
  cmd : SmonCmd
  eflag : ℕ

/-- `parse_profile` before its loop. -/
def profileDefaults : ProfileState where
  envir := {
    esids := fun _ => 0
    nEsids := 0
    sampleTime := defaultSampleTime
    batchSize := defaultBurst
    options := ⟨false, true, false, false, false, false, false⟩
    count := 0 }
  cmd := ⟨0, 0, defaultMmapPages, "smon.data".toList⟩
  eflag := 0

/-- The loop of `parse_profile` over the tokens of `-e`, behind those it has kept. A negative one
is not kept. -/
def readEsids : List U32 → List CString → Except Stop (List U32)
  | esids, [] => .ok esids
  | esids, token :: tokens =>
    if esids.length = muxEvsets then throw (.returns 1)
    else
      let esid := toUInt (strtoul token)
      if maxEvsets ≤ esid.toInt then throw (.returns 1)
      else if 0 ≤ esid.toInt then readEsids (esids ++ [esid]) tokens
      else readEsids esids tokens

/-- The numbers of pages that `-p` accepts. -/
def mmapPagesChoices : List U32 :=
  [2, 4, 8, 16, 32, 64, 128, 256, 512, 1024, 2048, 4096, 8192]

/-- One turn of the loop of `parse_profile` over the options. -/
def profileOpt (st : ProfileState) : Char × Option CString → Except Stop ProfileState
  | ('b', some optarg) =>
    let tmp := toUInt (strtoul optarg)
    return { st with envir.batchSize := if 0 < tmp then tmp else defaultBurst }
  | ('c', some optarg) => return { st with cmd.cpumask := toUInt (strtoul optarg) }
  | ('e', some optarg) =>
    let tokens := strtokAll ':' optarg
    if tokens = [] then throw (.returns 1)
    else do
      let esids ← readEsids [] tokens
      return { st with
        envir.nEsids := BitVec.ofNat 32 esids.length
        envir.esids := fun i => esids.getD i (-1)
        eflag := st.eflag + 1 }
  | ('f', _) => return { st with envir.options.fork := true }
  | ('i', _) => return { st with envir.options.inherit := true }
  | ('m', _) => return { st with envir.options.cpu := true }
  | ('o', some optarg) =>
    -- `out_file` has room for 511 characters
    if optarg.length < 512 then return { st with cmd.outFile := optarg } else throw .segfault
  | ('p', some optarg) =>
    let tmp := toUInt (strtoul optarg)
    return { st with cmd.mmapPages := if tmp ∈ mmapPagesChoices then tmp else defaultMmapPages }
  | ('r', _) => return { st with envir.options.rapl := true }
  | ('s', _) => return { st with envir.options.sched := true }
  | ('t', some optarg) => return { st with envir.sampleTime := toUInt (strtoul optarg) }
  | _ => return st

/-- The options of `parse_profile`. -/
def profileTakesArg (c : Char) : Option Bool :=
  if c ∈ ['b', 'c', 'e', 'o', 'p', 't'] then some true
  else if c ∈ ['f', 'i', 'm', 'r', 's'] then some false
  else none

/-- `parse_profile`, on the words behind `profile`. -/
def parseProfile (argv : List CString) : Except Stop (SmonEnvir × SmonCmd) := do
  let (opts, operands) := getopt profileTakesArg argv
  let st ← opts.foldlM profileOpt profileDefaults
  if operands = [] then throw (.returns 1)
  else if st.eflag = 0 then throw (.returns 1)
  else return (st.envir, { st.cmd with argindex := argv.length - operands.length + 2 })

end SchedMon
