import SchedMon.Lib.Fallible
import SchedMon.Tool.Input

/-!
# The arguments of the program

`smon profile OPTS PROG ARGS` should run `PROG ARGS`. The parsers go through the whole argument
vector with a `getopt` that permutes, so a word of `ARGS` that looks like an option is taken for
one of `smon`, and taken away from the program.

## Main definitions

* `Command.scan` — what a parser makes of the options
* `OwnArguments` — the program gets its own arguments, and `smon` only its own options

## Main results

* `smonParseInput_eq_ok` — a parser depends on its words through options and operands alone
* `ownArguments_iff` — **the arguments are the program's own exactly if none looks like an option**
* `not_ownArguments` — an option of the program that `smon` takes
-/

namespace SchedMon

open CString

variable {command : Command} {smon prog : CString} {opts args argv : List CString}
  {cmd₀ cmd : RunCmd} {envir : SmonEnvir}

/-! ### Parsing options -/

/-- What a parser makes of the options that `getopt` returns. -/
def Command.scan (command : Command) (cmd₀ : RunCmd) (opts : List (Char × Option CString)) :
    Except Stop (RunCmd × SmonEnvir) :=
  match command with
  | profile => do
    let st ← opts.foldlM profileOpt profileDefaults
    if st.eflag = 0 then throw (.returns 1)
    else return (⟨st.cmd, .profile, cmd₀.countMode⟩, st.envir)
  | stat => do
    let st ← opts.foldlM statOpt (statDefaults cmd₀.toSmonCmd)
    if st.eflag = 0 then throw (.returns 1)
    else return (⟨st.cmd, .stat, cmd₀.countMode⟩, st.envir)
  | roof => do
    let st ← opts.foldlM roofOpt (roofDefaults cmd₀.toSmonCmd)
    return (⟨st.cmd, .roof, st.countMode⟩, st.envir)

/-- Only options and operands matter to a parser, and of the operands only how many there are. -/
theorem smonParseInput_eq_ok :
    smonParseInput cmd₀ (smon :: command.name :: argv) = .ok (.run cmd envir) ↔
      (getopt command.takesArg argv).2 ≠ [] ∧ ∃ cmd₁ : RunCmd,
        command.scan cmd₀ (getopt command.takesArg argv).1 = .ok (cmd₁, envir) ∧
        cmd = { cmd₁ with
          argindex := argv.length - (getopt command.takesArg argv).2.length + 2 } := by
  cases command with
  | profile =>
    change (parseProfile argv >>= fun r => _) = _ ↔ _
    simp only [parseProfile, Command.scan, bind_eq_ok, ite_throw_eq_ok, pure_eq_ok, Prod.exists,
      Prod.mk.injEq, Input.run.injEq]
    constructor
    · rintro ⟨_, _, ⟨st, hst, hne, hflag, rfl, rfl⟩, rfl, rfl⟩
      exact ⟨hne, _, ⟨st, hst, hflag, rfl, rfl⟩, rfl⟩
    · rintro ⟨hne, _, ⟨st, hst, hflag, rfl, rfl⟩, rfl⟩
      exact ⟨_, _, ⟨st, hst, hne, hflag, rfl, rfl⟩, rfl, rfl⟩
  | stat =>
    change (parseStat cmd₀.toSmonCmd argv >>= fun r => _) = _ ↔ _
    simp only [parseStat, Command.scan, bind_eq_ok, ite_throw_eq_ok, pure_eq_ok, Prod.exists,
      Prod.mk.injEq, Input.run.injEq]
    constructor
    · rintro ⟨_, _, ⟨st, hst, hne, hflag, rfl, rfl⟩, rfl, rfl⟩
      exact ⟨hne, _, ⟨st, hst, hflag, rfl, rfl⟩, rfl⟩
    · rintro ⟨hne, _, ⟨st, hst, hflag, rfl, rfl⟩, rfl⟩
      exact ⟨_, _, ⟨st, hst, hne, hflag, rfl, rfl⟩, rfl, rfl⟩
  | roof =>
    change (parseRoof cmd₀.toSmonCmd argv >>= fun r => _) = _ ↔ _
    simp only [parseRoof, Command.scan, bind_eq_ok, ite_throw_eq_ok, pure_eq_ok, Prod.exists,
      Prod.mk.injEq, Input.run.injEq]
    constructor
    · rintro ⟨_, _, _, ⟨st, hst, hne, rfl, rfl, rfl⟩, rfl, rfl⟩
      exact ⟨hne, _, ⟨st, hst, rfl, rfl⟩, rfl⟩
    · rintro ⟨hne, _, ⟨st, hst, rfl, rfl⟩, rfl⟩
      exact ⟨_, _, _, ⟨st, hst, hne, rfl, rfl, rfl⟩, rfl, rfl⟩

/-- A command line with options that are accepted, and a program. -/
theorem exists_ok (smon : CString) (command : Command) (cmd₀ : RunCmd) {r : RunCmd × SmonEnvir}
    (hne : (getopt command.takesArg argv).2 ≠ [])
    (hscan : command.scan cmd₀ (getopt command.takesArg argv).1 = .ok r) :
    ∃ cmd envir, smonParseInput cmd₀ (smon :: command.name :: argv) = .ok (.run cmd envir) :=
  ⟨_, r.2, smonParseInput_eq_ok.mpr ⟨hne, r.1, hscan, rfl⟩⟩

/-- The program gets the operands. -/
theorem program_of_ok
    (hok : smonParseInput cmd₀ (smon :: command.name :: argv) = .ok (.run cmd envir)) :
    command.program (smon :: command.name :: argv) cmd = (getopt command.takesArg argv).2 := by
  obtain ⟨-, cmd₁, -, rfl⟩ := smonParseInput_eq_ok.mp hok
  show ((smon :: command.name :: permuted command.takesArg argv).drop
    (argv.length - (getopt command.takesArg argv).2.length + 2)) = _
  rw [List.drop_succ_cons, List.drop_succ_cons, drop_permuted]

/-! ### Own arguments -/

/-- The program gets `PROG` and `ARGS` as they were given, and `smon` is told what `OPTS` alone tell
it, whatever the program is. -/
structure OwnArguments (command : Command) (smon : CString) (opts : List CString) (prog : CString)
    (args : List CString) (cmd₀ cmd : RunCmd) (envir : SmonEnvir) : Prop where
  program : command.program (smon :: command.name :: (opts ++ prog :: args)) cmd = prog :: args
  determined : ∀ prog' : CString, prog'.head? ≠ some '-' →
    smonParseInput cmd₀ (smon :: command.name :: (opts ++ [prog'])) = .ok (.run cmd envir)

/-- The words of a command line with complete options. -/
theorem getopt_commandLine (hopts : OptionWords command.takesArg opts)
    (hprog : prog.head? ≠ some '-') (args : List CString) :
    getopt command.takesArg (opts ++ prog :: args) =
      ((getopt command.takesArg opts).1 ++ (getopt command.takesArg args).1,
        prog :: (getopt command.takesArg args).2) := by
  rw [getopt_append hopts, getopt_operand (.inl hprog)]

/-- **The arguments are the program's own exactly if none of them looks like an option.** -/
theorem ownArguments_iff (hopts : OptionWords command.takesArg opts)
    (hprog : prog.head? ≠ some '-')
    (hok : smonParseInput cmd₀ (smon :: command.name :: (opts ++ prog :: args)) =
      .ok (.run cmd envir)) :
    OwnArguments command smon opts prog args cmd₀ cmd envir ↔ ∀ arg ∈ args, Operand arg := by
  have hgetopt := getopt_commandLine hopts hprog args
  have hprogram := program_of_ok hok
  rw [hgetopt] at hprogram
  constructor
  · intro h
    exact operands_eq_self_iff.mp (List.cons_injective (hprogram.symm.trans h.program))
  · intro hargs
    have hoperands : getopt command.takesArg args = ([], args) := getopt_operands hargs
    refine ⟨?_, fun prog' hprog' => ?_⟩
    · rw [hprogram, hoperands]
    · obtain ⟨-, cmd₁, hscan, rfl⟩ := smonParseInput_eq_ok.mp hok
      have hgetopt' := getopt_commandLine hopts hprog' []
      rw [getopt_nil] at hgetopt'
      rw [hgetopt, hoperands] at hscan
      refine smonParseInput_eq_ok.mpr ⟨?_, cmd₁, ?_, ?_⟩
      · rw [hgetopt']
        exact List.cons_ne_nil _ _
      · rw [hgetopt']
        exact hscan
      · rw [hgetopt, hgetopt', hoperands]
        simp only [List.length_append, List.length_cons, List.length_nil, Nat.add_sub_cancel]

/-- `-e 0` are complete options of `smon profile`. -/
theorem optionWords_zero : OptionWords Command.profile.takesArg ["-e".toList, "0".toList] :=
  .cons (by decide : ['-', 'e'] ≠ ['-', '-']) (by decide) .nil

/-- `smon profile -e 0 ls` with one more word, on a clean stack. -/
theorem getopt_zero (word : CString) (words : List CString) :
    getopt Command.profile.takesArg (["-e".toList, "0".toList] ++ word :: words) =
      (('e', some "0".toList) :: (getopt Command.profile.takesArg (word :: words)).1,
        (getopt Command.profile.takesArg (word :: words)).2) := by
  rw [getopt_append optionWords_zero]
  have hzero : getopt Command.profile.takesArg ["-e".toList, "0".toList] =
      ([('e', some "0".toList)], []) :=
    (getopt_word (by decide : ['-', 'e'] ≠ ['-', '-'])
      (rfl : cluster _ ['e'] ["0".toList] = ([('e', some "0".toList)], []))).trans
      (by rw [getopt_nil]; rfl)
  rw [hzero]
  rfl

/-- `smon profile -e 0 ls x`. -/
theorem ownArguments_iff_ls : ∃ cmd envir,
    smonParseInput ⟨⟨0, 0, 0, []⟩, .roof, 0⟩ ("smon".toList :: Command.profile.name ::
      (["-e".toList, "0".toList] ++ "ls".toList :: ["x".toList])) = .ok (.run cmd envir) ∧
    (OwnArguments .profile "smon".toList ["-e".toList, "0".toList] "ls".toList ["x".toList]
      ⟨⟨0, 0, 0, []⟩, .roof, 0⟩ cmd envir ↔ ∀ arg ∈ ["x".toList], Operand arg) := by
  have hgetopt := getopt_zero "ls".toList ["x".toList]
  rw [getopt_operands (by decide : ∀ word ∈ ["ls".toList, "x".toList], Operand word)] at hgetopt
  obtain ⟨cmd, envir, hok⟩ := exists_ok "smon".toList (.profile) ⟨⟨0, 0, 0, []⟩, .roof, 0⟩
    (by rw [hgetopt]; decide) (by rw [hgetopt]; rfl)
  exact ⟨cmd, envir, hok, ownArguments_iff optionWords_zero (by decide) hok⟩

/-- `smon profile -e 0 ls -i` is accepted, but `ls` runs without `-i`, and its children are
monitored. -/
theorem not_ownArguments : ∃ cmd envir,
    OptionWords Command.profile.takesArg ["-e".toList, "0".toList] ∧
    smonParseInput ⟨⟨0, 0, 0, []⟩, .roof, 0⟩ ("smon".toList :: Command.profile.name ::
      (["-e".toList, "0".toList] ++ "ls".toList :: ["-i".toList])) = .ok (.run cmd envir) ∧
    Command.profile.program ("smon".toList :: Command.profile.name ::
      (["-e".toList, "0".toList] ++ "ls".toList :: ["-i".toList])) cmd = ["ls".toList] ∧
    envir.options.inherit = true ∧
    ¬ OwnArguments .profile "smon".toList ["-e".toList, "0".toList] "ls".toList ["-i".toList]
      ⟨⟨0, 0, 0, []⟩, .roof, 0⟩ cmd envir := by
  have hgetopt := getopt_zero "ls".toList ["-i".toList]
  have hi : getopt Command.profile.takesArg ["-i".toList] = ([('i', none)], []) :=
    (getopt_word (by decide : ['-', 'i'] ≠ ['-', '-'])
      (rfl : cluster _ ['i'] [] = ([('i', none)], []))).trans (by rw [getopt_nil]; rfl)
  rw [getopt_operand (by decide : Operand "ls".toList), hi] at hgetopt
  obtain ⟨cmd, envir, hok⟩ := exists_ok "smon".toList (.profile) ⟨⟨0, 0, 0, []⟩, .roof, 0⟩
    (by rw [hgetopt]; decide) (by rw [hgetopt]; rfl)
  have hprogram := program_of_ok hok
  rw [hgetopt] at hprogram
  refine ⟨cmd, envir, optionWords_zero, hok, hprogram, ?_, fun h => ?_⟩
  · obtain ⟨-, cmd₁, hscan, rfl⟩ := smonParseInput_eq_ok.mp hok
    rw [hgetopt] at hscan
    cases hscan
    rfl
  · cases hprogram.symm.trans h.program

end SchedMon
