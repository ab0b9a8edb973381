import SchedMon.Tool.Arguments

/-!
# What the parsers read from the stack

`main` does not initialise its `struct smon_cmd`. `parse_profile` sets each field of it that
`start_profile` reads later. `parse_stat` and `parse_roof` leave out `cpumask`, so that without
`-c` the program is bound to whatever processors the stack names.

## Main definitions

* `maskOf` — the mask that options leave behind
* `Determined` — a command line means the same on every stack

## Main results

* `foldlM_onStack` — the stack passes through the loop of a parser
* `determined_iff` — **a command line is determined exactly for `profile`, and with `-c`**
* `not_determined` — `smon stat` without `-c`
-/

namespace SchedMon

open CString

variable {command : Command} {smon : CString} {argv : List CString} {cmd₁ cmd₂ cmd : RunCmd}
  {envir : SmonEnvir} {opts : List (Char × Option CString)}

/-! ### The mask -/

/-- What an option does to the mask. -/
def maskOpt (mask : U32) : Char × Option CString → U32
  | ('c', some optarg) => toUInt (strtoul optarg)
  | _ => mask

/-- What the options do to it. -/
def maskOf (mask : U32) (opts : List (Char × Option CString)) : U32 := opts.foldl maskOpt mask

theorem maskOpt_of_ne {opt : Char × Option CString} (h : ∀ optarg, opt ≠ ('c', some optarg))
    (mask : U32) : maskOpt mask opt = mask := by
  unfold maskOpt
  split
  · exact absurd rfl (h _)
  · rfl

/-- A mask that an option sets does not come from the stack. -/
theorem maskOf_of_mem (h : ∃ optarg, ('c', some optarg) ∈ opts) (mask mask' : U32) :
    maskOf mask opts = maskOf mask' opts := by
  induction opts generalizing mask mask' with
  | nil =>
    obtain ⟨optarg, hmem⟩ := h
    exact absurd hmem List.not_mem_nil
  | cons opt opts ih =>
    obtain ⟨optarg, hmem⟩ := h
    rcases List.mem_cons.mp hmem with rfl | hmem
    · rfl
    · exact ih ⟨optarg, hmem⟩ _ _

/-- A mask that no option sets does. -/
theorem maskOf_of_not_mem (h : ¬ ∃ optarg, ('c', some optarg) ∈ opts) (mask : U32) :
    maskOf mask opts = mask := by
  induction opts generalizing mask with
  | nil => rfl
  | cons opt opts ih =>
    have hopt : ∀ optarg, opt ≠ ('c', some optarg) := fun optarg heq =>
      h ⟨optarg, heq ▸ List.mem_cons_self⟩
    have hopts : ¬ ∃ optarg, ('c', some optarg) ∈ opts := fun ⟨optarg, hmem⟩ =>
      h ⟨optarg, List.mem_cons_of_mem _ hmem⟩
    exact (ih hopts (maskOpt mask opt)).trans (maskOpt_of_ne hopt mask)

/-! ### The loops -/

/-- The variables of a parser on another stack. -/
def ProfileState.onStack (stack : U32 × ℕ) (st : ProfileState) : ProfileState :=
  { st with cmd := { st.cmd with cpumask := stack.1, argindex := stack.2 } }

/-- What an option does to the stack. -/
def stackOpt (stack : U32 × ℕ) (opt : Char × Option CString) : U32 × ℕ :=
  (maskOpt stack.1 opt, stack.2)

theorem foldl_stackOpt (stack : U32 × ℕ) (opts : List (Char × Option CString)) :
    opts.foldl stackOpt stack = (maskOf stack.1 opts, stack.2) := by
  induction opts generalizing stack with
  | nil => rfl
  | cons opt opts ih => exact ih (stackOpt stack opt)

theorem profileOpt_onStack (stack : U32 × ℕ) (st : ProfileState) (opt : Char × Option CString) :
    profileOpt (st.onStack stack) opt =
      ProfileState.onStack (stackOpt stack opt) <$> profileOpt st opt := by
  unfold profileOpt
  split
  · rfl
  · rfl
  · -- `-e`
    dsimp only
    split
    · rfl
    · cases readEsids [] (strtokAll ':' _) <;> rfl
  · rfl
  · rfl
  · rfl
  · -- `-o`
    dsimp only
    split <;> rfl
  · rfl
  · rfl
  · rfl
  · rfl
  · rename_i hc _ _ _ _ _ _ _ _ _
    rw [stackOpt, maskOpt_of_ne hc]
    rfl

theorem statOpt_onStack (stack : U32 × ℕ) (st : ProfileState) (opt : Char × Option CString) :
    statOpt (st.onStack stack) opt =
      ProfileState.onStack (stackOpt stack opt) <$> statOpt st opt := by
  unfold statOpt
  split
  · rw [profileOpt_onStack]
    cases profileOpt st ('e', some _) <;> rfl
  · exact profileOpt_onStack stack st opt

/-- The variables of `parse_roof` on another stack. -/
def RoofState.onStack (stack : U32 × ℕ) (st : RoofState) : RoofState :=
  { st with toProfileState := st.toProfileState.onStack stack }

theorem roofOpt_onStack (stack : U32 × ℕ) (st : RoofState) (opt : Char × Option CString) :
    roofOpt (st.onStack stack) opt =
      RoofState.onStack (stackOpt stack opt) <$> roofOpt st opt := by
  unfold roofOpt
  split
  · split <;> rfl
  · show (profileOpt (st.toProfileState.onStack stack) opt >>= fun st' => _) = _
    rw [profileOpt_onStack]
    cases profileOpt st.toProfileState opt <;> rfl

/-! ### Commands -/

/-- Where a parser that initialises the mask begins, and where the others do. -/
def Command.firstMask (command : Command) (mask : U32) : U32 :=
  match command with
  | profile => 0
  | _ => mask

/-- **A parser on another stack** does the same, except for the mask that was there. -/
theorem scan_onStack (h : command.scan cmd₁ opts = .ok (cmd, envir)) (cmd₂ : RunCmd) :
    cmd.cpumask = maskOf (command.firstMask cmd₁.cpumask) opts ∧
    ∃ cmd', command.scan cmd₂ opts = .ok (cmd', envir) ∧ cmd'.type = cmd.type ∧
      cmd'.cpumask = maskOf (command.firstMask cmd₂.cpumask) opts ∧
      cmd'.mmapPages = cmd.mmapPages ∧ cmd'.outFile = cmd.outFile := by
  cases command with
  | profile =>
    simp only [Command.scan, bind_eq_ok, ite_throw_eq_ok, pure_eq_ok, Prod.mk.injEq] at h ⊢
    obtain ⟨st, hst, hflag, rfl, rfl⟩ := h
    have hframe := foldlM_frame profileOpt_onStack opts (0, 0) profileDefaults
    rw [hst, foldl_stackOpt] at hframe
    have hmask : st.cmd.cpumask = maskOf 0 opts :=
      congrArg (fun st => st.cmd.cpumask) (Except.ok.inj (hst.symm.trans hframe))
    exact ⟨hmask, _, ⟨st, hst, hflag, rfl, rfl⟩, rfl, hmask, rfl, rfl⟩
  | stat =>
    simp only [Command.scan, bind_eq_ok, ite_throw_eq_ok, pure_eq_ok, Prod.mk.injEq] at h ⊢
    obtain ⟨st, hst, hflag, rfl, rfl⟩ := h
    have hframe (cmd : RunCmd) := foldlM_frame statOpt_onStack opts (cmd.cpumask, cmd.argindex)
      (statDefaults ⟨0, 0, 0, []⟩)
    obtain ⟨st₀, hst₀, rfl⟩ := map_eq_ok.mp ((hframe cmd₁).symm.trans hst)
    rw [foldl_stackOpt]
    exact ⟨rfl, _, ⟨_, (hframe cmd₂).trans (map_eq_ok.mpr ⟨st₀, hst₀, rfl⟩), hflag, rfl, rfl⟩, rfl,
      by rw [foldl_stackOpt]; rfl, rfl, rfl⟩
  | roof =>
    simp only [Command.scan, bind_eq_ok, pure_eq_ok, Prod.mk.injEq] at h ⊢
    obtain ⟨st, hst, rfl, rfl⟩ := h
    have hframe (cmd : RunCmd) := foldlM_frame roofOpt_onStack opts (cmd.cpumask, cmd.argindex)
      (roofDefaults ⟨0, 0, 0, []⟩)
    obtain ⟨st₀, hst₀, rfl⟩ := map_eq_ok.mp ((hframe cmd₁).symm.trans hst)
    rw [foldl_stackOpt]
    exact ⟨rfl, _, ⟨_, (hframe cmd₂).trans (map_eq_ok.mpr ⟨st₀, hst₀, rfl⟩), rfl, rfl⟩, rfl,
      by rw [foldl_stackOpt]; rfl, rfl, rfl⟩

/-- Two commands that `start_profile` does the same with. -/
structure SameCmd (cmd cmd' : RunCmd) : Prop where
  type : cmd.type = cmd'.type
  argindex : cmd.argindex = cmd'.argindex
  cpumask : cmd.cpumask = cmd'.cpumask
  mmapPages : cmd.mmapPages = cmd'.mmapPages
  outFile : cmd.outFile = cmd'.outFile

/-- A command line means the same whatever the stack holds. -/
def Determined (argv : List CString) : Prop :=
  ∀ cmd₁ cmd₂ cmd envir, smonParseInput cmd₁ argv = .ok (.run cmd envir) →
    ∃ cmd', smonParseInput cmd₂ argv = .ok (.run cmd' envir) ∧ SameCmd cmd cmd'

/-- The same, with the mask spelled out. -/
theorem smonParseInput_onStack
    (hok : smonParseInput cmd₁ (smon :: command.name :: argv) = .ok (.run cmd envir))
    (cmd₂ : RunCmd) :
    cmd.cpumask = maskOf (command.firstMask cmd₁.cpumask) (getopt command.takesArg argv).1 ∧
    ∃ cmd', smonParseInput cmd₂ (smon :: command.name :: argv) = .ok (.run cmd' envir) ∧
      cmd'.type = cmd.type ∧ cmd'.argindex = cmd.argindex ∧
      cmd'.cpumask = maskOf (command.firstMask cmd₂.cpumask) (getopt command.takesArg argv).1 ∧
      cmd'.mmapPages = cmd.mmapPages ∧ cmd'.outFile = cmd.outFile := by
  obtain ⟨hne, cmd₀, hscan, rfl⟩ := smonParseInput_eq_ok.mp hok
  obtain ⟨hmask, cmd', hscan', htype, hmask', hpages, hfile⟩ := scan_onStack hscan cmd₂
  exact ⟨hmask, _, smonParseInput_eq_ok.mpr ⟨hne, cmd', hscan', rfl⟩, htype, rfl, hmask', hpages,
    hfile⟩

/-- **An accepted command line is determined exactly for `profile`, and with `-c`.** -/
theorem determined_iff
    (hok : smonParseInput cmd₁ (smon :: command.name :: argv) = .ok (.run cmd envir)) :
    Determined (smon :: command.name :: argv) ↔
      command = .profile ∨ ∃ optarg, ('c', some optarg) ∈ (getopt command.takesArg argv).1 := by
  constructor
  · intro h
    by_contra hcond
    obtain ⟨hprofile, hc⟩ := not_or.mp hcond
    -- another mask on the stack is another mask in the end
    obtain ⟨cmd', hok', hsame⟩ :=
      h cmd₁ { cmd₁ with cpumask := cmd₁.cpumask + 1 } cmd envir hok
    obtain ⟨hmask, cmd'', hok'', -, -, hmask'', -⟩ :=
      smonParseInput_onStack hok { cmd₁ with cpumask := cmd₁.cpumask + 1 }
    obtain ⟨rfl, -⟩ := Input.run.inj (Except.ok.inj (hok'.symm.trans hok''))
    rw [maskOf_of_not_mem hc] at hmask hmask''
    have hfirst : ∀ mask, command.firstMask mask = mask := fun mask => by
      cases command with
      | profile => exact absurd rfl hprofile
      | stat => rfl
      | roof => rfl
    rw [hfirst] at hmask hmask''
    have hmasks := hmask.symm.trans (hsame.cpumask.trans hmask'')
    exact absurd hmasks (by simp)
  · intro hcond cmd₁ cmd₂ cmd envir hok
    obtain ⟨hmask, cmd', hok', htype, hindex, hmask', hpages, hfile⟩ :=
      smonParseInput_onStack hok cmd₂
    refine ⟨cmd', hok', htype.symm, hindex.symm, ?_, hpages.symm, hfile.symm⟩
    rw [hmask, hmask']
    rcases hcond with rfl | hc
    · rfl
    · exact maskOf_of_mem hc _ _

/-- The options of `-e 0 ls`. -/
theorem getopt_stat_ls : getopt Command.stat.takesArg ["-e".toList, "0".toList, "ls".toList] =
    ([('e', some "0".toList)], ["ls".toList]) :=
  (getopt_word (by decide : ['-', 'e'] ≠ ['-', '-'])
    (rfl : cluster _ ['e'] ["0".toList, "ls".toList] = ([('e', some "0".toList)], ["ls".toList]))).trans
    (by rw [getopt_operands (by decide : ∀ word ∈ ["ls".toList], Operand word)]; rfl)

/-- `smon stat -e 0 ls` is accepted. -/
theorem exists_stat_ls (cmd₀ : RunCmd) : ∃ cmd envir, smonParseInput cmd₀
    ("smon".toList :: Command.stat.name :: ["-e".toList, "0".toList, "ls".toList]) =
      .ok (.run cmd envir) :=
  exists_ok _ .stat cmd₀ (by rw [getopt_stat_ls]; exact List.cons_ne_nil _ _)
    (by rw [getopt_stat_ls]; rfl)

/-- `smon stat -e 0 ls`, on a clean stack. -/
theorem determined_iff_ls : ∃ cmd envir, smonParseInput ⟨⟨0, 0, 0, []⟩, .profile, 0⟩
      ("smon".toList :: Command.stat.name :: ["-e".toList, "0".toList, "ls".toList]) =
        .ok (.run cmd envir) ∧
    (Determined
        ("smon".toList :: Command.stat.name :: ["-e".toList, "0".toList, "ls".toList]) ↔
      Command.stat = .profile ∨ ∃ optarg, ('c', some optarg) ∈
        (getopt Command.stat.takesArg ["-e".toList, "0".toList, "ls".toList]).1) := by
  obtain ⟨cmd, envir, hok⟩ := exists_stat_ls ⟨⟨0, 0, 0, []⟩, .profile, 0⟩
  exact ⟨cmd, envir, hok, determined_iff hok⟩

/-- **`smon stat -e 0 ls` takes its mask from the stack.** -/
theorem not_determined :
    (∃ cmd envir, smonParseInput ⟨⟨0, 0, 0, []⟩, .profile, 0⟩
      ("smon".toList :: Command.stat.name :: ["-e".toList, "0".toList, "ls".toList]) =
        .ok (.run cmd envir) ∧ cmd.cpumask = 0) ∧
    (∃ cmd envir, smonParseInput ⟨⟨0, 2, 0, []⟩, .profile, 0⟩
      ("smon".toList :: Command.stat.name :: ["-e".toList, "0".toList, "ls".toList]) =
        .ok (.run cmd envir) ∧ cmd.cpumask = 2) ∧
    ¬ Determined
      ("smon".toList :: Command.stat.name :: ["-e".toList, "0".toList, "ls".toList]) := by
  obtain ⟨cmd, envir, hok⟩ := exists_stat_ls ⟨⟨0, 0, 0, []⟩, .profile, 0⟩
  obtain ⟨hmask, cmd', hok', -, -, hmask', -⟩ :=
    smonParseInput_onStack hok ⟨⟨0, 2, 0, []⟩, .profile, 0⟩
  rw [getopt_stat_ls] at hmask hmask'
  refine ⟨⟨cmd, envir, hok, hmask⟩, ⟨cmd', envir, hok', hmask'⟩, fun h => ?_⟩
  obtain ⟨cmd'', hok'', hsame⟩ := h _ ⟨⟨0, 2, 0, []⟩, .profile, 0⟩ cmd envir hok
  obtain ⟨rfl, -⟩ := Input.run.inj (Except.ok.inj (hok'.symm.trans hok''))
  exact absurd (hmask.symm.trans (hsame.cpumask.trans hmask')) (by decide)

end SchedMon
