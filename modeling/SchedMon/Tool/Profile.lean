import SchedMon.Lib.Fallible
import SchedMon.Tool.Cmd

/-!
# The event sets of a profile

`-e` of `smon profile` takes a list of event-set ids. `parse_profile` converts each of its tokens
to an `unsigned long`, cuts that down to an `int`, rejects what is too large, and passes over what
is negative. A number outside the range therefore slips through when it is negative, or when its
lower half is small; a list of nothing else is accepted with no event set in it.

## Main definitions

* `GoodList` — the lists that should be accepted
* `SmonEnvir.Spells` — the environment has the event sets of a list
* `Slips`, `Rejected` — what the parser overlooks, and what it stops at

## Main results

* `readEsids_eq_ok` — what the loop over the tokens accepts, and what it keeps
* `checked_iff` — **the list is checked unless one of its tokens slips through**
* `not_checked_negative` — an accepted command line without event sets
-/

namespace SchedMon

open CString

variable {list token : CString} {tokens : List CString} {kept esids : List U32}
  {opt : Char × Option CString} {opts : List (Char × Option CString)} {st st' : ProfileState}
  {envir : SmonEnvir} {cmd : SmonCmd} {argv : List CString}

/-! ### The tokens -/

/-- The tokens of a list of event-set ids. -/
abbrev tokensOf (list : CString) : List CString := strtokAll ':' list

/-- A token as an `int`. -/
def esidOf (token : CString) : U32 := toUInt (strtoul token)

/-- A token that the parser keeps, unless it is too large. -/
def Kept (token : CString) : Prop := 0 ≤ (esidOf token).toInt

instance : DecidablePred Kept := fun token => inferInstanceAs (Decidable (0 ≤ (esidOf token).toInt))

/-- A number that is the id of an event set. -/
def InRange (token : CString) : Prop := 0 ≤ numeral token ∧ numeral token < maxEvsets

instance : DecidablePred InRange := fun token =>
  inferInstanceAs (Decidable (0 ≤ numeral token ∧ numeral token < maxEvsets))

/-- A number that is not in range, but is not too large either as an `int`. -/
def Slips (token : CString) : Prop := (esidOf token).toInt < maxEvsets ∧ ¬ InRange token

instance : DecidablePred Slips := fun token =>
  inferInstanceAs (Decidable ((esidOf token).toInt < maxEvsets ∧ ¬ InRange token))

/-- The loop stops at a token: one that is too large, or one behind `MUX_EVSETS` that were kept. -/
def Rejected (tokens : List CString) : Prop :=
  (∃ token ∈ tokens, maxEvsets ≤ (esidOf token).toInt) ∨
  ∃ k < tokens.length, muxEvsets ≤ ((tokens.take k).filter (Kept ·)).length

/-- A number in range is converted to itself. -/
theorem toInt_esidOf (h : InRange token) : (esidOf token).toInt = numeral token := by
  obtain ⟨n, hn⟩ := Int.eq_ofNat_of_zero_le h.1
  have hlt : n < 64 := by
    have hmax : (64 : ℤ) = maxEvsets := rfl
    have := h.2
    omega
  have hconv : esidOf token = BitVec.ofNat 32 n := by
    rw [esidOf, strtoul_of_numeral (by omega) hn, toUInt]
    apply BitVec.eq_of_toNat_eq
    rw [BitVec.toNat_setWidth, BitVec.toNat_ofNat, BitVec.toNat_ofNat]
    omega
  have hnat : (BitVec.ofNat 32 n).toNat = n := by
    rw [BitVec.toNat_ofNat]
    omega
  rw [hconv, hn, BitVec.toInt_eq_toNat_of_lt (by omega), hnat]

theorem kept_of_inRange (h : InRange token) : Kept token := by
  rw [Kept, toInt_esidOf h]
  exact h.1

/-- **What the loop accepts, and what it keeps.** -/
theorem readEsids_eq_ok (hkept : kept.length ≤ muxEvsets) : readEsids kept tokens = .ok esids ↔
    (∀ token ∈ tokens, (esidOf token).toInt < maxEvsets) ∧
    (∀ k < tokens.length, kept.length + ((tokens.take k).filter (Kept ·)).length < muxEvsets) ∧
    esids = kept ++ (tokens.filter (Kept ·)).map esidOf := by
  induction tokens generalizing kept with
  | nil => simp [readEsids, eq_comm]
  | cons token tokens ih =>
    rw [readEsids, List.forall_mem_cons, List.length_cons, Nat.forall_lt_succ_left]
    simp only [List.take_succ_cons, List.take_zero, List.filter_nil, List.length_nil, Nat.add_zero]
    split
    · rename_i hfull
      constructor
      · intro h
        exact (throw_eq_ok.mp h).elim
      · rintro ⟨-, ⟨hroom, -⟩, -⟩
        omega
    · rename_i hroom
      have hlt : kept.length < muxEvsets := by omega
      change (if maxEvsets ≤ (esidOf token).toInt then _ else _) = _ ↔ _
      split
      · rename_i hlarge
        constructor
        · intro h
          exact (throw_eq_ok.mp h).elim
        · rintro ⟨⟨hsmall, -⟩, -, -⟩
          omega
      · rename_i hsmall
        have hesid : (esidOf token).toInt < maxEvsets := by omega
        change (if Kept token then readEsids (kept ++ [esidOf token]) tokens
          else readEsids kept tokens) = _ ↔ _
        by_cases hk : Kept token
        · have hlen : (kept ++ [esidOf token]).length = kept.length + 1 := List.length_append
          rw [if_pos hk, ih (by omega)]
          simp only [hk, List.filter_cons_of_pos, decide_true, List.length_cons, List.map_cons,
            hlen, List.append_assoc, List.singleton_append, hesid, hlt, true_and]
          have hadd : ∀ n, kept.length + 1 + n = kept.length + (n + 1) := by omega
          simp only [hadd]
        · rw [if_neg hk, ih hkept]
          simp only [hk, decide_false, Bool.false_eq_true, not_false_eq_true,
            List.filter_cons_of_neg, hesid, hlt, true_and]

/-- The loop never does worse than to stop with an error. -/
theorem readEsids_error {stop : Stop} (h : readEsids kept tokens = .error stop) :
    stop = .returns 1 := by
  induction tokens generalizing kept with
  | nil => cases h
  | cons token tokens ih =>
    rw [readEsids] at h
    split at h
    · cases h
      rfl
    · dsimp only at h
      split at h
      · cases h
        rfl
      · split at h
        · exact ih h
        · exact ih h

/-! ### The other options -/

/-- An option other than `-e`. The name of an output file has room. -/
def Harmless (opt : Char × Option CString) : Prop :=
  opt.1 ≠ 'e' ∧ ∀ file, opt = ('o', some file) → file.length < 512

/-- What `-e` fills. -/
def ProfileState.filled (st : ProfileState) : (ℕ → U32) × U32 × ℕ :=
  (st.envir.esids, st.envir.nEsids, st.eflag)

theorem profileOpt_harmless (st : ProfileState) (h : Harmless opt) :
    ∃ st', profileOpt st opt = .ok st' ∧ st'.filled = st.filled := by
  obtain ⟨he, ho⟩ := h
  unfold profileOpt
  split
  case h_3 => exact absurd rfl he
  case h_7 file =>
    rw [if_pos (ho file rfl)]
    exact ⟨_, rfl, rfl⟩
  all_goals exact ⟨_, rfl, rfl⟩

theorem foldlM_harmless (st : ProfileState) (h : ∀ opt ∈ opts, Harmless opt) :
    ∃ st', opts.foldlM profileOpt st = .ok st' ∧ st'.filled = st.filled := by
  induction opts generalizing st with
  | nil => exact ⟨st, rfl, rfl⟩
  | cons opt opts ih =>
    obtain ⟨hopt, hopts⟩ := List.forall_mem_cons.mp h
    obtain ⟨st₁, hst, hfilled⟩ := profileOpt_harmless st hopt
    obtain ⟨st₂, hrun, hrest⟩ := ih st₁ hopts
    refine ⟨st₂, ?_, hrest.trans hfilled⟩
    rw [List.foldlM_cons, bind_of_ok hst]
    exact hrun

/-- A command line with one `-e` and a program to run. -/
def CommandLine (argv : List CString) (list : CString) : Prop :=
  ∃ before behind operands,
    getopt profileTakesArg argv = (before ++ ('e', some list) :: behind, operands) ∧
    operands ≠ [] ∧ (∀ opt ∈ before, Harmless opt) ∧ ∀ opt ∈ behind, Harmless opt

/-- The list decides how the parser ends. -/
theorem parseProfile_ok (h : CommandLine argv list) (hne : tokensOf list ≠ [])
    (hread : readEsids [] (tokensOf list) = .ok esids) :
    ∃ envir cmd, parseProfile argv = .ok (envir, cmd) ∧
      envir.nEsids = BitVec.ofNat 32 esids.length ∧ envir.esids = fun i => esids.getD i (-1) := by
  obtain ⟨before, behind, operands, hargs, hprog, hbefore, hbehind⟩ := h
  obtain ⟨st₁, hst₁, -⟩ := foldlM_harmless profileDefaults hbefore
  have hlist : profileOpt st₁ ('e', some list) = .ok { st₁ with
      envir.nEsids := BitVec.ofNat 32 esids.length
      envir.esids := fun i => esids.getD i (-1)
      eflag := st₁.eflag + 1 } := by
    change (if tokensOf list = [] then _ else _) = _
    rw [if_neg hne, bind_of_ok hread]
    rfl
  obtain ⟨st₃, hst₃, hfilled⟩ := foldlM_harmless _ hbehind
  have hrun : (before ++ ('e', some list) :: behind).foldlM profileOpt profileDefaults = .ok st₃ := by
    rw [List.foldlM_append, bind_of_ok hst₁, List.foldlM_cons, bind_of_ok hlist]
    exact hst₃
  obtain ⟨hesids, hrest⟩ := Prod.mk.inj hfilled
  obtain ⟨hn, heflag⟩ := Prod.mk.inj hrest
  refine ⟨st₃.envir, { st₃.cmd with argindex := argv.length - operands.length + 2 }, ?_, hn, hesids⟩
  unfold parseProfile
  rw [hargs]
  dsimp only
  rw [bind_of_ok hrun, if_neg hprog, if_neg (by rw [heflag]; exact Nat.succ_ne_zero _)]
  rfl

theorem parseProfile_error (h : CommandLine argv list)
    (hread : tokensOf list ≠ [] → ∀ esids, readEsids [] (tokensOf list) ≠ .ok esids) :
    parseProfile argv = .error (.returns 1) := by
  obtain ⟨before, behind, operands, hargs, hprog, hbefore, hbehind⟩ := h
  obtain ⟨st₁, hst₁, -⟩ := foldlM_harmless profileDefaults hbefore
  have hlist : profileOpt st₁ ('e', some list) = .error (.returns 1) := by
    change (if tokensOf list = [] then _ else _) = _
    split
    · rfl
    · rename_i hne
      cases hread' : readEsids [] (tokensOf list) with
      | ok esids => exact absurd hread' (hread hne esids)
      | error stop =>
        rw [readEsids_error hread']
        rfl
  have hrun : (before ++ ('e', some list) :: behind).foldlM profileOpt profileDefaults =
      .error (.returns 1) := by
    rw [List.foldlM_append, bind_of_ok hst₁, List.foldlM_cons, bind_of_error hlist]
  unfold parseProfile
  rw [hargs]
  dsimp only
  rw [bind_of_error hrun]

/-! ### What is promised -/

/-- Between 1 and `MUX_EVSETS` numbers, all in range. -/
def GoodList (list : CString) : Prop :=
  tokensOf list ≠ [] ∧ (tokensOf list).length ≤ muxEvsets ∧ ∀ token ∈ tokensOf list, InRange token

/-- The environment has the event sets of a list, in order, and -1 behind them. -/
def SmonEnvir.Spells (envir : SmonEnvir) (list : CString) : Prop :=
  envir.nEsids.toNat = (tokensOf list).length ∧
  (∀ i (hi : i < (tokensOf list).length),
    (envir.esids i).toInt = numeral ((tokensOf list).get ⟨i, hi⟩)) ∧
  ∀ i < muxEvsets, (tokensOf list).length ≤ i → (envir.esids i).toInt = -1

/-- A good list is accepted and ends up in the environment, any other makes the parser return a
count of errors. -/
def Checked (argv : List CString) (list : CString) : Prop :=
  (GoodList list → ∃ envir cmd, parseProfile argv = .ok (envir, cmd) ∧ envir.Spells list) ∧
  (¬ GoodList list → ∃ err, err ≠ 0 ∧ parseProfile argv = .error (.returns err))

theorem readEsids_of_good (h : GoodList list) :
    readEsids [] (tokensOf list) = .ok ((tokensOf list).map esidOf) := by
  obtain ⟨-, hle, hrange⟩ := h
  refine (readEsids_eq_ok (Nat.zero_le _)).mpr ⟨fun token htoken => ?_, fun k hk => ?_, ?_⟩
  · rw [toInt_esidOf (hrange token htoken)]
    exact (hrange token htoken).2
  · have hfilter := List.length_filter_le (Kept ·) ((tokensOf list).take k)
    rw [List.length_take] at hfilter
    rw [List.length_nil]
    omega
  · have hall : (tokensOf list).filter (Kept ·) = tokensOf list :=
      List.filter_eq_self.mpr fun token htoken =>
        decide_eq_true (kept_of_inRange (hrange token htoken))
    rw [hall, List.nil_append]

/-- A good list ends up in the environment. -/
theorem spells_of_good (hargv : CommandLine argv list) (h : GoodList list) :
    ∃ envir cmd, parseProfile argv = .ok (envir, cmd) ∧ envir.Spells list := by
  obtain ⟨envir, cmd, hparse, hn, hesids⟩ := parseProfile_ok hargv h.1 (readEsids_of_good h)
  obtain ⟨-, hle, hrange⟩ := h
  have hmux : muxEvsets = 32 := rfl
  refine ⟨envir, cmd, hparse, ?_, fun i hi => ?_, fun i _ hi => ?_⟩
  · rw [hn, BitVec.toNat_ofNat, List.length_map]
    omega
  · rw [hesids]
    simp only [List.getD_eq_getElem?_getD, List.getElem?_map, List.getElem?_eq_getElem hi,
      Option.map_some, Option.getD_some]
    exact toInt_esidOf (hrange _ (List.getElem_mem hi))
  · rw [hesids]
    simp only [List.getD_eq_getElem?_getD, List.getElem?_map, List.getElem?_eq_none hi,
      Option.map_none, Option.getD_none]
    rfl

/-- A list that is not good, but not rejected either, has a token that slips through. -/
theorem exists_slips (hne : tokensOf list ≠ []) (hgood : ¬ GoodList list)
    (hrejected : ¬ Rejected (tokensOf list)) : ∃ token ∈ tokensOf list, Slips token := by
  by_contra hslips
  have hrange : ∀ token ∈ tokensOf list, InRange token := by
    intro token htoken
    by_contra hout
    refine hslips ⟨token, htoken, Int.not_le.mp fun hlarge => ?_, hout⟩
    exact hrejected (.inl ⟨token, htoken, hlarge⟩)
  refine hgood ⟨hne, Nat.not_lt.mp fun hlong => hrejected (.inr ⟨muxEvsets, hlong, ?_⟩), hrange⟩
  have hall : ((tokensOf list).take muxEvsets).filter (Kept ·) = (tokensOf list).take muxEvsets :=
    List.filter_eq_self.mpr fun token htoken =>
      decide_eq_true (kept_of_inRange (hrange token (List.mem_of_mem_take htoken)))
  exact Nat.le_of_eq (by rw [hall, List.length_take, Nat.min_eq_left (Nat.le_of_lt hlong)])

/-- **A list of event-set ids is checked as promised exactly when no token of it slips through the
test of its range, or the list is rejected for another token.** -/
theorem checked_iff (hargv : CommandLine argv list) : Checked argv list ↔
    ((∃ token ∈ tokensOf list, Slips token) → Rejected (tokensOf list)) := by
  constructor
  · rintro ⟨-, hbad⟩ ⟨token, htoken, hslips⟩
    by_contra hrejected
    have hread := (readEsids_eq_ok (Nat.zero_le _)).mpr
      ⟨fun token htoken => Int.not_le.mp fun hlarge => hrejected (.inl ⟨token, htoken, hlarge⟩),
        fun k hk => Nat.not_le.mp fun hfull => hrejected (.inr ⟨k, hk, by rwa [List.length_nil, Nat.zero_add] at hfull⟩), rfl⟩
    obtain ⟨envir, cmd, hparse, -⟩ := parseProfile_ok hargv (List.ne_nil_of_mem htoken) hread
    obtain ⟨err, -, herr⟩ := hbad fun hgood => hslips.2 (hgood.2.2 token htoken)
    cases hparse.symm.trans herr
  · intro hcond
    refine ⟨spells_of_good hargv, fun hgood => ⟨1, by decide, parseProfile_error hargv ?_⟩⟩
    intro hne esids hread
    obtain ⟨hsmall, hroom, -⟩ := (readEsids_eq_ok (Nat.zero_le _)).mp hread
    have hrejected : ¬ Rejected (tokensOf list) := by
      rintro (⟨token, htoken, hlarge⟩ | ⟨k, hk, hfull⟩)
      · have := hsmall token htoken
        omega
      · have := hroom k hk
        rw [List.length_nil] at this
        omega
    exact hrejected (hcond (exists_slips hne hgood hrejected))

/-- `smon profile -e list ls`. -/
theorem commandLine_ls (list : CString) :
    CommandLine ["-e".toList, list, "ls".toList] list := by
  refine ⟨[], [], ["ls".toList], ?_, by decide, by simp, by simp⟩
  have he : "-e".toList = ['-', 'e'] := rfl
  have hls : "ls".toList = ['l', 's'] := rfl
  rw [he, hls, getopt]
  · simp [cluster, profileTakesArg, getopt]
  · decide

/-- Two event sets. -/
theorem checked_iff_two : Checked ["-e".toList, "0:1".toList, "ls".toList] "0:1".toList ↔
    ((∃ token ∈ tokensOf "0:1".toList, Slips token) → Rejected (tokensOf "0:1".toList)) :=
  checked_iff (commandLine_ls _)

/-- A command line that is accepted without an event set. -/
theorem not_checked_negative :
    (∃ envir cmd, parseProfile ["-e".toList, "-1".toList, "ls".toList] = .ok (envir, cmd) ∧
      envir.nEsids = 0) ∧
    ¬ Checked ["-e".toList, "-1".toList, "ls".toList] "-1".toList := by
  obtain ⟨envir, cmd, hparse, hn, -⟩ := parseProfile_ok (commandLine_ls "-1".toList) (by decide)
    (rfl : readEsids [] (tokensOf "-1".toList) = .ok [])
  refine ⟨⟨envir, cmd, hparse, hn⟩, ?_⟩
  rintro ⟨-, hbad⟩
  obtain ⟨err, -, herr⟩ := hbad fun hgood => absurd (hgood.2.2 "-1".toList (by decide)) (by decide)
  cases hparse.symm.trans herr

end SchedMon
