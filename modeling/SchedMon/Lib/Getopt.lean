import SchedMon.Lib.CString

/-!
# The argument vector behind `getopt`

GNU `getopt` permutes the argument vector while it scans it: the words that are options, or
arguments of options, come first, and the operands behind them, in their order. Words behind the
first operand are options as much as those before it.

## Main definitions

* `Operand` — a word that `getopt` passes over
* `OptionWords` — words that are options, each with its argument
* `permuted` — the argument vector when `getopt` is done

## Main results

* `getopt_append` — complete options do not depend on what follows them
* `operands_eq_self_iff` — all words are left as operands exactly if none looks like an option
-/

namespace SchedMon

namespace CString

variable {takesArg : Char → Option Bool} {c : Char} {cs word : CString} {opts words : List CString}

/-! ### Words -/

/-- A word that `getopt` passes over: it does not begin with `-`, or it is `-` alone. -/
def Operand (word : CString) : Prop := word.head? ≠ some '-' ∨ word = ['-']

instance : DecidablePred Operand := fun word =>
  inferInstanceAs (Decidable (word.head? ≠ some '-' ∨ word = ['-']))

theorem exists_of_not_operand (h : ¬ Operand word) : ∃ c cs, word = '-' :: c :: cs := by
  match word with
  | [] => exact absurd (.inl (by simp)) h
  | [d] =>
    by_cases hd : d = '-'
    · exact absurd (.inr (by rw [hd])) h
    · exact absurd (.inl (by simpa using hd)) h
  | d :: c :: cs =>
    by_cases hd : d = '-'
    · exact ⟨c, cs, by rw [hd]⟩
    · exact absurd (.inl (by simpa using hd)) h

theorem not_operand_dash : ¬ Operand ('-' :: c :: cs) := by
  rintro (h | h)
  · exact h rfl
  · cases h

/-- The options `getopt` finds in a word that begins with `-`. -/
theorem getopt_option (h : '-' :: c :: cs ≠ ['-', '-']) (words : List CString) :
    getopt takesArg (('-' :: c :: cs) :: words) =
      ((cluster takesArg (c :: cs) words).1 ++
          (getopt takesArg (cluster takesArg (c :: cs) words).2).1,
        (getopt takesArg (cluster takesArg (c :: cs) words).2).2) := by
  rw [getopt]
  simpa using h

theorem getopt_nil : getopt takesArg [] = ([], []) := by
  rw [getopt]

theorem getopt_dashes (words : List CString) :
    getopt takesArg (['-', '-'] :: words) = ([], words) := by
  rw [getopt]

/-- The same, when it is known what the word takes. -/
theorem getopt_word {here : List (Char × Option CString)} {left : List CString}
    (h : '-' :: c :: cs ≠ ['-', '-']) (hhere : cluster takesArg (c :: cs) words = (here, left)) :
    getopt takesArg (('-' :: c :: cs) :: words) =
      (here ++ (getopt takesArg left).1, (getopt takesArg left).2) := by
  rw [getopt_option h, hhere]

theorem getopt_operand (h : Operand word) (words : List CString) :
    getopt takesArg (word :: words) =
      ((getopt takesArg words).1, word :: (getopt takesArg words).2) := by
  have hdash : ∀ c cs, word ≠ '-' :: c :: cs := fun c cs heq => not_operand_dash (heq ▸ h)
  rw [getopt]
  · exact fun heq => hdash '-' [] heq
  · exact hdash

/-- Operands alone are left as they are. -/
theorem getopt_operands (h : ∀ word ∈ words, Operand word) :
    getopt takesArg words = ([], words) := by
  induction words with
  | nil => exact getopt_nil
  | cons word words ih =>
    rw [getopt_operand (h word List.mem_cons_self),
      ih fun word hword => h word (List.mem_cons_of_mem _ hword)]

/-! ### Complete options -/

/-- Words that are options that `takesArg` knows, each with its argument if it takes one. -/
inductive OptionWords (takesArg : Char → Option Bool) : List CString → Prop
  | nil : OptionWords takesArg []
  | cons {c : Char} {cs : CString} {words : List CString} (hend : '-' :: c :: cs ≠ ['-', '-'])
      (here : ∀ opt ∈ (cluster takesArg (c :: cs) words).1, opt.1 ≠ '?')
      (rest : OptionWords takesArg (cluster takesArg (c :: cs) words).2) :
      OptionWords takesArg (('-' :: c :: cs) :: words)

/-- An option that has its argument does not take one of the words behind. -/
theorem cluster_append (h : ∀ opt ∈ (cluster takesArg cs words).1, opt.1 ≠ '?')
    (more : List CString) : cluster takesArg cs (words ++ more) =
      ((cluster takesArg cs words).1, (cluster takesArg cs words).2 ++ more) := by
  induction cs with
  | nil => rfl
  | cons c cs ih =>
    unfold cluster at h ⊢
    cases htakes : takesArg c with
    | none =>
      rw [htakes] at h
      exact absurd rfl (h ('?', none) List.mem_cons_self)
    | some arg =>
      rw [htakes] at h
      cases arg with
      | true =>
        by_cases hcs : cs = []
        · subst hcs
          cases words with
          | nil => exact absurd rfl (h ('?', none) List.mem_cons_self)
          | cons word words => rfl
        · dsimp only
          rw [if_pos hcs, if_pos hcs]
      | false =>
        have hrest := ih fun opt hopt => h opt (List.mem_cons_of_mem _ hopt)
        dsimp only
        rw [hrest]

/-- **Complete options do not depend on what follows them.** -/
theorem getopt_append (h : OptionWords takesArg opts) (words : List CString) :
    getopt takesArg (opts ++ words) =
      ((getopt takesArg opts).1 ++ (getopt takesArg words).1, (getopt takesArg words).2) := by
  induction h with
  | nil =>
    rw [getopt_nil]
    rfl
  | cons hend here _ ih =>
    rw [List.cons_append, getopt_option hend, getopt_option hend, cluster_append here]
    dsimp only
    rw [ih, List.append_assoc]

/-! ### The operands -/

/-- Induction along the scan: over a word that is passed over, over `--`, and over the options of
a word with the arguments they take. -/
theorem scan_induction (takesArg : Char → Option Bool) {motive : List CString → Prop}
    (nil : motive [])
    (operand : ∀ word words, Operand word → motive words → motive (word :: words))
    (dashes : ∀ words, motive (['-', '-'] :: words))
    (option : ∀ c cs words, '-' :: c :: cs ≠ ['-', '-'] →
      motive (cluster takesArg (c :: cs) words).2 → motive (('-' :: c :: cs) :: words))
    (words : List CString) : motive words := by
  induction hn : words.length using Nat.strongRecOn generalizing words with
  | ind n ih =>
    subst hn
    cases words with
    | nil => exact nil
    | cons word words =>
      by_cases hop : Operand word
      · exact operand word words hop (ih _ (Nat.lt_succ_self _) words rfl)
      · obtain ⟨c, cs, rfl⟩ := exists_of_not_operand hop
        by_cases hend : '-' :: c :: cs = ['-', '-']
        · rw [hend]
          exact dashes words
        · exact option c cs words hend
            (ih _ (Nat.lt_succ_of_le (length_cluster takesArg (c :: cs) words)) _ rfl)

theorem length_operands_le (takesArg : Char → Option Bool) (words : List CString) :
    (getopt takesArg words).2.length ≤ words.length := by
  induction words using scan_induction takesArg with
  | nil => simp only [getopt_nil, Nat.le_refl]
  | operand word words hop ih =>
    rw [getopt_operand hop]
    exact Nat.succ_le_succ ih
  | dashes words =>
    rw [getopt_dashes]
    exact Nat.le_succ _
  | option c cs words hend ih =>
    rw [getopt_option hend]
    exact Nat.le_succ_of_le (Nat.le_trans ih (length_cluster takesArg (c :: cs) words))

/-- **All words are left as operands exactly if none looks like an option.** -/
theorem operands_eq_self_iff :
    (getopt takesArg words).2 = words ↔ ∀ word ∈ words, Operand word := by
  constructor
  · intro h
    induction words using scan_induction takesArg with
    | nil => simp
    | operand word words hop ih =>
      rw [getopt_operand hop] at h
      exact List.forall_mem_cons.mpr ⟨hop, ih (List.cons_injective h)⟩
    | dashes words =>
      -- the words behind `--` are fewer
      rw [getopt_dashes] at h
      exact absurd (congrArg List.length h) (Nat.ne_of_lt (Nat.lt_succ_self _))
    | option c cs words hend _ =>
      rw [getopt_option hend] at h
      have hle := length_operands_le takesArg (cluster takesArg (c :: cs) words).2
      have hlt := Nat.lt_succ_of_le (Nat.le_trans hle (length_cluster takesArg (c :: cs) words))
      exact absurd (congrArg List.length h) (Nat.ne_of_lt hlt)
  · intro h
    rw [getopt_operands h]

/-! ### The permuted vector -/

/-- The words that `getopt` moves to the front: options, their arguments, and `--`. -/
def consumed (takesArg : Char → Option Bool) : List CString → List CString
  | [] => []
  | ['-', '-'] :: _ => [['-', '-']]
  | ('-' :: c :: cs) :: words =>
    let left := (cluster takesArg (c :: cs) words).2
    ('-' :: c :: cs) :: words.take (words.length - left.length) ++ consumed takesArg left
  | _ :: words => consumed takesArg words
termination_by words => words.length
decreasing_by
  · exact Nat.lt_succ_of_le (length_cluster takesArg (c :: cs) words)
  · exact Nat.lt_succ_self _

/-- The words when `getopt` is done with them. -/
def permuted (takesArg : Char → Option Bool) (words : List CString) : List CString :=
  consumed takesArg words ++ (getopt takesArg words).2

/-- No word is lost. -/
theorem length_consumed (words : List CString) :
    (consumed takesArg words).length = words.length - (getopt takesArg words).2.length := by
  induction words using scan_induction takesArg with
  | nil =>
    rw [consumed]
    exact (Nat.zero_sub _).symm
  | operand word words hop ih =>
    have hdash : ∀ c cs, word ≠ '-' :: c :: cs := fun c cs heq => not_operand_dash (heq ▸ hop)
    rw [getopt_operand hop, consumed, ih]
    · exact (Nat.add_sub_add_right ..).symm
    · exact fun heq => hdash '-' [] heq
    · exact hdash
  | dashes words =>
    rw [getopt_dashes, consumed]
    exact (Nat.add_sub_cancel_left ..).symm
  | option c cs words hend ih =>
    have hcluster := length_cluster takesArg (c :: cs) words
    have hleft := length_operands_le takesArg (cluster takesArg (c :: cs) words).2
    rw [getopt_option hend, consumed]
    · rw [List.length_append, ih, List.length_cons, List.length_take, List.length_cons]
      dsimp only
      omega
    · simpa using hend

/-- The operands stand behind the other words. -/
theorem drop_permuted (words : List CString) :
    (permuted takesArg words).drop (words.length - (getopt takesArg words).2.length) =
      (getopt takesArg words).2 := by
  rw [← length_consumed words, permuted, List.drop_left]

end CString

end SchedMon
