import Mathlib.Data.Int.Notation
import Mathlib.Data.List.Basic
import Mathlib.Data.List.Infix
import Mathlib.Data.List.TakeWhile
import SchedMon.Lib.CString

/-!
# Lines of words

Text as filters see it: lines that end with a newline, words between blanks, integers in decimal.
What is printed word by word, with a tab in front of each but the first, is found again word by word,
and an integer is found again as a number.

## Main definitions

* `decimal`, `number` — an integer as a word, and back
* `tabbed`, `words` — words as a line, and back
* `unlines`, `lines` — lines as a text, and back
* `grep` — the lines that contain a word

## Main results

* `number_decimal`, `words_tabbed`, `lines_unlines` — **each is undone**
* `infix_tabbed` — where a word of letters is found in a line
-/

namespace SchedMon

namespace CString

/-! ### Integers -/

/-- An integer in decimal. -/
def decimal : ℤ → CString
  | .ofNat n => Nat.toDigits 10 n
  | .negSucc n => '-' :: Nat.toDigits 10 (n + 1)

/-- The integer that a word begins with, in decimal. -/
def number : CString → ℤ
  | '-' :: cs => -(Nat.ofDigitChars 10 (cs.takeWhile Char.isDigit) 0 : ℤ)
  | cs => (Nat.ofDigitChars 10 (cs.takeWhile Char.isDigit) 0 : ℤ)

/-- The characters of an integer. -/
def IsNumeric (c : Char) : Prop := c = '-' ∨ c.isDigit

instance : DecidablePred IsNumeric := fun c => inferInstanceAs (Decidable (c = '-' ∨ c.isDigit))

theorem takeWhile_toDigits (n : ℕ) : (Nat.toDigits 10 n).takeWhile Char.isDigit = Nat.toDigits 10 n :=
  List.takeWhile_eq_self_iff.mpr fun _ hc =>
    Nat.isDigit_of_mem_toDigits (by decide) (Nat.le_refl _) hc

/-- Numbers do not begin with a minus sign. -/
theorem number_toDigits (n : ℕ) : number (Nat.toDigits 10 n) = n := by
  have hvalue : Nat.ofDigitChars 10 ((Nat.toDigits 10 n).takeWhile Char.isDigit) 0 = n := by
    rw [takeWhile_toDigits, Nat.ofDigitChars_ten_toDigits]
  have hdigit : ∀ c ∈ Nat.toDigits 10 n, c ≠ '-' := by
    rintro c hc rfl
    have hminus := Nat.isDigit_of_mem_toDigits (b := 10) (by decide) (Nat.le_refl _) hc
    exact absurd hminus (by decide)
  unfold number
  split
  · rename_i cs heq
    exact absurd rfl (hdigit '-' (by rw [heq]; exact List.mem_cons_self))
  · exact congrArg Int.ofNat hvalue

/-- **An integer is found again.** -/
theorem number_decimal (z : ℤ) : number (decimal z) = z := by
  cases z with
  | ofNat n => exact number_toDigits n
  | negSucc n =>
    rw [decimal, number, takeWhile_toDigits, Nat.ofDigitChars_ten_toDigits, Int.negSucc_eq,
      Int.natCast_add_one]

theorem isNumeric_decimal {z : ℤ} {c : Char} (h : c ∈ decimal z) : IsNumeric c := by
  cases z with
  | ofNat n => exact .inr (Nat.isDigit_of_mem_toDigits (by decide) (Nat.le_refl _) h)
  | negSucc n =>
    rcases List.mem_cons.mp h with rfl | h
    · exact .inl rfl
    · exact .inr (Nat.isDigit_of_mem_toDigits (by decide) (Nat.le_refl _) h)

theorem decimal_ne_nil (z : ℤ) : decimal z ≠ [] := by
  cases z with
  | ofNat n => exact Nat.toDigits_ne_nil
  | negSucc n => simp [decimal]

theorem IsNumeric.ne {c d : Char} (h : IsNumeric c) (hd : ¬IsNumeric d) : c ≠ d := by
  rintro rfl
  exact hd h

/-! ### Words -/

/-- Blanks between words. -/
def isBlank (c : Char) : Bool := c = ' ' || c = '\t'

/-- A word and more words, each behind a tab. -/
def tabbed (word : CString) (more : List CString) : CString :=
  word ++ more.flatMap fun w => '\t' :: w

/-- The words of a line. -/
def words (line : CString) : List CString := (line.splitOnP isBlank).filter (· ≠ [])

/-- **Words are found again.** -/
theorem words_tabbed {word : CString} {more : List CString}
    (h : ∀ w ∈ word :: more, w ≠ [] ∧ ∀ c ∈ w, isBlank c = false) :
    words (tabbed word more) = word :: more := by
  induction more generalizing word with
  | nil =>
    obtain ⟨hne, hblank⟩ := h word List.mem_cons_self
    rw [tabbed, List.flatMap_nil, List.append_nil, words, List.splitOnP_eq_singleton hblank]
    simp [hne]
  | cons w more ih =>
    obtain ⟨hne, hblank⟩ := h word List.mem_cons_self
    have hrest := ih fun x hx => h x (List.mem_cons_of_mem _ hx)
    have hline : tabbed word (w :: more) = word ++ '\t' :: tabbed w more := by
      simp [tabbed]
    rw [hline, words, List.splitOnP_append_cons_of_forall_mem hblank '\t' (by decide),
      List.filter_cons_of_pos (by simpa using hne)]
    exact congrArg (word :: ·) hrest

/-! ### Lines -/

/-- Lines, each with a newline behind it. -/
def unlines (ls : List CString) : CString := ls.flatMap fun l => l ++ ['\n']

/-- The lines of a text. What stands behind the last newline is a line if there is anything. -/
def lines (text : CString) : List CString :=
  let parts := text.splitOn '\n'
  if parts.getLast? = some [] then parts.dropLast else parts

theorem splitOn_unlines {ls : List CString} (h : ∀ l ∈ ls, '\n' ∉ l) :
    (unlines ls).splitOn '\n' = ls ++ [[]] := by
  induction ls with
  | nil => rfl
  | cons l ls ih =>
    have hl : ∀ c ∈ l, (c == '\n') = false := by
      intro c hc
      rw [beq_eq_false_iff_ne]
      rintro rfl
      exact h l List.mem_cons_self hc
    have htext : unlines (l :: ls) = l ++ '\n' :: unlines ls := by
      simp [unlines]
    have hrest := ih fun l' hl' => h l' (List.mem_cons_of_mem _ hl')
    rw [List.splitOn_eq_splitOnP] at hrest ⊢
    rw [htext, List.splitOnP_append_cons_of_forall_mem hl '\n' (by decide), hrest, List.cons_append]

/-- **Lines are found again.** -/
theorem lines_unlines {ls : List CString} (h : ∀ l ∈ ls, '\n' ∉ l) : lines (unlines ls) = ls := by
  have hlast : (ls ++ [([] : CString)]).getLast? = some [] := List.getLast?_concat
  rw [lines, splitOn_unlines h, if_pos hlast, List.dropLast_concat]

/-! ### Searching -/

/-- The lines that contain a word. -/
def grep (word : CString) (ls : List CString) : List CString := ls.filter fun l => word <:+: l

/-- In a line of one word and integers, what has no character of an integer and no tab is found in
that word. -/
theorem infix_tabbed {word pat : CString} {more : List CString} (hne : pat ≠ [])
    (hpat : ∀ c ∈ pat, c ≠ '\t' ∧ ¬IsNumeric c) (hmore : ∀ w ∈ more, ∀ c ∈ w, IsNumeric c) :
    pat <:+: tabbed word more ↔ pat <:+: word := by
  have hrest : ∀ c ∈ more.flatMap fun w => '\t' :: w, c ∉ pat := by
    intro c hc hmem
    obtain ⟨w, hw, hcw⟩ := List.mem_flatMap.mp hc
    rcases List.mem_cons.mp hcw with rfl | hcw
    · exact (hpat _ hmem).1 rfl
    · exact (hpat _ hmem).2 (hmore w hw c hcw)
  constructor
  · intro h
    rw [tabbed, List.infix_append_iff_ne_nil] at h
    rcases h with h | h | ⟨l₁, l₂, -, hl₂, rfl, -, hfront⟩
    · exact h
    · obtain ⟨c, hc⟩ := List.exists_mem_of_ne_nil _ hne
      exact absurd hc (hrest c (h.subset hc))
    · obtain ⟨c, hc⟩ := List.exists_mem_of_ne_nil _ hl₂
      exact absurd (List.mem_append_right _ hc) (hrest c (hfront.subset hc))
  · exact List.infix_append_of_infix_left

end CString

end SchedMon
