import Mathlib.Algebra.Group.Nat.Defs
import Mathlib.Data.Int.Notation
import Mathlib.Data.List.Basic

/-!
# Command lines in C

The functions of the C library a command line is taken apart with: `strtoul` with base 0, `strtok`,
`getsubopt` and `getopt`. A string is the list of its characters, without the terminating zero.

`strtoul` works on an `unsigned long` of 64 bits: it saturates, and negates what follows a minus
sign. What the string *means* is `numeral`, a number without bounds. The two agree on small
numbers: `strtoul_of_numeral`.

## Main definitions

* `numeral`, `strtoul`
* `strtokAll` — what successive calls of `strtok` return
* `suboptions`, `getsubopt` — the parts of a sub-option string, and one of them taken apart
* `getopt` — the options and the operands of a command line

## Main results

* `strtoul_of_numeral` — a small numeral is converted to itself
-/

namespace SchedMon

/-- A C string. -/
abbrev CString := List Char

namespace CString

/-! ### Numbers -/

/-- `isspace`, in the C locale. -/
def isSpace (c : Char) : Bool :=
  c = ' ' || c = '\t' || c = '\n' || c = '\x0b' || c = '\x0c' || c = '\r'

/-- The value of a digit. -/
def digit (c : Char) : ℕ :=
  if '0' ≤ c ∧ c ≤ '9' then c.toNat - '0'.toNat
  else if 'a' ≤ c ∧ c ≤ 'z' then c.toNat - 'a'.toNat + 10
  else if 'A' ≤ c ∧ c ≤ 'Z' then c.toNat - 'A'.toNat + 10
  else 36

/-- The number that the digits at the front of a string make, behind those read so far. -/
def digits (base : ℕ) : ℕ → CString → ℕ
  | n, [] => n
  | n, c :: cs => if digit c < base then digits base (n * base + digit c) cs else n

/-- A number whose prefix tells its base. -/
def unsigned : CString → ℕ
  | '0' :: x :: c :: cs =>
    if (x = 'x' ∨ x = 'X') ∧ digit c < 16 then digits 16 0 (c :: cs)
    else digits 8 0 ('0' :: x :: c :: cs)
  | '0' :: cs => digits 8 0 ('0' :: cs)
  | cs => digits 10 0 cs

/-- Is there a minus sign, and the number behind the sign. -/
def signed (s : CString) : Bool × ℕ :=
  match s.dropWhile isSpace with
  | '-' :: cs => (true, unsigned cs)
  | '+' :: cs => (false, unsigned cs)
  | cs => (false, unsigned cs)

/-- The number a string begins with, or 0 if it begins with none. -/
def numeral (s : CString) : ℤ :=
  let (negative, n) := signed s
  if negative then -n else n

/-- `strtoul (s, 0, 0)`. -/
def strtoul (s : CString) : BitVec 64 :=
  let (negative, n) := signed s
  if 2 ^ 64 ≤ n then -1
  else if negative then -BitVec.ofNat 64 n
  else BitVec.ofNat 64 n

/-- A small number is converted to itself. -/
theorem strtoul_of_numeral {s : CString} {n : ℕ} (hn : n < 2 ^ 64) (h : numeral s = n) :
    strtoul s = BitVec.ofNat 64 n := by
  unfold numeral at h
  unfold strtoul
  generalize signed s = x at h ⊢
  obtain ⟨negative, m⟩ := x
  cases negative with
  | true =>
    have hm : m = 0 := by
      simp only [if_true] at h
      omega
    have hn0 : n = 0 := by
      simp only [if_true] at h
      omega
    subst hm hn0
    decide
  | false =>
    have hm : m = n := by
      simp only [Bool.false_eq_true, if_false] at h
      omega
    subst hm
    exact if_neg (Nat.not_le.mpr hn)

/-! ### Parts -/

/-- The strings that `strtok (s, d)` and then `strtok (NULL, d)` return. -/
def strtokAll (d : Char) (s : CString) : List CString := (s.splitOn d).filter (· ≠ [])

/-- The parts that `getsubopt` goes through until nothing is left. -/
def suboptions (s : CString) : List CString :=
  let parts := s.splitOn ','
  if parts.getLast? = some [] then parts.dropLast else parts

/-- One call of `getsubopt`: the index of the key, and the value behind `=`, if there is one. -/
def getsubopt (keys : List CString) (part : CString) : Option ℕ × Option CString :=
  let name := part.takeWhile (· ≠ '=')
  let value := match part.dropWhile (· ≠ '=') with
    | [] => none
    | _ :: value => some value
  (keys.findIdx? (· = name), value)

/-- The values given for the key with index `key`, in their order. -/
def values (keys : List CString) (key : ℕ) (parts : List CString) : List CString :=
  parts.filterMap fun part =>
    if (getsubopt keys part).1 = some key then (getsubopt keys part).2 else none

@[simp] theorem values_nil (keys : List CString) (key : ℕ) : values keys key [] = [] := rfl

theorem values_cons_self {keys : List CString} {key : ℕ} {part val : CString}
    (h : getsubopt keys part = (some key, some val)) (parts : List CString) :
    values keys key (part :: parts) = val :: values keys key parts := by
  simp [values, h]

theorem values_cons_ne {keys : List CString} {key key' : ℕ} {part val : CString}
    (h : getsubopt keys part = (some key', some val)) (hkey : key' ≠ key) (parts : List CString) :
    values keys key (part :: parts) = values keys key parts := by
  simp [values, h, hkey]

theorem values_append (keys : List CString) (key : ℕ) (parts parts' : List CString) :
    values keys key (parts ++ parts') = values keys key parts ++ values keys key parts' :=
  List.filterMap_append

/-- The order of the parts is the order of the values. -/
theorem values_perm {keys : List CString} {key : ℕ} {parts parts' : List CString}
    (h : parts.Perm parts') : (values keys key parts).Perm (values keys key parts') :=
  h.filterMap _

/-! ### Options -/

/-- The options in a word behind its `-`: what `getopt` returns for each, and the words that are
left. An option that takes an argument takes the rest of its word, or the next word. -/
def cluster (takesArg : Char → Option Bool) : CString → List CString →
    List (Char × Option CString) × List CString
  | [], words => ([], words)
  | c :: cs, words =>
    match takesArg c with
    | some true =>
      if cs ≠ [] then ([(c, some cs)], words)
      else match words with
        | [] => ([('?', none)], [])
        | word :: words => ([(c, some word)], words)
    | some false =>
      let (opts, words) := cluster takesArg cs words
      ((c, none) :: opts, words)
    | none =>
      let (opts, words) := cluster takesArg cs words
      (('?', none) :: opts, words)

/-- Words are used up. -/
theorem length_cluster (takesArg : Char → Option Bool) (cs : CString) (words : List CString) :
    (cluster takesArg cs words).2.length ≤ words.length := by
  induction cs with
  | nil => exact Nat.le_refl _
  | cons c cs ih =>
    unfold cluster
    split
    · split
      · exact Nat.le_refl _
      · split
        · exact Nat.le_refl _
        · exact Nat.le_succ _
    · exact ih
    · exact ih

/-- The options that successive calls of `getopt` return, with their arguments, and the operands
they leave. Options and operands may be mixed; `--` ends the options. -/
def getopt (takesArg : Char → Option Bool) : List CString →
    List (Char × Option CString) × List CString
  | [] => ([], [])
  | ['-', '-'] :: words => ([], words)
  | ('-' :: c :: cs) :: words =>
    let here := cluster takesArg (c :: cs) words
    let rest := getopt takesArg here.2
    (here.1 ++ rest.1, rest.2)
  | word :: words =>
    let rest := getopt takesArg words
    (rest.1, word :: rest.2)
termination_by words => words.length
decreasing_by
  · exact Nat.lt_succ_of_le (length_cluster takesArg (c :: cs) words)
  · exact Nat.lt_succ_self _

end CString

end SchedMon
