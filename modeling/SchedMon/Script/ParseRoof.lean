import Mathlib.Algebra.Order.Field.Rat
import Mathlib.Algebra.Order.BigOperators.Group.List
import Mathlib.Data.Finset.Disjoint
import Mathlib.Tactic.Linarith
import Mathlib.Tactic.NormNum
import Mathlib.Tactic.Ring
import SchedMon.Lib.Tracked

/-!
# Pairing samples for a roofline

`scripts/parse_roof.sh`: the first `awk` program goes through the PMC lines of a profile that was
taken with two event sets. A line of set 0 fills its variables; a line of set 1 scales them to the
duration of both, in place, and prints a row. The variables know nothing of PIDs, so a row is made of
whatever sample of set 0 was last, and scales it again for every further line of set 1.

A division by zero, such as for a line of set 1 that comes first, stops `awk`.

The program is written for any type of numbers. Run on rational numbers it gives the rows, run on
numbers that remember their lines it tells what each row is made of.

## Main definitions

* `scaleCounts` — the program, for one line
* `Combines` — a row is made of a sample and the next one of the same PID
* `Pairing` — every row is, and no sample is in two

## Main results

* `pairing_iff_adjacent` — **when the rows are sound**
* `not_pairing_crossed` — the lines of two PIDs that cross
-/

namespace SchedMon

namespace ParseRoof

/-! ### The program -/

section Program

variable {K : Type*}

/-- A PMC line as the program sees it: fields 2, 4, 5, 6 and 10 to 13. -/
structure PmcLine (K : Type*) where
  start : K
  dur : K
  pid : ℤ
  evset : ℤ
  c10 : K
  c11 : K
  c12 : K
  c13 : K

/-- The variables that are read before they are written. -/
structure Vars (K : Type*) where
  tscStart : K
  tscDur : K
  ld : K
  st : K
  sclS : K
  sclD : K

/-- A row: `TSC DUR LD ST SCL_S SCL_D SSE_S SSE_D AVX_S AVX_D`. -/
structure Row (K : Type*) where
  tscStartSec : K
  tscDurTotalSec : K
  ld : K
  st : K
  sclS : K
  sclD : K
  sseS : K
  sseD : K
  avxS : K
  avxD : K

/-- Variables that have not been assigned count as zero. -/
def Vars.unassigned [Zero K] : Vars K := ⟨0, 0, 0, 0, 0, 0⟩

variable [Add K] [Sub K] [Mul K] [Div K] [One K] [ZeroTest K]

/-- The program for one line: the variables, and the row it prints, if any. It stops if it would divide
by zero. -/
def scaleCounts (timeOffset tscFreq : K) (v : Vars K) (line : PmcLine K) :
    Option (Vars K × Option (Row K)) :=
  if line.evset = 0 then
    some (⟨line.start - timeOffset, line.dur, line.c10, line.c11, line.c12, line.c13⟩, none)
  else if line.evset = 1 then
    let tscDur1 := line.dur
    let tscDurTotal := v.tscDur + tscDur1
    if isZero v.tscDur || isZero tscDur1 || isZero tscFreq then none
    else
      let v := { v with
        ld := v.ld * tscDurTotal * 1 / v.tscDur
        st := v.st * tscDurTotal * 1 / v.tscDur
        sclS := v.sclS * tscDurTotal * 1 / v.tscDur
        sclD := v.sclD * tscDurTotal * 1 / v.tscDur }
      some (v, some {
        tscStartSec := v.tscStart * 1 / tscFreq
        tscDurTotalSec := tscDurTotal / tscFreq
        ld := v.ld
        st := v.st
        sclS := v.sclS
        sclD := v.sclD
        sseS := line.c10 * tscDurTotal * 1 / tscDur1
        sseD := line.c11 * tscDurTotal * 1 / tscDur1
        avxS := line.c12 * tscDurTotal * 1 / tscDur1
        avxD := line.c13 * tscDurTotal * 1 / tscDur1 })
  else some (v, none)

/-- The rows the program prints until it is done or stops. -/
def rowsFrom (timeOffset tscFreq : K) (v : Vars K) : List (PmcLine K) → List (Row K)
  | [] => []
  | line :: lines =>
    match scaleCounts timeOffset tscFreq v line with
    | none => []
    | some (v, row) => row.toList ++ rowsFrom timeOffset tscFreq v lines

/-- The rows of a whole file. -/
def rows [Zero K] (timeOffset tscFreq : K) (lines : List (PmcLine K)) : List (Row K) :=
  rowsFrom timeOffset tscFreq .unassigned lines

end Program

/-! ### Where numbers come from -/

instance : ZeroTest ℚ := ⟨fun x => x = 0⟩

@[simp] theorem isZero_eq (x : ℚ) : isZero x = decide (x = 0) := rfl

/-- Doing the same to all numbers of a line. -/
def PmcLine.map {K L : Type*} (f : K → L) (line : PmcLine K) : PmcLine L :=
  ⟨f line.start, f line.dur, line.pid, line.evset, f line.c10, f line.c11, f line.c12, f line.c13⟩

/-- The numbers of the lines, each with the position of its line. -/
def tagged : ℕ → List (PmcLine ℚ) → List (PmcLine (Tracked ℕ ℚ))
  | _, [] => []
  | n, line :: lines => line.map (Tracked.of n) :: tagged (n + 1) lines

/-- The rows, and what they are made of. -/
def trackedRows (timeOffset tscFreq : ℚ) (lines : List (PmcLine ℚ)) : List (Row (Tracked ℕ ℚ)) :=
  rows (.const timeOffset) (.const tscFreq) (tagged 0 lines)

/-- The numbers without their sources. -/
def Row.val (row : Row (Tracked ℕ ℚ)) : Row ℚ :=
  ⟨row.tscStartSec.val, row.tscDurTotalSec.val, row.ld.val, row.st.val, row.sclS.val, row.sclD.val,
    row.sseS.val, row.sseD.val, row.avxS.val, row.avxD.val⟩

/-- The lines that anything in a row was computed from. -/
def Row.sources (row : Row (Tracked ℕ ℚ)) : Finset ℕ :=
  row.tscStartSec.sources ∪ row.tscDurTotalSec.sources ∪ row.ld.sources ∪ row.st.sources ∪
    row.sclS.sources ∪ row.sclD.sources ∪ row.sseS.sources ∪ row.sseD.sources ∪ row.avxS.sources ∪
    row.avxD.sources

/-- Variables without their sources. -/
def Vars.val (v : Vars (Tracked ℕ ℚ)) : Vars ℚ :=
  ⟨v.tscStart.val, v.tscDur.val, v.ld.val, v.st.val, v.sclS.val, v.sclD.val⟩

section Values

variable {lines : List (PmcLine ℚ)}

/-- Keeping track changes no number. -/
theorem scaleCounts_val (timeOffset tscFreq : ℚ) (v : Vars (Tracked ℕ ℚ)) (line : PmcLine ℚ)
    (n : ℕ) :
    (scaleCounts (.const timeOffset) (.const tscFreq) v (line.map (Tracked.of n))).map
        (Prod.map Vars.val (Option.map Row.val)) = scaleCounts timeOffset tscFreq v.val line := by
  have hevset : (line.map (Tracked.of n)).evset = line.evset := rfl
  have hzero : (isZero v.tscDur || isZero (line.map (Tracked.of n)).dur ||
      isZero (Tracked.const tscFreq : Tracked ℕ ℚ)) =
      (isZero v.val.tscDur || isZero line.dur || isZero tscFreq) := rfl
  unfold scaleCounts
  dsimp only
  rw [hevset, hzero]
  split
  · rfl
  split
  · split
    · rfl
    · rfl
  · rfl

theorem rowsFrom_val (timeOffset tscFreq : ℚ) (v : Vars (Tracked ℕ ℚ)) (n : ℕ) :
    (rowsFrom (.const timeOffset) (.const tscFreq) v (tagged n lines)).map Row.val =
      rowsFrom timeOffset tscFreq v.val lines := by
  induction lines generalizing n v with
  | nil => rfl
  | cons line lines ih =>
    simp only [tagged, rowsFrom, ← scaleCounts_val timeOffset tscFreq v line n]
    cases scaleCounts (.const timeOffset) (.const tscFreq) v (line.map (Tracked.of n)) with
    | none => rfl
    | some x =>
      obtain ⟨v', row⟩ := x
      simp only [Option.map_some, Prod.map_apply, List.map_append, ih]
      cases row <;> rfl

/-- **The values of the tracked rows** are the rows that the program prints. -/
theorem trackedRows_val (timeOffset tscFreq : ℚ) (lines : List (PmcLine ℚ)) :
    (trackedRows timeOffset tscFreq lines).map Row.val = rows timeOffset tscFreq lines :=
  rowsFrom_val timeOffset tscFreq .unassigned 0

end Values

/-! ### Sound rows -/

/-- The lines of each PID alternate between the two event sets, beginning with set 0, and every
sample lasts. -/
structure Interleaved (lines : List (PmcLine ℚ)) : Prop where
  alternate : ∀ (pid : ℤ) (k : ℕ) (line : PmcLine ℚ),
    (lines.filter fun line => line.pid = pid)[k]? = some line → line.evset = k % 2
  positive : ∀ line ∈ lines, 0 < line.dur

/-- Line `i` is a sample of set 0, line `j` the next sample of set 1 of the same PID. -/
structure Pairs (lines : List (PmcLine ℚ)) (i j : ℕ) (a b : PmcLine ℚ) : Prop where
  first : lines[i]? = some a
  second : lines[j]? = some b
  lt : i < j
  firstSet : a.evset = 0
  secondSet : b.evset = 1
  pid : a.pid = b.pid
  next : ∀ (k : ℕ) (c : PmcLine ℚ), i < k → k < j → lines[k]? = some c → c.pid = a.pid →
    c.evset ≠ 1

/-- A count of a sample of duration `d`, scaled to the duration of both samples. -/
def scaled (a b : PmcLine ℚ) (c d : ℚ) : ℚ := c * (a.dur + b.dur) / d

/-- The row is computed from lines `i` and `j`, which belong together, and each of its counts is
scaled once. -/
structure Combines (timeOffset tscFreq : ℚ) (lines : List (PmcLine ℚ)) (i j : ℕ)
    (a b : PmcLine ℚ) (row : Row (Tracked ℕ ℚ)) : Prop where
  pairs : Pairs lines i j a b
  start : row.tscStartSec = ⟨(a.start - timeOffset) / tscFreq, {i}⟩
  dur : row.tscDurTotalSec = ⟨(a.dur + b.dur) / tscFreq, {i, j}⟩
  ld : row.ld = ⟨scaled a b a.c10 a.dur, {i, j}⟩
  st : row.st = ⟨scaled a b a.c11 a.dur, {i, j}⟩
  sclS : row.sclS = ⟨scaled a b a.c12 a.dur, {i, j}⟩
  sclD : row.sclD = ⟨scaled a b a.c13 a.dur, {i, j}⟩
  sseS : row.sseS = ⟨scaled a b b.c10 b.dur, {i, j}⟩
  sseD : row.sseD = ⟨scaled a b b.c11 b.dur, {i, j}⟩
  avxS : row.avxS = ⟨scaled a b b.c12 b.dur, {i, j}⟩
  avxD : row.avxD = ⟨scaled a b b.c13 b.dur, {i, j}⟩

/-- Every row combines two samples that belong together, no sample is in two rows, and so the rows
do not last longer than the samples. -/
structure Pairing (timeOffset tscFreq : ℚ) (lines : List (PmcLine ℚ)) : Prop where
  combines : ∀ row ∈ trackedRows timeOffset tscFreq lines, ∃ i j a b,
    Combines timeOffset tscFreq lines i j a b row
  once : (trackedRows timeOffset tscFreq lines).Pairwise fun row row' =>
    Disjoint row.sources row'.sources
  duration : ((rows timeOffset tscFreq lines).map Row.tscDurTotalSec).sum ≤
    (lines.map PmcLine.dur).sum / tscFreq

/-- Every line of set 1 comes directly after the line of set 0 of its own PID. -/
def Adjacent (lines : List (PmcLine ℚ)) : Prop :=
  ∀ (j : ℕ) (b : PmcLine ℚ), lines[j]? = some b → b.evset = 1 →
    ∃ i a, j = i + 1 ∧ lines[i]? = some a ∧ a.evset = 0 ∧ a.pid = b.pid

/-! ### One line -/

section Lines

variable {timeOffset tscFreq : ℚ} {all lines : List (PmcLine ℚ)} {line a b : PmcLine ℚ} {m n : ℕ}
  {h : ℚ} {v : Vars (Tracked ℕ ℚ)}

/-- The variables after a line of set 0. -/
def Vars.load (timeOffset : ℚ) (n : ℕ) (a : PmcLine ℚ) : Vars (Tracked ℕ ℚ) :=
  ⟨.of n a.start - .const timeOffset, .of n a.dur, .of n a.c10, .of n a.c11, .of n a.c12,
    .of n a.c13⟩

/-- What the variables hold when the first `n` lines are done: nothing, or the sample of the last
line, or something the last line has scaled. From line `m` on there is nothing of a finished row, and
`h` is the duration of a sample that waits for its partner. -/
inductive Holding (timeOffset : ℚ) (all : List (PmcLine ℚ)) :
    ℕ → ℕ → ℚ → Vars (Tracked ℕ ℚ) → Prop
  | nothing : Holding timeOffset all 0 0 0 .unassigned
  | first {n : ℕ} {a : PmcLine ℚ} (ha : all[n]? = some a) (hset : a.evset = 0) :
      Holding timeOffset all n (n + 1) a.dur (.load timeOffset n a)
  | second {n : ℕ} {b : PmcLine ℚ} {v : Vars (Tracked ℕ ℚ)} (hb : all[n]? = some b)
      (hset : b.evset = 1) (hld : n ∈ v.ld.sources) (hdur : 0 < v.tscDur.val) :
      Holding timeOffset all (n + 1) (n + 1) 0 v

theorem scaleCounts_first (timeOffset tscFreq : ℚ) (v : Vars (Tracked ℕ ℚ)) (n : ℕ)
    (hset : a.evset = 0) :
    scaleCounts (.const timeOffset) (.const tscFreq) v (a.map (Tracked.of n)) =
      some (.load timeOffset n a, none) := if_pos hset

theorem evset_map_ne_zero (n : ℕ) (hset : b.evset = 1) : (b.map (Tracked.of n)).evset ≠ 0 := by
  change b.evset ≠ 0
  rw [hset]
  decide

/-- A line of set 1 prints a row, unless that takes a division by zero. -/
theorem exists_scaleCounts_second (v : Vars (Tracked ℕ ℚ)) (n : ℕ) (hset : b.evset = 1)
    (hv : v.tscDur.val ≠ 0) (hb : b.dur ≠ 0) (hfreq : tscFreq ≠ 0) : ∃ v' row,
    scaleCounts (.const timeOffset) (.const tscFreq) v (b.map (Tracked.of n)) =
      some (v', some row) := by
  have hne := evset_map_ne_zero n hset
  have hdivides : ¬ (isZero v.tscDur || isZero (b.map (Tracked.of n)).dur ||
      isZero (Tracked.const tscFreq : Tracked ℕ ℚ)) = true := by
    change ¬ (decide (v.tscDur.val = 0) || decide (b.dur = 0) || decide (tscFreq = 0)) = true
    simp [hv, hb, hfreq]
  exact ⟨_, _, (if_neg hne).trans ((if_pos hset).trans (if_neg hdivides))⟩

/-- The row depends on the line, and the variables are scaled. -/
theorem scaleCounts_second (hset : b.evset = 1) {v' : Vars (Tracked ℕ ℚ)} {row : Row (Tracked ℕ ℚ)}
    (h : scaleCounts (.const timeOffset) (.const tscFreq) v (b.map (Tracked.of n)) =
      some (v', some row)) :
    v'.ld = row.ld ∧ n ∈ row.ld.sources ∧ v.ld.sources ⊆ row.ld.sources ∧
      v'.tscDur = v.tscDur := by
  have hne := evset_map_ne_zero n hset
  have hone : (b.map (Tracked.of n)).evset = 1 := hset
  rw [scaleCounts, if_neg hne, if_pos hone] at h
  dsimp only at h
  split at h
  · cases h
  · cases h
    refine ⟨rfl, ?_, ?_, rfl⟩
    · simp [PmcLine.map]
    · intro k hk
      simp [hk]

/-- Directly after a line of set 0, the row combines the two lines, if they are of one PID. -/
theorem combines_of_first (ha : all[n]? = some a) (hset : a.evset = 0) (hb : all[n + 1]? = some b)
    (hset' : b.evset = 1) (hpid : a.pid = b.pid) {v' : Vars (Tracked ℕ ℚ)}
    {row : Row (Tracked ℕ ℚ)}
    (h : scaleCounts (.const timeOffset) (.const tscFreq) (.load timeOffset n a)
      (b.map (Tracked.of (n + 1))) = some (v', some row)) :
    Combines timeOffset tscFreq all n (n + 1) a b row := by
  have hne := evset_map_ne_zero (n + 1) hset'
  have hone : (b.map (Tracked.of (n + 1))).evset = 1 := hset'
  rw [scaleCounts, if_neg hne, if_pos hone] at h
  dsimp only at h
  have hpairs : Pairs all n (n + 1) a b :=
    ⟨ha, hb, Nat.lt_succ_self n, hset, hset', hpid, fun k _ hlt hlt' => by omega⟩
  split at h
  · cases h
  cases h
  refine ⟨hpairs, ?_, ?_, ?_, ?_, ?_, ?_, ?_, ?_, ?_, ?_⟩
  all_goals
    ext
    · simp [Vars.load, PmcLine.map, scaled]
    · simp [Vars.load, PmcLine.map] <;> tauto

/-- A row for the line after `n` lines combines two samples exactly if the last line was the sample of
set 0 of its own PID. -/
theorem combines_iff (hv : Holding timeOffset all m n h v) (hb : all[n]? = some b)
    (hset : b.evset = 1) {v' : Vars (Tracked ℕ ℚ)} {row : Row (Tracked ℕ ℚ)}
    (hrow : scaleCounts (.const timeOffset) (.const tscFreq) v (b.map (Tracked.of n)) =
      some (v', some row)) :
    (∃ i j a b', Combines timeOffset tscFreq all i j a b' row) ↔
      ∃ i a, n = i + 1 ∧ all[i]? = some a ∧ a.evset = 0 ∧ a.pid = b.pid := by
  obtain ⟨-, hself, hold, -⟩ := scaleCounts_second hset hrow
  -- a line of set 1 among the sources is the second of the two
  have hsecond : ∀ {i j a b' k c}, Combines timeOffset tscFreq all i j a b' row →
      k ∈ row.ld.sources → all[k]? = some c → c.evset = 1 → k = j := by
    intro i j a b' k c hc hk hline hone
    rw [hc.ld, Finset.mem_insert, Finset.mem_singleton] at hk
    rcases hk with rfl | hk
    · obtain rfl := Option.some_inj.mp (hline.symm.trans hc.pairs.first)
      exact absurd (hone.symm.trans hc.pairs.firstSet) (by decide)
    · exact hk
  cases hv with
  | nothing =>
    refine iff_of_false ?_ ?_
    · rintro ⟨i, j, a, b', hc⟩
      obtain rfl := hsecond hc hself hb hset
      exact absurd hc.pairs.lt (Nat.not_lt_zero i)
    · rintro ⟨i, a, hi, -⟩
      omega
  | @first _ a ha hzero =>
    constructor
    · rintro ⟨i, j, a', b', hc⟩
      obtain rfl := hsecond hc hself hb hset
      obtain rfl := Option.some_inj.mp (hb.symm.trans hc.pairs.second)
      -- the other line is the last one, whose count was there before
      have hm : m ∈ row.ld.sources := hold (by simp [Vars.load])
      rw [hc.ld, Finset.mem_insert, Finset.mem_singleton] at hm
      obtain rfl : m = i := by omega
      obtain rfl := Option.some_inj.mp (ha.symm.trans hc.pairs.first)
      exact ⟨m, a, rfl, ha, hzero, hc.pairs.pid⟩
    · rintro ⟨i, a', hi, ha', -, hpid⟩
      obtain rfl : m = i := Nat.succ.inj hi
      obtain rfl := Option.some_inj.mp (ha.symm.trans ha')
      exact ⟨m, m + 1, a, b, combines_of_first ha hzero hb hset hpid hrow⟩
  | @second n b₀ v hb₀ hone hld hdur =>
    refine iff_of_false ?_ ?_
    · rintro ⟨i, j, a, b', hc⟩
      have h₁ := hsecond hc hself hb hset
      have h₂ := hsecond hc (hold hld) hb₀ hone
      omega
    · rintro ⟨i, a, hi, ha, hzero, -⟩
      obtain rfl : n = i := Nat.succ.inj hi
      obtain rfl := Option.some_inj.mp (ha.symm.trans hb₀)
      exact absurd (hone.symm.trans hzero) (by decide)

end Lines

/-! ### Whole files -/

section Files

variable {timeOffset tscFreq : ℚ} {all lines : List (PmcLine ℚ)} {line a b : PmcLine ℚ} {m n : ℕ}
  {h : ℚ} {v : Vars (Tracked ℕ ℚ)}

theorem drop_eq_cons (hdrop : all.drop n = line :: lines) :
    all[n]? = some line ∧ all.drop (n + 1) = lines := by
  constructor
  · have hhead := congrArg List.head? hdrop
    rwa [List.head?_drop] at hhead
  · rw [← List.drop_drop, hdrop]
    rfl

/-- Line `j` directly follows the sample of set 0 of its own PID. -/
def Follows (all : List (PmcLine ℚ)) (j : ℕ) (b : PmcLine ℚ) : Prop :=
  ∃ i a, j = i + 1 ∧ all[i]? = some a ∧ a.evset = 0 ∧ a.pid = b.pid

/-- Before a line that follows its partner, the variables hold the partner. -/
theorem Holding.of_follows (hv : Holding timeOffset all m n h v) (hb : Follows all n b) : ∃ a,
    n = m + 1 ∧ all[m]? = some a ∧ a.evset = 0 ∧ a.pid = b.pid ∧ h = a.dur ∧
      v = .load timeOffset m a := by
  obtain ⟨i, a, hi, ha, hzero, hpid⟩ := hb
  cases hv with
  | nothing => omega
  | @first _ a' ha' hzero' =>
    obtain rfl : m = i := Nat.succ.inj hi
    obtain rfl := Option.some_inj.mp (ha'.symm.trans ha)
    exact ⟨a', rfl, ha', hzero', hpid, rfl, rfl⟩
  | @second n b₀ v hb₀ hone hld hdur =>
    obtain rfl : n = i := Nat.succ.inj hi
    obtain rfl := Option.some_inj.mp (ha.symm.trans hb₀)
    exact absurd (hone.symm.trans hzero) (by decide)

/-- What of an interleaving does not depend on the PIDs. -/
structure Proper (lines : List (PmcLine ℚ)) : Prop where
  evset : ∀ line ∈ lines, line.evset = 0 ∨ line.evset = 1
  positive : ∀ line ∈ lines, 0 < line.dur
  first : ∀ line, lines[0]? = some line → line.evset = 0

/-- When a line of set 1 comes, the variables hold a duration. -/
theorem Holding.tscDur_pos (hv : Holding timeOffset all m n h v) (hlines : Proper all)
    (hline : all[n]? = some line) (hone : line.evset = 1) : 0 < v.tscDur.val := by
  cases hv with
  | nothing => exact absurd (hone.symm.trans (hlines.first line hline)) (by decide)
  | first ha _ => exact hlines.positive _ (List.mem_of_getElem? ha)
  | second _ _ _ hdur => exact hdur

/-- So that line prints a row. -/
theorem Holding.exists_row (hv : Holding timeOffset all m n h v) (hlines : Proper all)
    (hfreq : 0 < tscFreq) (hline : all[n]? = some line) (hone : line.evset = 1) : ∃ v' row,
    scaleCounts (.const timeOffset) (.const tscFreq) v (line.map (Tracked.of n)) =
      some (v', some row) :=
  exists_scaleCounts_second v n hone (hv.tscDur_pos hlines hline hone).ne'
    (hlines.positive line (List.mem_of_getElem? hline)).ne' hfreq.ne'

/-- The variables behind it. -/
theorem Holding.next (hv : Holding timeOffset all m n h v) (hlines : Proper all)
    (hline : all[n]? = some line) (hone : line.evset = 1) {v' : Vars (Tracked ℕ ℚ)}
    {row : Row (Tracked ℕ ℚ)}
    (hstep : scaleCounts (.const timeOffset) (.const tscFreq) v (line.map (Tracked.of n)) =
      some (v', some row)) : Holding timeOffset all (n + 1) (n + 1) 0 v' := by
  obtain ⟨hld, hself, -, hdur⟩ := scaleCounts_second hone hstep
  exact .second hline hone (hld ▸ hself) (hdur ▸ hv.tscDur_pos hlines hline hone)

/-- **Every row combines two samples** exactly if every line of set 1 follows its partner. -/
theorem forall_combines_iff (hfreq : 0 < tscFreq) (hlines : Proper all)
    (hv : Holding timeOffset all m n h v) (hdrop : all.drop n = lines) :
    (∀ row ∈ rowsFrom (.const timeOffset) (.const tscFreq) v (tagged n lines), ∃ i j a b,
        Combines timeOffset tscFreq all i j a b row) ↔
      ∀ j b, n ≤ j → all[j]? = some b → b.evset = 1 → Follows all j b := by
  induction lines generalizing m n h v with
  | nil =>
    refine iff_of_true (fun row hrow => absurd hrow List.not_mem_nil) fun j b hj hb _ => ?_
    have hlen : all.length ≤ j := Nat.le_trans (List.drop_eq_nil_iff.mp hdrop) hj
    rw [List.getElem?_eq_none hlen] at hb
    cases hb
  | cons line lines ih =>
    obtain ⟨hline, hrest⟩ := drop_eq_cons hdrop
    have hsplit : ∀ P : ℕ → PmcLine ℚ → Prop, (∀ j b, n ≤ j → all[j]? = some b → P j b) ↔
        P n line ∧ ∀ j b, n + 1 ≤ j → all[j]? = some b → P j b := by
      intro P
      constructor
      · exact fun hall => ⟨hall n line (Nat.le_refl n) hline,
          fun j b hj => hall j b (Nat.le_of_succ_le hj)⟩
      · rintro ⟨hn, hall⟩ j b hj hb
        rcases Nat.eq_or_lt_of_le hj with rfl | hj
        · obtain rfl := Option.some_inj.mp (hline.symm.trans hb)
          exact hn
        · exact hall j b hj hb
    rw [hsplit fun j b => b.evset = 1 → Follows all j b]
    rcases hlines.evset line (List.mem_of_getElem? hline) with hzero | hone
    · have hstep := scaleCounts_first timeOffset tscFreq v n hzero
      simp only [tagged, rowsFrom, hstep, Option.toList_none, List.nil_append]
      rw [ih (.first hline hzero) hrest]
      exact ⟨fun hall => ⟨fun hone => absurd (hzero.symm.trans hone) (by decide), hall⟩, And.right⟩
    · obtain ⟨v', row, hstep⟩ := hv.exists_row hlines hfreq hline hone
      simp only [tagged, rowsFrom, hstep, Option.toList_some, List.singleton_append,
        List.forall_mem_cons]
      rw [ih (hv.next hlines hline hone hstep) hrest, combines_iff hv hline hone hstep]
      exact and_congr_left fun _ => ⟨fun hf _ => hf, fun hf => hf hone⟩

/-- A row that combines two samples is made of these two lines. -/
theorem Combines.sources {i j : ℕ} {row : Row (Tracked ℕ ℚ)}
    (hc : Combines timeOffset tscFreq all i j a b row) : row.sources = {i, j} := by
  simp only [Row.sources, hc.start, hc.dur, hc.ld, hc.st, hc.sclS, hc.sclD, hc.sseS, hc.sseD,
    hc.avxS, hc.avxD]
  ext k
  simp

/-- What is true of the rows that are still to come, when every line of set 1 follows its partner. -/
structure Ahead (tscFreq : ℚ) (m : ℕ) (total : ℚ) (rs : List (Row (Tracked ℕ ℚ))) : Prop where
  sources : ∀ row ∈ rs, ∀ k ∈ row.sources, m ≤ k
  once : rs.Pairwise fun row row' => Disjoint row.sources row'.sources
  duration : (rs.map fun row => row.tscDurTotalSec.val).sum ≤ total / tscFreq

theorem ahead_of_follows (hlines : Proper all) (hfreq : 0 < tscFreq)
    (hall : ∀ j b, all[j]? = some b → b.evset = 1 → Follows all j b)
    (hv : Holding timeOffset all m n h v) (hdrop : all.drop n = lines) :
    Ahead tscFreq m (h + (lines.map PmcLine.dur).sum)
      (rowsFrom (.const timeOffset) (.const tscFreq) v (tagged n lines)) := by
  have hnonneg : 0 ≤ h := by
    cases hv with
    | nothing => exact le_refl 0
    | first ha _ => exact (hlines.positive _ (List.mem_of_getElem? ha)).le
    | second => exact le_refl 0
  have hle : m ≤ n := by
    cases hv with
    | nothing => exact Nat.le_refl 0
    | first => exact Nat.le_succ _
    | second => exact Nat.le_refl _
  induction lines generalizing m n h v with
  | nil =>
    refine ⟨fun row hrow => absurd hrow List.not_mem_nil, .nil, ?_⟩
    have := div_nonneg hnonneg hfreq.le
    simpa [tagged, rowsFrom] using this
  | cons line lines ih =>
    obtain ⟨hline, hrest⟩ := drop_eq_cons hdrop
    have hline_pos := hlines.positive line (List.mem_of_getElem? hline)
    rcases hlines.evset line (List.mem_of_getElem? hline) with hzero | hone
    · have hstep := scaleCounts_first timeOffset tscFreq v n hzero
      obtain ⟨hsources, honce, hduration⟩ := ih (.first hline hzero) hrest hline_pos.le (Nat.le_succ n)
      simp only [tagged, rowsFrom, hstep, Option.toList_none, List.nil_append, List.map_cons,
        List.sum_cons]
      refine ⟨fun row hrow k hk => Nat.le_trans hle (hsources row hrow k hk), honce,
        hduration.trans (div_le_div_of_nonneg_right ?_ hfreq.le)⟩
      linarith
    · obtain ⟨v', row, hstep⟩ := hv.exists_row hlines hfreq hline hone
      have hnext := hv.next hlines hline hone hstep
      obtain ⟨a, rfl, ha, hzero, hpid, rfl, rfl⟩ := hv.of_follows (hall n line hline hone)
      have hc := combines_of_first ha hzero hline hone hpid hstep
      obtain ⟨hsources, honce, hduration⟩ :=
        ih hnext hrest (le_refl 0) (Nat.le_refl _)
      simp only [tagged, rowsFrom, hstep, Option.toList_some, List.singleton_append, List.map_cons,
        List.sum_cons]
      refine ⟨fun row' hrow k hk => ?_, .cons (fun row' hrow => ?_) honce, ?_⟩
      · rcases List.mem_cons.mp hrow with rfl | hrow
        · rw [hc.sources, Finset.mem_insert, Finset.mem_singleton] at hk
          omega
        · have := hsources row' hrow k hk
          omega
      · rw [hc.sources, Finset.disjoint_left]
        intro k hk hk'
        rw [Finset.mem_insert, Finset.mem_singleton] at hk
        have := hsources row' hrow k hk'
        omega
      · rw [List.map_cons, List.sum_cons, hc.dur]
        rw [zero_add] at hduration
        calc (a.dur + line.dur) / tscFreq + _
          _ ≤ (a.dur + line.dur) / tscFreq + (lines.map PmcLine.dur).sum / tscFreq :=
            add_le_add_right hduration _
          _ = (a.dur + (line.dur + (lines.map PmcLine.dur).sum)) / tscFreq := by ring

/-- An interleaving has no other event sets. -/
theorem Interleaved.evset (h : Interleaved all) (hline : line ∈ all) :
    line.evset = 0 ∨ line.evset = 1 := by
  have hmem : line ∈ all.filter fun l => l.pid = line.pid :=
    List.mem_filter.mpr ⟨hline, decide_eq_true rfl⟩
  obtain ⟨k, hk⟩ := List.getElem?_of_mem hmem
  have heq := h.alternate line.pid k line hk
  omega

theorem Interleaved.proper (h : Interleaved all) : Proper all := by
  refine ⟨fun line => h.evset, h.positive, fun line hline => ?_⟩
  have hfirst : (all.filter fun l => l.pid = line.pid)[0]? = some line := by
    cases all with
    | nil => cases hline
    | cons a lines =>
      obtain rfl := Option.some_inj.mp hline
      simp
  exact h.alternate line.pid 0 line hfirst

/-- **The rows are sound** exactly if every line of set 1 directly follows the line of set 0 of its own
PID. -/
theorem pairing_iff_adjacent (h : Interleaved all) (hfreq : 0 < tscFreq) :
    Pairing timeOffset tscFreq all ↔ Adjacent all := by
  have hstart : Holding timeOffset all 0 0 0 .unassigned := .nothing
  have hrows := forall_combines_iff hfreq h.proper hstart List.drop_zero
  constructor
  · intro hpairing j b
    exact hrows.mp hpairing.combines j b (Nat.zero_le j)
  · intro hadjacent
    obtain ⟨-, honce, hduration⟩ :=
      ahead_of_follows h.proper hfreq hadjacent hstart List.drop_zero
    refine ⟨hrows.mpr fun j b _ => hadjacent j b, honce, ?_⟩
    rw [zero_add] at hduration
    rw [← trackedRows_val, List.map_map]
    exact hduration

end Files

/-! ### Two programs -/

/-- A line with counts of one. -/
def PmcLine.ofDur (pid evset : ℤ) (start dur : ℚ) : PmcLine ℚ := ⟨start, dur, pid, evset, 1, 1, 1, 1⟩

/-- The samples of two programs that take turns. -/
def turns : List (PmcLine ℚ) :=
  [.ofDur 7 0 100 10, .ofDur 7 1 110 10, .ofDur 8 0 120 5, .ofDur 8 1 125 10, .ofDur 7 0 135 10]

/-- The samples of two programs on two CPUs, of which the second is switched out late. -/
def crossed : List (PmcLine ℚ) :=
  [.ofDur 7 0 100 1, .ofDur 8 0 101 10, .ofDur 7 1 102 1, .ofDur 8 1 111 1]

theorem interleaved_turns : Interleaved turns := by
  refine ⟨fun pid k line hk => ?_, by simp [turns, PmcLine.ofDur]⟩
  by_cases hpid : 7 = pid ∨ 8 = pid
  · rcases hpid with rfl | rfl
    all_goals
      rcases k with _ | _ | _ | k
      all_goals
        cases hk
        try rfl
  · rw [not_or] at hpid
    simp [turns, PmcLine.ofDur, hpid] at hk

theorem interleaved_crossed : Interleaved crossed := by
  refine ⟨fun pid k line hk => ?_, by simp [crossed, PmcLine.ofDur]⟩
  by_cases hpid : 7 = pid ∨ 8 = pid
  · rcases hpid with rfl | rfl
    all_goals
      rcases k with _ | _ | k
      · obtain rfl := Option.some_inj.mp hk
        rfl
      · obtain rfl := Option.some_inj.mp hk
        rfl
      · cases hk
  · rw [not_or] at hpid
    simp [crossed, PmcLine.ofDur, hpid] at hk

theorem pairing_turns : Interleaved turns ∧ Adjacent turns ∧ Pairing 90 1000 turns := by
  have hadjacent : Adjacent turns := by
    intro j b hb hone
    rcases j with _ | _ | _ | _ | _ | j
    · cases hb
      cases hone
    · cases hb
      exact ⟨0, _, rfl, rfl, rfl, rfl⟩
    · cases hb
      cases hone
    · cases hb
      exact ⟨2, _, rfl, rfl, rfl, rfl⟩
    · cases hb
      cases hone
    · cases hb
  exact ⟨interleaved_turns, hadjacent,
    (pairing_iff_adjacent interleaved_turns (by norm_num)).mpr hadjacent⟩

/-- Both rows for two programs that cross are made of the sample of the second, and they last longer than
all samples together. -/
theorem not_pairing_crossed : Interleaved crossed ∧ ¬ Pairing 90 1000 crossed ∧
    (rows 90 1000 crossed).map Row.tscDurTotalSec = [11 / 1000, 11 / 1000] ∧
    (crossed.map PmcLine.dur).sum / 1000 = 13 / 1000 := by
  have hrows : (rows 90 1000 crossed).map Row.tscDurTotalSec = [11 / 1000, 11 / 1000] := by
    norm_num [rows, rowsFrom, crossed, scaleCounts, PmcLine.ofDur]
  have hdur : (crossed.map PmcLine.dur).sum / 1000 = 13 / 1000 := by
    norm_num [crossed, PmcLine.ofDur]
  refine ⟨interleaved_crossed, fun hpairing => ?_, hrows, hdur⟩
  have hle := hpairing.duration
  rw [hrows, hdur] at hle
  norm_num at hle

end ParseRoof

end SchedMon
