import SchedMon.Script.ParseRoof
import SchedMon.System.Print

/-!
# From samples to rows

`parse_roof.sh` takes the output file of a profile apart: `grep` picks lines by their tags, `awk` picks
numbers out of a line by their positions. The rows it makes of the file are the rows of the samples
that were recorded, and the line of a PMC sample has the numbers of that sample.

## Main definitions

* `ParseRoof.rowsOf` — the script up to its first `awk` program, run on a file
* `Sample.pmcLine?` — a PMC sample as that program should see it

## Main results

* `rowsOf_outFile` — **the rows of a file are the rows of the samples**
-/

namespace SchedMon

open CString

namespace ParseRoof

/-! ### The script -/

/-- Field `k` of a line as a number: `$k`. -/
def field (line : CString) (k : ℕ) : ℤ := number ((words line).getD (k - 1) [])

/-- What the first `awk` program picks out of a line. Field 5, which it does not use, is the PID. -/
def PmcLine.ofLine (line : CString) : PmcLine ℚ where
  start := field line 2
  dur := field line 4
  pid := field line 5
  evset := field line 6
  c10 := field line 10
  c11 := field line 11
  c12 := field line 12
  c13 := field line 13

/-- A variable of the script: field `k` of the INFO line. There is no saying what the script does with
a file that has several of them, or none. -/
def infoVar (text : CString) (k : ℕ) : Option ℤ :=
  match grep "INFO".toList (lines text) with
  | [line] => some (field line k)
  | _ => none

/-- The rows that the first `awk` program makes of a file, unless there are too few samples. -/
def rowsOf (text : CString) : Option (List (Row ℚ)) := do
  let timeOffset ← infoVar text 2
  let tscFrequency ← infoVar text 3
  let pmcs := grep "PMC".toList (lines text)
  if pmcs.length < 2 then none
  else some (rows timeOffset tscFrequency (pmcs.map .ofLine))

end ParseRoof

/-! ### What it sees -/

/-- A PMC sample as the first `awk` program should see it. -/
def Sample.pmcLine? : Sample → Option (ParseRoof.PmcLine ℚ)
  | pmc s => some {
      start := wrapLlong s.timestampStart
      dur := wrapLlong s.duration
      pid := wrapInt s.pid
      evset := wrapInt s.evset
      c10 := (s.pmc.gp 0).toInt
      c11 := (s.pmc.gp 1).toInt
      c12 := (s.pmc.gp 2).toInt
      c13 := (s.pmc.gp 3).toInt }
  | _ => none

/-- The INFO sample, if it is one. -/
def Sample.info? : Sample → Option SampleInfo
  | info s => some s
  | _ => none

/-- The frequency in Hz. -/
def SampleInfo.tscHz (s : SampleInfo) : ℕ := s.tscFrequency % 2 ^ 32 * 100000000 % 2 ^ 64

section Lines

variable {w : Sample} {ws : List Sample} {rs : List Record} {l : CString}

/-- The numbers of a line are found in their places. -/
theorem field_line (h : w.line? = some l) (k : ℕ) :
    ParseRoof.field l (k + 2) = w.numbers.getD k 0 := by
  rw [ParseRoof.field, Sample.words_line h]
  change number ((w.numbers.map decimal).getD k []) = _
  rw [List.getD_eq_getElem?_getD, List.getD_eq_getElem?_getD, List.getElem?_map]
  cases hk : w.numbers[k]? with
  | none => rfl
  | some z => exact number_decimal z

/-- What is found by a word of letters is found in the tag. -/
theorem infix_line {pat : CString} (hne : pat ≠ []) (hpat : ∀ c ∈ pat, c ≠ '\t' ∧ ¬IsNumeric c)
    (h : w.line? = some l) : pat <:+: l ↔ pat <:+: w.tag := by
  obtain ⟨-, rfl⟩ := Sample.line?_eq_some h
  exact infix_tabbed hne hpat Sample.isNumeric_of_mem_numbers

/-- A word of letters that is found in the tag of one type picks the lines of that type. -/
theorem grep_lines {pat : CString} {t : SampleType} (hne : pat ≠ [])
    (hpat : ∀ c ∈ pat, c ≠ '\t' ∧ ¬IsNumeric c) (htag : ∀ t' : SampleType, pat <:+: t'.tag ↔ t' = t)
    (ws : List Sample) : grep pat (ws.filterMap Sample.line?) =
      (ws.filter fun w => w.type = t).filterMap Sample.line? := by
  induction ws with
  | nil => rfl
  | cons w ws ih =>
    cases hw : w.line? with
    | none =>
      rw [List.filterMap_cons_none hw, ih, List.filter_cons]
      split
      · rw [List.filterMap_cons_none hw]
      · rfl
    | some l =>
      have hiff : pat <:+: l ↔ w.type = t := (infix_line hne hpat hw).trans (htag w.type)
      have hcons : grep pat (l :: ws.filterMap Sample.line?) =
          if pat <:+: l then l :: grep pat (ws.filterMap Sample.line?)
          else grep pat (ws.filterMap Sample.line?) := by
        simp only [grep, List.filter_cons, decide_eq_true_eq]
      rw [List.filterMap_cons_some hw, hcons, ih]
      simp only [List.filter_cons, decide_eq_true_eq]
      by_cases ht : w.type = t
      · rw [if_pos (hiff.mpr ht), if_pos ht, List.filterMap_cons_some hw]
      · rw [if_neg fun hl => ht (hiff.mp hl), if_neg ht]

theorem SampleType.pmc_infix_tag (t : SampleType) : "PMC".toList <:+: t.tag ↔ t = .pmc := by
  cases t with
  | _ => decide

theorem SampleType.info_infix_tag (t : SampleType) : "INFO".toList <:+: t.tag ↔ t = .info := by
  cases t with
  | _ => decide

theorem wrapLlong_toInt (x : I64) : wrapLlong x.toInt = x.toInt :=
  congrArg BitVec.toInt BitVec.ofInt_toInt

/-- The line of a PMC sample has its numbers. -/
theorem ofLine_line {s : SamplePmc} (h : (Sample.pmc s).line? = some l) :
    some (ParseRoof.PmcLine.ofLine l) = (Sample.pmc s).pmcLine? := by
  have hfield := field_line h
  rw [ParseRoof.PmcLine.ofLine, hfield 0, hfield 2, hfield 3, hfield 4, hfield 8, hfield 9, hfield 10,
    hfield 11]
  simp only [Sample.numbers, Sample.pmcLine?, wrapLlong_toInt]
  rfl

theorem pmcLines_eq (ws : List Sample) :
    (grep "PMC".toList (ws.filterMap Sample.line?)).map ParseRoof.PmcLine.ofLine =
      ws.filterMap Sample.pmcLine? := by
  rw [grep_lines (by decide) (by simp [IsNumeric]) SampleType.pmc_infix_tag]
  induction ws with
  | nil => rfl
  | cons w ws ih =>
    cases w with
    | pmc s =>
      have hline : (Sample.pmc s).line? = some (fprintSamplePmc s) := rfl
      rw [List.filter_cons_of_pos rfl, List.filterMap_cons_some hline, List.map_cons, ih,
        List.filterMap_cons_some (ofLine_line hline).symm]
    | _ => exact ih

theorem infoLines_eq (ws : List Sample) : grep "INFO".toList (ws.filterMap Sample.line?) =
    (ws.filterMap Sample.info?).map fprintSampleInfo := by
  rw [grep_lines (by decide) (by simp [IsNumeric]) SampleType.info_infix_tag]
  induction ws with
  | nil => rfl
  | cons w ws ih =>
    cases w with
    | info s =>
      have hline : (Sample.info s).line? = some (fprintSampleInfo s) := rfl
      have hinfo : (Sample.info s).info? = some s := rfl
      rw [List.filter_cons_of_pos rfl, List.filterMap_cons_some hline, ih,
        List.filterMap_cons_some hinfo, List.map_cons]
    | _ => exact ih

/-- **The rows of a file are the rows of the samples**, if there are two of them at least. -/
theorem rowsOf_outFile (hcarries : Carries ws rs) {info : SampleInfo}
    (hinfo : ws.filterMap Sample.info? = [info]) :
    ParseRoof.rowsOf (outFile rs) = if (ws.filterMap Sample.pmcLine?).length < 2 then none
      else some (ParseRoof.rows (wrapLlong info.timestamp : ℚ) info.tscHz
        (ws.filterMap Sample.pmcLine?)) := by
  have hlines := lines_outFile hcarries
  have hgrep : grep "INFO".toList (lines (outFile rs)) = [fprintSampleInfo info] := by
    rw [hlines, infoLines_eq, hinfo, List.map_singleton]
  have hfield := field_line (w := .info info) rfl
  have hoffset : ParseRoof.infoVar (outFile rs) 2 = some (wrapLlong info.timestamp) := by
    rw [ParseRoof.infoVar, hgrep]
    exact congrArg some (hfield 0)
  have hfrequency : ParseRoof.infoVar (outFile rs) 3 = some (info.tscHz : ℤ) := by
    rw [ParseRoof.infoVar, hgrep]
    exact congrArg some (hfield 1)
  have hmap := pmcLines_eq ws
  have hlength : (grep "PMC".toList (lines (outFile rs))).length =
      (ws.filterMap Sample.pmcLine?).length := by
    rw [← hmap, List.length_map, hlines]
  rw [ParseRoof.rowsOf, hoffset, hfrequency]
  change (if _ then none else some _) = _
  rw [hlength, hlines, hmap, Int.cast_natCast]

/-- A sample of each event set, in a file that says how to scale them. -/
def twoSets : List Sample :=
  [.info ⟨100, 10, 10, 1, 1, 1, 30, 2, 1⟩, .pmc ⟨200, 250, 50, 7, ⟨fun _ => 0, fun _ => 4⟩, 0⟩,
    .pmc ⟨300, 350, 50, 7, ⟨fun _ => 0, fun _ => 6⟩, 1⟩]

theorem rowsOf_outFile_twoSets :
    ParseRoof.rowsOf (outFile (twoSets.map (Sample.record fun _ => 0))) =
      some (ParseRoof.rows 100 3000000000
        [⟨200, 50, 7, 0, 4, 4, 4, 4⟩, ⟨300, 50, 7, 1, 6, 6, 6, 6⟩]) := by
  have hcarries : Carries twoSets (twoSets.map (Sample.record fun _ => 0)) :=
    .cons ⟨_, rfl⟩ (.cons ⟨_, rfl⟩ (.cons ⟨_, rfl⟩ .nil))
  have hlines : twoSets.filterMap Sample.pmcLine? =
      [⟨200, 50, 7, 0, 4, 4, 4, 4⟩, ⟨300, 50, 7, 1, 6, 6, 6, 6⟩] := rfl
  have hinfo : twoSets.filterMap Sample.info? = [⟨100, 10, 10, 1, 1, 1, 30, 2, 1⟩] := rfl
  have hrows := rowsOf_outFile hcarries hinfo
  have hlength : ¬ (twoSets.filterMap Sample.pmcLine?).length < 2 := by decide
  rw [if_neg hlength, hlines] at hrows
  exact hrows

end Lines

end SchedMon
