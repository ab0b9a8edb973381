import SchedMon.Lib.Text
import SchedMon.System.Wire

/-!
# Samples as lines

The tool prints a line for each record it reads: a tag and some integers. A line tells the sample it
was printed for, as far as its fields are within the range of their types.

## Main definitions

* `Sample.line?` — the line that is printed for a sample
* `Record.line?`, `outFile` — the line for a record as it lies in the buffer, and the whole file
* `Sample.tag`, `Sample.numbers` — what stands in the line

## Main results

* `line?_record` — **a record is printed as the sample it was made from**
* `lines_outFile` — the lines of the file are those that were printed
-/

namespace SchedMon

open CString

/-! ### Printing -/

/-- `%lld`. -/
def fmtLld (z : ℤ) : CString := decimal (wrapLlong z)

/-- `%d`. -/
def fmtD (z : ℤ) : CString := decimal (wrapInt z)

/-- `%u`. -/
def fmtU (n : ℕ) : CString := decimal (n % 2 ^ 32 : ℕ)

/-- `%lu`. -/
def fmtLu (n : ℕ) : CString := decimal (n % 2 ^ 64 : ℕ)

/-- `fprint_sample_info`, without the newline. -/
def fprintSampleInfo (sample : SampleInfo) : CString :=
  -- the frequency is in Hz
  tabbed "[INFO]".toList [fmtLld sample.timestamp, fmtLu (sample.tscFrequency % 2 ^ 32 * 100000000),
    fmtU sample.nCpus, fmtU sample.pmcSampleTime.toNat, fmtU sample.raplSampleTime.toNat,
    fmtU sample.evsets.toNat, fmtLld sample.energyUnits, fmtLld sample.powerUnits,
    fmtLld sample.timeUnits]

/-- `fprint_sample_pmc`, without the newline. -/
def fprintSamplePmc (sample : SamplePmc) : CString :=
  let pmc := sample.pmc
  tabbed "[PMC]".toList ([fmtLld sample.timestampStart, fmtLld sample.timestampStop,
    fmtLld sample.duration, fmtD sample.pid, fmtD sample.evset] ++
      pmc.ctrs.map fun ctr => fmtLld ctr.toInt)

/-- `fprint_sample_rapl`, without the newline. -/
def fprintSampleRapl (sample : SampleRapl) : CString :=
  let rapl := sample.rapl
  tabbed "[RAPL]".toList [fmtLld sample.timestamp, fmtLld sample.duration, fmtLld rapl.pkg.toInt,
    fmtLld rapl.pp0.toInt, fmtLld rapl.pp1.toInt]

/-- `fprint_sample_cpu`, without the newline. -/
def fprintSampleCpu (sample : SampleCpu) : CString :=
  tabbed "[MIGRATION]".toList [fmtLld sample.timestamp, fmtD sample.pid, fmtD sample.oldCpu,
    fmtD sample.newCpu]

/-- `fprint_sample_sched`, without the newline. -/
def fprintSampleSched (sample : SampleSched) : CString :=
  tabbed "[SCHED]".toList [fmtLld sample.timestampIn, fmtLld sample.timestampOut, fmtD sample.pid,
    fmtD sample.cpu]

/-- `fprint_sample_fork`, without the newline. -/
def fprintSampleFork (sample : SampleFork) : CString :=
  tabbed "[FORK]".toList [fmtLld sample.timestamp, fmtD sample.parent, fmtD sample.child]

/-- The line that `read_samples` prints for a sample. EOF only ends the loop. -/
def Sample.line? : Sample → Option CString
  | info s => some (fprintSampleInfo s)
  | pmc s => some (fprintSamplePmc s)
  | rapl s => some (fprintSampleRapl s)
  | cpu s => some (fprintSampleCpu s)
  | sched s => some (fprintSampleSched s)
  | fork s => some (fprintSampleFork s)
  | eof => none

/-- The line for a record in the buffer. -/
def Record.line? (r : Record) : Option CString := r.sample?.bind Sample.line?

/-- What is written to the output file for the records that were read. -/
def outFile (rs : List Record) : CString := unlines (rs.filterMap Record.line?)

theorem wrapLlong_wrapLlong (z : ℤ) : wrapLlong (wrapLlong z) = wrapLlong z :=
  congrArg BitVec.toInt BitVec.ofInt_toInt

theorem wrapInt_wrapInt (z : ℤ) : wrapInt (wrapInt z) = wrapInt z :=
  congrArg BitVec.toInt BitVec.ofInt_toInt

theorem wrapInt_natCast_mod (n : ℕ) : wrapInt ((n % 2 ^ 32 : ℕ) : ℤ) = wrapInt n := by
  refine congrArg BitVec.toInt (BitVec.eq_of_toNat_eq ?_)
  rw [BitVec.ofInt_natCast, BitVec.ofInt_natCast, BitVec.toNat_ofNat, BitVec.toNat_ofNat,
    Nat.mod_mod]

@[simp] theorem fmtLld_wrapLlong (z : ℤ) : fmtLld (wrapLlong z) = fmtLld z :=
  congrArg decimal (wrapLlong_wrapLlong z)

@[simp] theorem fmtD_wrapInt (z : ℤ) : fmtD (wrapInt z) = fmtD z :=
  congrArg decimal (wrapInt_wrapInt z)

@[simp] theorem fmtD_natCast_mod (n : ℕ) : fmtD ((n % 2 ^ 32 : ℕ) : ℤ) = fmtD n :=
  congrArg decimal (wrapInt_natCast_mod n)

@[simp] theorem fmtU_mod (n : ℕ) : fmtU (n % 2 ^ 32) = fmtU n := by
  rw [fmtU, fmtU, Nat.mod_mod]

/-- Printing cuts the fields down to their types once more. -/
theorem line?_wrap (w : Sample) : w.wrap.line? = w.line? := by
  cases w with
  | pmc s => simp only [Sample.wrap, Sample.line?, fprintSamplePmc, fmtLld_wrapLlong, fmtD_wrapInt,
      fmtD_natCast_mod]
  | rapl s => simp only [Sample.wrap, Sample.line?, fprintSampleRapl, fmtLld_wrapLlong]
  | cpu s => simp only [Sample.wrap, Sample.line?, fprintSampleCpu, fmtLld_wrapLlong, fmtD_wrapInt,
      fmtD_natCast_mod]
  | sched s => simp only [Sample.wrap, Sample.line?, fprintSampleSched, fmtLld_wrapLlong,
      fmtD_wrapInt, fmtD_natCast_mod]
  | fork s => simp only [Sample.wrap, Sample.line?, fprintSampleFork, fmtLld_wrapLlong, fmtD_wrapInt]
  | info s => simp only [Sample.wrap, Sample.line?, fprintSampleInfo, fmtLld_wrapLlong, fmtU_mod,
      Nat.mod_mod]
  | eof => rfl

/-- **A record is printed as the sample it was made from.** -/
theorem line?_record (junk : ℕ → Byte) (w : Sample) : (w.record junk).line? = w.line? := by
  rw [Record.line?, sample?_record, Option.bind_some, line?_wrap]

/-! ### What stands in a line -/

/-- The first word of a line. -/
def SampleType.tag : SampleType → CString
  | info => "[INFO]".toList
  | pmc => "[PMC]".toList
  | rapl => "[RAPL]".toList
  | cpu => "[MIGRATION]".toList
  | sched => "[SCHED]".toList
  | fork => "[FORK]".toList
  | pad => []
  | eof => []

/-- The first word of the line for a sample. -/
abbrev Sample.tag (w : Sample) : CString := w.type.tag

/-- The integers behind it. -/
def Sample.numbers : Sample → List ℤ
  | info s => [wrapLlong s.timestamp, (s.tscFrequency % 2 ^ 32 * 100000000 % 2 ^ 64 : ℕ),
      (s.nCpus % 2 ^ 32 : ℕ), (s.pmcSampleTime.toNat % 2 ^ 32 : ℕ),
      (s.raplSampleTime.toNat % 2 ^ 32 : ℕ), (s.evsets.toNat % 2 ^ 32 : ℕ), wrapLlong s.energyUnits,
      wrapLlong s.powerUnits, wrapLlong s.timeUnits]
  | pmc s => [wrapLlong s.timestampStart, wrapLlong s.timestampStop, wrapLlong s.duration,
      wrapInt s.pid, wrapInt s.evset] ++ s.pmc.ctrs.map fun ctr => wrapLlong ctr.toInt
  | rapl s => [wrapLlong s.timestamp, wrapLlong s.duration, wrapLlong s.rapl.pkg.toInt,
      wrapLlong s.rapl.pp0.toInt, wrapLlong s.rapl.pp1.toInt]
  | cpu s => [wrapLlong s.timestamp, wrapInt s.pid, wrapInt s.oldCpu, wrapInt s.newCpu]
  | sched s => [wrapLlong s.timestampIn, wrapLlong s.timestampOut, wrapInt s.pid, wrapInt s.cpu]
  | fork s => [wrapLlong s.timestamp, wrapInt s.parent, wrapInt s.child]
  | eof => []

/-- Every line is a tag and some integers. -/
theorem Sample.line?_eq {w : Sample} (h : w ≠ .eof) :
    w.line? = some (tabbed w.tag (w.numbers.map decimal)) := by
  cases w with
  | eof => exact absurd rfl h
  | _ => rfl

theorem Sample.line?_eq_some {w : Sample} {l : CString} (h : w.line? = some l) :
    w ≠ .eof ∧ l = tabbed w.tag (w.numbers.map decimal) := by
  have hne : w ≠ .eof := by
    rintro rfl
    cases h
  exact ⟨hne, Option.some_inj.mp (h.symm.trans (line?_eq hne))⟩

theorem Sample.isNumeric_of_mem_numbers {w : Sample} :
    ∀ x ∈ w.numbers.map decimal, ∀ c ∈ x, IsNumeric c := by
  intro x hx c hc
  obtain ⟨z, -, rfl⟩ := List.mem_map.mp hx
  exact isNumeric_decimal hc

theorem SampleType.tag_plain (t : SampleType) : ∀ c ∈ t.tag, isBlank c = false ∧ c ≠ '\n' := by
  have hall : t.tag.all (fun c => !isBlank c && c != '\n') = true := by
    cases t with
    | _ => rfl
  simpa using hall

theorem Sample.tag_ne_nil {w : Sample} (h : w ≠ .eof) : w.tag ≠ [] := by
  cases w with
  | eof => exact absurd rfl h
  | _ => exact List.cons_ne_nil _ _

/-- The words of a line are the tag and the integers. -/
theorem Sample.words_line {w : Sample} {l : CString} (h : w.line? = some l) :
    words l = w.tag :: w.numbers.map decimal := by
  obtain ⟨hne, rfl⟩ := line?_eq_some h
  refine words_tabbed (List.forall_mem_cons.mpr ⟨⟨tag_ne_nil hne, fun c hc =>
    (w.type.tag_plain c hc).1⟩, fun x hx => ⟨?_, fun c hc => ?_⟩⟩)
  · obtain ⟨z, -, rfl⟩ := List.mem_map.mp hx
    exact decimal_ne_nil z
  · have hnumeric := isNumeric_of_mem_numbers x hx c hc
    have hspace : c ≠ ' ' := hnumeric.ne (by decide)
    have htab : c ≠ '\t' := hnumeric.ne (by decide)
    simp [isBlank, hspace, htab]

/-- A line is one line. -/
theorem Sample.newline_not_mem_line {w : Sample} {l : CString} (h : w.line? = some l) : '\n' ∉ l := by
  obtain ⟨hne, rfl⟩ := line?_eq_some h
  intro hmem
  rcases List.mem_append.mp hmem with hmem | hmem
  · exact (w.type.tag_plain _ hmem).2 rfl
  · obtain ⟨x, hx, hcx⟩ := List.mem_flatMap.mp hmem
    rcases List.mem_cons.mp hcx with heq | hcx
    · exact absurd heq (by decide)
    · exact (isNumeric_of_mem_numbers x hx _ hcx).ne (by decide) rfl

/-- The records `rs` carry the samples `ws`, whatever their padding holds. -/
def Carries (ws : List Sample) (rs : List Record) : Prop :=
  List.Forall₂ (fun w r => ∃ junk, r = w.record junk) ws rs

theorem Carries.filterMap_line {ws : List Sample} {rs : List Record} (h : Carries ws rs) :
    rs.filterMap Record.line? = ws.filterMap Sample.line? := by
  induction h with
  | nil => rfl
  | cons hw _ ih =>
    obtain ⟨junk, rfl⟩ := hw
    rw [List.filterMap_cons, List.filterMap_cons, line?_record, ih]

/-- **The lines of the file** are those of the samples. -/
theorem lines_outFile {ws : List Sample} {rs : List Record} (h : Carries ws rs) :
    lines (outFile rs) = ws.filterMap Sample.line? := by
  rw [outFile, h.filterMap_line]
  refine lines_unlines fun l hl => ?_
  obtain ⟨w, -, hw⟩ := List.mem_filterMap.mp hl
  exact Sample.newline_not_mem_line hw

end SchedMon
