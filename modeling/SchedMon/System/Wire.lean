import Mathlib.Data.Fin.VecNotation
import Mathlib.Data.Fintype.Basic
import Mathlib.Tactic.FinCases
import SchedMon.Driver.State
import SchedMon.Struct

/-!
# Samples as bytes

The scheduler hooks hand structures over, the ring buffer copies bytes, and the tool looks at the
bytes through pointers to the same structures. What gets across is every field, cut down to the range
of its type.

## Main definitions

* `Sample.fields` — the fields of the structure a record carries, by size and value
* `Sample.record` — the record as the ring buffer takes it
* `Record.sample?` — the record as the tool sees it
* `Sample.wrap` — a sample whose fields are cut down

## Main results

* `sample?_record` — **the tool sees the sample that was handed over**
-/

namespace SchedMon

/-! ### Writing -/

/-- The counters, in the order of `struct smon_pmc`. -/
def SmonPmc.ctrs (pmc : SmonPmc) : List I64 := List.ofFn pmc.fx ++ List.ofFn pmc.gp

/-- The fields of the structure, in the order of their declaration. -/
def Sample.fields : Sample → List (ℕ × ℤ)
  | pmc s =>
    [(8, s.timestampStart), (8, s.timestampStop), (8, s.duration), (4, s.pid)] ++
      s.pmc.ctrs.map (fun ctr => (8, ctr.toInt)) ++ [(4, (s.evset : ℤ))]
  | rapl s =>
    [(8, s.timestamp), (8, s.duration), (8, s.rapl.pkg.toInt), (8, s.rapl.pp0.toInt),
      (8, s.rapl.pp1.toInt)]
  | cpu s => [(8, s.timestamp), (4, s.pid), (4, s.oldCpu), (4, s.newCpu)]
  | sched s => [(8, s.timestampIn), (8, s.timestampOut), (4, s.pid), (4, s.cpu)]
  | fork s => [(8, s.timestamp), (4, s.parent), (4, s.child)]
  | info s =>
    [(8, s.timestamp), (4, s.pmcSampleTime.toInt), (4, s.raplSampleTime.toInt), (8, s.energyUnits),
      (8, s.powerUnits), (8, s.timeUnits), (4, s.tscFrequency), (4, s.evsets.toInt), (4, s.nCpus)]
  | eof => []

/-- They are the fields that make up the size of the record. -/
theorem Sample.sizes_fields (w : Sample) : w.fields.map Prod.fst = w.type.fields := by
  cases w with
  | _ => rfl

theorem SampleType.pos_of_mem_fields (t : SampleType) : ∀ sz ∈ t.fields, 0 < sz := by
  cases t with
  | _ => decide

/-- The record as it is handed to `smon_rb_write`, padding included. -/
def Sample.record (junk : ℕ → Byte) (w : Sample) : Record where
  type := w.type
  payload := structBytes junk w.fields
  length_payload := by
    have hpos := w.type.pos_of_mem_fields
    rw [← w.sizes_fields] at hpos
    rw [length_structBytes junk hpos, w.sizes_fields, SampleType.payloadSize]

@[simp] theorem Sample.type_record (junk : ℕ → Byte) (w : Sample) : (w.record junk).type = w.type :=
  rfl

/-! ### Reading -/

/-- The `long long` that is found in memory. -/
def llongOf (n : ℕ) : ℤ := (BitVec.ofNat 64 n).toInt

/-- The `int` that is found in memory. -/
def intOf (n : ℕ) : ℤ := (BitVec.ofNat 32 n).toInt

/-- The structure behind the header, as the tool finds it in the buffer. -/
def Record.sample? (r : Record) : Option Sample :=
  match r.type, readStruct r.type.fields r.payload with
  | .pmc, [start, stop, duration, pid, fx0, fx1, fx2, gp0, gp1, gp2, gp3, evset] =>
    some (.pmc {
      timestampStart := llongOf start
      timestampStop := llongOf stop
      duration := llongOf duration
      pid := intOf pid
      pmc := ⟨![.ofNat 64 fx0, .ofNat 64 fx1, .ofNat 64 fx2],
        ![.ofNat 64 gp0, .ofNat 64 gp1, .ofNat 64 gp2, .ofNat 64 gp3]⟩
      evset := evset })
  | .rapl, [timestamp, duration, pkg, pp0, pp1] =>
    some (.rapl ⟨llongOf timestamp, llongOf duration,
      ⟨.ofNat 64 pkg, .ofNat 64 pp0, .ofNat 64 pp1⟩⟩)
  | .cpu, [timestamp, pid, oldCpu, newCpu] =>
    some (.cpu ⟨llongOf timestamp, intOf pid, oldCpu, newCpu⟩)
  | .sched, [timestampIn, timestampOut, pid, cpu] =>
    some (.sched ⟨llongOf timestampIn, llongOf timestampOut, intOf pid, cpu⟩)
  | .fork, [timestamp, parent, child] => some (.fork ⟨llongOf timestamp, intOf parent, intOf child⟩)
  | .info, [timestamp, pmcSampleTime, raplSampleTime, energyUnits, powerUnits, timeUnits,
      tscFrequency, evsets, nCpus] =>
    some (.info {
      timestamp := llongOf timestamp
      pmcSampleTime := .ofNat 32 pmcSampleTime
      raplSampleTime := .ofNat 32 raplSampleTime
      energyUnits := llongOf energyUnits
      powerUnits := llongOf powerUnits
      timeUnits := llongOf timeUnits
      tscFrequency := tscFrequency
      evsets := .ofNat 32 evsets
      nCpus := nCpus })
  | .eof, [] => some .eof
  | _, _ => none

/-! ### What gets across -/

/-- A number cut down to a `long long`. -/
def wrapLlong (z : ℤ) : ℤ := (BitVec.ofInt 64 z).toInt

/-- A number cut down to an `int`. -/
def wrapInt (z : ℤ) : ℤ := (BitVec.ofInt 32 z).toInt

/-- The sample with each field cut down to its type. CPUs and event-set indices are not negative. -/
def Sample.wrap : Sample → Sample
  | pmc s => pmc { s with
      timestampStart := wrapLlong s.timestampStart
      timestampStop := wrapLlong s.timestampStop
      duration := wrapLlong s.duration
      pid := wrapInt s.pid
      evset := s.evset % 2 ^ 32 }
  | rapl s => rapl { s with
      timestamp := wrapLlong s.timestamp
      duration := wrapLlong s.duration }
  | cpu s => cpu ⟨wrapLlong s.timestamp, wrapInt s.pid, s.oldCpu % 2 ^ 32, s.newCpu % 2 ^ 32⟩
  | sched s =>
    sched ⟨wrapLlong s.timestampIn, wrapLlong s.timestampOut, wrapInt s.pid, s.cpu % 2 ^ 32⟩
  | fork s => fork ⟨wrapLlong s.timestamp, wrapInt s.parent, wrapInt s.child⟩
  | info s => info { s with
      timestamp := wrapLlong s.timestamp
      energyUnits := wrapLlong s.energyUnits
      powerUnits := wrapLlong s.powerUnits
      timeUnits := wrapLlong s.timeUnits
      tscFrequency := s.tscFrequency % 2 ^ 32
      nCpus := s.nCpus % 2 ^ 32 }
  | eof => eof

/-- A word that is found in memory. -/
theorem ofNat_emod (w : ℕ) (z : ℤ) : BitVec.ofNat w (z % 2 ^ w).toNat = BitVec.ofInt w z := by
  refine BitVec.eq_of_toNat_eq ?_
  have hcast : ((2 ^ w : ℕ) : ℤ) = 2 ^ w := Int.natCast_pow 2 w
  rw [BitVec.toNat_ofNat, BitVec.toNat_ofInt, hcast]
  refine Nat.mod_eq_of_lt ?_
  have hlt := Int.emod_lt_of_pos z (show (0 : ℤ) < 2 ^ w from Int.pow_pos (by decide))
  omega

theorem llongOf_emod (z : ℤ) : llongOf (z % 256 ^ 8).toNat = wrapLlong z :=
  congrArg BitVec.toInt (ofNat_emod 64 z)

theorem intOf_emod (z : ℤ) : intOf (z % 256 ^ 4).toNat = wrapInt z :=
  congrArg BitVec.toInt (ofNat_emod 32 z)

theorem i64_emod (x : I64) : BitVec.ofNat 64 (x.toInt % 256 ^ 8).toNat = x :=
  (ofNat_emod 64 x.toInt).trans BitVec.ofInt_toInt

theorem u32_emod (x : U32) : BitVec.ofNat 32 (x.toInt % 256 ^ 4).toNat = x :=
  (ofNat_emod 32 x.toInt).trans BitVec.ofInt_toInt

theorem natCast_emod (n : ℕ) : ((n : ℤ) % 256 ^ 4).toNat = n % 2 ^ 32 := by
  omega

/-- **The tool sees the sample that was handed over**, whatever the padding holds: every field, cut
down to its type. -/
theorem sample?_record (junk : ℕ → Byte) (w : Sample) : (w.record junk).sample? = some w.wrap := by
  have hread : readStruct w.type.fields (w.record junk).payload =
      w.fields.map fun field => (field.2 % 256 ^ field.1).toNat := by
    rw [← w.sizes_fields]
    exact readStruct_structBytes junk w.fields
  unfold Record.sample?
  rw [Sample.type_record, hread]
  cases w with
  | pmc s =>
    have hfx : ![s.pmc.fx 0, s.pmc.fx 1, s.pmc.fx 2] = s.pmc.fx := by
      funext i
      fin_cases i <;> rfl
    have hgp : ![s.pmc.gp 0, s.pmc.gp 1, s.pmc.gp 2, s.pmc.gp 3] = s.pmc.gp := by
      funext i
      fin_cases i <;> rfl
    have hctrs : s.pmc.ctrs = [s.pmc.fx 0, s.pmc.fx 1, s.pmc.fx 2, s.pmc.gp 0, s.pmc.gp 1,
      s.pmc.gp 2, s.pmc.gp 3] := rfl
    simp only [Sample.type, Sample.fields, hctrs, List.map_cons, List.map_nil, List.cons_append,
      List.nil_append, llongOf_emod, intOf_emod, i64_emod, natCast_emod, hfx, hgp, Sample.wrap]
  | rapl s =>
    simp only [Sample.type, Sample.fields, List.map_cons, List.map_nil, llongOf_emod, i64_emod,
      Sample.wrap]
  | cpu s =>
    simp only [Sample.type, Sample.fields, List.map_cons, List.map_nil, llongOf_emod, intOf_emod,
      natCast_emod, Sample.wrap]
  | sched s =>
    simp only [Sample.type, Sample.fields, List.map_cons, List.map_nil, llongOf_emod, intOf_emod,
      natCast_emod, Sample.wrap]
  | fork s =>
    simp only [Sample.type, Sample.fields, List.map_cons, List.map_nil, llongOf_emod, intOf_emod,
      Sample.wrap]
  | info s =>
    simp only [Sample.type, Sample.fields, List.map_cons, List.map_nil, llongOf_emod, u32_emod,
      natCast_emod, Sample.wrap]
  | eof => rfl

end SchedMon
