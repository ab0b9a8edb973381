import Mathlib.Order.Basic
import SchedMon.Driver.Period
import SchedMon.Lib.Odometer

/-!
# Energy

The energy-status registers count in 32 bits and start over. `smon_rapl_read` takes them into a
`long long`, `smon_rapl_sub` subtracts there. Beside a run of the driver goes the energy that each
CPU's package really has consumed; the registers show it, modulo `2 ^ 32`. It may grow at any time,
between the two reads of a tick as well.

## Main definitions

* `MeteredStep` — the system beside its energy
* `RaplWatch` — the RAPL records of a task, each with the energy at its two reads

## Main results

* `exact_iff_unwrapped` — **when a RAPL record holds the energy consumed**
* `not_exact_wrapped` — a register that starts over
-/

namespace SchedMon

open State Odometer

/-! ### Registers -/

/-- What the registers count the energy of. -/
inductive Plane where
  | pkg | pp0 | pp1
  deriving DecidableEq

/-- The field of a plane. -/
def SmonRapl.plane (rapl : SmonRapl) : Plane → I64
  | .pkg => rapl.pkg
  | .pp0 => rapl.pp0
  | .pp1 => rapl.pp1

/-- The energy that has been consumed, as each CPU sees it. -/
abbrev Energies := Cpu → Plane → ℕ

namespace State

/-- The energy-status registers show the energy, in 32 bits. -/
def metered (s : State) (e : Energies) : State :=
  { s with msr := fun me num =>
      if num = msrPkgEnergyStatus then reading 64 32 (e me .pkg)
      else if num = msrPp0EnergyStatus then reading 64 32 (e me .pp0)
      else if num = msrPp1EnergyStatus then reading 64 32 (e me .pp1)
      else s.msr me num }

theorem smonRaplRead_metered (s : State) (e : Energies) (me : Cpu) (p : Plane) :
    (smonRaplRead ((s.metered e).msr me)).plane p = reading 64 32 (e me p) := by
  cases p <;> rfl

/-- `smon_sched_timer_rapl`, with something that happens between its two reads. -/
def smonSchedTimerRaplWith (s : State) (t : TaskId) (meanwhile : State → State) :
    Except Fault State := do
  let extra ← s.extra t
  let me := extra.raplTimer.cpu
  if extra.timerFlags then
    let (sample, s) := s.smonSampleRaplStop me extra.raplSample
    let s := s.smonSampleRaplSave extra.rb sample
    let (sample, s) := (meanwhile s).smonSampleRaplStart me sample
    let kt := msToNs extra.raplSampleTime
    s.setExtra t { extra with
      raplSample := sample, raplTimer := hrtimerForward extra.raplTimer s.now kt }
  else s.setExtra t { extra with raplTimer := hrtimerCancel extra.raplTimer }

/-- If nothing happens, this is the function. -/
theorem smonSchedTimerRaplWith_id (s : State) (t : TaskId) :
    s.smonSchedTimerRaplWith t id = s.smonSchedTimerRapl t := rfl

/-- What an event does, when the energy is `e` at the second read of a tick. -/
def execMetered (s : State) (e : Energies) : Label → Except Fault State
  | .raplTick t => s.smonSchedTimerRaplWith t fun s => s.metered e
  | l => s.exec l

end State

/-! ### Runs -/

/-- The system beside its energy. A label says how much energy has been consumed when its event is
over, or at the second read of a tick. -/
def MeteredStep (x : State × Energies) (l : Label × Energies) (y : State × Energies) : Prop :=
  (∀ c p, x.2 c p ≤ l.2 c p) ∧ y.2 = l.2 ∧ (x.1.metered x.2).Enabled l.1 ∧
    (x.1.metered x.2).execMetered l.2 l.1 = .ok y.1

/-- A RAPL record, and the energy at its start read and at its stop read. -/
structure RaplReading where
  sample : SampleRapl
  start : Plane → ℕ
  stop : Plane → ℕ

/-- Each field holds exactly the energy consumed in between, which is not negative. -/
def RaplReading.Exact (r : RaplReading) : Prop :=
  ∀ p, (r.sample.rapl.plane p).toInt = (r.stop p : ℤ) - r.start p ∧
    0 ≤ (r.sample.rapl.plane p).toInt

/-- No register has started over in between. -/
def RaplReading.Unwrapped (r : RaplReading) : Prop := ∀ p, r.start p / 2 ^ 32 = r.stop p / 2 ^ 32

/-- The energy at the last start read of a task, and its records so far. -/
structure RaplWatch where
  since : Plane → ℕ
  readings : List RaplReading

/-- The RAPL records that an event hands to a buffer. -/
def raplRecords (s s' : State) (b : RbId) : List SampleRapl :=
  ((s'.rbs b).log.drop (s.rbs b).log.length).filterMap fun
    | .rapl sample => some sample
    | _ => none

/-- What an event adds to the watch of task `t`. -/
def RaplWatch.write (t : TaskId) (x : State × Energies) (l : Label × Energies) (y : State × Energies)
    (w : RaplWatch) : RaplWatch :=
  match l.1 with
  | .irq me (.startRapl u) => if u = t then { w with since := x.2 me } else w
  | .raplTick u =>
    match x.1.meters t with
    | some m =>
      if u = t ∧ m.on = true then
        { since := l.2 m.cpu
          readings := w.readings ++
            (raplRecords x.1 y.1 m.rb).map fun sample => ⟨sample, w.since, x.2 m.cpu⟩ }
      else w
    | none => w
  | _ => w

/-- A task that is not watched yet. -/
def RaplWatch.nothing : RaplWatch := ⟨fun _ => 0, []⟩

/-! ### A tick -/

section Tick

variable {s s' : State} {t u : TaskId} {e : Energies}

theorem SmonRapl.plane_sub (a b : SmonRapl) (p : Plane) :
    (smonRaplSub a b).plane p = a.plane p - b.plane p := by
  cases p <;> rfl

theorem quiet_metered (s : State) (e : Energies) : Quiet (fun _ => True) t s (s.metered e) :=
  ⟨rfl, fun _ _ => rfl, rfl, fun _ => rfl, fun _ => ⟨[], by simp [metered]⟩, fun _ _ h => .inl h,
    rfl⟩

theorem quiet_smonSchedTimerRaplWith
    (h : s.smonSchedTimerRaplWith t (fun s => s.metered e) = .ok s') :
    Quiet (fun _ => True) t s s' := by
  obtain ⟨extra, hextra, h⟩ := bind_eq_ok.mp h
  dsimp only at h
  split at h
  · exact quiet_setExtra hextra (by rfl) (((Quiet.of_msrRdtsc.trans
      (.of_write trivial (some extra.rb))).trans (quiet_metered _ e)).trans .of_msrRdtsc) rfl h
  · exact quiet_setExtra hextra (by rfl) (.refl _ t s) rfl h

theorem meters_smonSchedTimerRaplWith_of_ne (hu : u ≠ t)
    (h : s.smonSchedTimerRaplWith t (fun s => s.metered e) = .ok s') :
    s'.meters u = s.meters u := by
  obtain ⟨extra, -, h⟩ := bind_eq_ok.mp h
  dsimp only at h
  split at h
  · exact (meters_setExtra_of_ne hu h).trans rfl
  · exact meters_setExtra_of_ne hu h

/-- One record handed to a buffer. -/
theorem raplRecords_write {b : RbId} {sample : SampleRapl}
    (h : s'.rbs = (s.smonSampleWrite (some b) (.rapl sample)).rbs) :
    raplRecords s s' b = [sample] := by
  have hlog : (s'.rbs b).log = (s.rbs b).log ++ [.rapl sample] := by
    rw [h]
    simp only [smonSampleWrite, smonRbWrite, Function.update_self]
  rw [raplRecords, hlog, List.drop_left]
  rfl

/-- **A tick** writes one record, the difference of two reads, and reads again. -/
theorem meter_tick (h : s.smonSchedTimerRaplWith t (fun s => s.metered e) = .ok s') : ∃ m,
    s.meters t = some m ∧ (m.on = false ∧ s'.meters t = some m ∨
      m.on = true ∧ ∃ sample next, raplRecords s s' m.rb = [sample] ∧
        sample.rapl = smonRaplSub (smonRaplRead (s.msr m.cpu)) m.sample.rapl ∧
        s'.meters t = some { m with sample := next } ∧
        ∀ p, next.rapl.plane p = reading 64 32 (e m.cpu p)) := by
  obtain ⟨extra, hextra, hset⟩ := bind_eq_ok.mp h
  obtain ⟨task, htask, hx⟩ := extra_eq_ok.mp hextra
  refine ⟨extra.meter, meters_eq_some.mpr ⟨task, extra, htask, hx, rfl⟩, ?_⟩
  dsimp only at hset
  split at hset
  · rename_i hon
    have hmeters := (meters_setExtra_self hset).trans (congrArg some (extra.meter_forwarded ..))
    obtain ⟨task', -, rfl⟩ := setExtra_eq_ok.mp hset
    exact .inr ⟨hon, _, _, raplRecords_write rfl, rfl, hmeters, smonRaplRead_metered _ e _⟩
  · rename_i hoff
    exact .inl ⟨Bool.eq_false_iff.mpr hoff, (meters_setExtra_self hset).trans rfl⟩

end Tick

/-! ### Whole runs -/

/-- An event is a tick of the RAPL timer, or what it is without the energy. -/
theorem execMetered_cases {s s' : State} {e : Energies} {l : Label}
    (h : s.execMetered e l = .ok s') :
    (∃ t, l = .raplTick t ∧ s.smonSchedTimerRaplWith t (fun s => s.metered e) = .ok s') ∨
      (∀ t, l ≠ .raplTick t) ∧ s.exec l = .ok s' := by
  cases l with
  | raplTick t => exact .inl ⟨t, rfl, h⟩
  | _ => exact .inr ⟨fun _ heq => Label.noConfusion heq, h⟩

/-- While the RAPL timer is on, the task remembers what the registers showed at the last start read,
and each record is the difference of what they showed at its two reads. -/
structure RaplWatched (t : TaskId) (x : (State × Energies) × RaplWatch) : Prop where
  since : ∀ m, x.1.1.meters t = some m → m.on = true → ∀ p,
    m.sample.rapl.plane p = reading 64 32 (x.2.since p) ∧ x.2.since p ≤ x.1.2 m.cpu p
  readings : ∀ r ∈ x.2.readings, ∀ p, r.start p ≤ r.stop p ∧
    r.sample.rapl.plane p = reading 64 32 (r.stop p) - reading 64 32 (r.start p)

section Runs

variable {x y : (State × Energies) × RaplWatch} {t : TaskId} {l : Label × Energies}
  {ring : TaskId → List TaskId} {s s₀ : State} {e e₀ : Energies} {w : RaplWatch}
  {ls : List (Label × Energies)}

theorem MeteredStep.forest {x y : State × Energies} (h : MeteredStep x l y)
    (hforest : Forest x.1.book ring) : ∃ ring, Forest y.1.book ring := by
  obtain ⟨-, -, -, hexec⟩ := h
  have hmetered : Forest (x.1.metered x.2).book ring := hforest
  rcases execMetered_cases hexec with ⟨u, -, htick⟩ | ⟨-, hexec⟩
  · exact ⟨ring, (quiet_smonSchedTimerRaplWith htick).book ▸ hmetered⟩
  · exact hmetered.step (exec_book_step hmetered hexec)

/-- What a step that is no start and no tick of the task keeps. -/
theorem RaplWatched.keep (h : RaplWatched t x) (hle : ∀ c p, x.1.2 c p ≤ y.1.2 c p) (hw : y.2 = x.2)
    (hmeter : ∀ m, y.1.1.meters t = some m → m.on = true → ∃ m₀, x.1.1.meters t = some m₀ ∧
      m₀.on = true ∧ m₀.sample = m.sample ∧ m₀.cpu = m.cpu) : RaplWatched t y := by
  refine ⟨fun m hm hon p => ?_, fun r hr p => h.readings r (hw ▸ hr) p⟩
  obtain ⟨m₀, hm₀, hon₀, hsample, hcpu⟩ := hmeter m hm hon
  obtain ⟨hread, hsince⟩ := h.since m₀ hm₀ hon₀ p
  rw [hw, ← hsample, ← hcpu]
  exact ⟨hread, Nat.le_trans hsince (hle _ p)⟩

/-- A tick of the task's timer. -/
theorem RaplWatched.tick (h : RaplWatched t x) (hle : ∀ c p, x.1.2 c p ≤ l.2 c p) (hy : y.1.2 = l.2)
    (hl : l.1 = .raplTick t) (hw : y.2 = x.2.write t x.1 l y.1)
    (htick : (x.1.1.metered x.1.2).smonSchedTimerRaplWith t (fun s => s.metered l.2) =
      .ok y.1.1) : RaplWatched t y := by
  obtain ⟨m, hm, hcases⟩ := meter_tick htick
  have hm₀ : x.1.1.meters t = some m := hm
  have hwrite : y.2 = if t = t ∧ m.on = true then
      { since := l.2 m.cpu
        readings := x.2.readings ++ (raplRecords x.1.1 y.1.1 m.rb).map fun sample =>
          ⟨sample, x.2.since, x.1.2 m.cpu⟩ } else x.2 := by
    rw [hw]
    simp only [RaplWatch.write, hl, hm₀]
  rcases hcases with ⟨hoff, hm'⟩ | ⟨hon, sample, next, hrecord, hrapl, hm', hnext⟩
  · refine h.keep (hy ▸ hle) ?_ fun m' hmeter hon => ?_
    · rw [hwrite, if_neg (by simp [hoff])]
    · obtain rfl := Option.some_inj.mp (hm'.symm.trans hmeter)
      exact absurd (hoff.symm.trans hon) (by simp)
  · have hrecord' : raplRecords x.1.1 y.1.1 m.rb = [sample] := hrecord
    rw [if_pos ⟨rfl, hon⟩, hrecord', List.map_singleton] at hwrite
    refine ⟨fun m' hmeter _ p => ?_, fun r hr p => ?_⟩
    · obtain rfl := Option.some_inj.mp (hm'.symm.trans hmeter)
      rw [hwrite]
      exact ⟨hnext p, Nat.le_of_eq (by rw [hy])⟩
    · rw [hwrite] at hr
      rcases List.mem_append.mp hr with hr | hr
      · exact h.readings r hr p
      · obtain rfl := List.mem_singleton.mp hr
        obtain ⟨hread, hsince⟩ := h.since m hm₀ hon p
        refine ⟨hsince, ?_⟩
        rw [hrapl, SmonRapl.plane_sub, smonRaplRead_metered, hread]

/-- The RAPL timer of the task starts. -/
theorem RaplWatched.start {me : Cpu} (h : RaplWatched t x) (hle : ∀ c p, x.1.2 c p ≤ y.1.2 c p)
    (hl : l.1 = .irq me (.startRapl t)) (hw : y.2 = x.2.write t x.1 l y.1)
    (hexec : (x.1.1.metered x.1.2).exec l.1 = .ok y.1.1) : RaplWatched t y := by
  have hwrite : y.2 = { x.2 with since := x.1.2 me } := by
    rw [hw]
    simp only [RaplWatch.write, hl, if_true]
  rw [hl] at hexec
  have hstart : ({ x.1.1.metered x.1.2 with
      irqs := (x.1.1.metered x.1.2).irqs.erase (me, .startRapl t) } : State).startTimerRapl me t =
        .ok y.1.1 := hexec
  obtain ⟨m, hm, hm'⟩ := meter_startTimerRapl hstart
  refine ⟨fun m' hmeter _ p => ?_, fun r hr p => h.readings r (by rwa [hwrite] at hr) p⟩
  obtain rfl := Option.some_inj.mp (hm'.symm.trans hmeter)
  rw [hwrite]
  exact ⟨smonRaplRead_metered x.1.1 x.1.2 me p, hle me p⟩

theorem RaplWatched.step (h : RaplWatched t x) (hforest : Forest x.1.1.book ring)
    (hstep : Beside MeteredStep (RaplWatch.write t) x l y) : RaplWatched t y := by
  obtain ⟨⟨hle, hy, -, hexec⟩, hw⟩ := hstep
  have hle' : ∀ c p, x.1.2 c p ≤ y.1.2 c p := hy ▸ hle
  rcases execMetered_cases hexec with ⟨u, hl, htick⟩ | ⟨hno, hexec⟩
  · by_cases hu : u = t
    · subst hu
      exact h.tick hle hy hl hw htick
    · refine h.keep hle' ?_ fun m hm hon => ⟨m, ?_, hon, rfl, rfl⟩
      · rw [hw]
        simp only [RaplWatch.write, hl, hu, false_and, if_false]
        split <;> rfl
      · have hsame := meters_smonSchedTimerRaplWith_of_ne (fun heq => hu heq.symm) htick
        exact hsame.symm.trans hm
  · by_cases hstart : ∃ me, l.1 = .irq me (.startRapl t)
    · obtain ⟨me, hl⟩ := hstart
      exact h.start hle' hl hw hexec
    have hsame : y.2 = x.2 := by
      rw [hw, RaplWatch.write]
      split
      · rename_i me u hl
        rw [if_neg]
        rintro rfl
        exact hstart ⟨me, hl⟩
      · rename_i u hl
        exact absurd hl (hno u)
      · rfl
    have hforest' : Forest (x.1.1.metered x.1.2).book ring := hforest
    refine h.keep hle' hsame fun m hm hon => ?_
    have hturn := exec_meter_turn hforest' t hexec
    generalize l.1 = label at hturn hstart hno
    cases hturn with
    | same hmeters => exact ⟨m, hmeters.symm.trans hm, hon, rfl, rfl⟩
    | start => exact absurd ⟨_, rfl⟩ hstart
    | tick => exact absurd rfl (hno t)
    | info _ _ hm₀ _ hm' =>
      obtain rfl := Option.some_inj.mp (hm'.symm.trans hm)
      exact ⟨_, hm₀, hon, rfl, rfl⟩
    | new _ _ hm' =>
      obtain rfl := Option.some_inj.mp (hm'.symm.trans hm)
      cases hon
    | gone hnone => exact absurd (hnone.symm.trans hm) (by simp)

theorem watched_of_run (init : s₀.Initial)
    (run : Run (Beside MeteredStep (RaplWatch.write t)) ((s₀, e₀), .nothing) ls x) : RaplWatched t x := by
  have hall := run.invariant (motive := fun x =>
    (∃ ring, Forest x.1.1.book ring) ∧ RaplWatched t x) ⟨⟨_, Initial.forest init⟩, ?_, ?_⟩ ?_
  · exact hall.2
  · intro m hm
    simp [meters, init.tasks] at hm
  · intro r hr
    cases hr
  · rintro x l y ⟨⟨ring, hforest⟩, h⟩ hstep
    exact ⟨hstep.1.forest hforest, h.step hforest hstep⟩

/-- **When a RAPL record holds the energy consumed**: whatever the energy was in the beginning, and
however it grew, a record is exact if and only if no register has started over between its reads. -/
theorem exact_iff_unwrapped (init : s₀.Initial)
    (run : Run (Beside MeteredStep (RaplWatch.write t)) ((s₀, e₀), .nothing) ls ((s, e), w)) :
    ∀ r ∈ w.readings, r.Exact ↔ r.Unwrapped := by
  intro r hr
  have hwatched := (watched_of_run init run).readings r hr
  constructor
  · intro hexact p
    obtain ⟨-, hplane⟩ := hwatched p
    obtain ⟨heq, -⟩ := hexact p
    rw [hplane] at heq
    exact (toInt_reading_sub_eq_iff (by decide)).mp heq
  · intro hunwrapped p
    obtain ⟨hle, hplane⟩ := hwatched p
    have heq := (toInt_reading_sub_eq_iff (v := 64) (by decide)).mpr (hunwrapped p)
    rw [hplane]
    exact ⟨heq, by rw [heq]; omega⟩

end Runs

/-! ### A register that starts over -/

/-- What the next event leads to. A fault changes nothing. -/
def nextMetered (t : TaskId) (x : (State × Energies) × RaplWatch) (l : Label × Energies) :
    (State × Energies) × RaplWatch :=
  match (x.1.1.metered x.1.2).execMetered l.2 l.1 with
  | .ok s => ((s, l.2), x.2.write t x.1 l (s, l.2))
  | .error _ => x

theorem beside_nextMetered {t : TaskId} {x : (State × Energies) × RaplWatch} {l : Label × Energies}
    (hle : ∀ c p, x.1.2 c p ≤ l.2 c p) (henabled : (x.1.1.metered x.1.2).Enabled l.1)
    (hok : ((x.1.1.metered x.1.2).execMetered l.2 l.1).toBool = true) :
    Beside MeteredStep (RaplWatch.write t) x l (nextMetered t x l) := by
  unfold nextMetered
  split
  · rename_i s hs
    exact ⟨⟨hle, rfl, henabled, hs⟩, rfl⟩
  · rename_i f hf
    rw [hf] at hok
    cases hok

/-- One unit before the registers start over. -/
def almostOver : Energies := fun _ _ => 4294967295

/-- Ten units later. -/
def startedOver : Energies := fun _ _ => 4294967305

theorem almostOver_le (c : Cpu) (p : Plane) : almostOver c p ≤ startedOver c p := by
  unfold almostOver startedOver
  decide

/-- A task with RAPL samples has been registered. -/
def metering₁ : (State × Energies) × RaplWatch :=
  nextMetered 0 ((boot [] [fixedOnly], almostOver), .nothing)
    (.register 0 1 (every 10) 0 ⟨true, true, true⟩, almostOver)

/-- Its RAPL timer has started. -/
def metering₂ : (State × Energies) × RaplWatch :=
  nextMetered 0 metering₁ (.irq 0 (.startRapl 0), almostOver)

/-- Ten milliseconds and ten units later. -/
def metering₃ : (State × Energies) × RaplWatch :=
  nextMetered 0 metering₂ (.time 10000000, startedOver)

/-- The timer has ticked. -/
def metering₄ : (State × Energies) × RaplWatch := nextMetered 0 metering₃ (.raplTick 0, startedOver)

theorem run_metering : ∃ ls, Run (Beside MeteredStep (RaplWatch.write 0))
    ((boot [] [fixedOnly], almostOver), .nothing) ls metering₄ := by
  have h₁ : Beside MeteredStep (RaplWatch.write 0) ((boot [] [fixedOnly], almostOver), .nothing)
      (.register 0 1 (every 10) 0 ⟨true, true, true⟩, almostOver) metering₁ :=
    beside_nextMetered (fun _ _ => Nat.le_refl _) trivial rfl
  have h₂ : Beside MeteredStep (RaplWatch.write 0) metering₁ (.irq 0 (.startRapl 0), almostOver)
      metering₂ := beside_nextMetered (fun _ _ => Nat.le_refl _) (by decide) rfl
  have h₃ : Beside MeteredStep (RaplWatch.write 0) metering₂ (.time 10000000, startedOver) metering₃ :=
    beside_nextMetered almostOver_le trivial rfl
  have h₄ : Beside MeteredStep (RaplWatch.write 0) metering₃ (.raplTick 0, startedOver) metering₄ :=
    beside_nextMetered (fun _ _ => Nat.le_refl _) (by decide) rfl
  exact ⟨_, .cons h₁ (.cons h₂ (.cons h₃ (.single h₄)))⟩

/-- **A register that starts over**: ten units are consumed, and the record says that it was more
than four thousand million less than none. -/
theorem not_exact_wrapped : (boot [] [fixedOnly]).Initial ∧
    (∃ ls, Run (Beside MeteredStep (RaplWatch.write 0))
      ((boot [] [fixedOnly], almostOver), .nothing) ls metering₄) ∧
    ∃ r ∈ metering₄.2.readings, (∀ p, r.stop p = r.start p + 10) ∧
      r.sample.rapl.pkg.toInt = -4294967286 ∧ ¬ r.Exact := by
  obtain ⟨r, hr, hdiff, hpkg⟩ : ∃ r ∈ metering₄.2.readings,
      (∀ p, r.start p = 4294967295 ∧ r.stop p = 4294967305) ∧
      r.sample.rapl.pkg.toInt = -4294967286 :=
    ⟨_, List.mem_singleton_self _, fun p => ⟨rfl, rfl⟩, by decide⟩
  refine ⟨initial_boot .., run_metering, r, hr, fun p => ?_, hpkg, fun hexact => ?_⟩
  · rw [(hdiff p).1, (hdiff p).2]
  · obtain ⟨-, hneg⟩ := hexact .pkg
    rw [show r.sample.rapl.plane .pkg = r.sample.rapl.pkg from rfl, hpkg] at hneg
    exact absurd hneg (by decide)

theorem exact_iff_unwrapped_metering : ∃ r ∈ metering₄.2.readings, (r.Exact ↔ r.Unwrapped) := by
  obtain ⟨ls, run⟩ := run_metering
  obtain ⟨r, hr⟩ : ∃ r, r ∈ metering₄.2.readings := ⟨_, List.mem_singleton_self _⟩
  exact ⟨r, hr, exact_iff_unwrapped (initial_boot [] [fixedOnly]) run r hr⟩

end SchedMon
