import SchedMon.Lib.Run
import SchedMon.Lib.Table
import SchedMon.Tool.Evset

/-!
# The registries of events and event sets

`driver/event.c` and `driver/evset.c`: two arrays of 64 pointers, of which the first `n_events` and
`n_evsets` point to a record. A user adds records, one call at a time, and nothing removes one. An
event set refers to events by their ids, which `smon_set_evset` looks up once; what the interrupt
handlers read later relies on that.

## Main definitions

* `Registry` — both arrays, with the functions of the two files
* `Registry.Call` — what a user may call
* `Registry.Sound` — what a registry guarantees

## Main results

* `Registry.Holds.smonSetEvent`, `Registry.Holds.smonSetEvset` — a call appends one record or fails
* `Registry.Holds.refines` — the registry is the pair of lists the sampling functions work on
* `Registry.integrity_of_run` — **the integrity of the registries**
-/

namespace SchedMon

/-- The static variables of `event.c` and `evset.c`. -/
structure Registry where
  events : Table Event
  evsets : Table Evset

namespace Registry

/-! ### The functions -/

/-- `smon_event_init` and `smon_evset_init`, when the allocations succeed. -/
def init : Registry := ⟨.empty, .empty⟩

/-- `smon_get_event`. -/
def smonGetEvent (r : Registry) (id : U32) : Option Event := r.events.get id.toNat

/-- `smon_get_evset`. -/
def smonGetEvset (r : Registry) (id : U32) : Option Evset := r.evsets.get id.toNat

/-- `smon_check_event`. -/
def smonCheckEvent (r : Registry) (id : U32) : ℤ := if id.toNat < r.events.n then 0 else -3

/-- `smon_check_evset`. -/
def smonCheckEvset (r : Registry) (id : U32) : ℤ := if id.toNat < r.evsets.n then 0 else -5

/-- `table[n++] = new`, in an array of 64 pointers. -/
def store {α : Type} (t : Table α) (new : α) : Except Fault (Table α) :=
  if t.n < 64 then .ok (t.push new) else .error .outOfBounds

/-- `smon_set_event`, with the result of `kmalloc`. -/
def smonSetEvent (r : Registry) (kmalloc : Bool) (event : Event) : Except Fault (ℤ × Registry) :=
  if r.events.n = 64 then return (-2, r)
  else if !kmalloc then return (-1, r)
  else do
    let events ← store r.events event
    return (0, { r with events := events })

/-- The loop of `smon_set_evset` over the event ids: does it get through? -/
def checkEvids (r : Registry) (evset : Evset) : List (Fin maxGpCtrs) → Bool
  | [] => true
  | i :: is =>
    if (evset.evids i).toInt < 0 then r.checkEvids evset is
    else if (r.smonGetEvent (evset.evids i)).isNone then false
    else r.checkEvids evset is

/-- `smon_set_evset`, with the result of `kmalloc`. -/
def smonSetEvset (r : Registry) (kmalloc : Bool) (evset : Evset) : Except Fault (ℤ × Registry) :=
  if r.evsets.n = 64 then return (-4, r)
  else if !kmalloc then return (-1, r)
  -- `wrong_event`: the copy is freed again
  else if !r.checkEvids evset (List.finRange maxGpCtrs) then return (-3, r)
  else do
    let evsets ← store r.evsets evset
    return (0, { r with evsets := evsets })

/-- A call by a user, with the result of `kmalloc`. -/
inductive Call where
  | setEvent (kmalloc : Bool) (event : Event)
  | setEvset (kmalloc : Bool) (evset : Evset)

/-- What a call returns, and the registry behind it. -/
def call (r : Registry) : Call → Except Fault (ℤ × Registry)
  | .setEvent kmalloc event => r.smonSetEvent kmalloc event
  | .setEvset kmalloc evset => r.smonSetEvset kmalloc evset

/-! ### What the tables hold -/

variable {r r' : Registry} {events : List Event} {evsets : List Evset} {event : Event}
  {evset : Evset} {kmalloc : Bool} {c : Call} {cs : List Call}

/-- Every event id in use of an event set is the id of an event. -/
def Refers (events : List Event) (evset : Evset) : Prop :=
  ∀ i, (evset.evids i).toInt < 0 ∨ (events[(evset.evids i).toNat]?).isSome

/-- The registry holds some events and some event sets, which refer to the events. -/
structure Holds (r : Registry) (events : List Event) (evsets : List Evset) : Prop where
  ofEvents : r.events.Holds events
  ofEvsets : r.evsets.Holds evsets
  events_le : events.length ≤ 64
  evsets_le : evsets.length ≤ 64
  refers : ∀ evset ∈ evsets, Refers events evset

theorem holds_init : init.Holds [] [] :=
  ⟨Table.holds_empty, Table.holds_empty, by decide, by decide, by simp⟩

/-- More events do not hurt a reference. -/
theorem Refers.append (h : Refers events evset) (event : Event) :
    Refers (events ++ [event]) evset := by
  intro i
  refine (h i).imp_right fun hsome => ?_
  obtain ⟨e, he⟩ := Option.isSome_iff_exists.mp hsome
  rw [List.getElem?_append_left (List.getElem?_eq_some_iff.mp he).1]
  exact hsome

theorem Holds.refers_iff (h : r.Holds events evsets) (is : List (Fin maxGpCtrs)) :
    r.checkEvids evset is = true ↔
      ∀ i ∈ is, (evset.evids i).toInt < 0 ∨ (events[(evset.evids i).toNat]?).isSome := by
  induction is with
  | nil => simp [checkEvids]
  | cons i is ih =>
    have hget : r.smonGetEvent (evset.evids i) = events[(evset.evids i).toNat]? := h.ofEvents.get _
    rw [checkEvids, hget, List.forall_mem_cons]
    split
    · rename_i hneg
      rw [ih]
      exact ⟨fun his => ⟨.inl hneg, his⟩, fun his => his.2⟩
    · rename_i hneg
      split
      · rename_i hnone
        rw [Option.isNone_iff_eq_none] at hnone
        simp [hneg, hnone]
      · rename_i hsome
        rw [ih]
        refine ⟨fun his => ⟨.inr ?_, his⟩, fun his => his.2⟩
        simpa using hsome

/-- **`smon_set_event` appends one event, or fails and changes nothing.** -/
theorem Holds.smonSetEvent (h : r.Holds events evsets) (kmalloc : Bool) (event : Event) :
    (∃ ret < 0, r.smonSetEvent kmalloc event = .ok (ret, r)) ∨
    r.smonSetEvent kmalloc event = .ok (0, { r with events := r.events.push event }) ∧
      Holds { r with events := r.events.push event } (events ++ [event]) evsets := by
  unfold Registry.smonSetEvent
  split
  · exact .inl ⟨-2, by decide, rfl⟩
  · rename_i hfull
    split
    · exact .inl ⟨-1, by decide, rfl⟩
    · have hle := h.events_le
      have hn := h.ofEvents.n
      have hlt : r.events.n < 64 := by omega
      refine .inr ⟨by rw [store, if_pos hlt]; rfl, ?_⟩
      refine ⟨h.ofEvents.push event, h.ofEvsets, ?_, h.evsets_le,
        fun evset hevset => (h.refers evset hevset).append event⟩
      rw [List.length_append]
      exact hn ▸ hlt

/-- **`smon_set_evset` appends one event set, which refers to events, or fails and changes
nothing.** -/
theorem Holds.smonSetEvset (h : r.Holds events evsets) (kmalloc : Bool) (evset : Evset) :
    (∃ ret < 0, r.smonSetEvset kmalloc evset = .ok (ret, r)) ∨
    r.smonSetEvset kmalloc evset = .ok (0, { r with evsets := r.evsets.push evset }) ∧
      Holds { r with evsets := r.evsets.push evset } events (evsets ++ [evset]) := by
  unfold Registry.smonSetEvset
  split
  · exact .inl ⟨-4, by decide, rfl⟩
  · rename_i hfull
    split
    · exact .inl ⟨-1, by decide, rfl⟩
    · split
      · exact .inl ⟨-3, by decide, rfl⟩
      · rename_i hcheck
        have hle := h.evsets_le
        have hn := h.ofEvsets.n
        have hlt : r.evsets.n < 64 := by omega
        refine .inr ⟨by rw [store, if_pos hlt]; rfl, ?_⟩
        refine ⟨h.ofEvents, h.ofEvsets.push evset, h.events_le, ?_, fun evset' hevset' => ?_⟩
        · rw [List.length_append]
          exact hn ▸ hlt
        · rcases List.mem_append.mp hevset' with hmem | hmem
          · exact h.refers evset' hmem
          · rw [List.mem_singleton.mp hmem]
            have hrefers := (h.refers_iff (List.finRange maxGpCtrs)).mp (by simpa using hcheck)
            exact fun i => hrefers i (List.mem_finRange i)

/-! ### The lists of the driver -/

/-- The lookups of the sampling functions are those of the registry. -/
theorem Holds.smonGetEvent_eq (h : r.Holds events evsets) (id : U32) :
    SchedMon.smonGetEvent (events.map (·.toSmonEvent)) id =
      (r.smonGetEvent id).map (·.toSmonEvent) := by
  rw [Registry.smonGetEvent, h.ofEvents.get, SchedMon.smonGetEvent, List.getElem?_map]

theorem Holds.smonGetEvset_eq (h : r.Holds events evsets) (id : U32) :
    SchedMon.smonGetEvset (evsets.map (·.toSmonEvset)) id =
      (r.smonGetEvset id).map (·.toSmonEvset) := by
  rw [Registry.smonGetEvset, h.ofEvsets.get, SchedMon.smonGetEvset, List.getElem?_map]

/-- **The registry is the pair of lists**: on the lists `smon_set_evset` returns the same, and
leaves behind the list of the event sets that the registry then has. -/
theorem Holds.refines (h : r.Holds events evsets) (kmalloc : Bool) (evset : Evset) :
    ∃ r' evsets', r.smonSetEvset kmalloc evset =
        .ok ((SchedMon.smonSetEvset (events.map (·.toSmonEvent)) (evsets.map (·.toSmonEvset)) kmalloc
          evset.toSmonEvset).1, r') ∧
      r'.Holds events evsets' ∧
      (SchedMon.smonSetEvset (events.map (·.toSmonEvent)) (evsets.map (·.toSmonEvset)) kmalloc
        evset.toSmonEvset).2 = evsets'.map (·.toSmonEvset) := by
  have hlength : (evsets.map (·.toSmonEvset)).length = r.evsets.n := by
    rw [List.length_map, h.ofEvsets.n]
  have hcheck : r.checkEvids evset (List.finRange maxGpCtrs) = true ↔
      ¬ ((List.finRange maxGpCtrs).any fun i => 0 ≤ (evset.evids i).toInt ∧
        (SchedMon.smonGetEvent (events.map (·.toSmonEvent)) (evset.evids i)).isNone) = true := by
    rw [h.refers_iff, List.any_eq_true, not_exists]
    refine forall_congr' fun i => ?_
    rw [not_and, decide_eq_true_eq, not_and, SchedMon.smonGetEvent, List.getElem?_map,
      Option.isNone_map, or_iff_not_imp_left, Int.not_lt, Bool.not_eq_true, Option.isNone_eq_false_iff]
  have hset := h.smonSetEvset kmalloc evset
  unfold Registry.smonSetEvset SchedMon.smonSetEvset at *
  rw [hlength]
  by_cases hfull : r.evsets.n = 64
  · simp only [if_pos hfull]
    exact ⟨r, evsets, rfl, h, rfl⟩
  · by_cases hmalloc : (!kmalloc) = true
    · simp only [if_neg hfull, if_pos hmalloc]
      exact ⟨r, evsets, rfl, h, rfl⟩
    · simp only [if_neg hfull, if_neg hmalloc] at hset ⊢
      by_cases hrefers : r.checkEvids evset (List.finRange maxGpCtrs) = true
      · have hn := h.ofEvsets.n
        have hle := h.evsets_le
        have hlt : r.evsets.n < 64 := by omega
        rw [if_neg (hcheck.mp hrefers)]
        rw [hrefers, store, if_pos hlt] at hset ⊢
        rcases hset with ⟨ret, hret, hcall⟩ | ⟨-, hholds⟩
        · have hret0 : (0 : ℤ) = ret := congrArg (fun x => (x.toOption.getD (1, r)).1) hcall
          exact absurd hret (hret0 ▸ by decide)
        · exact ⟨_, evsets ++ [evset], rfl, hholds, by rw [List.map_append]; rfl⟩
      · rw [if_pos (not_not.mp fun hany => hrefers (hcheck.mpr hany)), Bool.not_eq_true] at *
        rw [hrefers]
        exact ⟨r, evsets, rfl, h, rfl⟩

/-- `smon_pmc_set`, on the registry. -/
def smonPmcSet (r : Registry) (evset : Evset) (msr : ℕ → I64) : ℕ → I64 :=
  let msr := msrWrite ia32FixedCtrCtrl evset.fixedCtrl msr
  let msr := (List.finRange maxGpCtrs).foldl (fun msr (i : Fin maxGpCtrs) =>
    match r.smonGetEvent (evset.evids i) with
    | some event => msrWrite (ia32PerfEvtSel i) event.perfevtsel msr
    | none => msr) msr
  smonPmcClrOverflows msr

theorem Holds.smonPmcSet_eq (h : r.Holds events evsets) (evset : Evset) (msr : ℕ → I64) :
    r.smonPmcSet evset msr =
      SchedMon.smonPmcSet (events.map (·.toSmonEvent)) evset.toSmonEvset msr := by
  unfold Registry.smonPmcSet SchedMon.smonPmcSet
  dsimp only
  congr 2
  funext msr i
  rw [h.smonGetEvent_eq]
  cases r.smonGetEvent (evset.evids i) <;> rfl

/-! ### Runs -/

/-- A call that returned. -/
def Step (r : Registry) (c : Call) (r' : Registry) : Prop := ∃ ret, r.call c = .ok (ret, r')

/-- What a call does: it fails and changes nothing, or its record is added to its table. -/
def Answers (r : Registry) (c : Call) (ret : ℤ) (r' : Registry) : Prop :=
  (ret < 0 ∧ r' = r) ∨
  (ret = 0 ∧ match c with
    | .setEvent _ event => r.events.Grows event r'.events ∧ r'.evsets = r.evsets
    | .setEvset _ evset => r.evsets.Grows evset r'.evsets ∧ r'.events = r.events)

/-- What a registry guarantees: room, ids, and references that the interrupt handlers can follow. -/
structure Sound (r : Registry) : Prop where
  events_le : r.events.n ≤ 64
  evsets_le : r.evsets.n ≤ 64
  eventIds : ∀ id, (r.smonGetEvent id).isSome ↔ id.toNat < r.events.n
  evsetIds : ∀ id, (r.smonGetEvset id).isSome ↔ id.toNat < r.evsets.n
  checks : ∀ id, (r.smonCheckEvent id = 0 ↔ (r.smonGetEvent id).isSome) ∧
    (r.smonCheckEvset id = 0 ↔ (r.smonGetEvset id).isSome)
  refers : ∀ id evset, r.smonGetEvset id = some evset → ∀ i,
    (evset.evids i).toInt < 0 ∨ ∃ event, r.smonGetEvent (evset.evids i) = some event
  sets : ∀ id evset, r.smonGetEvset id = some evset → ∀ i, 0 ≤ (evset.evids i).toInt →
    ∃ event, r.smonGetEvent (evset.evids i) = some event ∧
      ∀ msr, smonPmcStart evset.toSmonEvset (r.smonPmcSet evset msr) (ia32PerfEvtSel i) =
        event.perfevtsel

/-- An id that is valid returns the same record later. -/
structure Keeps (r r' : Registry) : Prop where
  events : ∀ id event, r.smonGetEvent id = some event → r'.smonGetEvent id = some event
  evsets : ∀ id evset, r.smonGetEvset id = some evset → r'.smonGetEvset id = some evset

/-- A call from a registry that holds something. -/
theorem Holds.call (h : r.Holds events evsets) (c : Call) : ∃ ret r' events' evsets',
    r.call c = .ok (ret, r') ∧ r.Answers c ret r' ∧ r'.Holds events' evsets' ∧
    events <+: events' ∧ evsets <+: evsets' := by
  cases c with
  | setEvent kmalloc event =>
    rcases h.smonSetEvent kmalloc event with ⟨ret, hret, hcall⟩ | ⟨hcall, hholds⟩
    · exact ⟨ret, r, events, evsets, hcall, .inl ⟨hret, rfl⟩, h, List.prefix_rfl, List.prefix_rfl⟩
    · exact ⟨0, _, _, _, hcall, .inr ⟨rfl, Table.grows_push .., rfl⟩, hholds, List.prefix_append ..,
        List.prefix_rfl⟩
  | setEvset kmalloc evset =>
    rcases h.smonSetEvset kmalloc evset with ⟨ret, hret, hcall⟩ | ⟨hcall, hholds⟩
    · exact ⟨ret, r, events, evsets, hcall, .inl ⟨hret, rfl⟩, h, List.prefix_rfl, List.prefix_rfl⟩
    · exact ⟨0, _, _, _, hcall, .inr ⟨rfl, Table.grows_push .., rfl⟩, hholds, List.prefix_rfl,
        List.prefix_append ..⟩

/-- A run from a registry that holds something. -/
theorem Holds.run (h : r.Holds events evsets) (run : Run Step r cs r') : ∃ events' evsets',
    r'.Holds events' evsets' ∧ events <+: events' ∧ evsets <+: evsets' := by
  refine run.invariant (motive := fun r' => ∃ events' evsets',
    r'.Holds events' evsets' ∧ events <+: events' ∧ evsets <+: evsets')
    ⟨events, evsets, h, List.prefix_rfl, List.prefix_rfl⟩ ?_
  rintro r₁ c r₂ ⟨events₁, evsets₁, hholds, hevents, hevsets⟩ ⟨ret, hcall⟩
  obtain ⟨ret', r₂', events₂, evsets₂, hcall', -, hholds', hevents', hevsets'⟩ := hholds.call c
  obtain ⟨-, rfl⟩ := Prod.mk.inj (Except.ok.inj (hcall.symm.trans hcall'))
  exact ⟨events₂, evsets₂, hholds', hevents.trans hevents', hevsets.trans hevsets'⟩

theorem Holds.sound (h : r.Holds events evsets) : r.Sound := by
  have hevents := fun id : U32 => h.ofEvents.isSome_get id.toNat
  have hevsets := fun id : U32 => h.ofEvsets.isSome_get id.toNat
  have hrefers : ∀ id evset, r.smonGetEvset id = some evset → ∀ i,
      (evset.evids i).toInt < 0 ∨ ∃ event, r.smonGetEvent (evset.evids i) = some event := by
    intro id evset hget i
    rw [Registry.smonGetEvset, h.ofEvsets.get] at hget
    rw [← Option.isSome_iff_exists, Registry.smonGetEvent, h.ofEvents.get]
    exact h.refers evset (List.mem_of_getElem? hget) i
  refine ⟨h.ofEvents.n ▸ h.events_le, h.ofEvsets.n ▸ h.evsets_le, hevents, hevsets, fun id => ⟨?_, ?_⟩,
    hrefers, fun id evset hget i hi => ?_⟩
  · rw [Registry.smonGetEvent, hevents id, smonCheckEvent]
    split <;> simp_all
  · rw [Registry.smonGetEvset, hevsets id, smonCheckEvset]
    split <;> simp_all
  · obtain ⟨event, hevent⟩ := (hrefers id evset hget i).resolve_left (Int.not_lt.mpr hi)
    refine ⟨event, hevent, fun msr => ?_⟩
    rw [h.smonPmcSet_eq]
    have hevent' : SchedMon.smonGetEvent (events.map (·.toSmonEvent)) (evset.evids i) =
        some event.toSmonEvent := by
      rw [h.smonGetEvent_eq, hevent]
      rfl
    exact smonPmcSet_evtSel hevent' msr

/-- **The integrity of the registries.** After any sequence of calls, with whatever arguments and
allocation failures: the registries are sound, every further call appends its record or fails and
changes nothing, and every id that is valid returns its record for ever. -/
theorem integrity_of_run (run : Run Step init cs r) :
    r.Sound ∧ (∀ c, ∃ ret r', r.call c = .ok (ret, r') ∧ r.Answers c ret r') ∧
    ∀ cs' r', Run Step r cs' r' → r.Keeps r' := by
  obtain ⟨events, evsets, h, -, -⟩ := holds_init.run run
  refine ⟨h.sound, fun c => ?_, fun cs' r' run' => ?_⟩
  · obtain ⟨ret, r', -, -, hcall, hanswers, -⟩ := h.call c
    exact ⟨ret, r', hcall, hanswers⟩
  · obtain ⟨events', evsets', h', hevents, hevsets⟩ := h.run run'
    exact ⟨fun id _ => h.ofEvents.get_of_prefix h'.ofEvents hevents,
      fun id _ => h.ofEvsets.get_of_prefix h'.ofEvsets hevsets⟩

/-- An event, and an event set that uses it twice. -/
theorem integrity_of_run_two : ∃ r, Run Step init
      [.setEvent true ⟨⟨0x41⟩, []⟩, .setEvset true ⟨⟨fun i => if i < 2 then 0 else -1, 0, 3⟩, []⟩] r ∧
    r.evsets.n = 1 ∧ r.Sound := by
  obtain ⟨r, run, hn⟩ : ∃ r, Run Step init
      [.setEvent true ⟨⟨0x41⟩, []⟩, .setEvset true ⟨⟨fun i => if i < 2 then 0 else -1, 0, 3⟩, []⟩] r ∧
      r.evsets.n = 1 := ⟨_, .cons ⟨0, rfl⟩ (.single ⟨0, rfl⟩), rfl⟩
  exact ⟨r, run, hn, (integrity_of_run run).1⟩

end Registry

end SchedMon
