import SchedMon.Lib.Fallible
import SchedMon.Tool.Cmd

/-!
# Event sets

An event set says three times which counters are in use: by its event ids, by the control word of
the fixed counters, and by the enable bits of both. `parse_evset` fills the three from its
sub-options, and the driver reads the first two in `smon_pmc_set` and `smon_pmc_read`, the third in
`smon_pmc_start`.

A later `events` replaces the ids of an earlier one, but its enable bits are added to those already
there. Then the hardware counts, with whatever event was selected before, where the event set has
none.

## Main definitions

* `Evset.Agrees` — the three views are one
* `Configures` — the counters that an `events` sub-option configures

## Main results

* `EvsetState.Reads.step`, `EvsetState.Reads.run` — what the sub-options have left behind
* `agrees_iff` — **the views are one exactly when the last `events` configures what any configures**
* `not_agrees_replaced` — a counter left enabled
-/

namespace SchedMon

open CString

variable {s part : CString} {parts vals : List CString} {st st' : EvsetState} {evset : Evset}
  {events : List SmonEvent}

/-! ### What an `events` sub-option configures -/

/-- The values given for `events`. -/
abbrev eventsValues (parts : List CString) : List CString := values evsetAddOpts 1 parts

/-- The event id that the value of an `events` sub-option has for a counter. -/
def evidAt (val : CString) (i : Fin maxGpCtrs) : U32 :=
  ((strtokAll ':' val).map fun token => toUInt (strtoul token)).getD i (-1)

/-- The counters that an `events` sub-option configures: those it has an event id for, which is not
negative. -/
def Configures (val : CString) (i : Fin maxGpCtrs) : Prop := 0 ≤ (evidAt val i).toInt

instance (val : CString) (i : Fin maxGpCtrs) : Decidable (Configures val i) :=
  inferInstanceAs (Decidable (0 ≤ (evidAt val i).toInt))

theorem deref_eq_ok {val : Option CString} {str : CString} :
    deref val = .ok str ↔ val = some str := by
  cases val with
  | none => simp [deref]
  | some val => simp [deref]

theorem readEvids_eq_ok {ntok : ℕ} {tokens : List CString} {read : List U32}
    (h : readEvids ntok tokens = .ok read) :
    read = tokens.map fun token => toUInt (strtoul token) := by
  induction tokens generalizing ntok read with
  | nil =>
    cases h
    rfl
  | cons token tokens ih =>
    rw [readEvids] at h
    split at h
    · exact (throw_eq_ok.mp h).elim
    · dsimp only at h
      split at h
      · exact (throw_eq_ok.mp h).elim
      · obtain ⟨rest, hrest, h⟩ := bind_eq_ok.mp h
        cases h
        rw [List.map_cons, ih hrest]

/-! ### Bits -/

/-- The bits after some were set in a loop. -/
theorem getLsbD_foldl_or {n : ℕ} (skip : Fin n → Prop) [DecidablePred skip] (is : List (Fin n))
    (ctrl : I64) (k : ℕ) (hn : n ≤ 64) :
    (is.foldl (fun (ctrl : I64) i => if skip i then ctrl else ctrl ||| (1 : I64) <<< i.val)
      ctrl).getLsbD k = true ↔ ctrl.getLsbD k = true ∨ ∃ i ∈ is, ¬ skip i ∧ k = i := by
  induction is generalizing ctrl with
  | nil => simp
  | cons i is ih =>
    rw [List.foldl_cons, ih]
    have hbit : ((1 : I64) <<< i.val).getLsbD k = true ↔ k = i := by
      have hi : i.val < 64 := Nat.lt_of_lt_of_le i.isLt hn
      rw [BitVec.getLsbD_shiftLeft]
      simp
      omega
    split
    · rename_i hskip
      simp [hskip]
    · rename_i hskip
      rw [BitVec.getLsbD_or, Bool.or_eq_true, hbit, or_assoc]
      simp [hskip]

/-- Setting one bit, or not. -/
theorem getLsbD_ite_or {c : Prop} [Decidable c] (ctrl : I64) {n : ℕ} (hn : n < 64) (k : ℕ) :
    (if c then ctrl ||| (1 : I64) <<< n else ctrl).getLsbD k = true ↔
      ctrl.getLsbD k = true ∨ c ∧ k = n := by
  have hbit : ((1 : I64) <<< n).getLsbD k = true ↔ k = n := by
    rw [BitVec.getLsbD_shiftLeft]
    simp
    omega
  split
  · rename_i hc
    rw [BitVec.getLsbD_or, Bool.or_eq_true, hbit]
    simp [hc]
  · rename_i hc
    simp [hc]

/-- The bits of a word under a mask are those of its widening under the widened mask. -/
theorem and_setWidth_ne_zero (x mask : U32) :
    x &&& mask ≠ 0 ↔ x.setWidth 64 &&& mask.setWidth 64 ≠ 0 := by
  rw [← BitVec.setWidth_and, not_iff_not]
  constructor
  · intro h
    rw [h]
    rfl
  · intro h
    apply BitVec.eq_of_toNat_eq
    have hnat := congrArg BitVec.toNat h
    rw [BitVec.toNat_setWidth, Nat.mod_eq_of_lt (Nat.lt_trans (x &&& mask).isLt (by decide))] at hnat
    exact hnat

theorem or_and_ne_zero (x y mask : I64) :
    (x ||| y) &&& mask ≠ 0 ↔ x &&& mask ≠ 0 ∨ y &&& mask ≠ 0 := by
  rw [BitVec.and_or_distrib_right, ← not_and_or, not_iff_not]
  exact BitVec.or_eq_zero_iff

theorem or_interleave (a b c a' b' c' : Prop) :
    a ∨ b ∨ c ∨ a' ∨ b' ∨ c' ↔ a ∨ a' ∨ b ∨ b' ∨ c ∨ c' := by
  tauto

theorem exists_fx {p : Fin maxFxCtrs → Prop} {k : ℕ} : (∃ i : Fin maxFxCtrs, p i ∧ k = 32 + i) ↔
    p 0 ∧ k = 32 ∨ p 1 ∧ k = 33 ∨ p 2 ∧ k = 34 := by
  constructor
  · rintro ⟨i, hi, rfl⟩
    match i, hi with
    | 0, hi => exact .inl ⟨hi, rfl⟩
    | 1, hi => exact .inr (.inl ⟨hi, rfl⟩)
    | 2, hi => exact .inr (.inr ⟨hi, rfl⟩)
  · rintro (⟨hi, rfl⟩ | ⟨hi, rfl⟩ | ⟨hi, rfl⟩)
    · exact ⟨0, hi, rfl⟩
    · exact ⟨1, hi, rfl⟩
    · exact ⟨2, hi, rfl⟩

/-! ### The sub-options -/

/-- What the variables of the parser hold when the values `vals` of `events` have been read: the
ids are those of the last, the enable bits are those of all, and `strtok` has come to the end of the
last. -/
structure EvsetState.Reads (vals : List CString) (st : EvsetState) : Prop where
  evids : st.evset.evids = (vals.getLast?.map evidAt).getD fun _ => 0
  globalCtrl : ∀ k, st.evset.globalCtrl.getLsbD k = true ↔
    (∃ i : Fin maxGpCtrs, (∃ val ∈ vals, Configures val i) ∧ k = i) ∨
    ∃ i : Fin maxFxCtrs, st.evset.fxEnabled i = true ∧ k = 32 + i
  fevents : st.fevents = vals.length
  saved : st.saved = if vals = [] then none else some []

/-- Nothing is left of a list for a further `events` without a value. -/
theorem EvsetState.Reads.value (hreads : st.Reads vals) {val : Option CString} {events : CString}
    (hval : val.or st.saved = some events) (hne : strtokAll ':' events ≠ []) : val = some events := by
  cases val with
  | some val => exact hval
  | none =>
    rw [Option.none_or, hreads.saved] at hval
    split at hval
    · cases hval
    · cases hval
      exact absurd rfl hne

/-- Every sub-option leaves behind what it should. -/
theorem EvsetState.Reads.step (hreads : st.Reads vals) (h : evsetAddOpt st part = .ok st') :
    st'.Reads (vals ++ eventsValues [part]) := by
  have hvalues : ∀ key val, getsubopt evsetAddOpts part = (some key, some val) →
      eventsValues [part] = if key = 1 then [val] else [] := by
    intro key val hpart
    split
    · rename_i hkey
      subst hkey
      exact values_cons_self hpart []
    · rename_i hkey
      exact values_cons_ne hpart hkey []
  unfold evsetAddOpt at h
  generalize hpart : getsubopt evsetAddOpts part = x at h
  obtain ⟨key, val⟩ := x
  dsimp only at h
  split at h
  · -- `tag`
    obtain ⟨tag, hval, hset⟩ := bind_eq_ok.mp h
    obtain rfl := deref_eq_ok.mp hval
    obtain rfl := pure_eq_ok.mp hset
    rw [hvalues 0 tag hpart, if_neg (by decide), List.append_nil]
    exact ⟨hreads.evids, hreads.globalCtrl, hreads.fevents, hreads.saved⟩
  · -- `events`
    obtain ⟨events, hval, hset⟩ := bind_eq_ok.mp h
    split at hset
    · exact (throw_eq_ok.mp hset).elim
    · rename_i hne
      obtain rfl := hreads.value (deref_eq_ok.mp hval) hne
      obtain ⟨read, hread, hset⟩ := bind_eq_ok.mp hset
      obtain rfl := readEvids_eq_ok hread
      obtain rfl := pure_eq_ok.mp hset
      rw [hvalues 1 events hpart, if_pos rfl]
      refine ⟨?_, fun k => ?_, ?_, ?_⟩
      · rw [List.getLast?_concat]
        rfl
      · refine (getLsbD_foldl_or _ _ _ _ (by decide)).trans ?_
        rw [hreads.globalCtrl k]
        have hconf : ∀ i : Fin maxGpCtrs, (∃ val ∈ vals ++ [events], Configures val i) ↔
            (∃ val ∈ vals, Configures val i) ∨ ¬ (evidAt events i).toInt < 0 := by
          intro i
          simp only [List.mem_append, List.mem_singleton, or_and_right, exists_or, exists_eq_left,
            Configures, Int.not_lt]
        simp only [hconf, or_and_right, exists_or, List.mem_finRange, true_and]
        exact or_right_comm
      · rw [List.length_append, ← hreads.fevents]
        rfl
      · rw [if_neg (by simp)]
  · -- `fixed`
    obtain ⟨fixed, hval, hset⟩ := bind_eq_ok.mp h
    obtain rfl := deref_eq_ok.mp hval
    obtain rfl := pure_eq_ok.mp hset
    rw [hvalues 2 fixed hpart, if_neg (by decide), List.append_nil]
    refine ⟨hreads.evids, fun k => ?_, hreads.fevents, hreads.saved⟩
    simp only [getLsbD_ite_or _ (by decide : 32 < 64), getLsbD_ite_or _ (by decide : 33 < 64),
      getLsbD_ite_or _ (by decide : 34 < 64)]
    rw [hreads.globalCtrl k, exists_fx, exists_fx]
    simp only [SmonEvset.fxEnabled, decide_eq_true_eq, or_and_ne_zero, and_setWidth_ne_zero _ 0x003,
      and_setWidth_ne_zero _ 0x030, and_setWidth_ne_zero _ 0x300]
    simp only [or_and_right, or_assoc]
    exact or_congr_right (or_interleave ..)
  · exact (throw_eq_ok.mp h).elim

/-- Every sub-option keeps that, with the sub-options behind it. -/
theorem EvsetState.Reads.next {before : List CString} (hreads : st.Reads (eventsValues before))
    (h : evsetAddOpt st part = .ok st') : st'.Reads (eventsValues (before ++ [part])) := by
  have hsplit : eventsValues (before ++ [part]) = eventsValues before ++ eventsValues [part] :=
    values_append evsetAddOpts 1 before [part]
  rw [hsplit]
  exact hreads.step h

theorem reads_evsetCleared : evsetCleared.Reads (eventsValues []) := by
  refine ⟨rfl, fun k => ?_, rfl, rfl⟩
  simp [eventsValues, evsetCleared, SmonEvset.fxEnabled]

/-- All of them together. -/
theorem EvsetState.Reads.run (h : parts.foldlM evsetAddOpt evsetCleared = .ok st) :
    st.Reads (eventsValues parts) :=
  foldlM_inv (motive := fun before st => st.Reads (eventsValues before))
    (fun _ _ _ _ hreads hpart => hreads.next hpart) reads_evsetCleared h

/-- An accepted event set has the ids of the last `events`, and the enable bits of all. -/
theorem parseEvsetAdd_eq_ok (h : parseEvsetAdd s = .ok evset) :
    ∃ last, (eventsValues (suboptions s)).getLast? = some last ∧ evset.evids = evidAt last ∧
      ∀ k, evset.globalCtrl.getLsbD k = true ↔
        (∃ i : Fin maxGpCtrs, (∃ val ∈ eventsValues (suboptions s), Configures val i) ∧ k = i) ∨
        ∃ i : Fin maxFxCtrs, evset.fxEnabled i = true ∧ k = 32 + i := by
  obtain ⟨st, hrun, h⟩ := bind_eq_ok.mp h
  have hreads := EvsetState.Reads.run hrun
  split at h
  · exact (throw_eq_ok.mp h).elim
  · rename_i hcount
    obtain rfl := pure_eq_ok.mp h
    cases hlast : (eventsValues (suboptions s)).getLast? with
    | none =>
      rw [hreads.fevents, List.getLast?_eq_none_iff.mp hlast] at hcount
      exact absurd (by simp) hcount
    | some last =>
      have hevids := hreads.evids
      rw [hlast] at hevids
      exact ⟨last, rfl, hevids, hreads.globalCtrl⟩

/-! ### Programming the counters -/

/-- Every event id in use is the id of an event. -/
def SmonEvset.Valid (events : List SmonEvent) (evset : SmonEvset) : Prop :=
  ∀ i, 0 ≤ (evset.evids i).toInt → (smonGetEvent events (evset.evids i)).isSome

/-- The driver accepts no other event set. -/
theorem valid_of_smonSetEvset {evsets evsets' : List SmonEvset} {kmalloc : Bool} {evset : SmonEvset}
    (h : smonSetEvset events evsets kmalloc evset = (0, evsets')) : evset.Valid events := by
  unfold smonSetEvset at h
  split at h
  · cases h
  · split at h
    · cases h
    · split at h
      · cases h
      · rename_i hany
        intro i hi
        by_contra hnone
        refine hany (List.any_eq_true.mpr ⟨i, List.mem_finRange i, ?_⟩)
        simpa using And.intro hi hnone

/-- Selecting events in some registers of a bank. -/
theorem foldl_msrWrite {n : ℕ} {addr : Fin n → ℕ} (haddr : Function.Injective addr)
    (event : Fin n → Option SmonEvent) {i : Fin n} {e : SmonEvent} (hevent : event i = some e)
    (is : List (Fin n)) (msr : ℕ → I64) (h : i ∈ is ∨ msr (addr i) = e.perfevtsel) :
    is.foldl (fun msr i => match event i with
      | some event => msrWrite (addr i) event.perfevtsel msr
      | none => msr) msr (addr i) = e.perfevtsel := by
  induction is generalizing msr with
  | nil => exact h.resolve_left List.not_mem_nil
  | cons j is ih =>
    rw [List.foldl_cons]
    apply ih
    by_cases hj : j = i
    · subst hj
      right
      rw [hevent]
      exact Function.update_self ..
    · rcases h with h | h
      · exact .inl ((List.mem_cons.mp h).resolve_left fun h => hj h.symm)
      · right
        cases event j with
        | none => exact h
        | some event =>
          exact (Function.update_of_ne (fun haddrs => hj (haddr haddrs).symm) ..).trans h

theorem ia32PerfEvtSel_injective : Function.Injective fun i : Fin maxGpCtrs => ia32PerfEvtSel i := by
  intro i j h
  exact Fin.ext (Nat.add_left_cancel h)

/-- A counter with a valid event id gets its event, whatever was selected before. -/
theorem smonPmcSet_evtSel {evset : SmonEvset} {i : Fin maxGpCtrs} {event : SmonEvent}
    (hevent : smonGetEvent events (evset.evids i) = some event) (msr : ℕ → I64) :
    smonPmcStart evset (smonPmcSet events evset msr) (ia32PerfEvtSel i) = event.perfevtsel := by
  have hctrl : ia32PerfEvtSel i ≠ ia32PerfGlobalCtrl := by
    have hi : i.val < 4 := i.isLt
    unfold ia32PerfEvtSel ia32PerfGlobalCtrl
    omega
  have hovf : ia32PerfEvtSel i ≠ ia32PerfGlobalOvfCtrl := by
    have hi : i.val < 4 := i.isLt
    unfold ia32PerfEvtSel ia32PerfGlobalOvfCtrl
    omega
  refine (Function.update_of_ne hctrl ..).trans ((Function.update_of_ne hovf ..).trans ?_)
  exact foldl_msrWrite ia32PerfEvtSel_injective (fun i => smonGetEvent events (evset.evids i)) hevent
    _ _ (.inl (List.mem_finRange i))

/-- The three views of an event set are one, and with it the hardware counts what the event set
says: a counter runs with its own event, and is read, exactly if it is in use. -/
structure SmonEvset.Agrees (events : List SmonEvent) (evset : SmonEvset) : Prop where
  gp : ∀ i : Fin maxGpCtrs, evset.globalCtrl.getLsbD i = true ↔ 0 ≤ (evset.evids i).toInt
  fx : ∀ i : Fin maxFxCtrs, evset.globalCtrl.getLsbD (32 + i) = true ↔
    evset.fixedCtrl &&& (3 <<< (4 * i.val)) ≠ 0
  other : ∀ k, evset.globalCtrl.getLsbD k = true → k < maxGpCtrs ∨ 32 ≤ k ∧ k < 32 + maxFxCtrs
  selects : ∀ (msr : ℕ → I64) (i : Fin maxGpCtrs), evset.globalCtrl.getLsbD i = true →
    ∃ event, smonGetEvent events (evset.evids i) = some event ∧
      smonPmcStart evset (smonPmcSet events evset msr) (ia32PerfEvtSel i) = event.perfevtsel
  starts : ∀ msr, smonPmcStart evset (smonPmcSet events evset msr) ia32PerfGlobalCtrl =
    evset.globalCtrl
  reads : ∀ msr, smonPmcRead evset msr =
    ⟨fun i => if evset.globalCtrl.getLsbD (32 + i) then msr (ia32FxCtr i) else 0,
      fun i => if evset.globalCtrl.getLsbD i then msr (ia32GpCtr i) else 0⟩

/-- The views agree as soon as the enable bits say what the ids and the fixed counters do. -/
theorem agrees_of_globalCtrl {evset : SmonEvset} (hvalid : evset.Valid events)
    (hctrl : ∀ k, evset.globalCtrl.getLsbD k = true ↔
      (∃ i : Fin maxGpCtrs, 0 ≤ (evset.evids i).toInt ∧ k = i) ∨
      ∃ i : Fin maxFxCtrs, evset.fxEnabled i = true ∧ k = 32 + i) : evset.Agrees events := by
  have hgp : ∀ i : Fin maxGpCtrs, evset.globalCtrl.getLsbD i = true ↔ 0 ≤ (evset.evids i).toInt := by
    intro i
    rw [hctrl]
    constructor
    · rintro (⟨j, hj, hij⟩ | ⟨j, -, hij⟩)
      · obtain rfl := Fin.ext hij
        exact hj
      · have hi : i.val < 4 := i.isLt
        omega
    · exact fun hi => .inl ⟨i, hi, rfl⟩
  have hfx : ∀ i : Fin maxFxCtrs, evset.globalCtrl.getLsbD (32 + i) = true ↔
      evset.fxEnabled i = true := by
    intro i
    rw [hctrl]
    constructor
    · rintro (⟨j, -, hij⟩ | ⟨j, hj, hij⟩)
      · have hj : j.val < 4 := j.isLt
        omega
      · obtain rfl := Fin.ext (Nat.add_left_cancel hij)
        exact hj
    · exact fun hi => .inr ⟨i, hi, rfl⟩
  refine ⟨hgp, fun i => (hfx i).trans decide_eq_true_iff, ?_, ?_, ?_, ?_⟩
  · intro k hk
    rcases (hctrl k).mp hk with ⟨i, -, rfl⟩ | ⟨i, -, rfl⟩
    · exact .inl i.isLt
    · exact .inr ⟨Nat.le_add_right _ _, Nat.add_lt_add_left i.isLt _⟩
  · intro msr i hi
    obtain ⟨event, hevent⟩ := Option.isSome_iff_exists.mp (hvalid i ((hgp i).mp hi))
    exact ⟨event, hevent, smonPmcSet_evtSel hevent msr⟩
  · intro msr
    unfold smonPmcStart msrWrite
    exact Function.update_self ..
  · intro msr
    have hgp' : ∀ i : Fin maxGpCtrs, evset.globalCtrl.getLsbD i = evset.gpEnabled i := fun i =>
      Bool.eq_iff_iff.mpr ((hgp i).trans decide_eq_true_iff.symm)
    have hfx' : ∀ i : Fin maxFxCtrs, evset.globalCtrl.getLsbD (32 + i) = evset.fxEnabled i := fun i =>
      Bool.eq_iff_iff.mpr (hfx i)
    simp only [smonPmcRead, hgp', hfx']

/-! ### What is promised -/

/-- `smon evset -a s`. -/
def addEvset (s : CString) : Except Stop (Char × Evset) := parseEvset ["-a".toList, s]

theorem addEvset_eq_ok : addEvset s = .ok ('a', evset) ↔ parseEvsetAdd s = .ok evset := by
  have hadd : addEvset s = parseEvsetAdd s >>= fun evset => pure ('a', evset) := by
    rw [addEvset, parseEvset, getopt_add]
    rfl
  simp only [hadd, bind_eq_ok, pure_eq_ok, Prod.mk.injEq, true_and, exists_eq_right]

/-- **The three views of an accepted event set are one exactly when its last `events` configures
every counter that any of them configures.** -/
theorem agrees_iff (haccepts : addEvset s = .ok ('a', evset)) (hvalid : evset.Valid events) :
    evset.Agrees events ↔
      ∀ val ∈ eventsValues (suboptions s), ∀ i, Configures val i →
        ∀ last ∈ (eventsValues (suboptions s)).getLast?, Configures last i := by
  obtain ⟨last, hlast, hevids, hctrl⟩ := parseEvsetAdd_eq_ok (addEvset_eq_ok.mp haccepts)
  simp only [hlast, Option.mem_some_iff, forall_eq']
  constructor
  · intro hagrees val hval i hconf
    have hbit := (hagrees.gp i).mp ((hctrl i).mpr (.inl ⟨i, ⟨val, hval, hconf⟩, rfl⟩))
    rw [hevids] at hbit
    exact hbit
  · intro hlasts
    refine agrees_of_globalCtrl hvalid fun k => (hctrl k).trans (or_congr_left ?_)
    refine exists_congr fun i => and_congr_left fun _ => ?_
    rw [hevids]
    constructor
    · rintro ⟨val, hval, hconf⟩
      exact hlasts val hval i hconf
    · exact fun hconf => ⟨last, List.mem_of_mem_getLast? hlast, hconf⟩

/-- An event set of two general-purpose counters and a fixed one. -/
theorem agrees_iff_two : ∃ evset,
    addEvset "tag=a,fixed=3,events=0:1".toList = .ok ('a', evset) ∧
    evset.Valid [⟨0x4301c4⟩, ⟨0x4300c0⟩] ∧
    (evset.Agrees [⟨0x4301c4⟩, ⟨0x4300c0⟩] ↔
      ∀ val ∈ eventsValues (suboptions "tag=a,fixed=3,events=0:1".toList), ∀ i, Configures val i →
        ∀ last ∈ (eventsValues (suboptions "tag=a,fixed=3,events=0:1".toList)).getLast?,
          Configures last i) := by
  obtain ⟨evset, hparse⟩ : ∃ evset, parseEvsetAdd "tag=a,fixed=3,events=0:1".toList = .ok evset :=
    ⟨_, rfl⟩
  have hvalid : evset.Valid [⟨0x4301c4⟩, ⟨0x4300c0⟩] := by
    obtain ⟨last, hlast, hevids, -⟩ := parseEvsetAdd_eq_ok hparse
    obtain rfl : "0:1".toList = last := Option.some.inj ((by decide : _ = _).trans hlast)
    rw [SmonEvset.Valid, hevids]
    decide
  have haccepts := addEvset_eq_ok.mpr hparse
  exact ⟨evset, haccepts, hvalid, agrees_iff haccepts hvalid⟩

/-- A counter left enabled: the second one has no event any more. -/
theorem not_agrees_replaced : ∃ evset,
    addEvset "tag=a,events=0:1,events=0:1,events=1".toList = .ok ('a', evset) ∧
    evset.Valid [⟨0x4301c4⟩, ⟨0x4300c0⟩] ∧ ¬ evset.Agrees [⟨0x4301c4⟩, ⟨0x4300c0⟩] := by
  obtain ⟨evset, hparse⟩ :
      ∃ evset, parseEvsetAdd "tag=a,events=0:1,events=0:1,events=1".toList = .ok evset := ⟨_, rfl⟩
  obtain ⟨last, hlast, hevids, hctrl⟩ := parseEvsetAdd_eq_ok hparse
  obtain rfl : "1".toList = last := Option.some.inj ((by decide : _ = _).trans hlast)
  refine ⟨evset, addEvset_eq_ok.mpr hparse, ?_, ?_⟩
  · rw [SmonEvset.Valid, hevids]
    decide
  · intro hagrees
    have hbit := (hagrees.gp 1).mp ((hctrl 1).mpr (.inl ⟨1, by decide, rfl⟩))
    rw [hevids] at hbit
    exact absurd hbit (by decide)

end SchedMon
