import SchedMon.Tool.Event
import SchedMon.Tool.Evset

/-!
# Which sub-options are accepted

`smon event -a` and `smon evset -a` take a string of items, `key` or `key=value`. The parsers count
how often the required keys occur, and accept if the bitwise AND of the counts is not zero: with
counts 2 and 1 it is. `getsubopt` gives a null value for a key without `=`, which each branch passes
on to a function that reads it. Only `strtok` does not, if it has gone through a list of `events`
before: it finds nothing left of that list, and the item is rejected.

## Main definitions

* `Bare`, `EvsetBare` — a known key whose missing value is read
* `StopsBare` — a string whose first bad item is one
* `EventItems`, `EvsetItems` — the strings that should be accepted
* `Accepts` — a parser accepts what it should, and reads no null value

## Main results

* `addEvent_eq_segfault`, `addEvset_eq_segfault` — when a null value is read
* `accepts_iff` — **when the parsers accept exactly what they should**
* `not_accepts` — a key given twice
-/

namespace SchedMon

open CString

variable {s part : CString} {parts : List CString}

/-! ### Keys without a value -/

/-- A known key without a value. -/
def Bare (keys : List CString) (part : CString) : Prop := ∃ key, getsubopt keys part = (some key, none)

/-- The first item that does not pass is a key whose missing value is read. Whether it is may depend on
the items before. -/
def StopsBare (Passes : CString → Prop) (Null : List CString → CString → Prop)
    (parts : List CString) : Prop :=
  ∃ before part behind, parts = before ++ part :: behind ∧ (∀ part ∈ before, Passes part) ∧
    Null before part

/-- What a parser does with a string it should accept or not. -/
structure Accepts {α : Type} (run : Except Stop α) (Good : Prop) : Prop where
  accepted : (∃ a, run = .ok a) ↔ Good
  safe : run ≠ .error .segfault

theorem key_lt {keys : List CString} {key : ℕ} {val : Option CString}
    (h : getsubopt keys part = (some key, val)) : key < keys.length := by
  have hkey := congrArg Prod.fst h
  exact (List.findIdx?_eq_some_iff_findIdx_eq.mp hkey).1

/-! ### Events -/

/-- The items of an event that should be accepted: a known key with a value each, and each required
key at least once. -/
structure EventItems (parts : List CString) : Prop where
  items : ∀ part ∈ parts, EventPart part
  tag : eventValues 0 parts ≠ []
  evsel : eventValues 2 parts ≠ []
  umask : eventValues 3 parts ≠ []

/-- The counts of the required keys have a bit in common. -/
def CommonBit (parts : List CString) : Prop :=
  (eventValues 0 parts).length &&& (eventValues 2 parts).length &&& (eventValues 3 parts).length ≠ 0

theorem eventAddOpt_eq_segfault {st : EventState} :
    eventAddOpt st part = .error .segfault ↔ Bare eventAddOpts part := by
  unfold eventAddOpt Bare
  generalize hpart : getsubopt eventAddOpts part = x
  obtain ⟨key, val⟩ := x
  cases val with
  | some val =>
    constructor
    · intro h
      dsimp only [deref] at h
      split at h <;> cases h
    · rintro ⟨key, hkey⟩
      cases hkey
  | none =>
    refine ⟨fun h => ?_, ?_⟩
    · dsimp only [deref] at h
      split at h
      · exact ⟨0, rfl⟩
      · exact ⟨1, rfl⟩
      · exact ⟨2, rfl⟩
      · exact ⟨3, rfl⟩
      · cases h
    · rintro ⟨key, hkey⟩
      obtain ⟨rfl, -⟩ := Prod.mk.inj hkey
      have hlt : key < 4 := key_lt hpart
      have hcases : key = 0 ∨ key = 1 ∨ key = 2 ∨ key = 3 := by omega
      rcases hcases with rfl | rfl | rfl | rfl <;> rfl

/-- A loop that reads a null value stops there. -/
theorem foldlM_eq_segfault {σ : Type} {opt : σ → CString → Except Stop σ} {Passes : CString → Prop}
    {Null : List CString → CString → Prop} {motive : List CString → σ → Prop}
    (hstep : ∀ before st part st', motive before st → opt st part = .ok st' →
      motive (before ++ [part]) st')
    (hpass : ∀ before st part, motive before st → ((∃ st', opt st part = .ok st') ↔ Passes part))
    (hnull : ∀ before st part, motive before st →
      (opt st part = .error .segfault ↔ Null before part)) (st : σ) (hst : motive [] st) :
    parts.foldlM opt st = .error .segfault ↔ StopsBare Passes Null parts := by
  rw [foldlM_eq_error]
  constructor
  · rintro ⟨before, part, behind, st', rfl, hbefore, hpart⟩
    have hinv : motive before st' := foldlM_inv hstep hst hbefore
    exact ⟨before, part, behind, rfl, (exists_foldlM_eq_ok hstep hpass hst).mp ⟨st', hbefore⟩,
      (hnull before st' part hinv).mp hpart⟩
  · rintro ⟨before, part, behind, rfl, hbefore, hpart⟩
    obtain ⟨st', hst'⟩ := (exists_foldlM_eq_ok hstep hpass hst).mpr hbefore
    have hinv : motive before st' := foldlM_inv hstep hst hst'
    exact ⟨before, part, behind, st', rfl, hst', (hnull before st' part hinv).mpr hpart⟩

theorem ite_throw_ne_segfault {α : Type} {p : Prop} [Decidable p] {x : Except Stop α}
    (h : x ≠ .error .segfault) : (if p then throw (.returns 1) else x) ≠ .error .segfault := by
  split
  · intro heq
    cases heq
  · exact h

theorem addEvent_eq : addEvent s = parseEventAdd s >>= fun event => pure ('a', event) := by
  rw [addEvent, parseEvent, getopt_add]
  rfl

theorem exists_eventAddOpt_eq_ok (st : EventState) (part : CString) :
    (∃ st', eventAddOpt st part = .ok st') ↔ EventPart part := by
  simp only [eventAddOpt_eq_ok, exists_and_left, exists_eq, and_true]

/-- **When `parse_event` reads a null value.** -/
theorem addEvent_eq_segfault :
    addEvent s = .error .segfault ↔
      StopsBare EventPart (fun _ => Bare eventAddOpts) (suboptions s) := by
  rw [← foldlM_eq_segfault (motive := fun _ _ => True) (fun _ _ _ _ _ _ => trivial)
    (fun _ st part _ => exists_eventAddOpt_eq_ok st part) (fun _ _ _ _ => eventAddOpt_eq_segfault)
    ⟨⟨⟨0⟩, []⟩, 0, 0, 0⟩ trivial, addEvent_eq, parseEventAdd, bind_eq_error, bind_eq_error]
  constructor
  · rintro ((h | ⟨st, -, h⟩) | ⟨event, -, h⟩)
    · exact h
    · refine absurd h (ite_throw_ne_segfault ?_)
      split <;> intro heq <;> cases heq
    · cases h
  · exact fun h => .inl (.inl h)

/-- **When `parse_event` accepts.** -/
theorem exists_addEvent_eq_ok : (∃ r, addEvent s = .ok r) ↔
    (∀ part ∈ suboptions s, EventPart part) ∧ CommonBit (suboptions s) := by
  simp only [addEvent_eq, bind_eq_ok, pure_eq_ok]
  constructor
  · rintro ⟨_, event, h, rfl⟩
    obtain ⟨hparts, hcount, -⟩ := parseEventAdd_eq_ok.mp h
    exact ⟨hparts, hcount⟩
  · rintro ⟨hparts, hcount⟩
    exact ⟨_, _, parseEventAdd_eq_ok.mpr ⟨hparts, hcount, rfl⟩, rfl⟩

/-- Each required key occurs in a string that is accepted. -/
theorem eventItems_of_commonBit (hparts : ∀ part ∈ parts, EventPart part) (hbit : CommonBit parts) :
    EventItems parts := by
  refine ⟨hparts, fun h => hbit ?_, fun h => hbit ?_, fun h => hbit ?_⟩
  · rw [h, List.length_nil, Nat.zero_and, Nat.zero_and]
  · rw [h, List.length_nil, Nat.and_zero, Nat.zero_and]
  · rw [h, List.length_nil, Nat.and_zero]

/-! ### Event sets -/

/-- A list of event ids, for some notion of an id that is small enough. -/
structure EvidList (Below : CString → Prop) (list : CString) : Prop where
  ne_nil : strtokAll ':' list ≠ []
  length_le : (strtokAll ':' list).length ≤ maxGpCtrs
  below : ∀ token ∈ strtokAll ':' list, Below token

/-- A sub-option of an event set with its value, which is a list of event ids for `events`. -/
def EvsetPart (Below : CString → Prop) (part : CString) : Prop :=
  ∃ key val, getsubopt evsetAddOpts part = (some key, some val) ∧ (key = 1 → EvidList Below val)

/-- The number a token stands for is small enough. -/
def BelowMax (token : CString) : Prop := numeral token < maxEvents

/-- The `int` it is converted to is. -/
def ReadsBelowMax (token : CString) : Prop := (toUInt (strtoul token)).toInt < maxEvents

/-- The items of an event set that should be accepted. -/
structure EvsetItems (parts : List CString) : Prop where
  items : ∀ part ∈ parts, EvsetPart BelowMax part
  tag : values evsetAddOpts 0 parts ≠ []
  events : values evsetAddOpts 1 parts ≠ []

/-- The counts of the required keys have a bit in common. -/
def EvsetCommonBit (parts : List CString) : Prop :=
  (values evsetAddOpts 0 parts).length &&& (values evsetAddOpts 1 parts).length ≠ 0

/-- The loop over the ids. -/
theorem exists_readEvids_eq_ok {ntok : ℕ} {tokens : List CString} (hn : ntok ≤ maxGpCtrs) :
    (∃ read, readEvids ntok tokens = .ok read) ↔
      ntok + tokens.length ≤ maxGpCtrs ∧ ∀ token ∈ tokens, ReadsBelowMax token := by
  induction tokens generalizing ntok with
  | nil => exact ⟨fun _ => ⟨hn, by simp⟩, fun _ => ⟨[], rfl⟩⟩
  | cons token tokens ih =>
    simp only [readEvids, ite_throw_eq_ok, bind_eq_ok, pure_eq_ok, List.length_cons,
      List.forall_mem_cons, ReadsBelowMax, Int.not_le]
    constructor
    · rintro ⟨_, hne, hbelow, rest, hrest, rfl⟩
      have hroom : ntok + 1 ≤ maxGpCtrs := by omega
      obtain ⟨hlength, htokens⟩ := (ih hroom).mp ⟨rest, hrest⟩
      exact ⟨by omega, hbelow, htokens⟩
    · rintro ⟨hlength, hbelow, htokens⟩
      have hroom : ntok + 1 ≤ maxGpCtrs := by omega
      obtain ⟨rest, hrest⟩ := (ih hroom).mpr ⟨by omega, htokens⟩
      exact ⟨_, by omega, hbelow, rest, hrest, rfl⟩

/-- A sub-option that the parser passes. -/
theorem exists_evsetAddOpt_eq_ok {st : EvsetState} {vals : List CString} (hreads : st.Reads vals)
    (part : CString) : (∃ st', evsetAddOpt st part = .ok st') ↔ EvsetPart ReadsBelowMax part := by
  unfold evsetAddOpt EvsetPart
  generalize hpart : getsubopt evsetAddOpts part = x
  obtain ⟨key, val⟩ := x
  cases val with
  | none =>
    constructor
    · rintro ⟨st', h⟩
      dsimp only at h
      split at h
      · cases h
      · -- `events`, of which nothing is left
        obtain ⟨events, hval, h⟩ := bind_eq_ok.mp h
        obtain ⟨hne, -⟩ := ite_throw_eq_ok.mp h
        cases hreads.value (deref_eq_ok.mp hval) hne
      · cases h
      · cases h
    · rintro ⟨key, val, h, -⟩
      cases h
  | some val =>
    dsimp only [deref, Option.or]
    split
    · exact ⟨fun _ => ⟨0, val, rfl, fun h => by cases h⟩, fun _ => ⟨_, rfl⟩⟩
    · -- `events`
      have hread : (∃ read, readEvids 0 (strtokAll ':' val) = .ok read) ↔ _ :=
        exists_readEvids_eq_ok (Nat.zero_le _)
      simp only [bind_of_ok (rfl : (Except.ok val : Except Stop CString) = .ok val),
        ite_throw_eq_ok, bind_eq_ok, pure_eq_ok]
      constructor
      · rintro ⟨st', hne, read, hok, -⟩
        obtain ⟨hlength, hbelow⟩ := hread.mp ⟨read, hok⟩
        exact ⟨1, val, rfl, fun _ => ⟨hne, by omega, hbelow⟩⟩
      · rintro ⟨key, val', h, hlist⟩
        cases h
        obtain ⟨hne, hlength, hbelow⟩ := hlist rfl
        obtain ⟨read, hok⟩ := hread.mpr ⟨by omega, hbelow⟩
        exact ⟨_, hne, read, hok, rfl⟩
    · exact ⟨fun _ => ⟨2, val, rfl, fun h => by cases h⟩, fun _ => ⟨_, rfl⟩⟩
    · rename_i h0 h1 h2
      constructor
      · rintro ⟨st', h⟩
        cases h
      · rintro ⟨key, val', h, -⟩
        obtain ⟨rfl, -⟩ := Prod.mk.inj h
        have hlt : key < 3 := key_lt hpart
        have hcases : key = 0 ∨ key = 1 ∨ key = 2 := by omega
        rcases hcases with rfl | rfl | rfl
        · exact absurd rfl h0
        · exact absurd rfl h1
        · exact absurd rfl h2

theorem readEvids_ne_segfault (ntok : ℕ) (tokens : List CString) :
    readEvids ntok tokens ≠ .error .segfault := by
  induction tokens generalizing ntok with
  | nil => exact fun h => by cases h
  | cons token tokens ih =>
    refine ite_throw_ne_segfault (ite_throw_ne_segfault fun h => ?_)
    rcases bind_eq_error.mp h with h | ⟨read, -, h⟩
    · exact ih (ntok + 1) h
    · cases h

/-- A known key without a value, which is read. Behind a list of `events`, of which nothing is left, a
further `events` is not. -/
def EvsetBare (before : List CString) (part : CString) : Prop :=
  ∃ key, getsubopt evsetAddOpts part = (some key, none) ∧ (key = 1 → eventsValues before = [])

theorem evsetAddOpt_eq_segfault {st : EvsetState} {before : List CString}
    (hreads : st.Reads (eventsValues before)) (part : CString) :
    evsetAddOpt st part = .error .segfault ↔ EvsetBare before part := by
  unfold evsetAddOpt EvsetBare
  generalize hpart : getsubopt evsetAddOpts part = x
  obtain ⟨key, val⟩ := x
  cases val with
  | some val =>
    constructor
    · intro h
      dsimp only [deref, Option.or] at h
      split at h
      · cases h
      · refine absurd h (ite_throw_ne_segfault fun h => ?_)
        rcases bind_eq_error.mp h with h | ⟨read, -, h⟩
        · exact readEvids_ne_segfault 0 _ h
        · cases h
      · cases h
      · cases h
    · rintro ⟨key, hkey, -⟩
      cases hkey
  | none =>
    dsimp only
    rw [Option.none_or, hreads.saved]
    refine ⟨fun h => ?_, ?_⟩
    · split at h
      · exact ⟨0, rfl, fun h => by cases h⟩
      · refine ⟨1, rfl, fun _ => ?_⟩
        by_contra hne
        rw [if_neg hne] at h
        cases h
      · exact ⟨2, rfl, fun h => by cases h⟩
      · cases h
    · rintro ⟨key, hkey, hevents⟩
      obtain ⟨rfl, -⟩ := Prod.mk.inj hkey
      have hlt : key < 3 := key_lt hpart
      have hcases : key = 0 ∨ key = 1 ∨ key = 2 := by omega
      rcases hcases with rfl | rfl | rfl
      · rfl
      · rw [if_pos (hevents rfl)]
        rfl
      · rfl

/-- What a sub-option adds to the count of tags. -/
theorem evsetAddOpt_ftag {st st' : EvsetState} (h : evsetAddOpt st part = .ok st') :
    st'.ftag = st.ftag + (values evsetAddOpts 0 [part]).length := by
  unfold evsetAddOpt at h
  generalize hpart : getsubopt evsetAddOpts part = x at h
  obtain ⟨key, val⟩ := x
  have hother : key ≠ some 0 → values evsetAddOpts 0 [part] = [] := fun hne => by
    simp [values, hpart, hne]
  dsimp only at h
  split at h
  · obtain ⟨tag, hval, h⟩ := bind_eq_ok.mp h
    obtain rfl := deref_eq_ok.mp hval
    obtain rfl := pure_eq_ok.mp h
    rw [values_cons_self hpart]
    rfl
  · obtain ⟨events, -, h⟩ := bind_eq_ok.mp h
    obtain ⟨-, h⟩ := ite_throw_eq_ok.mp h
    obtain ⟨read, -, h⟩ := bind_eq_ok.mp h
    obtain rfl := pure_eq_ok.mp h
    rw [hother (by simp)]
    rfl
  · obtain ⟨fixed, -, h⟩ := bind_eq_ok.mp h
    obtain rfl := pure_eq_ok.mp h
    rw [hother (by simp)]
    rfl
  · cases h

/-- What all of them count. -/
theorem evset_counts {st : EvsetState} (h : parts.foldlM evsetAddOpt evsetCleared = .ok st) :
    st.ftag = (values evsetAddOpts 0 parts).length ∧ st.fevents = (eventsValues parts).length := by
  refine ⟨?_, (EvsetState.Reads.run h).fevents⟩
  have hinit : evsetCleared.ftag = (values evsetAddOpts 0 []).length := rfl
  refine foldlM_inv (motive := fun before st => st.ftag = (values evsetAddOpts 0 before).length)
    (fun before st part st' htag hpart => ?_) hinit h
  rw [evsetAddOpt_ftag hpart, htag, values_append, List.length_append]

theorem addEvset_eq : addEvset s = parseEvsetAdd s >>= fun evset => pure ('a', evset) := by
  rw [addEvset, parseEvset, getopt_add]
  rfl

/-- **When `parse_evset` reads a null value.** -/
theorem addEvset_eq_segfault : addEvset s = .error .segfault ↔
    StopsBare (EvsetPart ReadsBelowMax) EvsetBare (suboptions s) := by
  rw [← foldlM_eq_segfault (motive := fun before st => st.Reads (eventsValues before))
    (fun _ _ _ _ hreads hpart => hreads.next hpart)
    (fun _ _ part hreads => exists_evsetAddOpt_eq_ok hreads part)
    (fun _ _ part hreads => evsetAddOpt_eq_segfault hreads part) evsetCleared reads_evsetCleared,
    addEvset_eq, parseEvsetAdd, bind_eq_error, bind_eq_error]
  constructor
  · rintro ((h | ⟨st, -, h⟩) | ⟨evset, -, h⟩)
    · exact h
    · exact absurd h (ite_throw_ne_segfault fun heq => by cases heq)
    · cases h
  · exact fun h => .inl (.inl h)

/-- **When `parse_evset` accepts.** -/
theorem exists_addEvset_eq_ok : (∃ r, addEvset s = .ok r) ↔
    (∀ part ∈ suboptions s, EvsetPart ReadsBelowMax part) ∧ EvsetCommonBit (suboptions s) := by
  rw [← exists_foldlM_eq_ok (motive := fun before st => st.Reads (eventsValues before))
    (fun _ _ _ _ hreads hpart => hreads.next hpart)
    (fun _ _ part hreads => exists_evsetAddOpt_eq_ok hreads part) reads_evsetCleared]
  simp only [addEvset_eq, parseEvsetAdd, bind_eq_ok, ite_throw_eq_ok, pure_eq_ok]
  constructor
  · rintro ⟨_, evset, ⟨st, hst, hcount, -⟩, -⟩
    obtain ⟨htag, hevents⟩ := evset_counts hst
    rw [htag, hevents] at hcount
    exact ⟨⟨st, hst⟩, hcount⟩
  · rintro ⟨⟨st, hst⟩, hbit⟩
    obtain ⟨htag, hevents⟩ := evset_counts hst
    refine ⟨_, _, ⟨st, hst, ?_, rfl⟩, rfl⟩
    rw [htag, hevents]
    exact hbit

theorem mem_values {keys : List CString} {key : ℕ} {val : CString} :
    val ∈ values keys key parts ↔ ∃ part ∈ parts, getsubopt keys part = (some key, some val) := by
  simp only [values, List.mem_filterMap, Prod.ext_iff]
  constructor
  · rintro ⟨part, hpart, h⟩
    split at h
    · rename_i hkey
      exact ⟨part, hpart, hkey, h⟩
    · cases h
  · rintro ⟨part, hpart, hkey, hval⟩
    exact ⟨part, hpart, by rw [if_pos hkey, hval]⟩

/-- Items that are good for one notion of an id are good for another if the ids are. -/
theorem evsetPart_iff {Below Below' : CString → Prop}
    (h : ∀ part ∈ parts, EvsetPart Below part) : (∀ part ∈ parts, EvsetPart Below' part) ↔
      ∀ list ∈ values evsetAddOpts 1 parts, ∀ token ∈ strtokAll ':' list, Below' token := by
  constructor
  · intro h' list hlist token htoken
    obtain ⟨part, hpart, hval⟩ := mem_values.mp hlist
    obtain ⟨key, val, hval', hgood⟩ := h' part hpart
    obtain ⟨hkey, hlists⟩ := Prod.mk.inj (hval'.symm.trans hval)
    cases hkey
    cases hlists
    exact (hgood rfl).below token htoken
  · intro hbelow part hpart
    obtain ⟨key, val, hval, hgood⟩ := h part hpart
    refine ⟨key, val, hval, fun hkey => ⟨(hgood hkey).ne_nil, (hgood hkey).length_le, ?_⟩⟩
    subst hkey
    exact hbelow val (mem_values.mpr ⟨part, hpart, hval⟩)

/-- Each required key occurs in a string that is accepted. -/
theorem ne_nil_of_evsetCommonBit (hbit : EvsetCommonBit parts) :
    values evsetAddOpts 0 parts ≠ [] ∧ values evsetAddOpts 1 parts ≠ [] := by
  refine ⟨fun h => hbit ?_, fun h => hbit ?_⟩
  · rw [h, List.length_nil, Nat.zero_and]
  · rw [h, List.length_nil, Nat.and_zero]

/-! ### What is promised -/

/-- **When the parsers accept exactly what they should.** The first item they stop at is not a key
whose missing value is read. If the required keys occur in a string of good items, their counts have a bit in
common. And of the ids in the lists of `events`, none that is too large slips through, and none
that is small enough is taken for too large. -/
theorem accepts_iff (s : CString) :
    (Accepts (addEvent s) (EventItems (suboptions s)) ↔
      ¬ StopsBare EventPart (fun _ => Bare eventAddOpts) (suboptions s) ∧
      (EventItems (suboptions s) → CommonBit (suboptions s))) ∧
    (Accepts (addEvset s) (EvsetItems (suboptions s)) ↔
      ¬ StopsBare (EvsetPart ReadsBelowMax) EvsetBare (suboptions s) ∧
      (EvsetItems (suboptions s) → EvsetCommonBit (suboptions s) ∧
        ∀ list ∈ values evsetAddOpts 1 (suboptions s), ∀ token ∈ strtokAll ':' list,
          ReadsBelowMax token) ∧
      ((∀ part ∈ suboptions s, EvsetPart ReadsBelowMax part) ∧ EvsetCommonBit (suboptions s) →
        ∀ list ∈ values evsetAddOpts 1 (suboptions s), ∀ token ∈ strtokAll ':' list,
          BelowMax token)) := by
  constructor
  · constructor
    · rintro ⟨haccepted, hsafe⟩
      exact ⟨fun hstop => hsafe (addEvent_eq_segfault.mpr hstop),
        fun hitems => (exists_addEvent_eq_ok.mp (haccepted.mpr hitems)).2⟩
    · rintro ⟨hstop, hbit⟩
      refine ⟨exists_addEvent_eq_ok.trans ⟨fun h => eventItems_of_commonBit h.1 h.2, fun hitems => ?_⟩,
        fun h => hstop (addEvent_eq_segfault.mp h)⟩
      exact ⟨hitems.items, hbit hitems⟩
  · constructor
    · rintro ⟨haccepted, hsafe⟩
      refine ⟨fun hstop => hsafe (addEvset_eq_segfault.mpr hstop), fun hitems => ?_, fun hpass => ?_⟩
      · obtain ⟨hparts, hbit⟩ := exists_addEvset_eq_ok.mp (haccepted.mpr hitems)
        exact ⟨hbit, (evsetPart_iff hparts).mp hparts⟩
      · exact (evsetPart_iff hpass.1).mp (haccepted.mp (exists_addEvset_eq_ok.mpr hpass)).items
    · rintro ⟨hstop, hgood, hpass⟩
      refine ⟨exists_addEvset_eq_ok.trans ⟨fun h => ?_, fun hitems => ?_⟩,
        fun h => hstop (addEvset_eq_segfault.mp h)⟩
      · obtain ⟨htag, hevents⟩ := ne_nil_of_evsetCommonBit h.2
        exact ⟨(evsetPart_iff h.1).mpr (hpass h), htag, hevents⟩
      · obtain ⟨hbit, hreads⟩ := hgood hitems
        exact ⟨(evsetPart_iff hitems.items).mpr hreads, hbit⟩

/-- `tag=a,tag=a,evsel=1,umask=1` gives all that is required, and is rejected. A bare `tag` is not
rejected, but read. -/
theorem not_accepts :
    EventItems (suboptions "tag=a,tag=a,evsel=1,umask=1".toList) ∧
    addEvent "tag=a,tag=a,evsel=1,umask=1".toList = .error (.returns 1) ∧
    ¬ Accepts (addEvent "tag=a,tag=a,evsel=1,umask=1".toList)
      (EventItems (suboptions "tag=a,tag=a,evsel=1,umask=1".toList)) ∧
    addEvset "tag".toList = .error .segfault ∧
    ¬ Accepts (addEvset "tag".toList) (EvsetItems (suboptions "tag".toList)) := by
  have hparts : suboptions "tag=a,tag=a,evsel=1,umask=1".toList =
      ["tag=a".toList, "tag=a".toList, "evsel=1".toList, "umask=1".toList] := by decide
  have hitems : EventItems (suboptions "tag=a,tag=a,evsel=1,umask=1".toList) := by
    rw [hparts]
    refine ⟨?_, by decide, by decide, by decide⟩
    simp only [List.forall_mem_cons, List.not_mem_nil, false_implies, implies_true, and_true]
    exact ⟨⟨0, _, by decide, rfl⟩, ⟨0, _, by decide, rfl⟩, ⟨2, _, by decide, rfl⟩,
      ⟨3, _, by decide, rfl⟩⟩
  have hevent : addEvent "tag=a,tag=a,evsel=1,umask=1".toList = .error (.returns 1) := by
    rw [addEvent_eq, parseEventAdd, hparts]
    rfl
  have htag : addEvset "tag".toList = .error .segfault := by
    rw [addEvset_eq, parseEvsetAdd]
    rfl
  refine ⟨hitems, hevent, fun h => ?_, htag, fun h => h.safe htag⟩
  obtain ⟨r, hr⟩ := h.accepted.mpr hitems
  cases hevent.symm.trans hr

end SchedMon
