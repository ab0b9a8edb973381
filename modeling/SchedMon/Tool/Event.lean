import SchedMon.Lib.Fallible
import SchedMon.Tool.Cmd

/-!
# The encoding of events

`parse_event` puts the word of an event together from its sub-options, by OR, in whatever order
they come. The word the help text promises is `eventWord`. The parser agrees with it when a mode is
given. Without one it fills in user and kernel mode, but not the bit that enables the counter, which
the branch of `mode` alone sets.

## Main definitions

* `eventWord` — the word of an event
* `Encodes` — what an accepted string should yield

## Main results

* `parseEventAdd_eq_ok` — which strings are accepted, and with which word
* `encodes_iff_mode` — **the encoding is right exactly when a mode is given**
* `not_encodes_default` — an event with the default mode
-/

namespace SchedMon

open CString

variable {s s' part : CString} {parts parts' : List CString} {st st' : EventState} {event : Event}

/-! ### One sub-option -/

/-- The values given for a sub-option of an event. -/
abbrev eventValues (key : ℕ) (parts : List CString) : List CString := values eventAddOpts key parts

/-- A sub-option of an event with its value. -/
def EventPart (part : CString) : Prop :=
  ∃ key val, key < 4 ∧ getsubopt eventAddOpts part = (some key, some val)

/-- The bits of `evsel`. -/
def evselBits (val : CString) : I64 := strtoul val &&& 0xff

/-- The bits of `umask`. -/
def umaskBits (val : CString) : I64 := (strtoul val &&& 0xff) <<< 8

/-- The bits of `mode`: the mode, and the enable bit. -/
def modeBits (val : CString) : I64 := (strtoul val &&& 0x03) <<< 16 ||| ((1 : I64) <<< 22)

/-- What a sub-option does to the variables of the parser. -/
def EventState.add (st : EventState) (part : CString) : EventState :=
  let val := (getsubopt eventAddOpts part).2.getD []
  match (getsubopt eventAddOpts part).1 with
  | some 0 => { st with event.tag := val.take 63, ftag := st.ftag + 1 }
  | some 1 => { st with event.perfevtsel := st.event.perfevtsel ||| modeBits val }
  | some 2 =>
    { st with event.perfevtsel := st.event.perfevtsel ||| evselBits val, fevsel := st.fevsel + 1 }
  | some 3 =>
    { st with event.perfevtsel := st.event.perfevtsel ||| umaskBits val, fumask := st.fumask + 1 }
  | _ => st

theorem setWidth_toUInt {x : I64} (h : x.toNat < 2 ^ 32) : (toUInt x).setWidth 64 = x := by
  apply BitVec.eq_of_toNat_eq
  simp only [toUInt, BitVec.toNat_setWidth]
  rw [Nat.mod_eq_of_lt h, Nat.mod_eq_of_lt x.isLt]

theorem toNat_and_le (x : I64) (mask : I64) : (x &&& mask).toNat ≤ mask.toNat := by
  rw [BitVec.toNat_and]
  exact Nat.and_le_right

theorem toNat_shiftLeft_lt {x : I64} {n k : ℕ} (hx : x.toNat ≤ n) (hn : n * 2 ^ k < 2 ^ 32) :
    (x <<< k).toNat < 2 ^ 32 := by
  rw [BitVec.toNat_shiftLeft, Nat.shiftLeft_eq]
  refine Nat.lt_of_le_of_lt (Nat.mod_le _ _) (Nat.lt_of_le_of_lt ?_ hn)
  exact Nat.mul_le_mul_right _ hx

/-- A sub-option that has its value is accepted, and no other. -/
theorem eventAddOpt_eq_ok : eventAddOpt st part = .ok st' ↔ EventPart part ∧ st' = st.add part := by
  have hbits : ∀ (x mask : I64) (k : ℕ), mask.toNat * 2 ^ k < 2 ^ 32 →
      (toUInt ((x &&& mask) <<< k)).setWidth 64 = (x &&& mask) <<< k := fun x mask k hk =>
    setWidth_toUInt (toNat_shiftLeft_lt (toNat_and_le x mask) hk)
  unfold eventAddOpt EventState.add EventPart
  generalize getsubopt eventAddOpts part = x
  obtain ⟨key, val⟩ := x
  cases val with
  | none =>
    constructor
    · intro h
      dsimp only [deref] at h
      split at h <;> cases h
    · rintro ⟨⟨key, val, -, h⟩, -⟩
      cases h
  | some val =>
    have hshift : ∀ x : I64, x <<< 0 = x := fun x => by simp
    have h0 := hbits (strtoul val) 0xff 0 (by decide)
    rw [hshift] at h0
    have h8 := hbits (strtoul val) 0xff 8 (by decide)
    have h16 := hbits (strtoul val) 0x03 16 (by decide)
    dsimp only [deref, Option.getD_some]
    split
    · constructor
      · intro h
        exact ⟨⟨0, val, by decide, rfl⟩, (pure_eq_ok.mp h).symm⟩
      · rintro ⟨-, rfl⟩
        rfl
    · simp only [bind, Except.bind, h16, BitVec.or_assoc]
      constructor
      · intro h
        exact ⟨⟨1, val, by decide, rfl⟩, (pure_eq_ok.mp h).symm⟩
      · rintro ⟨-, rfl⟩
        rfl
    · simp only [bind, Except.bind, hshift, h0]
      constructor
      · intro h
        exact ⟨⟨2, val, by decide, rfl⟩, (pure_eq_ok.mp h).symm⟩
      · rintro ⟨-, rfl⟩
        rfl
    · simp only [bind, Except.bind, h8]
      constructor
      · intro h
        exact ⟨⟨3, val, by decide, rfl⟩, (pure_eq_ok.mp h).symm⟩
      · rintro ⟨-, rfl⟩
        rfl
    · rename_i h0' h1' h2' h3'
      constructor
      · intro h
        rw [throw_eq_ok] at h
        exact h.elim
      · rintro ⟨⟨k, v, hk, hkey⟩, -⟩
        obtain ⟨rfl, -⟩ := Prod.mk.inj hkey
        have hk' : k = 0 ∨ k = 1 ∨ k = 2 ∨ k = 3 := by omega
        rcases hk' with rfl | rfl | rfl | rfl
        · exact absurd rfl h0'
        · exact absurd rfl h1'
        · exact absurd rfl h2'
        · exact absurd rfl h3'

/-! ### All of them -/

/-- Going through the sub-options succeeds if each has its value. -/
theorem foldlM_eventAddOpt : parts.foldlM eventAddOpt st = .ok st' ↔
    (∀ part ∈ parts, EventPart part) ∧ st' = parts.foldl EventState.add st := by
  induction parts generalizing st with
  | nil =>
    simp only [List.foldlM_nil, pure_eq_ok, List.not_mem_nil, false_implies, implies_true, true_and,
      List.foldl_nil]
    exact eq_comm
  | cons part parts ih =>
    simp only [List.foldlM_cons, bind_eq_ok, eventAddOpt_eq_ok, List.forall_mem_cons, List.foldl_cons]
    constructor
    · rintro ⟨st₁, ⟨hpart, rfl⟩, h⟩
      obtain ⟨hparts, rfl⟩ := ih.mp h
      exact ⟨⟨hpart, hparts⟩, rfl⟩
    · rintro ⟨⟨hpart, hparts⟩, rfl⟩
      exact ⟨_, ⟨hpart, rfl⟩, ih.mpr ⟨hparts, rfl⟩⟩

/-- The OR of some bits of each of some strings. -/
def orAll (bits : CString → I64) (vals : List CString) : I64 :=
  vals.foldr (fun val w => bits val ||| w) 0

theorem orAll_nil (bits : CString → I64) : orAll bits [] = 0 := rfl

theorem orAll_cons (bits : CString → I64) (val : CString) (vals : List CString) :
    orAll bits (val :: vals) = bits val ||| orAll bits vals := rfl

theorem orAll_singleton (bits : CString → I64) (val : CString) : orAll bits [val] = bits val := by
  simp [orAll]

/-- What has been read when all sub-options are through: the word is put together key by key. -/
theorem foldl_add (hparts : ∀ part ∈ parts, EventPart part) : parts.foldl EventState.add st =
    ⟨⟨⟨st.event.perfevtsel ||| (orAll evselBits (eventValues 2 parts) |||
        (orAll umaskBits (eventValues 3 parts) ||| orAll modeBits (eventValues 1 parts)))⟩,
      ((eventValues 0 parts).getLast?.map (List.take 63)).getD st.event.tag⟩,
      st.ftag + (eventValues 0 parts).length, st.fevsel + (eventValues 2 parts).length,
      st.fumask + (eventValues 3 parts).length⟩ := by
  induction parts generalizing st with
  | nil => simp [orAll]
  | cons part parts ih =>
    obtain ⟨⟨key, val, hkey, hpart⟩, hparts⟩ := List.forall_mem_cons.mp hparts
    rw [List.foldl_cons, ih hparts]
    have hself := values_cons_self hpart parts
    have hne := fun k (hk : key ≠ k) => values_cons_ne hpart hk parts
    have hcount : ∀ n (l : List CString), n + 1 + l.length = n + (val :: l).length := fun n l => by
      rw [List.length_cons, Nat.add_right_comm, Nat.add_assoc]
    simp only [EventState.add, hpart, Option.getD_some]
    match key, hkey with
    | 0, _ =>
      simp only [hself, hne 1 (by decide), hne 2 (by decide), hne 3 (by decide), hcount,
        List.getLast?_cons]
      cases (eventValues 0 parts).getLast? <;> rfl
    | 1, _ =>
      simp only [hself, hne 0 (by decide), hne 2 (by decide), hne 3 (by decide), orAll_cons]
      congr 3
      ac_rfl
    | 2, _ =>
      simp only [hself, hne 0 (by decide), hne 1 (by decide), hne 3 (by decide), hcount, orAll_cons]
      congr 3
      ac_rfl
    | 3, _ =>
      simp only [hself, hne 0 (by decide), hne 1 (by decide), hne 2 (by decide), hcount, orAll_cons]
      congr 3
      ac_rfl

/-! ### The word -/

/-- User and kernel mode, if neither is set. -/
def withDefaultMode (w : I64) : I64 :=
  if !w.getLsbD 16 && !w.getLsbD 17 then w ||| ((3 : I64) <<< 16) else w

/-- **Which strings are accepted, and with which event.** -/
theorem parseEventAdd_eq_ok : parseEventAdd s = .ok event ↔
    (∀ part ∈ suboptions s, EventPart part) ∧
    (eventValues 0 (suboptions s)).length &&& (eventValues 2 (suboptions s)).length &&&
      (eventValues 3 (suboptions s)).length ≠ 0 ∧
    event = ⟨⟨withDefaultMode (orAll evselBits (eventValues 2 (suboptions s)) |||
        (orAll umaskBits (eventValues 3 (suboptions s)) |||
          orAll modeBits (eventValues 1 (suboptions s))))⟩,
      ((eventValues 0 (suboptions s)).getLast?.map (List.take 63)).getD []⟩ := by
  simp only [parseEventAdd, bind_eq_ok, foldlM_eventAddOpt]
  constructor
  · rintro ⟨_, ⟨hparts, rfl⟩, h⟩
    rw [foldl_add hparts] at h
    simp only [Nat.zero_add] at h
    split at h
    · rw [throw_eq_ok] at h
      exact h.elim
    · rename_i hcount
      refine ⟨hparts, hcount, ?_⟩
      simp only [SmonEvent.usr, SmonEvent.os, BitVec.ofNat_eq_ofNat, BitVec.zero_or] at h
      unfold withDefaultMode
      split at h
      · rename_i hmode
        rw [if_pos hmode]
        exact (pure_eq_ok.mp h).symm
      · rename_i hmode
        rw [if_neg hmode]
        exact (pure_eq_ok.mp h).symm
  · rintro ⟨hparts, hcount, rfl⟩
    refine ⟨_, ⟨hparts, rfl⟩, ?_⟩
    rw [foldl_add hparts]
    simp only [Nat.zero_add, if_neg hcount, SmonEvent.usr, SmonEvent.os, BitVec.ofNat_eq_ofNat,
      BitVec.zero_or]
    unfold withDefaultMode
    split
    · rfl
    · rfl

/-- The word the help text promises. -/
def eventWord (evsel umask mode : I64) : I64 :=
  evsel &&& (0xff : I64) ||| (umask &&& (0xff : I64)) <<< 8 ||| mode <<< 16 ||| (1 : I64) <<< 22

/-- The mode the help text promises: both, if none is given. -/
def eventMode : List CString → I64
  | [] => 3
  | mode :: _ => if strtoul mode &&& 3 = 0 then 3 else strtoul mode &&& 3

theorem and_three_cases (x : I64) : x &&& 3 = 0 ∨ x &&& 3 = 1 ∨ x &&& 3 = 2 ∨ x &&& 3 = 3 := by
  have hle : (x &&& 3).toNat ≤ 3 := toNat_and_le x 3
  have hcases : (x &&& 3).toNat = 0 ∨ (x &&& 3).toNat = 1 ∨ (x &&& 3).toNat = 2 ∨
      (x &&& 3).toNat = 3 := by omega
  rcases hcases with h | h | h | h
  · exact .inl (BitVec.eq_of_toNat_eq h)
  · exact .inr (.inl (BitVec.eq_of_toNat_eq h))
  · exact .inr (.inr (.inl (BitVec.eq_of_toNat_eq h)))
  · exact .inr (.inr (.inr (BitVec.eq_of_toNat_eq h)))

theorem eventMode_cases (modes : List CString) :
    eventMode modes = 1 ∨ eventMode modes = 2 ∨ eventMode modes = 3 := by
  cases modes with
  | nil => exact .inr (.inr rfl)
  | cons mode modes =>
    rcases and_three_cases (strtoul mode) with h | h
    · exact .inr (.inr (if_pos h))
    · have hne : ¬ strtoul mode &&& 3 = 0 := by
        rcases h with h | h | h <;> rw [h] <;> decide
      rw [eventMode, if_neg hne]
      exact h

/-- With a mode the parser builds the promised word. -/
theorem withDefaultMode_mode (evsel umask mode : CString) :
    withDefaultMode (evselBits evsel ||| (umaskBits umask ||| modeBits mode)) =
      eventWord (strtoul evsel) (strtoul umask) (eventMode [mode]) := by
  have hcases := and_three_cases (strtoul mode)
  simp only [modeBits, eventMode]
  generalize strtoul mode &&& 3 = m at hcases ⊢
  rcases hcases with rfl | rfl | rfl | rfl <;>
    simp [withDefaultMode, evselBits, umaskBits, eventWord, BitVec.or_assoc]

/-- Without one it does not set the enable bit. -/
theorem getLsbD_withDefaultMode_nil (evsel umask : CString) :
    (withDefaultMode (evselBits evsel ||| (umaskBits umask ||| 0))).getLsbD 22 = false := by
  simp [withDefaultMode, evselBits, umaskBits]

/-! ### Reading the word -/

section Word

variable (x y : I64) {m : I64}

theorem getLsbD_eventWord_enable : (eventWord x y m).getLsbD 22 = true := by
  simp [eventWord]

theorem eventWord_and_evsel (hm : m = 1 ∨ m = 2 ∨ m = 3) : eventWord x y m &&& 0xff = x &&& 0xff := by
  have hy : (y &&& 0xff) <<< 8 &&& 0xff = 0 := by
    rw [BitVec.shiftLeft_and_distrib, BitVec.and_assoc]
    exact BitVec.and_zero
  rw [eventWord, BitVec.and_or_distrib_right, BitVec.and_or_distrib_right, BitVec.and_or_distrib_right,
    hy, BitVec.and_assoc]
  rcases hm with rfl | rfl | rfl <;> simp

theorem eventWord_and_umask (hm : m = 1 ∨ m = 2 ∨ m = 3) :
    (eventWord x y m &&& 0x0000ff00) >>> 8 = y &&& 0xff := by
  have hx : x &&& 0xff &&& 0xff00 = 0 := by
    rw [BitVec.and_assoc]
    exact BitVec.and_zero
  have hy : ((y &&& 0xff) <<< 8 &&& 0xff00) >>> 8 = y &&& 0xff := by
    have hle : (y &&& 0xff).toNat ≤ 255 := toNat_and_le y 0xff
    have hshift : (y &&& 0xff) <<< 8 >>> 8 = y &&& 0xff := by
      apply BitVec.eq_of_toNat_eq
      rw [BitVec.toNat_ushiftRight, BitVec.toNat_shiftLeft, Nat.shiftLeft_eq, Nat.shiftRight_eq_div_pow]
      omega
    rw [BitVec.ushiftRight_and_distrib, hshift, BitVec.and_assoc]
    rfl
  rw [eventWord, BitVec.and_or_distrib_right, BitVec.and_or_distrib_right, BitVec.and_or_distrib_right,
    hx, BitVec.ushiftRight_or_distrib, BitVec.ushiftRight_or_distrib, BitVec.ushiftRight_or_distrib, hy]
  rcases hm with rfl | rfl | rfl <;> simp

theorem eventWord_and_mode (hm : m = 1 ∨ m = 2 ∨ m = 3) :
    (eventWord x y m &&& 0xf0000) >>> 16 = m := by
  have hx : x &&& 0xff &&& 0xf0000 = 0 := by
    rw [BitVec.and_assoc]
    exact BitVec.and_zero
  have hy : (y &&& 0xff) <<< 8 &&& 0xf0000 = 0 := by
    rw [BitVec.shiftLeft_and_distrib, BitVec.and_assoc]
    exact BitVec.and_zero
  rw [eventWord, BitVec.and_or_distrib_right, BitVec.and_or_distrib_right, BitVec.and_or_distrib_right,
    hx, hy]
  rcases hm with rfl | rfl | rfl <;> rfl

/-- No bit is set beside those of the three fields and the enable bit. -/
theorem eventWord_and_fields (hm : m = 1 ∨ m = 2 ∨ m = 3) :
    eventWord x y m &&& 0x43ffff = eventWord x y m := by
  have hx : x &&& 0xff &&& 0x43ffff = x &&& 0xff := by
    rw [BitVec.and_assoc]
    rfl
  have hy : (y &&& 0xff) <<< 8 &&& (0x43ffff : I64) = (y &&& 0xff) <<< 8 := by
    rw [BitVec.shiftLeft_and_distrib, BitVec.and_assoc]
    rfl
  rw [eventWord, BitVec.and_or_distrib_right, BitVec.and_or_distrib_right, BitVec.and_or_distrib_right,
    hx, hy]
  rcases hm with rfl | rfl | rfl <;> rfl

theorem eventWord_usr_or_os (hm : m = 1 ∨ m = 2 ∨ m = 3) :
    ((⟨eventWord x y m⟩ : SmonEvent).usr || (⟨eventWord x y m⟩ : SmonEvent).os) = true := by
  rcases hm with rfl | rfl | rfl <;> simp [SmonEvent.usr, SmonEvent.os, eventWord]

end Word

/-! ### What is promised -/

/-- `smon event -a s`. -/
def addEvent (s : CString) : Except Stop (Char × Event) := parseEvent ["-a".toList, s]

theorem addEvent_eq_ok : addEvent s = .ok ('a', event) ↔ parseEventAdd s = .ok event := by
  have hadd : addEvent s = parseEventAdd s >>= fun event => pure ('a', event) := by
    rw [addEvent, parseEvent, getopt_add]
    rfl
  simp only [hadd, bind_eq_ok, pure_eq_ok, Prod.mk.injEq, true_and, exists_eq_right]

/-- The event is what the help text promises: its word is the one put together from the values, the
counter is enabled, in user or in kernel mode, no other bit is set, the fields read back are the
values, and the order of the sub-options plays no role. -/
def Encodes (s : CString) (event : Event) : Prop :=
  ∃ evsel umask, eventValues 2 (suboptions s) = [evsel] ∧ eventValues 3 (suboptions s) = [umask] ∧
    let mode := eventMode (eventValues 1 (suboptions s))
    event.perfevtsel = eventWord (strtoul evsel) (strtoul umask) mode ∧
    event.perfevtsel.getLsbD 22 = true ∧
    (event.usr || event.os) = true ∧
    event.perfevtsel &&& 0x43ffff = event.perfevtsel ∧
    localPrintEvent event.toSmonEvent =
      (toUInt (strtoul evsel &&& 0xff), toUInt (strtoul umask &&& 0xff), toUInt mode,
        toUInt event.perfevtsel) ∧
    ∀ s', (suboptions s').Perm (suboptions s) → addEvent s' = .ok ('a', event)

theorem exists_eq_singleton {vals : List CString} (hle : vals.length ≤ 1) (hne : vals.length ≠ 0) :
    ∃ val, vals = [val] := by
  match vals, hle, hne with
  | [val], _, _ => exact ⟨val, rfl⟩

/-- Permuted sub-options give the same event if no key comes twice. -/
theorem parseEventAdd_perm (honce : ∀ key < 4, (eventValues key (suboptions s)).length ≤ 1)
    (hperm : (suboptions s').Perm (suboptions s)) (h : parseEventAdd s = .ok event) :
    parseEventAdd s' = .ok event := by
  have hvalues : ∀ key < 4, eventValues key (suboptions s') = eventValues key (suboptions s) := by
    intro key hkey
    have hvals : (eventValues key (suboptions s')).Perm (eventValues key (suboptions s)) :=
      values_perm hperm
    have hle := honce key hkey
    generalize eventValues key (suboptions s) = vals at hvals hle ⊢
    match vals, hle with
    | [], _ => exact hvals.eq_nil
    | [val], _ => exact List.perm_singleton.mp hvals
  rw [parseEventAdd_eq_ok] at h ⊢
  obtain ⟨hparts, hcount, hevent⟩ := h
  rw [hvalues 0 (by decide), hvalues 1 (by decide), hvalues 2 (by decide), hvalues 3 (by decide)]
  exact ⟨fun part hpart => hparts part (hperm.mem_iff.mp hpart), hcount, hevent⟩

/-- **An accepted event, with no sub-option given twice, is encoded as promised exactly when its
mode is given.** Without one the counter is not enabled. -/
theorem encodes_iff_mode (haccepts : addEvent s = .ok ('a', event))
    (honce : ∀ key < 4, (eventValues key (suboptions s)).length ≤ 1) :
    Encodes s event ↔ eventValues 1 (suboptions s) ≠ [] := by
  have hadd := addEvent_eq_ok.mp haccepts
  obtain ⟨hparts, hcount, rfl⟩ := parseEventAdd_eq_ok.mp hadd
  have hand : ∀ {a b c : ℕ}, a &&& b &&& c ≠ 0 → b ≠ 0 ∧ c ≠ 0 := by
    intro a b c h
    constructor
    · rintro rfl
      exact h (by simp)
    · rintro rfl
      exact h (by simp)
  obtain ⟨evsel, hevsel⟩ := exists_eq_singleton (honce 2 (by decide)) (hand hcount).1
  obtain ⟨umask, humask⟩ := exists_eq_singleton (honce 3 (by decide)) (hand hcount).2
  constructor
  · rintro ⟨_, _, -, -, -, henable, -⟩ hnil
    rw [hnil, hevsel, humask] at henable
    have hoff := getLsbD_withDefaultMode_nil evsel umask
    rw [orAll_singleton, orAll_singleton, orAll_nil, hoff] at henable
    cases henable
  · intro hmode
    obtain ⟨mode, hmode⟩ := exists_eq_singleton (honce 1 (by decide))
      (fun h => hmode (List.length_eq_zero_iff.mp h))
    have hword : withDefaultMode (orAll evselBits (eventValues 2 (suboptions s)) |||
        (orAll umaskBits (eventValues 3 (suboptions s)) |||
          orAll modeBits (eventValues 1 (suboptions s)))) =
        eventWord (strtoul evsel) (strtoul umask) (eventMode [mode]) := by
      rw [hevsel, humask, hmode, orAll_singleton, orAll_singleton, orAll_singleton]
      exact withDefaultMode_mode evsel umask mode
    have hcases := eventMode_cases [mode]
    refine ⟨evsel, umask, hevsel, humask, ?_⟩
    rw [hword] at hadd ⊢
    rw [hmode]
    refine ⟨rfl, ?_, ?_, ?_, ?_, ?_⟩
    · exact getLsbD_eventWord_enable _ _
    · exact eventWord_usr_or_os _ _ hcases
    · exact eventWord_and_fields _ _ hcases
    · simp only [localPrintEvent]
      rw [eventWord_and_evsel _ _ hcases, eventWord_and_umask _ _ hcases,
        eventWord_and_mode _ _ hcases]
    · intro s' hperm
      exact addEvent_eq_ok.mpr (parseEventAdd_perm honce hperm hadd)

/-- An event of branches retired, in both modes. -/
theorem encodes_iff_mode_branches :
    (addEvent "tag=br,umask=1,mode=3,evsel=0xC4".toList =
      .ok ('a', ⟨⟨0x4301c4⟩, "br".toList⟩)) ∧
    (Encodes "tag=br,umask=1,mode=3,evsel=0xC4".toList ⟨⟨0x4301c4⟩, "br".toList⟩ ↔
      eventValues 1 (suboptions "tag=br,umask=1,mode=3,evsel=0xC4".toList) ≠ []) := by
  have haccepts : addEvent "tag=br,umask=1,mode=3,evsel=0xC4".toList =
      .ok ('a', ⟨⟨0x4301c4⟩, "br".toList⟩) := addEvent_eq_ok.mpr rfl
  exact ⟨haccepts, encodes_iff_mode haccepts (by decide)⟩

/-- The default mode: the event of the same name without the enable bit. -/
theorem not_encodes_default :
    addEvent "tag=br,umask=1,evsel=0xC4".toList = .ok ('a', ⟨⟨0x301c4⟩, "br".toList⟩) ∧
    ¬ Encodes "tag=br,umask=1,evsel=0xC4".toList ⟨⟨0x301c4⟩, "br".toList⟩ := by
  refine ⟨addEvent_eq_ok.mpr rfl, ?_⟩
  rintro ⟨_, _, -, -, -, henable, -⟩
  exact absurd henable (by decide)

end SchedMon
