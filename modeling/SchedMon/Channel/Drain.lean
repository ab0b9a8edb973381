import Mathlib.Logic.Relation
import SchedMon.Channel.Fifo

/-!
# Draining at the end of a session

The last writer to go leaves an EOF behind, and the reader, woken by `POLLHUP`, reads until it
meets it: there is no other end marker. But EOF goes through `smon_rb_write` like any sample, and
is dropped like any sample when there is no room. It takes four bytes, and always fits its page.

So the session drains exactly when four bytes are free at the last release. If they are not, the
reader runs past the head.

## Main results

* `Reader.Before.drains` — in front of an EOF, the reader prints what is there and is done
* `drains_iff` — when the session drains
-/

namespace SchedMon

open RingBuffer

namespace Reader

/-! ### The reader in front of an EOF -/

/-- One step of the reader with nobody else around. -/
def Alone (a b : Reader × RingBuffer) : Prop := b = a.1.step a.2

/-- Any number of steps of the reader with nobody else around. -/
def Steps : Reader × RingBuffer → Reader × RingBuffer → Prop := Relation.ReflTransGen Alone

theorem Steps.single {s : Reader} {rb : RingBuffer} {p : Reader × RingBuffer}
    (h : s.step rb = p) : Steps (s, rb) p :=
  Relation.ReflTransGen.single h.symm

theorem Steps.trans {a b c : Reader × RingBuffer} (hab : Steps a b) (hbc : Steps b c) :
    Steps a c :=
  Relation.ReflTransGen.trans hab hbc

/-- The reader stands at `u`, in front of `rest` and then an EOF. What it has printed and what
it still has in front of it make up `out`. -/
structure Before (s : Reader) (rb : RingBuffer) (t u h : ℕ) (rest : List Entry)
    (out : List Record) : Prop where
  win : At rb t h
  le : t ≤ u
  follows : s.user.Follows rb t u
  laid : Laid rb.vbyte u (rest ++ [.record .eof]) h
  sample : ∀ r ∈ records rest, r.type ≠ .eof
  out_eq : s.printed ++ records rest = out

variable {s : Reader} {rb : RingBuffer} {t u h : ℕ} {rest : List Entry} {out : List Record}
  {n nr : ℤ} {last : Bool}

theorem Before.of_pc (b : Before s rb t u h rest out) (pc : Pc) :
    Before { s with pc := pc } rb t u h rest out :=
  ⟨b.win, b.le, b.follows, b.laid, b.sample, b.out_eq⟩

/-- There are far fewer records in front of the reader than the ring has bytes. -/
theorem Before.length_lt (b : Before s rb t u h rest out) :
    ((records rest).length : ℤ) < rb.size.toInt := by
  have h4 := b.laid.four_mul_length_le
  have hlt := b.win.lt
  have hle := b.le
  have hsmall := b.win.size_le
  rw [records_append, List.length_append] at h4
  simp only [pageSize_eq, smonMaxPages] at hsmall
  rw [BitVec.toInt_eq_toNat_of_lt (by omega)]
  omega

theorem Before.lt (b : Before s rb t u h rest out) : u < h := by
  have h4 := b.laid.four_mul_length_le
  rw [records_append, List.length_append, show (records [.record .eof]).length = 1 from rfl] at h4
  have hle := b.laid.le
  omega

/-- A record is read in two steps. -/
theorem Before.record {r : Record} (b : Before s rb t u h (.record r :: rest) out)
    (hpc : s.pc = .loop n nr last) (hlt : n < nr) :
    ∃ s', Steps (s, rb) (s', rb) ∧ s'.pc = .loop (n + 1) nr last ∧
      Before s' rb t (u + r.type.totalSize) h rest out := by
  have hne : r.type ≠ .eof := b.sample r (by simp [records])
  obtain ⟨user, hbody, hfollows⟩ :=
    loopBody_record n nr last b.win b.le b.follows b.laid hne
  have hfirst : s.step rb = (s.loopBody rb n nr last, rb) := by
    simp only [step, hpc, if_pos hlt]
  rw [hbody] at hfirst
  obtain ⟨user', hsecond, hfollows'⟩ := step_payload
    (s := { s with
      user := user, pc := .payload r.type (u % rb.size.toNat + headerSize) n nr last })
    b.win b.le hfollows b.laid rfl
  refine ⟨_, (Steps.single hfirst).trans (.single hsecond), rfl, ?_⟩
  have hlaid : Laid rb.vbyte (u + r.type.totalSize) (rest ++ [.record .eof]) h := by
    cases b.laid with
    | record r hw hfit hbytes hrest => exact hrest
  have hle := b.le
  refine ⟨b.win, by omega, hfollows', hlaid, fun r' hr' => b.sample r' ?_, ?_⟩
  · exact List.mem_cons_of_mem _ hr'
  · rw [← b.out_eq]
    simp [records]

/-- A PAD is skipped in one step. -/
theorem Before.pad (b : Before s rb t u h (.pad :: rest) out) (hpc : s.pc = .loop n nr last)
    (hlt : n < nr) :
    ∃ s', Steps (s, rb) (s', rb) ∧ s'.pc = .loop n nr last ∧
      Before s' rb t (nextPage u) h rest out := by
  obtain ⟨hbody, hfollows⟩ := loopBody_pad n nr last b.win b.le b.follows b.laid
  have hstep : s.step rb = (s.loopBody rb n nr last, rb) := by
    simp only [step, hpc, if_pos hlt]
  rw [hbody] at hstep
  have hlaid : Laid rb.vbyte (nextPage u) (rest ++ [.record .eof]) h := by
    cases b.laid with
    | pad hfit hbytes hrest => exact hrest
  have hle := b.le
  have hlt' := lt_nextPage u
  exact ⟨_, .single hstep, hpc,
    b.win, by omega, hfollows, hlaid, b.sample, b.out_eq⟩

/-- The loop ends, in front of the EOF if it was to read more records than there are. -/
theorem Before.loop (b : Before s rb t u h rest out) (hpc : s.pc = .loop n nr last) :
    ∃ s' n' u' rest', Steps (s, rb) (s', rb) ∧ s'.pc = .flush n' last ∧
      Before s' rb t u' h rest' out ∧ (n + (records rest).length < nr → rest' = []) := by
  induction rest generalizing s u n with
  | nil =>
    rcases lt_or_ge n nr with hlt | hge
    · have hstep : s.step rb = (s.loopBody rb n nr last, rb) := by
        simp only [step, hpc, if_pos hlt]
      rw [loopBody_eof n nr last b.win b.follows b.laid rfl] at hstep
      exact ⟨_, _, u, [], .single hstep, rfl, b.of_pc _, fun _ => rfl⟩
    · have hstep : s.step rb = ({ s with pc := .flush n last }, rb) := by
        simp only [step, hpc, if_neg (not_lt.mpr hge)]
      exact ⟨_, _, u, [], .single hstep, rfl, b.of_pc _, fun _ => rfl⟩
  | cons e rest ih =>
    rcases lt_or_ge n nr with hlt | hge
    · cases e with
      | pad =>
        obtain ⟨s₁, hsteps, hpc₁, b₁⟩ := b.pad hpc hlt
        obtain ⟨s', n', u', rest', hsteps', hpc', b', hrest⟩ := ih b₁ hpc₁
        exact ⟨s', n', u', rest', hsteps.trans hsteps', hpc', b', hrest⟩
      | record r =>
        obtain ⟨s₁, hsteps, hpc₁, b₁⟩ := b.record hpc hlt
        obtain ⟨s', n', u', rest', hsteps', hpc', b', hrest⟩ := ih b₁ hpc₁
        refine ⟨s', n', u', rest', hsteps.trans hsteps', hpc', b', fun hnr => hrest ?_⟩
        simp only [records, List.length_cons] at hnr
        omega
    · have hstep : s.step rb = ({ s with pc := .flush n last }, rb) := by
        simp only [step, hpc, if_neg (not_lt.mpr hge)]
      refine ⟨_, _, u, e :: rest, .single hstep, rfl, b.of_pc _, ?_⟩
      intro hnr
      omega

/-- Behind a read the kernel's tail is where the reader is, and the buffer is not empty. -/
theorem Before.flush (b : Before s rb t u h rest out) (hpc : s.pc = .flush n last) :
    ∃ s' rb', Steps (s, rb) (s', rb') ∧ s'.pc = (if last then .done 0 else .poll) ∧
      rb'.active = rb.active ∧ s'.printed = s.printed ∧ Before s' rb' u u h rest out := by
  have hle := b.le
  have hle' := b.laid.le
  have hcons : s.user.smonRbFlush.2.toNat = u - t := b.follows.consumed_eq
  have win := b.win.smonRbRead (BitVec.ofInt 32 n) s.user.smonRbFlush.2
  rw [hcons, if_neg (by omega), show t + (u - t) = u by omega] at win
  have hstep : s.step rb = ({ s with
      user := s.user.smonRbFlush.1, pc := if last then .done 0 else .poll },
      rb.smonRbRead (BitVec.ofInt 32 n) s.user.smonRbFlush.2) := by
    simp only [step, hpc]
  exact ⟨_, _, .single hstep, rfl, rfl, rfl,
    win, le_rfl, b.follows.smonRbFlush.congr rfl rfl, b.laid, b.sample, b.out_eq⟩

/-- With the writers gone and something unread, `smon_poll` reports `POLLHUP`. -/
theorem smonPoll_of_unread (w : At rb t h) (hlt : t < h) (hactive : rb.active = 0) :
    rb.smonPoll = .pollhup := by
  have hcount := w.toNat_rbCount
  have hempty : rb.smonRbIsEmpty = false := by
    simp only [smonRbIsEmpty, decide_eq_false_iff_not]
    intro hzero
    rw [hzero, show (0 : U32).toNat = 0 from rfl] at hcount
    omega
  have hact : rb.smonRbIsActive = false := by simp [smonRbIsActive, hactive]
  simp only [RingBuffer.smonPoll, hact, hempty]
  cases rb.smonRbBatchAvailable <;> rfl

/-- **The final read.** From `poll`, in front of an EOF and with the writers gone, the reader
prints everything and is done. -/
theorem Before.drains (b : Before s rb t u h rest out) (hpc : s.pc = .poll)
    (hactive : rb.active = 0) :
    ∃ s' rb', Steps (s, rb) (s', rb') ∧ s'.pc = .done 0 ∧ s'.printed = out := by
  have hpoll := smonPoll_of_unread b.win (b.le.trans_lt b.lt) hactive
  have hstep : s.step rb = ({ s with pc := .loop 0 s.user.size.toInt true }, rb) := by
    simp only [step, hpc, hpoll]
  obtain ⟨s₁, n₁, u₁, rest₁, hsteps₁, hpc₁, b₁, hrest⟩ :=
    (b.of_pc (.loop 0 s.user.size.toInt true)).loop rfl
  obtain ⟨s₂, rb₂, hsteps₂, hpc₂, -, -, b₂⟩ := b₁.flush hpc₁
  have hnil : rest₁ = [] := by
    refine hrest ?_
    rw [b.follows.size_eq, zero_add]
    exact b.length_lt
  refine ⟨s₂, rb₂, ((Steps.single hstep).trans hsteps₁).trans hsteps₂,
    hpc₂, ?_⟩
  have hout := b₂.out_eq
  rwa [hnil, records, List.append_nil] at hout

end Reader

namespace RingBuffer

/-! ### Filling the buffer -/

variable {rb : RingBuffer} {t h : ℕ}

/-- The buffer after some writes. -/
def writes (rb : RingBuffer) (rs : List Record) : RingBuffer :=
  rs.foldl (fun rb r => (rb.smonRbWrite r).rb) rb

theorem writes_active (rb : RingBuffer) (rs : List Record) :
    (writes rb rs).active = rb.active := by
  induction rs generalizing rb with
  | nil => rfl
  | cons r rs ih => exact (ih _).trans (smonRbWrite_active rb r)

theorem writes_batch (rb : RingBuffer) (rs : List Record) :
    (writes rb rs).batch = rb.batch := by
  induction rs generalizing rb with
  | nil => rfl
  | cons r rs ih => exact (ih _).trans (smonRbWrite_batch rb r)

theorem writes_cons (rb : RingBuffer) (r : Record) (rs : List Record) :
    writes rb (r :: rs) = writes (rb.smonRbWrite r).rb rs := rfl

theorem writes_append (rb : RingBuffer) (rs rs' : List Record) :
    writes rb (rs ++ rs') = writes (writes rb rs) rs' :=
  List.foldl_append

theorem writes_size (rb : RingBuffer) (rs : List Record) : (writes rb rs).size = rb.size := by
  induction rs generalizing rb with
  | nil => rfl
  | cons r rs ih => exact (ih _).trans (smonRbWrite_size rb r)

/-- A write counts its record and queues the wake-up for a complete batch, or does neither. -/
theorem smonRbWrite_items_irq (rb : RingBuffer) (r : Record) :
    (rb.smonRbWrite r).rb.items = rb.items ∧ (rb.smonRbWrite r).rb.irq = rb.irq ∨
      (rb.smonRbWrite r).rb.items = rb.items + 1 ∧
        (rb.smonRbWrite r).rb.irq = (rb.irq || decide (rb.batch ≤ rb.items + 1)) := by
  simp only [smonRbWrite]
  split_ifs
  · exact .inl ⟨rfl, rfl⟩
  · exact .inl ⟨rfl, rfl⟩
  · exact .inr ⟨rfl, rfl⟩
  · exact .inr ⟨rfl, rfl⟩
  · exact .inl ⟨rfl, rfl⟩

theorem writes_items_le (rb : RingBuffer) (rs : List Record) :
    (writes rb rs).items.toNat ≤ rb.items.toNat + rs.length := by
  induction rs generalizing rb with
  | nil => exact Nat.le_refl _
  | cons r rs ih =>
    refine (ih (rb.smonRbWrite r).rb).trans ?_
    have hone : ((rb.smonRbWrite r).rb.items).toNat ≤ rb.items.toNat + 1 := by
      rcases smonRbWrite_items_irq rb r with ⟨h, -⟩ | ⟨h, -⟩
      · rw [h]
        exact Nat.le_succ _
      · rw [h, BitVec.toNat_add]
        exact Nat.mod_le _ _
    rw [List.length_cons]
    omega

/-- Copies of one record, as long as they fit the page and the ring. -/
theorem At.writes_replicate (w : At rb t h) (r : Record) (hr : r.type.writable = true) (k : ℕ)
    (hpage : k * r.type.totalSize ≤ pageLeft h)
    (hroom : h + k * r.type.totalSize - t < rb.size.toNat) :
    At (writes rb (List.replicate k r)) t (h + k * r.type.totalSize) ∧
      (writes rb (List.replicate k r)).size = rb.size := by
  induction k generalizing rb h with
  | zero => exact ⟨by simpa [writes] using w, rfl⟩
  | succ k ih =>
    have hle := w.le
    rw [Nat.succ_mul] at hpage hroom
    have w' : At (rb.smonRbWrite r).rb t (h + r.type.totalSize) := by
      have hc := smonRbWrite_cases w hr
      generalize rb.smonRbWrite r = res at hc
      cases hc with
      | full => omega
      | padded => omega
      | fits hfit hspace => exact w.commit hfit (by omega)
      | wraps => omega
    have hsize := smonRbWrite_size rb r
    have hleft : pageLeft h ≤ pageLeft (h + r.type.totalSize) + r.type.totalSize := by
      simp only [pageLeft, pageSize_eq]
      omega
    obtain ⟨w'', hsize''⟩ := ih w' (by omega) (by rw [hsize]; omega)
    refine ⟨?_, hsize''.trans hsize⟩
    rw [Nat.succ_mul, Nat.add_comm (k * _), ← Nat.add_assoc]
    exact w''

/-- A record that does not fit the page goes to the next one. -/
theorem At.write_wraps (w : At rb t h) (r : Record) (hr : r.type.writable = true)
    (hpage : pageLeft h < r.type.totalSize)
    (hroom : r.type.totalSize + pageLeft h ≤ rb.size.toNat - 1 - (h - t)) :
    At (rb.smonRbWrite r).rb t (nextPage h + r.type.totalSize) ∧
      (rb.smonRbWrite r).rb.size = rb.size := by
  refine ⟨?_, smonRbWrite_size rb r⟩
  have hle := w.le
  have hc := smonRbWrite_cases w hr
  generalize rb.smonRbWrite r = res at hc
  cases hc with
  | full => omega
  | padded => omega
  | fits => omega
  | wraps =>
    have w' := w.smonRbStuffPage (w.stuff_room hpage (by omega))
    refine w'.commit (totalSize_le_pageLeft_nextPage r h) ?_
    rw [smonRbStuffPage_size, nextPage_eq]
    omega

end RingBuffer

namespace Channel

variable {s : Channel} {t u h : ℕ} {fin rest : List Entry} {rb : RingBuffer}

/-! ### The EOF of the last release -/

/-- EOF always fits its page, so only two of the four things a write can do are left. -/
theorem smonRbWriteEof_cases (w : At rb t h) :
    (4 ≤ rb.rbSpace.toNat ∧ rb.smonRbWriteEof = rb.commit .eof) ∨
      (rb.rbSpace.toNat < 4 ∧ rb.smonRbWriteEof = ⟨rb, [], false⟩) := by
  have hpage := four_le_pageLeft w.dvd
  have htot : Record.eof.type.totalSize = 4 := SampleType.totalSize_eof
  rw [w.toNat_rbSpace, smonRbWriteEof]
  have hc := smonRbWrite_cases w (r := .eof) rfl
  generalize hres : rb.smonRbWrite .eof = res at hc
  cases hc with
  | full hfull => exact .inr ⟨by omega, rfl⟩
  | padded hlt => omega
  | fits _ hspace => exact .inl ⟨by omega, rfl⟩
  | wraps hlt => omega

/-- The two flags a release sets mean nothing to the window and the bytes. -/
theorem smonReleaseRb_last (hactive : s.rb.active = 1) :
    s.rb.smonReleaseRb = { ({ s.rb with active := 0 } : RingBuffer).smonRbWriteEof.rb with
      irq := true } := by
  simp only [smonReleaseRb, hactive]
  rfl

theorem Inv.release_dropped (i : Inv s t u h fin rest) (hactive : s.rb.active = 1)
    (hspace : s.rb.rbSpace.toNat < 4) : s.rb.smonReleaseRb.decodeUnread = s.rb.decodeUnread := by
  have i' := i.active 0
  rcases smonRbWriteEof_cases i'.win with ⟨hge, -⟩ | ⟨-, heq⟩
  · exact absurd hge (by
      change ¬4 ≤ s.rb.rbSpace.toNat
      omega)
  · rw [smonReleaseRb_last hactive, heq, i.win.decodeUnread i.laid]
    refine At.decodeUnread (t := t) (h := h) ⟨⟨i.win.pages, i.win.size_eq⟩, i.win.tail_eq,
      i.win.head_eq, i.win.le, i.win.lt, i.win.dvd⟩ i.laid

/-- What writing the EOF leaves behind, when there is room for it. -/
structure EofWritten (s : Channel) (t u h : ℕ) (fin rest : List Entry) (rb : RingBuffer) : Prop where
  win : At rb t (h + 4)
  laidFin : Laid rb.vbyte t fin u
  laidRest : Laid rb.vbyte u (rest ++ [.record .eof]) (h + 4)
  active : rb.active = s.rb.active
  nPages : rb.nPages = s.rb.nPages
  size : rb.size = s.rb.size

theorem Inv.eofWritten (i : Inv s t u h fin rest) (hspace : 4 ≤ s.rb.rbSpace.toNat) :
    EofWritten s t u h fin rest s.rb.smonRbWriteEof.rb := by
  have w := i.win
  have hle := i.le
  have hle' := i.le'
  have hlt := w.lt
  obtain ⟨-, heq⟩ | ⟨hlt', -⟩ := smonRbWriteEof_cases w
  · rw [w.toNat_rbSpace] at hspace
    have hpage : Record.eof.type.totalSize ≤ pageLeft h := four_le_pageLeft w.dvd
    have hroom : h + Record.eof.type.totalSize - t < s.rb.size.toNat := by
      rw [show Record.eof.type.totalSize = 4 from SampleType.totalSize_eof]
      omega
    have hframe : ∀ z, t ≤ z → z < h → (s.rb.commit .eof).rb.vbyte z = s.rb.vbyte z :=
      fun z hz hz' => w.vbyte_commit_of_window hpage hroom hz hz'
    rw [heq]
    exact ⟨w.commit hpage hroom, i.laidFin.congr fun z hz hz' => hframe z hz (by omega),
      (i.laidRest.congr fun z hz hz' => hframe z (by omega) hz').append (w.laid_commit rfl hpage),
      rfl, rfl, rfl⟩
  · exact absurd hspace (not_le.mpr hlt')

theorem EofWritten.irq {rb : RingBuffer} (e : EofWritten s t u h fin rest rb) (irq : Bool) :
    EofWritten s t u h fin rest { rb with irq := irq } :=
  ⟨⟨⟨e.win.pages, e.win.size_eq⟩, e.win.tail_eq, e.win.head_eq, e.win.le, e.win.lt, e.win.dvd⟩,
    e.laidFin, e.laidRest, e.active, e.nPages, e.size⟩

theorem Inv.release (i : Inv s t u h fin rest) (hactive : s.rb.active = 1)
    (hspace : 4 ≤ s.rb.rbSpace.toNat) :
    EofWritten { s with rb := { s.rb with active := 0 } } t u h fin rest s.rb.smonReleaseRb := by
  rw [smonReleaseRb_last hactive]
  exact ((i.active 0).eofWritten hspace).irq true

/-! ### When the session drains -/

/-- What the end of a session is meant to be, once the last writer goes. -/
structure Drains (s : Channel) : Prop where
  /-- The EOF is behind the last accepted record. -/
  eof : ∃ recs, s.rb.decodeUnread = some recs ∧
    s.rb.smonReleaseRb.decodeUnread = some (recs ++ [.eof])
  /-- The reader is told. -/
  pollhup : s.rb.smonReleaseRb.smonPoll = .pollhup
  /-- The reader stops at the EOF, having printed every accepted record once, in order, and
  nothing else. -/
  printed : ∃ reader rb, Reader.Steps (s.reader, s.rb.smonReleaseRb) (reader, rb) ∧
    reader.pc = .done 0 ∧ reader.printed = s.accepted

/-- Wherever the reader is when the last writer goes, it gets to the EOF. -/
theorem Inv.steps_done (i : Inv s t u h fin rest) (hactive : s.rb.active = 1)
    (hspace : 4 ≤ s.rb.rbSpace.toNat) :
    ∃ reader rb, Reader.Steps (s.reader, s.rb.smonReleaseRb) (reader, rb) ∧
      reader.pc = .done 0 ∧ reader.printed = s.accepted := by
  obtain ⟨win, -, laid, hact, hpages, hsize⟩ := i.release hactive hspace
  dsimp only at hact hpages hsize
  obtain ⟨before, hprinted, haccepted⟩ := i.log
  have hout : s.reader.printed ++ records rest = s.accepted := by
    rw [hprinted, haccepted, records_append, List.append_assoc]
  -- from behind a read everything goes the same way
  have hflush : ∀ {reader : Reader} {u' rest' n}, reader.pc = .flush n false →
      reader.Before s.rb.smonReleaseRb t u' (h + 4) rest' s.accepted →
      ∃ reader' rb, Reader.Steps (reader, s.rb.smonReleaseRb) (reader', rb) ∧
        reader'.pc = .done 0 ∧ reader'.printed = s.accepted := by
    intro reader u' rest' n hpc b
    obtain ⟨r₁, rb₁, hsteps₁, hpc₁, hact₁, -, b₁⟩ := b.flush hpc
    obtain ⟨r₂, rb₂, hsteps₂, hpc₂, hprinted₂⟩ := b₁.drains hpc₁ (hact₁.trans hact)
    exact ⟨r₂, rb₂, hsteps₁.trans hsteps₂, hpc₂, hprinted₂⟩
  have hloop : ∀ {reader : Reader} {u' rest' n nr}, reader.pc = .loop n nr false →
      reader.Before s.rb.smonReleaseRb t u' (h + 4) rest' s.accepted →
      ∃ reader' rb, Reader.Steps (reader, s.rb.smonReleaseRb) (reader', rb) ∧
        reader'.pc = .done 0 ∧ reader'.printed = s.accepted := by
    intro reader u' rest' n nr hpc b
    obtain ⟨r₁, n₁, u₁, rest₁, hsteps₁, hpc₁, b₁, -⟩ := b.loop hpc
    obtain ⟨r₂, rb₂, hsteps₂, hpc₂, hprinted₂⟩ := hflush hpc₁ b₁
    exact ⟨r₂, rb₂, hsteps₁.trans hsteps₂, hpc₂, hprinted₂⟩
  have p := i.pc
  cases hpc : s.reader.pc with
  | poll =>
    simp only [PcInv, hpc] at p
    obtain ⟨rfl, f⟩ := p
    exact Reader.Before.drains
      ⟨win, i.le, f.congr hpages hsize, laid, i.sample, hout⟩ hpc hact
  | loop n nr last =>
    simp only [PcInv, hpc] at p
    obtain ⟨rfl, -, -, -, f⟩ := p
    exact hloop hpc ⟨win, i.le, f.congr hpages hsize, laid, i.sample, hout⟩
  | payload ty addr n nr last =>
    simp only [PcInv, hpc] at p
    obtain ⟨rfl, -, -, -, f, r, rest', rfl, rfl, rfl⟩ := p
    obtain ⟨user, hstep, f'⟩ := Reader.step_payload win i.le (f.congr hpages hsize) laid
      (by rw [hpc, hsize])
    have hlaid : Laid s.rb.smonReleaseRb.vbyte (u + r.type.totalSize)
        (rest' ++ [.record .eof]) (h + 4) := by
      cases laid with
      | record r hw hfit hbytes hrest => exact hrest
    have hle := i.le
    obtain ⟨reader', rb', hsteps, hdone⟩ := @hloop { s.reader with
        printed := s.reader.printed ++ [r], user := user, pc := .loop (n + 1) nr false } _ _ _ _ rfl
      ⟨win, by omega, f', hlaid, fun r' hr' => i.sample r' (List.mem_cons_of_mem _ hr'),
        by rw [← hout]; simp [records]⟩
    exact ⟨reader', rb', (Reader.Steps.single hstep).trans hsteps, hdone⟩
  | flush n last =>
    simp only [PcInv, hpc] at p
    obtain ⟨rfl, -, f⟩ := p
    exact hflush hpc ⟨win, i.le, f.congr hpages hsize, laid, i.sample, hout⟩
  | done ret => simp only [PcInv, hpc] at p

theorem Inv.drains (i : Inv s t u h fin rest) (hactive : s.rb.active = 1)
    (hspace : 4 ≤ s.rb.rbSpace.toNat) : s.Drains := by
  obtain ⟨win, laidFin, laidRest, hact, -, -⟩ := i.release hactive hspace
  refine ⟨⟨_, i.win.decodeUnread i.laid, ?_⟩, ?_, i.steps_done hactive hspace⟩
  · rw [win.decodeUnread (laidFin.append laidRest)]
    simp [records]
  · have hle := i.win.le
    exact Reader.smonPoll_of_unread win (by omega) hact

theorem Inv.not_drains (i : Inv s t u h fin rest) (hactive : s.rb.active = 1)
    (hspace : s.rb.rbSpace.toNat < 4) : ¬s.Drains := by
  rintro ⟨⟨recs, hrecs, hrel⟩, -, -⟩
  rw [i.release_dropped hactive hspace, hrecs, Option.some_inj] at hrel
  simpa using congrArg List.length hrel

/-- **When the session drains.** In every state a session can reach, with one writer left: if that
writer goes, the EOF is written, and the reader prints what is left and stops at it, exactly when
four bytes are free. -/
theorem drains_iff {nPages batch : U32} {active : ℤ} {data : ℕ → ℕ → Byte} {es : List Event}
    (hn : Accepted nPages) (hstart : 0 < active)
    (run : Run Step (start nPages data batch active) es s) (hactive : s.rb.active = 1) :
    s.Drains ↔ 4 ≤ s.rb.rbSpace.toNat := by
  obtain ⟨-, t, u, h, fin, rest, i⟩ := exists_inv hn hstart run
  refine ⟨fun hd => ?_, i.drains hactive⟩
  by_contra hspace
  exact i.not_drains hactive (not_le.mp hspace) hd

theorem drains_iff_shortSession :
    (shortSession.foldl next (start 2 (fun _ _ => 0) 1 1)).Drains ↔
      4 ≤ (shortSession.foldl next (start 2 (fun _ _ => 0) 1 1)).rb.rbSpace.toNat :=
  drains_iff ⟨by decide, ⟨1, by decide⟩, by decide⟩ (by decide)
    (run_foldl _ shortSession (by simp [shortSession, Sample])) (by decide)

/-! ### A session that does not drain -/

/-- A record of the given type, filled with zeroes. -/
def blank (ty : SampleType) : Record := ⟨ty, List.replicate ty.payloadSize 0, by simp⟩

theorem foldl_write (s : Channel) (rs : List Record) :
    ((rs.map Event.write).foldl next s).rb = writes s.rb rs := by
  induction rs generalizing s with
  | nil => rfl
  | cons r rs ih => exact ih _

/-- Eighty PMC samples, and then one each of RAPL, CPU and FORK: in two pages that leaves three
bytes. -/
def tightRecords : List Record :=
  List.replicate 40 (blank .pmc) ++ (blank .pmc :: (List.replicate 39 (blank .pmc) ++
    (List.replicate 1 (blank .rapl) ++ (List.replicate 1 (blank .cpu) ++
      List.replicate 1 (blank .fork)))))

theorem length_tight : tightRecords.length = 83 := by simp [tightRecords]

theorem at_tight (data : ℕ → ℕ → Byte) (batch : U32) :
    At (writes (start 2 data batch 1).rb tightRecords) 0 8188 ∧
      (writes (start 2 data batch 1).rb tightRecords).size.toNat = 8192 := by
  have hn : Accepted 2 := ⟨by decide, ⟨1, by decide⟩, by decide⟩
  have w := (inv_start hn data batch 1).win
  have hsize : (start 2 data batch 1).rb.size.toNat = 8192 := rfl
  generalize (start 2 data batch 1).rb = rb at w hsize
  have hpmc : (blank .pmc).type.totalSize = 100 := by decide
  have hrapl : (blank .rapl).type.totalSize = 44 := by decide
  have hcpu : (blank .cpu).type.totalSize = 28 := by decide
  have hfork : (blank .fork).type.totalSize = 20 := by decide
  simp only [tightRecords, writes, List.foldl_append, List.foldl_cons]
  obtain ⟨w₁, hs₁⟩ := w.writes_replicate (blank .pmc) rfl 40 (by rw [hpmc]; decide)
    (by rw [hpmc]; omega)
  rw [hpmc] at w₁
  obtain ⟨w₂, hs₂⟩ := w₁.write_wraps (blank .pmc) rfl (by rw [hpmc]; decide)
    (by rw [hpmc, hs₁, hsize]; decide)
  rw [hpmc] at w₂
  obtain ⟨w₃, hs₃⟩ := w₂.writes_replicate (blank .pmc) rfl 39 (by rw [hpmc]; decide)
    (by rw [hpmc, hs₂, hs₁, hsize]; decide)
  rw [hpmc] at w₃
  obtain ⟨w₄, hs₄⟩ := w₃.writes_replicate (blank .rapl) rfl 1 (by rw [hrapl]; decide)
    (by rw [hrapl, hs₃, hs₂, hs₁, hsize]; decide)
  rw [hrapl] at w₄
  obtain ⟨w₅, hs₅⟩ := w₄.writes_replicate (blank .cpu) rfl 1 (by rw [hcpu]; decide)
    (by rw [hcpu, hs₄, hs₃, hs₂, hs₁, hsize]; decide)
  rw [hcpu] at w₅
  obtain ⟨w₆, hs₆⟩ := w₅.writes_replicate (blank .fork) rfl 1 (by rw [hfork]; decide)
    (by rw [hfork, hs₅, hs₄, hs₃, hs₂, hs₁, hsize]; decide)
  rw [hfork] at w₆
  have hs := hs₆.trans (hs₅.trans (hs₄.trans (hs₃.trans (hs₂.trans hs₁))))
  exact ⟨w₆, (congrArg BitVec.toNat hs).trans hsize⟩

theorem rbSpace_tight (data : ℕ → ℕ → Byte) (batch : U32) :
    (writes (start 2 data batch 1).rb tightRecords).rbSpace.toNat = 3 := by
  obtain ⟨w, hsize⟩ := at_tight data batch
  rw [w.toNat_rbSpace, hsize]

theorem run_tight (data : ℕ → ℕ → Byte) (batch : U32) :
    Run Step (start 2 data batch 1) (tightRecords.map .write)
      ((tightRecords.map .write).foldl next (start 2 data batch 1)) := by
  refine run_foldl _ _ fun e he => ?_
  obtain ⟨r, hr, rfl⟩ := List.mem_map.mp he
  refine .inr ⟨r, rfl, ?_⟩
  simp only [tightRecords, List.mem_append, List.mem_cons, List.mem_replicate] at hr
  obtain ⟨-, rfl⟩ | rfl | ⟨-, rfl⟩ | ⟨-, rfl⟩ | ⟨-, rfl⟩ | ⟨-, rfl⟩ := hr <;>
    exact ⟨by decide, by decide⟩

/-- A session that fills the buffer to the last three bytes loses its EOF. -/
theorem not_drains_tight :
    ¬∀ (nPages batch : U32) (active : ℤ) (data : ℕ → ℕ → Byte) (es : List Event) (s : Channel),
      Accepted nPages → 0 < active → Run Step (start nPages data batch active) es s →
        s.rb.active = 1 → s.Drains := by
  intro hall
  have hn : Accepted 2 := ⟨by decide, ⟨1, by decide⟩, by decide⟩
  have hrun := run_tight (fun _ _ => 0) 128
  obtain ⟨c, t, u, h, fin, rest, i⟩ := exists_inv hn (by decide) hrun
  have hrb := foldl_write (start 2 (fun _ _ => 0) 128 1) tightRecords
  have hactive := (congrArg RingBuffer.active hrb).trans (writes_active _ _)
  refine i.not_drains hactive ?_ (hall 2 128 1 _ _ _ hn (by decide) hrun hactive)
  rw [hrb, rbSpace_tight]
  decide

end Channel

end SchedMon
