import SchedMon.Channel.Drain
import SchedMon.Driver.Traffic
import SchedMon.Driver.Writers
import SchedMon.System.Print

/-!
# Driver, buffer and reader

The driver sees a ring buffer as a log to append to, with a count of its writers; the ring buffer
itself is pages and cursors that a reader works on at the same time. Here the two are put together.
An event of the driver leaves a posting behind, which is carried out on the pages one operation after
the other, and the reader takes its steps in between.

The log is what the channel is refined by: what the reader has printed is a part of the log, in order,
and so is what it may still print. Only a full buffer takes something away from it.

## Main definitions

* `System`, `System.Step` — the driver, the channel, and what is left of a posting
* `System.Opens` — the system after the registration that opens a session
* `System.Running` — the invariant

## Main results

* `exists_hook`, `exists_opens` — no event of the driver is left out
* `Running.step` — **the invariant is kept** as long as there are writers
-/

namespace SchedMon

open RingBuffer

/-! ### Room for a record -/

namespace RingBuffer

variable {rb : RingBuffer} {t h h' : ℕ} {r : Record}

/-- There is only one place where the head can be. -/
theorem At.head_unique (w : At rb t h) (w' : At rb t h') : h = h' := by
  have hcount := w.toNat_rbCount.symm.trans w'.toNat_rbCount
  have hle := w.le
  have hle' := w'.le
  omega

/-- A record takes no more than twice its size, and is accepted if there is that much room. -/
theorem At.write_room (w : At rb t h) (hr : r.type.writable = true) :
    ∃ h', At (rb.smonRbWrite r).rb t h' ∧ h' ≤ h + 200 ∧
      (h + 200 < t + rb.size.toNat → (rb.smonRbWrite r).accepted = true) := by
  have htotal := r.type.totalSize_le
  have hle := w.le
  have hlt := w.lt
  have hc := smonRbWrite_cases w hr
  generalize rb.smonRbWrite r = res at hc
  cases hc with
  | full hfull => exact ⟨h, w, by omega, fun hroom => by omega⟩
  | padded hpage hspace hfull =>
    have hroom := w.stuff_room hpage hspace
    have hnext := nextPage_eq h
    exact ⟨_, w.smonRbStuffPage hroom, by omega, fun hroom => by omega⟩
  | fits hpage hspace => exact ⟨_, w.commit hpage (by omega), by omega, fun _ => rfl⟩
  | wraps hpage hspace =>
    have hroom := w.stuff_room hpage (by omega)
    have hnext := nextPage_eq h
    have w' := w.smonRbStuffPage hroom
    refine ⟨_, w'.commit (totalSize_le_pageLeft_nextPage r h) ?_, by omega, fun _ => rfl⟩
    rw [smonRbStuffPage_size]
    omega

end RingBuffer

/-! ### The system -/

/-- The operations of a posting: writers come, records are written, writers go. -/
def traffic (gets : ℕ) (rs : List Record) (releases : ℕ) : List Channel.Event :=
  List.replicate gets .get ++ (rs.map .write ++ List.replicate releases .release)

/-- The record that an operation writes. -/
def Channel.Event.record? : Channel.Event → Option Record
  | .write r => some r
  | _ => none

/-- The records of a posting. -/
theorem filterMap_traffic (gets : ℕ) (rs : List Record) (releases : ℕ) :
    (traffic gets rs releases).filterMap Channel.Event.record? = rs := by
  have hrecord : (Channel.Event.record? ∘ Channel.Event.write) = some := rfl
  simp [traffic, List.filterMap_replicate, Channel.Event.record?, hrecord]

/-- The operations that a posting leaves behind, with its samples as records. -/
def Posting.Makes (p : Posting) (es : List Channel.Event) : Prop :=
  ∃ rs, Carries p.samples rs ∧ es = traffic p.gets rs p.releases

/-- The driver, the channel for one of its buffers, and the operations on the buffer that the last
event has yet to carry out. -/
structure System where
  driver : State
  channel : Channel
  pending : List Channel.Event

/-- The records that are still to be written. -/
def System.waiting (x : System) : List Record := x.pending.filterMap Channel.Event.record?

/-- Something happens in the driver, the next operation on the buffer is carried out, or the reader
takes a step. -/
inductive Action where
  | hook (l : Label)
  | operate
  | read

/-- The steps of the system for buffer `b`. The batch size was set when the session was opened, and no
later registration changes it. A call of `smon_release_rb` is one operation, the count and the EOF
together. -/
inductive System.Step (b : RbId) : System → Action → System → Prop
  | hook {s s' : State} {c : Channel} {l : Label} {p : Posting} {es : List Channel.Event}
      (step : s.Step l s') (posts : Posts b s s' p) (makes : p.Makes es)
      (batch : (s'.rbs b).batch = (s.rbs b).batch) : Step b ⟨s, c, []⟩ (.hook l) ⟨s', c, es⟩
  | operate {s : State} {c : Channel} {e : Channel.Event} {es : List Channel.Event} :
      Step b ⟨s, c, e :: es⟩ .operate ⟨s, c.next e, es⟩
  | read {s : State} {c : Channel} {es : List Channel.Event} :
      Step b ⟨s, c, es⟩ .read ⟨s, c.next .read, es⟩

/-- The records of a buffer, without the EOF that the last writer leaves. -/
def Rb.records (rb : Rb) : List Sample := rb.log.filter fun w => w.type ≠ .eof

/-- Padding need not hold anything in particular. -/
theorem exists_carries (ws : List Sample) : ∃ rs, Carries ws rs :=
  ⟨ws.map (Sample.record fun _ => 0), List.forall₂_map_right_iff.mpr
    (List.forall₂_same.mpr fun _ _ => ⟨_, rfl⟩)⟩

/-- **No event of the driver is left out**, as long as no further session is opened with another batch
size. -/
theorem exists_hook {b : RbId} {s s' : State} {l : Label} (c : Channel) (hnamed : s.Named)
    (hstep : s.Step l s') (hbatch : (s'.rbs b).batch = (s.rbs b).batch) :
    ∃ es, System.Step b ⟨s, c, []⟩ (.hook l) ⟨s', c, es⟩ := by
  have hposts : ∃ p, Posts b s s' p := by
    rcases posts_of_exec hnamed hstep.2 b with ⟨p, hp, -⟩ | ⟨-, -, -, -, -, p, hp, -⟩
    · exact ⟨p, hp⟩
    · exact ⟨p, hp⟩
  obtain ⟨p, hp⟩ := hposts
  obtain ⟨rs, hrs⟩ := exists_carries p.samples
  exact ⟨_, .hook hstep hp ⟨rs, hrs, rfl⟩ hbatch⟩

/-! ### The invariant -/

/-- Whatever is written next has 200 bytes, which is more than a record takes with a PAD before it. -/
def System.Ample (x : System) : Prop :=
  ∀ r es, x.pending = .write r :: es → 200 ≤ x.channel.rb.rbSpace.toNat

/-- Writing goes on: of the last posting there are `gets`, `rs` and `releases` left, and `sent` are the
records that were handed over before. If there was always ample room (`ample`), all of them were
accepted. -/
structure System.Underway (b : RbId) (ample : Prop) (x : System) (gets : ℕ) (sent rs : List Record)
    (releases : ℕ) : Prop where
  pending : x.pending = traffic gets rs releases
  active : x.channel.rb.active + gets = (x.driver.rbs b).active + releases
  carries : Carries (x.driver.rbs b).records (sent ++ rs)
  accepted : x.channel.accepted.Sublist sent
  window : ∃ t u h fin rest, Channel.Inv x.channel t u h fin rest ∧ h ≤ 200 * sent.length
  whole : ample → x.channel.accepted = sent

/-- The session has writers. -/
structure System.Running (b : RbId) (bytes : ℕ) (ample : Prop) (x : System) : Prop where
  active : 0 < x.channel.rb.active
  batch : x.channel.reader.batch = x.channel.rb.batch
  size : x.channel.rb.size.toNat = bytes
  underway : ∃ gets sent rs releases, x.Underway b ample gets sent rs releases

/-- A registration with a batch size that is not zero opens a session on a buffer that nobody has used.
The tool begins to read when the writer and the batch size are there; the rest of the posting may be
left. -/
def System.Opens (b : RbId) (nPages : U32) (data : ℕ → ℕ → Byte) (x : System) : Prop :=
  ∃ s me pid envir alloc p, s.Step (.register me pid envir b alloc) x.driver ∧
    (s.rbs b).active = 0 ∧ (s.rbs b).log = [] ∧ Posts b s x.driver p ∧ p.gets = 1 ∧
    p.batch? = some envir.batchSize ∧ p.Makes (.get :: x.pending) ∧
    x.channel = .start nPages data envir.batchSize 1

/-- Every registration that goes through on such a buffer opens a session. -/
theorem exists_opens {b : RbId} {s s' : State} {me : Cpu} {pid : Pid} {envir : SmonEnvir}
    {alloc : Alloc} (nPages : U32) (data : ℕ → ℕ → Byte)
    (hstep : s.Step (.register me pid envir b alloc) s') (hactive : (s.rbs b).active = 0)
    (hlog : (s.rbs b).log = []) (hbatch : 0 < envir.batchSize) (hopens : Opens b s envir s') :
    ∃ es, System.Opens b nPages data ⟨s', .start nPages data envir.batchSize 1, es⟩ := by
  obtain ⟨p, hposts, hgets, hp⟩ := hopens
  rw [if_pos hbatch] at hp
  obtain ⟨rs, hrs⟩ := exists_carries p.samples
  refine ⟨traffic 0 rs p.releases, s, me, pid, envir, alloc, p, hstep, hactive, hlog, hposts, hgets, hp,
    ⟨rs, hrs, ?_⟩, rfl⟩
  rw [hgets]
  rfl

section Postings

variable {b : RbId} {s s' : State} {p : Posting} {rb : Rb}

theorem Rb.post_active (rb : Rb) (p : Posting) :
    (rb.post p).active = rb.active + p.gets - p.releases := Rb.release_iterate_active ..

/-- The EOF of the last writer is no record. -/
theorem Rb.post_records (rb : Rb) (h : ∀ w ∈ p.samples, w ≠ .eof) :
    (rb.post p).records = rb.records ++ p.samples := by
  obtain ⟨eofs, hlog, heofs⟩ := Rb.release_iterate_log
    { active := rb.active + p.gets, batch := p.batch?.getD rb.batch, log := rb.log ++ p.samples }
    p.releases
  have hsamples : p.samples.filter (fun w => w.type ≠ .eof) = p.samples := by
    refine List.filter_eq_self.mpr fun w hw => ?_
    have hne := h w hw
    cases w with
    | eof => exact absurd rfl hne
    | _ => rfl
  have hnone : eofs.filter (fun w => w.type ≠ .eof) = [] := by
    refine List.filter_eq_nil_iff.mpr fun w hw => ?_
    rw [heofs w hw]
    simp [Sample.type]
  unfold Rb.records
  change ((Rb.release^[p.releases] _).log).filter _ = _
  rw [hlog, List.filter_append, List.filter_append, hsamples, hnone, List.append_nil]

theorem Carries.append {ws ws' : List Sample} {rs rs' : List Record} (h : Carries ws rs)
    (h' : Carries ws' rs') : Carries (ws ++ ws') (rs ++ rs') := List.rel_append h h'

theorem Sample.type_ne_pad (w : Sample) : w.type ≠ .pad := by
  cases w with
  | _ => exact SampleType.noConfusion

/-- What is carried is a sample of the kinds that hooks write. -/
theorem Carries.sample {ws : List Sample} {rs : List Record} (h : Carries ws rs)
    (hws : ∀ w ∈ ws, w.type ≠ .eof) : ∀ r ∈ rs, Channel.Sample r := by
  induction h with
  | nil => simp
  | @cons w r ws rs hw _ ih =>
    obtain ⟨junk, rfl⟩ := hw
    rw [List.forall_mem_cons] at hws ⊢
    exact ⟨⟨w.type_ne_pad, hws.1⟩, ih hws.2⟩

theorem Rb.type_of_mem_records {w : Sample} (h : w ∈ rb.records) : w.type ≠ .eof := by
  have hw := (List.mem_filter.mp h).2
  simpa using hw

end Postings

/-! ### What an operation keeps -/

/-- The first operation of a posting, and the others. -/
theorem traffic_eq_cons {gets releases : ℕ} {rs : List Record} {e : Channel.Event}
    {es : List Channel.Event} (h : e :: es = traffic gets rs releases) :
    (∃ n, e = .get ∧ gets = n + 1 ∧ es = traffic n rs releases) ∨
      (∃ r rs', e = .write r ∧ gets = 0 ∧ rs = r :: rs' ∧ es = traffic 0 rs' releases) ∨
      ∃ n, e = .release ∧ gets = 0 ∧ rs = [] ∧ releases = n + 1 ∧ es = traffic 0 [] n := by
  cases gets with
  | succ n =>
    obtain ⟨he, hes⟩ := List.cons.inj h
    exact .inl ⟨n, he, rfl, hes⟩
  | zero =>
    cases rs with
    | cons r rs =>
      obtain ⟨he, hes⟩ := List.cons.inj h
      exact .inr (.inl ⟨r, rs, he, rfl, rfl, hes⟩)
    | nil =>
      cases releases with
      | zero => cases h
      | succ n =>
        obtain ⟨he, hes⟩ := List.cons.inj h
        exact .inr (.inr ⟨n, he, rfl, rfl, rfl, hes⟩)

section Steps

variable {b : RbId} {x y : System} {a : Action} {bytes gets releases : ℕ} {sent rs : List Record}
  {ample : Prop}

namespace System.Underway

/-- The rest of the posting is what waits. -/
theorem waiting (h : Underway b ample x gets sent rs releases) : x.waiting = rs := by
  rw [System.waiting, h.pending, filterMap_traffic]

/-- A hook leaves a posting behind. -/
theorem hook {s s' : State} {c : Channel} {p : Posting} {es : List Channel.Event}
    (h : Underway b ample ⟨s, c, []⟩ gets sent rs releases) (posts : Posts b s s' p)
    (makes : p.Makes es) : ∃ gets sent rs releases,
      Underway b ample ⟨s', c, es⟩ gets sent rs releases := by
  obtain ⟨rs', hcarries, rfl⟩ := makes
  have hnil := h.pending.symm
  simp only [traffic, List.append_eq_nil_iff, List.map_eq_nil_iff, List.replicate_eq_nil_iff] at hnil
  obtain ⟨rfl, rfl, rfl⟩ := hnil
  have hactive := h.active
  have hsent := h.carries
  rw [List.append_nil] at hsent
  refine ⟨p.gets, sent, rs', p.releases, rfl, ?_, ?_, h.accepted, h.window, h.whole⟩
  · have hpost : (s'.rbs b).active = (s.rbs b).active + p.gets - p.releases := by
      rw [posts.rb, Rb.post_active]
    dsimp only at hactive ⊢
    omega
  · have hrecords : (s'.rbs b).records = (s.rbs b).records ++ p.samples := by
      rw [posts.rb, Rb.post_records _ posts.ne_eof]
    dsimp only
    rw [hrecords]
    exact hsent.append hcarries

/-- A writer comes. -/
theorem get {s : State} {c : Channel} {es : List Channel.Event}
    (h : Underway b ample ⟨s, c, .get :: es⟩ (gets + 1) sent rs releases)
    (hes : es = traffic gets rs releases) :
    Underway b ample ⟨s, c.next .get, es⟩ gets sent rs releases := by
  obtain ⟨t, u, h', fin, rest, i, hle⟩ := h.window
  have hactive := h.active
  refine ⟨hes, ?_, h.carries, h.accepted, ⟨t, u, h', fin, rest, i.active _, hle⟩, h.whole⟩
  change c.rb.active + 1 + (gets : ℤ) = (s.rbs b).active + releases
  dsimp only at hactive
  omega

/-- A record is written. -/
theorem write {s : State} {c : Channel} {r : Record} {es : List Channel.Event}
    (h : Underway b ample ⟨s, c, .write r :: es⟩ 0 sent (r :: rs) releases)
    (hes : es = traffic 0 rs releases) (hroom : ample → 200 ≤ c.rb.rbSpace.toNat) :
    Underway b ample ⟨s, c.next (.write r), es⟩ 0 (sent ++ [r]) rs releases := by
  have hsample : Channel.Sample r :=
    h.carries.sample (fun w hw => Rb.type_of_mem_records hw) r (by simp)
  have hwritable : r.type.writable = true := by
    obtain ⟨hpad, -⟩ := hsample
    cases ht : r.type with
    | pad => exact absurd ht hpad
    | _ => rfl
  obtain ⟨t, u, h₀, fin, rest, i, hle⟩ := h.window
  obtain ⟨h₁, rest', i'⟩ := i.write hsample
  obtain ⟨h₂, w, hle', haccept⟩ := i.win.write_room hwritable
  obtain rfl := i'.win.head_unique w
  have haccepted : (c.next (.write r)).accepted =
      c.accepted ++ if (c.rb.smonRbWrite r).accepted then [r] else [] := rfl
  have hlength : (sent ++ [r]).length = sent.length + 1 := List.length_append
  refine ⟨hes, ?_, ?_, ?_, ⟨t, u, h₁, fin, rest', i', ?_⟩, fun hample => ?_⟩
  · exact (congrArg (· + ((0 : ℕ) : ℤ)) (smonRbWrite_active c.rb r)).trans h.active
  · rw [List.append_assoc]
    exact h.carries
  · dsimp only
    rw [haccepted]
    refine h.accepted.append ?_
    split
    · exact List.Sublist.refl _
    · exact List.nil_sublist _
  · omega
  · have hwhole : c.accepted = sent := h.whole hample
    have hfree := hroom hample
    have hle := i.win.le
    rw [i.win.toNat_rbSpace] at hfree
    dsimp only
    rw [haccepted, haccept (by omega), hwhole]
    rfl

/-- A writer goes, and others stay. -/
theorem release {s : State} {c : Channel} {es : List Channel.Event}
    (h : Underway b ample ⟨s, c, .release :: es⟩ 0 sent [] (releases + 1))
    (hes : es = traffic 0 [] releases) (hlt : 1 < c.rb.active) :
    Underway b ample ⟨s, c.next .release, es⟩ 0 sent [] releases := by
  obtain ⟨t, u, h', fin, rest, i, hle⟩ := h.window
  have hactive := h.active
  have hnext : c.next .release = { c with rb := { c.rb with active := c.rb.active - 1 } } := by
    simp only [Channel.next, Channel.smonReleaseRb_of_lt hlt]
  rw [hnext]
  refine ⟨hes, ?_, h.carries, h.accepted, ⟨t, u, h', fin, rest, i.active _, hle⟩, h.whole⟩
  change c.rb.active - 1 + ((0 : ℕ) : ℤ) = (s.rbs b).active + releases
  dsimp only at hactive
  omega

/-- The reader takes a step. -/
theorem read {s : State} {c : Channel} {es : List Channel.Event}
    (h : Underway b ample ⟨s, c, es⟩ gets sent rs releases) (hpos : 0 < c.rb.active)
    (hbatch : c.reader.batch = c.rb.batch) :
    Underway b ample ⟨s, c.next .read, es⟩ gets sent rs releases := by
  obtain ⟨t, u, h', fin, rest, i, hle⟩ := h.window
  obtain ⟨t', u', fin', rest', i'⟩ := i.read (fun _ => Channel.smonPoll_ne_pollhup hpos) hbatch
  refine ⟨h.pending, ?_, h.carries, h.accepted, ⟨t', u', h', fin', rest', i', hle⟩, h.whole⟩
  have hactive : (c.next .read).rb.active = c.rb.active :=
    (Channel.reader_step_rb c.reader c.rb).2
  dsimp only
  rw [hactive]
  exact h.active

end System.Underway

/-- The last writer to go leaves no writer. -/
theorem active_smonReleaseRb (rb : RingBuffer) : rb.smonReleaseRb.active = rb.active - 1 := by
  unfold smonReleaseRb
  dsimp only
  split
  · exact smonRbWrite_active _ _
  · rfl

theorem size_smonReleaseRb (rb : RingBuffer) : rb.smonReleaseRb.size = rb.size := by
  unfold smonReleaseRb
  dsimp only
  split
  · exact smonRbWrite_size _ _
  · rfl

theorem batch_smonReleaseRb (rb : RingBuffer) : rb.smonReleaseRb.batch = rb.batch := by
  unfold smonReleaseRb
  dsimp only
  split
  · exact smonRbWrite_batch _ _
  · rfl

theorem size_reader_step (reader : Reader) (rb : RingBuffer) :
    (reader.step rb).2.size = rb.size := by
  simp only [Reader.step]
  split
  · split <;> rfl
  · split <;> rfl
  all_goals rfl

/-- An operation keeps the size of the buffer, and the two batch sizes. -/
theorem channel_next (c : Channel) (e : Channel.Event) :
    (c.next e).rb.size = c.rb.size ∧ (c.next e).rb.batch = c.rb.batch ∧
      (c.next e).reader.batch = c.reader.batch := by
  cases e with
  | write r => exact ⟨smonRbWrite_size .., smonRbWrite_batch .., rfl⟩
  | read =>
    exact ⟨size_reader_step .., (Channel.reader_step_rb ..).1, Channel.reader_step_batch ..⟩
  | get => exact ⟨rfl, rfl, rfl⟩
  | release => exact ⟨size_smonReleaseRb .., batch_smonReleaseRb .., rfl⟩

/-- **The invariant is kept** as long as there are writers. -/
theorem System.Running.step (h : x.Running b bytes ample) (hstep : System.Step b x a y)
    (hpos : 0 < y.channel.rb.active) (hroom : ample → a = .operate → x.Ample) :
    y.Running b bytes ample := by
  obtain ⟨gets, sent, rs, releases, hunder⟩ := h.underway
  cases hstep with
  | hook step posts makes batch => exact ⟨h.active, h.batch, h.size, hunder.hook posts makes⟩
  | @read s c es =>
    obtain ⟨hsize, hbatch, hreader⟩ := channel_next c .read
    exact ⟨hpos, hreader.trans (h.batch.trans hbatch.symm), (congrArg _ hsize).trans h.size,
      _, _, _, _, hunder.read h.active h.batch⟩
  | @operate s c e es =>
    obtain ⟨hsize, hbatch, hreader⟩ := channel_next c e
    refine ⟨hpos, hreader.trans (h.batch.trans hbatch.symm), (congrArg _ hsize).trans h.size, ?_⟩
    rcases traffic_eq_cons hunder.pending with ⟨n, rfl, rfl, hes⟩ | ⟨r, rs', rfl, rfl, rfl, hes⟩ |
      ⟨n, rfl, rfl, rfl, rfl, hes⟩
    · exact ⟨_, _, _, _, hunder.get hes⟩
    · exact ⟨_, _, _, _, hunder.write hes fun hample => hroom hample rfl r es rfl⟩
    · have hactive : (c.next .release).rb.active = c.rb.active - 1 := active_smonReleaseRb c.rb
      dsimp only at hpos
      exact ⟨_, _, _, _, hunder.release hes (by omega)⟩

/-- A session begins with one writer. -/
theorem System.Opens.running {nPages : U32} {data : ℕ → ℕ → Byte} (hn : Accepted nPages)
    (h : x.Opens b nPages data) (ample : Prop) : x.Running b (nPages.toNat * pageSize) ample := by
  obtain ⟨s, me, pid, envir, alloc, p, -, hactive, hlog, posts, hgets, hbatch, makes, hc⟩ := h
  obtain ⟨driver, channel, pending⟩ := x
  dsimp only at hc posts makes
  subst hc
  obtain ⟨rs, hcarries, hes⟩ := makes
  have hi := Channel.inv_start hn data envir.batchSize 1
  have hsize : (Channel.start nPages data envir.batchSize 1).rb.size.toNat =
      nPages.toNat * pageSize := hi.win.size_eq
  refine ⟨Int.one_pos, rfl, hsize, 0, [], rs, p.releases, ?_, ?_, ?_, List.Sublist.refl _,
    ⟨_, _, _, _, _, hi, Nat.le_refl _⟩, fun _ => rfl⟩
  · rw [hgets] at hes
    exact (List.cons.inj hes).2
  · have hpost : (driver.rbs b).active = (s.rbs b).active + p.gets - p.releases := by
      rw [posts.rb, Rb.post_active]
    change 1 + ((0 : ℕ) : ℤ) = (driver.rbs b).active + p.releases
    rw [hpost, hactive, hgets]
    omega
  · have hrecords : (driver.rbs b).records = (s.rbs b).records ++ p.samples := by
      rw [posts.rb, Rb.post_records _ posts.ne_eof]
    have hnil : (s.rbs b).records = [] := by
      unfold Rb.records
      rw [hlog, List.filter_nil]
    dsimp only
    rw [hrecords, hnil]
    exact hcarries

end Steps

end SchedMon
