import SchedMon.Driver.Arming
import SchedMon.Driver.Ledger
import SchedMon.System.Pipeline

/-!
# From the hooks to the output file

What becomes of the records that the hooks of a session hand over. While the session has writers, the
output file consists of the lines of some of them, in order, and the buffer holds the next ones. Records
get lost only where there is no room for them. With enough room all along, which a session with few
records has whatever the reader does, the file is complete in the end: the reader goes on to the EOF of
the last writer, and stops there with every line printed.

## Main results

* `output_of_session` — **what is in the file, and what is in the buffer**
* `complete_of_ample` — **with ample room the file is complete**
* `complete_of_short` — **the file of a short session is complete**
-/

namespace SchedMon

open RingBuffer CString

/-- A step of a session that has writers. If `ample`, every record that is written has ample room. -/
def System.Goes (b : RbId) (ample : Prop) (x : System) (a : Action) (y : System) : Prop :=
  System.Step b x a y ∧ 0 < y.channel.rb.active ∧ (ample → a = .operate → x.Ample)

section Sessions

variable {b : RbId} {x x₀ : System} {actions : List Action} {nPages : U32}
  {data : ℕ → ℕ → Byte} {ws : List Sample} {rs rs' : List Record} {bytes : ℕ} {ample : Prop}

/-! ### Parts of what is carried -/

theorem Carries.of_append (h : Carries ws (rs ++ rs')) :
    ∃ ws₁ ws₂, ws = ws₁ ++ ws₂ ∧ Carries ws₁ rs ∧ Carries ws₂ rs' := by
  refine ⟨ws.take rs.length, ws.drop rs.length, (List.take_append_drop ..).symm, ?_, ?_⟩
  · have htake := List.forall₂_take rs.length h
    rwa [List.take_left] at htake
  · have hdrop := List.forall₂_drop rs.length h
    rwa [List.drop_left] at hdrop

/-- Some of the records carry some of the samples. -/
theorem Carries.sublist (h : Carries ws rs) (hsub : rs'.Sublist rs) :
    ∃ ws', ws'.Sublist ws ∧ Carries ws' rs' := by
  induction hsub generalizing ws with
  | slnil => exact ⟨[], List.nil_sublist _, .nil⟩
  | cons r _ ih =>
    cases h with
    | cons _ hrest =>
      obtain ⟨ws', hws', hcarries⟩ := ih hrest
      exact ⟨ws', hws'.cons _, hcarries⟩
  | cons_cons r _ ih =>
    cases h with
    | cons hw hrest =>
      obtain ⟨ws', hws', hcarries⟩ := ih hrest
      exact ⟨_, hws'.cons_cons _, .cons hw hcarries⟩

theorem Carries.outFile (h : Carries ws rs) : outFile rs = unlines (ws.filterMap Sample.line?) :=
  congrArg unlines h.filterMap_line

/-- The records decode to the samples. -/
theorem Carries.map_sample (h : Carries ws rs) :
    rs.map Record.sample? = ws.map fun w => some w.wrap := by
  induction h with
  | nil => rfl
  | cons hw _ ih =>
    obtain ⟨junk, rfl⟩ := hw
    rw [List.map_cons, List.map_cons, sample?_record, ih]

/-! ### Sessions -/

/-- A session is running as long as it has writers. -/
theorem running_of_session (hn : Accepted nPages) (opens : x₀.Opens b nPages data)
    (run : Run (System.Goes b ample) x₀ actions x) :
    x.Running b (nPages.toNat * pageSize) ample := by
  refine run.invariant (motive := System.Running b (nPages.toNat * pageSize) ample)
    (opens.running hn ample) ?_
  rintro y a z h ⟨hstep, hpos, hroom⟩
  exact h.step hstep hpos hroom

/-- **What is in the file, and what is in the buffer.** While a session has writers, whatever the
driver does and whenever the reader takes its steps: of the samples that the hooks have handed over, the
last ones may still wait to be written. Some of the others, in their order, are in the file up to those
of the read in progress (`now`), and in the buffer from those on; and it is all of them if there was
ample room. -/
theorem output_of_session (hn : Accepted nPages) (opens : x₀.Opens b nPages data)
    (run : Run (System.Goes b ample) x₀ actions x) :
    ∃ handed waiting before now later : List Sample,
      (x.driver.rbs b).records = handed ++ waiting ∧ Carries waiting x.waiting ∧
      (before ++ now ++ later).Sublist handed ∧
      outFile x.channel.reader.printed = unlines ((before ++ now).filterMap Sample.line?) ∧
      (∃ recs, x.channel.rb.decodeUnread = some recs ∧
        recs.map Record.sample? = (now ++ later).map fun w => some w.wrap) ∧
      (ample → before ++ now ++ later = handed) := by
  obtain ⟨gets, sent, rs, releases, h⟩ := (running_of_session hn opens run).underway
  obtain ⟨ws, ws', hrecords, hsent, hwaiting⟩ := h.carries.of_append
  obtain ⟨kept, hkept, haccepted⟩ := hsent.sublist h.accepted
  obtain ⟨t, u, h₀, fin, rest, i, -⟩ := h.window
  obtain ⟨before, hprinted, hlog⟩ := i.log
  rw [hlog, records_append, ← List.append_assoc] at haccepted
  obtain ⟨ws₁, later, rfl, hfirst, hlater⟩ := haccepted.of_append
  obtain ⟨old, now, rfl, hold, hnow⟩ := hfirst.of_append
  refine ⟨ws, ws', old, now, later, hrecords, h.waiting ▸ hwaiting, hkept, ?_,
    ⟨_, i.win.decodeUnread i.laid, ?_⟩, fun hample => ?_⟩
  · rw [hprinted]
    exact hfirst.outFile
  · rw [records_append]
    exact (hnow.append hlater).map_sample
  · have hcount := (hfirst.append hlater).length_eq
    have hlength : ws.length = sent.length := hsent.length_eq
    have hall : (old ++ now ++ later).length = ws.length := by
      rw [hcount, hlength, ← h.whole hample, hlog, records_append, List.append_assoc]
    exact hkept.eq_of_length hall

/-- The last writer is about to go, and every record was accepted. -/
theorem System.Running.steps_done (h : x.Running b bytes True) (hlast : x.pending = [.release])
    (hone : x.channel.rb.active = 1) (hroom : 4 ≤ x.channel.rb.rbSpace.toNat) :
    ∃ reader rb, Reader.Steps (x.channel.reader, x.channel.rb.smonReleaseRb) (reader, rb) ∧
      reader.pc = .done 0 ∧
      lines (outFile reader.printed) = (x.driver.rbs b).records.filterMap Sample.line? := by
  obtain ⟨gets, sent, rs, releases, h⟩ := h.underway
  rcases traffic_eq_cons (hlast.symm.trans h.pending) with ⟨n, he, -⟩ | ⟨r, rs', he, -⟩ |
    ⟨n, -, rfl, rfl, rfl, -⟩
  · cases he
  · cases he
  obtain ⟨t, u, h₀, fin, rest, i, -⟩ := h.window
  obtain ⟨reader, rb, hsteps, hdone, hprinted⟩ := i.steps_done hone hroom
  refine ⟨reader, rb, hsteps, hdone, lines_outFile ?_⟩
  have hcarries := h.carries
  rwa [List.append_nil, ← h.whole trivial, ← hprinted] at hcarries

/-- **With ample room the file is complete.** When the last writer is about to go and there is room for
its EOF, the reader, wherever it is, goes on to the EOF and stops, and then the file has the lines of all
records that the hooks have handed over. -/
theorem complete_of_ample (hn : Accepted nPages) (opens : x₀.Opens b nPages data)
    (run : Run (System.Goes b True) x₀ actions x) (hlast : x.pending = [.release])
    (hone : x.channel.rb.active = 1) (hroom : 4 ≤ x.channel.rb.rbSpace.toNat) :
    ∃ reader rb, Reader.Steps (x.channel.reader, x.channel.rb.smonReleaseRb) (reader, rb) ∧
      reader.pc = .done 0 ∧
      lines (outFile reader.printed) = (x.driver.rbs b).records.filterMap Sample.line? :=
  (running_of_session hn opens run).steps_done hlast hone hroom

/-! ### Short sessions -/

/-- Records are only added. -/
theorem System.Step.length_records {y : System} {a : Action} (h : System.Step b x a y) :
    (x.driver.rbs b).records.length ≤ (y.driver.rbs b).records.length := by
  cases h with
  | hook step posts makes batch =>
    dsimp only
    rw [posts.rb, Rb.post_records _ posts.ne_eof, List.length_append]
    exact Nat.le_add_right ..
  | operate => exact Nat.le_refl _
  | read => exact Nat.le_refl _

/-- There is room as long as there are few records. -/
theorem System.Running.ample_of_short (h : x.Running b bytes ample)
    (hshort : 200 * (x.driver.rbs b).records.length < bytes) : x.Ample := by
  intro r es hpending
  obtain ⟨gets, sent, rs, releases, h'⟩ := h.underway
  obtain ⟨t, u, h₀, fin, rest, i, hle⟩ := h'.window
  have hlength := h'.carries.length_eq
  rw [i.win.toNat_rbSpace, h.size]
  rcases traffic_eq_cons (hpending.symm.trans h'.pending) with ⟨n, he, -⟩ |
    ⟨r', rs', -, -, rfl, -⟩ | ⟨n, he, -⟩
  · cases he
  · rw [List.length_append, List.length_cons] at hlength
    omega
  · cases he

/-- A short session has ample room, whatever the reader does. -/
theorem ample_of_short (hn : Accepted nPages) (opens : x₀.Opens b nPages data)
    (run : Run (System.Goes b ample) x₀ actions x)
    (hshort : 200 * (x.driver.rbs b).records.length < nPages.toNat * pageSize) :
    Run (System.Goes b True) x₀ actions x := by
  refine run.induct (motive := fun actions x =>
    200 * (x.driver.rbs b).records.length < nPages.toNat * pageSize →
      Run (System.Goes b True) x₀ actions x) (fun _ => .nil) ?_ hshort
  intro actions y a z hrun ih ⟨hstep, hpos, _⟩ hshort
  have hle := hstep.length_records
  have hrunning := running_of_session hn opens hrun
  exact (ih (by omega)).snoc ⟨hstep, hpos, fun _ _ => hrunning.ample_of_short (by omega)⟩

/-- **The file of a short session is complete**, whatever the reader does meanwhile: a session is short
if its buffer has 200 bytes for each record and for the EOF. -/
theorem complete_of_short (hn : Accepted nPages) (opens : x₀.Opens b nPages data)
    (run : Run (System.Goes b ample) x₀ actions x) (hlast : x.pending = [.release])
    (hone : x.channel.rb.active = 1)
    (hshort : 200 * ((x.driver.rbs b).records.length + 1) ≤ nPages.toNat * pageSize) :
    ∃ reader rb, Reader.Steps (x.channel.reader, x.channel.rb.smonReleaseRb) (reader, rb) ∧
      reader.pc = .done 0 ∧
      lines (outFile reader.printed) = (x.driver.rbs b).records.filterMap Sample.line? := by
  have hrunning := running_of_session hn opens (ample_of_short hn opens run (by omega))
  obtain ⟨gets, sent, rs, releases, h⟩ := hrunning.underway
  obtain ⟨t, u, h₀, fin, rest, i, hle⟩ := h.window
  have hlength := h.carries.length_eq
  rw [List.length_append] at hlength
  refine hrunning.steps_done hlast hone ?_
  rw [i.win.toNat_rbSpace, hrunning.size]
  omega

/-! ### A brief session -/

/-- The INFO sample of a session that begins at once. -/
def hello : SampleInfo := ⟨1, 10, 10, 1, 1, 1, 0, 1, 2⟩

/-- Its record. -/
def helloRecord : Record := (Sample.info hello).record fun _ => 0

/-- An idle machine whose time-stamp counter stops some day. -/
def bootBounded : State :=
  { State.boot [] [State.fixedOnly] with clock := fun n => ((min n 999 : ℕ) : ℤ) + 1 }

/-- A registration has gone through, and the INFO record is still to be written. -/
def briefStart : System where
  driver := bootBounded.after [.register 0 1 counting 0 ⟨true, true, true⟩]
  channel := .start 2 (fun _ _ => 0) 1 1
  pending := traffic 0 [helloRecord] 0

/-- The process is switched in. -/
def briefRunning : State :=
  bootBounded.after [.register 0 1 counting 0 ⟨true, true, true⟩, .switch 0 1]

/-- The process has exited. -/
def briefExited : State :=
  bootBounded.after [.register 0 1 counting 0 ⟨true, true, true⟩, .switch 0 1, .exit 1]

/-- The sample it leaves, and its record. -/
def lastSample : SamplePmc := ((briefExited.rbs 0).log.filterMap Sample.pmc?).headD .zero

def lastRecord : Record := (Sample.pmc lastSample).record fun _ => 0

/-- The buffer with the INFO record, without it, and with the last record. -/
def rbHello : RingBuffer := (briefStart.channel.rb.smonRbWrite helloRecord).rb

def rbEmptied : RingBuffer := rbHello.smonRbRead 1 60

def rbLast : RingBuffer := (rbEmptied.smonRbWrite lastRecord).rb

/-- The reader, `consumed` bytes into a read. -/
def briefReader (tail : BitVec 64) (consumed : U32) (pc : Reader.Pc) (printed : List Record) : Reader :=
  ⟨⟨tail, 8192, 2, consumed⟩, pc, printed, 1⟩

/-- The INFO record as it is printed. -/
def helloPrinted : List Record := [rbHello.readRecord .info 4]

theorem opens_brief : briefStart.Opens 0 2 fun _ _ => 0 := by
  have hstep : bootBounded.Step (.register 0 1 counting 0 ⟨true, true, true⟩) briefStart.driver :=
    ⟨trivial, rfl⟩
  have hposts : Posts 0 bootBounded briefStart.driver ⟨1, some 1, [.info hello], 0⟩ :=
    ⟨rfl, by simp, .single (i := 0) rfl (by decide) (by decide), by simp [Sample.pid?]⟩
  exact ⟨_, 0, 1, counting, _, _, hstep, rfl, rfl, hposts, rfl, rfl,
    ⟨_, .cons ⟨_, rfl⟩ .nil, rfl⟩, rfl⟩

/-- The INFO record is written and read; the process is switched in before the reader tells the kernel,
and exits; and when its record is written, the reader is told of it. -/
def briefActions : List Action :=
  [.operate, .read, .read, .read, .hook (.switch 0 1), .read, .read, .hook (.exit 1), .operate, .read]

/-- The reader is about to read the last record, and the process is about to go. -/
def briefEnd : System where
  driver := briefExited
  channel := ⟨rbLast, briefReader 60 0 (.loop 0 1 false) helloPrinted, [helloRecord, lastRecord]⟩
  pending := [.release]

theorem run_brief (ample : Prop) {P : State → Label → State → Prop}
    (hswitch : P briefStart.driver (.switch 0 1) briefRunning)
    (hexit : P briefRunning (.exit 1) briefExited) :
    Run (fun x a y => System.Goes 0 ample x a y ∧ ∀ l, a = .hook l → P x.driver l y.driver) briefStart
      briefActions briefEnd := by
  have hposts : Posts 0 briefStart.driver briefRunning ⟨0, none, [], 0⟩ :=
    ⟨rfl, by simp, .nil .., by simp⟩
  have hposts' : Posts 0 briefRunning briefExited ⟨0, none, [.pmc lastSample], 1⟩ :=
    ⟨rfl, by simp, .single (i := 2) rfl (by decide) (by decide), by
      rintro w hw q hq
      rw [List.mem_singleton.mp hw] at hq
      exact ⟨0, _, rfl, rfl, Option.some_inj.mp hq⟩⟩
  have hmakes : Posting.Makes ⟨0, none, [], 0⟩ [] := ⟨[], .nil, rfl⟩
  have hmakes' : Posting.Makes ⟨0, none, [.pmc lastSample], 1⟩ [.write lastRecord, .release] :=
    ⟨_, .cons ⟨_, rfl⟩ .nil, rfl⟩
  have hroom : 200 ≤ briefStart.channel.rb.rbSpace.toNat := by decide
  have hroom' : 200 ≤ rbEmptied.rbSpace.toNat := by decide
  have hread : ∀ {s : State} {rb rb' : RingBuffer} {reader reader' : Reader} {acc : List Record}
      {es : List Channel.Event}, reader.step rb = (reader', rb') → 0 < rb'.active →
      System.Goes 0 ample ⟨s, ⟨rb, reader, acc⟩, es⟩ .read ⟨s, ⟨rb', reader', acc⟩, es⟩ ∧
        ∀ l, Action.read = .hook l → P s l s := by
    intro s rb rb' reader reader' acc es hstep hpos
    have hnext : Channel.next ⟨rb, reader, acc⟩ .read = ⟨rb', reader', acc⟩ := by
      simp only [Channel.next, hstep]
    exact ⟨⟨hnext ▸ .read, hpos, by simp⟩, by simp⟩
  have h₁ : (Reader.start 2 1).step rbHello = (briefReader 0 0 (.loop 0 1 false) [], rbHello) := rfl
  have h₂ : (briefReader 0 0 (.loop 0 1 false) []).step rbHello =
      (briefReader 4 4 (.payload .info 4 0 1 false) [], rbHello) := rfl
  have h₃ : (briefReader 4 4 (.payload .info 4 0 1 false) []).step rbHello =
      (briefReader 60 60 (.loop 1 1 false) helloPrinted, rbHello) := rfl
  have h₄ : (briefReader 60 60 (.loop 1 1 false) helloPrinted).step rbHello =
      (briefReader 60 60 (.flush 1 false) helloPrinted, rbHello) := rfl
  have h₅ : (briefReader 60 60 (.flush 1 false) helloPrinted).step rbHello =
      (briefReader 60 0 .poll helloPrinted, rbEmptied) := rfl
  have h₆ : (briefReader 60 0 .poll helloPrinted).step rbLast =
      (briefReader 60 0 (.loop 0 1 false) helloPrinted, rbLast) := rfl
  have hwrite : System.Goes 0 ample briefStart .operate
      ⟨briefStart.driver, ⟨rbHello, .start 2 1, [helloRecord]⟩, []⟩ :=
    ⟨.operate, by decide, fun _ _ _ _ _ => hroom⟩
  have hswitched : System.Goes 0 ample
      ⟨briefStart.driver, ⟨rbHello, briefReader 60 60 (.loop 1 1 false) helloPrinted, [helloRecord]⟩, []⟩
      (.hook (.switch 0 1))
      ⟨briefRunning, ⟨rbHello, briefReader 60 60 (.loop 1 1 false) helloPrinted, [helloRecord]⟩, []⟩ :=
    ⟨.hook ⟨trivial, rfl⟩ hposts hmakes rfl, by decide, by simp⟩
  have hexited : System.Goes 0 ample
      ⟨briefRunning, ⟨rbEmptied, briefReader 60 0 .poll helloPrinted, [helloRecord]⟩, []⟩
      (.hook (.exit 1))
      ⟨briefExited, ⟨rbEmptied, briefReader 60 0 .poll helloPrinted, [helloRecord]⟩,
        [.write lastRecord, .release]⟩ :=
    ⟨.hook ⟨trivial, rfl⟩ hposts' hmakes' rfl, by decide, by simp⟩
  have hwrite' : System.Goes 0 ample
      ⟨briefExited, ⟨rbEmptied, briefReader 60 0 .poll helloPrinted, [helloRecord]⟩,
        [.write lastRecord, .release]⟩ .operate
      ⟨briefExited, ⟨rbLast, briefReader 60 0 .poll helloPrinted, [helloRecord, lastRecord]⟩,
        [.release]⟩ :=
    ⟨.operate, by decide, fun _ _ _ _ _ => hroom'⟩
  exact .cons ⟨hwrite, by simp⟩ <| .cons (hread h₁ (by decide)) <| .cons (hread h₂ (by decide)) <|
    .cons (hread h₃ (by decide)) <|
    .cons ⟨hswitched, fun l hl => by obtain rfl := Action.hook.inj hl; exact hswitch⟩ <|
    .cons (hread h₄ (by decide)) <| .cons (hread h₅ (by decide)) <|
    .cons ⟨hexited, fun l hl => by obtain rfl := Action.hook.inj hl; exact hexit⟩ <|
    .cons ⟨hwrite', by simp⟩ <| .cons (hread h₆ (by decide)) .nil

theorem goes_brief (ample : Prop) : Run (System.Goes 0 ample) briefStart briefActions briefEnd :=
  (run_brief ample (P := fun _ _ _ => True) trivial trivial).mono fun _ _ _ h => h.1

theorem output_of_session_brief : Run (System.Goes 0 True) briefStart briefActions briefEnd ∧
    (briefEnd.driver.rbs 0).records.map Sample.type = [.info, .pmc] ∧
    ∃ handed waiting before now later : List Sample,
      (briefEnd.driver.rbs 0).records = handed ++ waiting ∧ Carries waiting briefEnd.waiting ∧
      (before ++ now ++ later).Sublist handed ∧
      outFile briefEnd.channel.reader.printed = unlines ((before ++ now).filterMap Sample.line?) ∧
      (∃ recs, briefEnd.channel.rb.decodeUnread = some recs ∧
        recs.map Record.sample? = (now ++ later).map fun w => some w.wrap) ∧
      (True → before ++ now ++ later = handed) :=
  ⟨goes_brief True, rfl,
    output_of_session ⟨by decide, ⟨1, by decide⟩, by decide⟩ opens_brief (goes_brief True)⟩

theorem complete_of_ample_brief : Run (System.Goes 0 True) briefStart briefActions briefEnd ∧
    ∃ reader rb, Reader.Steps (briefEnd.channel.reader, briefEnd.channel.rb.smonReleaseRb) (reader, rb) ∧
      reader.pc = .done 0 ∧
      lines (outFile reader.printed) = (briefEnd.driver.rbs 0).records.filterMap Sample.line? :=
  ⟨goes_brief True, complete_of_ample ⟨by decide, ⟨1, by decide⟩, by decide⟩ opens_brief
    (goes_brief True) rfl rfl (by decide)⟩

theorem complete_of_short_brief : Run (System.Goes 0 False) briefStart briefActions briefEnd ∧
    ∃ reader rb, Reader.Steps (briefEnd.channel.reader, briefEnd.channel.rb.smonReleaseRb) (reader, rb) ∧
      reader.pc = .done 0 ∧
      lines (outFile reader.printed) = (briefEnd.driver.rbs 0).records.filterMap Sample.line? :=
  ⟨goes_brief False, complete_of_short ⟨by decide, ⟨1, by decide⟩, by decide⟩ opens_brief
    (goes_brief False) rfl rfl (by decide)⟩

end Sessions

end SchedMon
