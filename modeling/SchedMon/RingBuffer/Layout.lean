import SchedMon.RingBuffer.Write

/-!
# What the unread bytes mean

The bytes between two stream positions are read as a sequence of entries: records and PADs. There
are two readings of the same bytes, and this file connects them.

*`Laid`* is a relation: these entries, laid out from position `x`, end at position `y`. It is what
the proofs carry, because it composes: a write appends an entry, and unread bytes that nobody
changes keep their entries.

*`decodeFrom`* is a function on addresses that follows the type codes it finds, as a reader does.
It is what the results are stated with, so that they say something about bytes.

## Main results

* `Laid.congr`, `Laid.append` — the frame rule and composition
* `Laid.decodeFrom` — laid-out entries are what decoding finds
* `WriteCase.appended` — a write appends to what is laid out
* `Laid.le_of_snug` — how far some records reach at most
-/

namespace SchedMon

namespace RingBuffer

/-- One entry of the stream. -/
inductive Entry where
  | record (r : Record)
  | pad
  deriving DecidableEq

/-- The records among the entries. -/
def records : List Entry → List Record
  | [] => []
  | .record r :: es => r :: records es
  | .pad :: es => records es

@[simp] theorem records_append (es es' : List Entry) :
    records (es ++ es') = records es ++ records es' := by
  induction es with
  | nil => rfl
  | cons e es ih => cases e <;> simp [records, ih]

/-! ### Entries laid out on stream positions -/

/-- Entries `es` are laid out in `f` from position `x` to position `y`. -/
inductive Laid (f : ℕ → Byte) : ℕ → List Entry → ℕ → Prop
  | nil (x : ℕ) : Laid f x [] x
  | record {x y : ℕ} {es : List Entry} (r : Record) (hw : r.type.writable = true)
      (hfit : r.type.totalSize ≤ pageLeft x)
      (hbytes : ∀ i (hi : i < r.bytes.length), f (x + i) = r.bytes[i])
      (rest : Laid f (x + r.type.totalSize) es y) : Laid f x (.record r :: es) y
  | pad {x y : ℕ} {es : List Entry} (hfit : 4 ≤ pageLeft x)
      (hbytes : ∀ i (hi : i < 4), f (x + i) = (Record.headerBytes .pad)[i])
      (rest : Laid f (nextPage x) es y) : Laid f x (.pad :: es) y

variable {f g : ℕ → Byte} {x y z : ℕ} {es es' : List Entry}

theorem Laid.le (hl : Laid f x es y) : x ≤ y := by
  induction hl with
  | nil => exact le_rfl
  | record r _ _ _ _ ih => omega
  | @pad x y es _ _ _ ih => exact (lt_nextPage x).le.trans ih

/-- **Frame rule.** Entries depend on their own bytes only. -/
theorem Laid.congr (hl : Laid f x es y) (hfg : ∀ z, x ≤ z → z < y → g z = f z) :
    Laid g x es y := by
  induction hl with
  | nil x => exact .nil x
  | @record x y es r hw hfit hbytes rest ih =>
    have hle := rest.le
    have hpos := r.type.four_le_totalSize
    refine .record r hw hfit (fun i hi => ?_) (ih fun z hz hz' => hfg z (by omega) hz')
    have hlen := hi
    rw [Record.length_bytes] at hlen
    rw [hfg _ (by omega) (by omega), hbytes i hi]
  | @pad x y es hfit hbytes rest ih =>
    have hle := rest.le
    have hlt := lt_nextPage x
    refine .pad hfit (fun i hi => ?_) (ih fun z hz hz' => hfg z (by omega) hz')
    rw [nextPage_eq] at hle
    rw [hfg _ (by omega) (by omega), hbytes i hi]

theorem Laid.append (hl : Laid f x es y) (hl' : Laid f y es' z) : Laid f x (es ++ es') z := by
  induction hl with
  | nil => exact hl'
  | record r hw hfit hbytes _ ih => exact .record r hw hfit hbytes (ih hl')
  | pad hfit hbytes _ ih => exact .pad hfit hbytes (ih hl')

/-- Every record takes at least four bytes. -/
theorem Laid.four_mul_length_le (hl : Laid f x es y) : 4 * (records es).length ≤ y - x := by
  induction hl with
  | nil => simp [records]
  | record r _ _ _ rest ih =>
    have := rest.le
    have := r.type.four_le_totalSize
    simp only [records, List.length_cons]
    omega
  | @pad x y es _ _ rest ih =>
    have := rest.le
    have := lt_nextPage x
    simp only [records]
    omega

/-- Behind position `x`, every PAD fills less of its page than the largest record needs. -/
def Snug : ℕ → List Entry → Prop
  | _, [] => True
  | x, .record r :: es => Snug (x + r.type.totalSize) es
  | x, .pad :: es => pageLeft x < 100 ∧ Snug (nextPage x) es

theorem Laid.snug_append (hl : Laid f x es y) : Snug x (es ++ es') ↔ Snug x es ∧ Snug y es' := by
  induction hl with
  | nil => simp [Snug]
  | record r _ _ _ _ ih => exact ih
  | pad _ _ _ ih => exact (and_congr_right fun _ => ih).trans and_assoc.symm

/-- **Few records fill little.** A record takes at most 100 bytes, and the PAD of a page at most 96. -/
theorem Laid.le_of_snug (hl : Laid f x es y) (hs : Snug x es) (hd : 4 ∣ x) :
    y + 96 * (x / pageSize) ≤ x + 100 * (records es).length + 96 * (y / pageSize) := by
  induction hl with
  | nil => simp [records]
  | @record x y es r _ _ _ rest ih =>
    have htotal := r.type.totalSize_le
    have hrest := ih hs ((Nat.dvd_add_right hd).mpr r.type.four_dvd_totalSize)
    have hmono : x / pageSize ≤ (x + r.type.totalSize) / pageSize :=
      Nat.div_le_div_right (Nat.le_add_right _ _)
    simp only [records, List.length_cons]
    omega
  | @pad x y es _ _ rest ih =>
    obtain ⟨hpad, hs⟩ := hs
    have hdvd : 4 ∣ nextPage x :=
      (show 4 ∣ pageSize by decide).trans (Nat.dvd_of_mod_eq_zero (nextPage_mod x))
    have hrest := ih hs hdvd
    have hnext : nextPage x / pageSize = x / pageSize + 1 := by
      simp only [nextPage, pageSize_eq]
      omega
    simp only [records]
    rw [hnext] at hrest
    rw [nextPage_eq] at hrest hdvd
    omega

/-! ### Reading at addresses -/

/-- The type code at address `a`. -/
def readHeader (rb : RingBuffer) (a : ℕ) : ℕ :=
  Record.le32 (rb.byteAt a) (rb.byteAt (a + 1)) (rb.byteAt (a + 2)) (rb.byteAt (a + 3))

/-- The structure of type `t` at address `a`, with its type. -/
def readRecord (rb : RingBuffer) (t : SampleType) (a : ℕ) : Record :=
  ⟨t, (List.range t.payloadSize).map fun i => rb.byteAt (a + i), by simp⟩

/-- Decode `left` bytes from address `a` on, following the type codes. `none` when a code is
unknown or an entry sticks out of the region. -/
def decodeFrom (rb : RingBuffer) : ℕ → ℕ → ℕ → Option (List Record)
  | _, _, 0 => some []
  | 0, _, _ + 1 => none
  | fuel + 1, a, left@(_ + 1) =>
    match SampleType.ofCode? (rb.readHeader a) with
    | none => none
    | some .pad =>
      let d := pageSize - a % pageSize
      if d ≤ left then rb.decodeFrom fuel ((a + d) % rb.size.toNat) (left - d) else none
    | some t =>
      if t.totalSize ≤ left then
        (rb.decodeFrom fuel ((a + t.totalSize) % rb.size.toNat) (left - t.totalSize)).map
          (rb.readRecord t (a + headerSize) :: ·)
      else none

/-- The records decoded between the kernel's tail and head. -/
def decodeUnread (rb : RingBuffer) : Option (List Record) :=
  rb.decodeFrom rb.rbCount.toNat rb.tail.toNat rb.rbCount.toNat

variable {rb : RingBuffer} {t h : ℕ} {r : Record}

/-- Inside a page, consecutive addresses are consecutive positions. -/
theorem Shape.byteAt_add (hs : Shape rb) {i : ℕ} (hi : i < pageLeft x) :
    rb.byteAt (x % rb.size.toNat + i) = rb.vbyte (x + i) := by
  rw [pageLeft] at hi
  rw [vbyte, Cyclic.mod_add_of_block hs.pageSize_dvd (by omega)]

theorem Shape.readHeader_eq (hs : Shape rb) {ty : SampleType} (hfit : 4 ≤ pageLeft x)
    (hbytes : ∀ i (hi : i < 4), rb.vbyte (x + i) = (Record.headerBytes ty)[i]) :
    rb.readHeader (x % rb.size.toNat) = ty.code := by
  have h0 := hs.byteAt_add (x := x) (i := 0) (by omega)
  rw [Nat.add_zero] at h0
  rw [readHeader, h0, hs.byteAt_add (by omega), hs.byteAt_add (by omega),
    hs.byteAt_add (by omega), hbytes 0 (by decide), hbytes 1 (by decide), hbytes 2 (by decide),
    hbytes 3 (by decide)]
  exact Record.le32_headerBytes ty

theorem Shape.readHeader_record (hs : Shape rb) (hfit : r.type.totalSize ≤ pageLeft x)
    (hbytes : ∀ i (hi : i < r.bytes.length), rb.vbyte (x + i) = r.bytes[i]) :
    rb.readHeader (x % rb.size.toNat) = r.type.code := by
  have hlen : 4 ≤ r.bytes.length := by
    rw [Record.length_bytes]; exact r.type.four_le_totalSize
  refine hs.readHeader_eq (r.type.four_le_totalSize.trans hfit) fun i hi => ?_
  rw [hbytes i (by omega)]
  exact List.getElem_append_left _

theorem Shape.readRecord_eq (hs : Shape rb) (hfit : r.type.totalSize ≤ pageLeft x)
    (hbytes : ∀ i (hi : i < r.bytes.length), rb.vbyte (x + i) = r.bytes[i]) :
    rb.readRecord r.type (x % rb.size.toNat + headerSize) = r := by
  rw [SampleType.totalSize_eq] at hfit
  refine Record.ext rfl (List.ext_getElem (by simp [readRecord, r.length_payload]) ?_)
  intro i hi hi'
  rw [r.length_payload] at hi'
  simp only [readRecord, List.getElem_map, List.getElem_range]
  rw [show headerSize = 4 from rfl, Nat.add_assoc, hs.byteAt_add (by omega),
    hbytes (4 + i) (by rw [Record.length_bytes, SampleType.totalSize_eq]; omega)]
  simp only [Record.bytes]
  rw [List.getElem_append_right (by simp)]
  congr 1
  simp

/-- Laid-out entries are what decoding finds. -/
theorem Laid.decodeFrom (hs : Shape rb) (hl : Laid rb.vbyte x es y) :
    ∀ fuel, y - x ≤ fuel →
      rb.decodeFrom fuel (x % rb.size.toNat) (y - x) = some (records es) := by
  induction hl with
  | nil x => intro fuel _; simp [RingBuffer.decodeFrom, records]
  | @record x y es r hw hfit hbytes rest ih =>
    intro fuel hfuel
    have hle := rest.le
    have hpos := r.type.four_le_totalSize
    obtain ⟨fuel, rfl⟩ : ∃ n, fuel = n + 1 := ⟨fuel - 1, by omega⟩
    obtain ⟨left, hleft⟩ : ∃ n, y - x = n + 1 := ⟨y - x - 1, by omega⟩
    have hnext := ih fuel (by omega)
    rw [show y - (x + r.type.totalSize) = left + 1 - r.type.totalSize by omega] at hnext
    have hne : r.type ≠ .pad := by rintro hp; rw [hp] at hw; exact absurd hw (by decide)
    rw [hleft, RingBuffer.decodeFrom]
    simp only [hs.readHeader_record hfit hbytes, SampleType.ofCode?_code]
    rw [if_pos (by omega), Nat.mod_add_mod, hnext, hs.readRecord_eq hfit hbytes]
    rfl
  | @pad x y es hfit hbytes rest ih =>
    intro fuel hfuel
    have hle := rest.le
    have hlt := lt_nextPage x
    obtain ⟨fuel, rfl⟩ : ∃ n, fuel = n + 1 := ⟨fuel - 1, by omega⟩
    obtain ⟨left, hleft⟩ : ∃ n, y - x = n + 1 := ⟨y - x - 1, by omega⟩
    have hnext := ih fuel (by omega)
    rw [nextPage_eq] at hle hnext
    rw [show y - (x + pageLeft x) = left + 1 - pageLeft x by omega] at hnext
    have hx : x % rb.size.toNat % pageSize = x % pageSize := Nat.mod_mod_of_dvd _ hs.pageSize_dvd
    rw [hleft, RingBuffer.decodeFrom]
    simp only [hs.readHeader_eq hfit hbytes, SampleType.ofCode?_code, hx]
    rw [show pageSize - x % pageSize = pageLeft x from rfl, if_pos (by omega), Nat.mod_add_mod]
    exact hnext

theorem At.decodeUnread (w : At rb t h) (hl : Laid rb.vbyte t es h) :
    rb.decodeUnread = some (records es) := by
  rw [RingBuffer.decodeUnread, w.toNat_rbCount, w.tail_eq]
  exact hl.decodeFrom w.toShape _ le_rfl

/-! ### Writing appends -/

/-- The PAD of a stuffed page. -/
theorem At.laid_pad (w : At rb t h) :
    Laid rb.smonRbStuffPage.1.vbyte h [.pad] (nextPage h) :=
  .pad (four_le_pageLeft w.dvd)
    (fun _ hi => (vbyte_congr _ _ rfl rfl _).trans (w.storesAt_pad.vbyte_self w.toShape hi))
    (.nil _)

/-- A committed record. -/
theorem At.laid_commit (w : At rb t h) (hw : r.type.writable = true)
    (hfit : r.type.totalSize ≤ pageLeft h) :
    Laid (rb.commit r).rb.vbyte h [.record r] (h + r.type.totalSize) :=
  .record r hw hfit (fun _ hi => w.vbyte_commit hfit hi) (.nil _)

/-- What a write adds to the stream: entries `es` from the write position `h` to the new one `h'`,
the unread bytes being untouched. -/
structure Appended (rb : RingBuffer) (t h : ℕ) (r : Record) (res : WriteResult)
    (es : List Entry) (h' : ℕ) : Prop where
  win : At res.rb t h'
  frame : ∀ y, t ≤ y → y < h → res.rb.vbyte y = rb.vbyte y
  laid : Laid res.rb.vbyte h es h'
  records_eq : records es = if res.accepted then [r] else []
  items_eq : res.rb.items = if res.accepted then rb.items + 1 else rb.items

/-- A write appends the record if it is accepted, and a PAD before it or in its place. -/
theorem WriteCase.appended {res : WriteResult} (w : At rb t h) (hw : r.type.writable = true)
    (hc : WriteCase rb t h r res) : ∃ es h', Appended rb t h r res es h' ∧ Snug h es := by
  have hle := w.le
  have hlt := w.lt
  have htotal := r.type.totalSize_le
  cases hc with
  | full => exact ⟨[], h, ⟨w, fun _ _ _ => rfl, .nil h, rfl, rfl⟩, trivial⟩
  | padded hpage hspace =>
    have hroom := w.stuff_room hpage hspace
    exact ⟨[.pad], nextPage h, ⟨w.smonRbStuffPage hroom, fun y => w.vbyte_stuff_of_window hroom,
      w.laid_pad, rfl, rfl⟩, by omega, trivial⟩
  | fits hpage hspace =>
    exact ⟨[.record r], _, ⟨w.commit hpage (by omega),
      fun y => w.vbyte_commit_of_window hpage (by omega), w.laid_commit hw hpage, rfl, rfl⟩, trivial⟩
  | wraps hpage hspace =>
    have hroom := w.stuff_room hpage (by omega)
    have w' := w.smonRbStuffPage hroom
    have hfit := totalSize_le_pageLeft_nextPage r h
    have hlt' := lt_nextPage h
    have hroom' : nextPage h + r.type.totalSize - t < rb.smonRbStuffPage.1.size.toNat := by
      rw [smonRbStuffPage_size, nextPage_eq]
      omega
    have hpad : Laid (rb.smonRbStuffPage.1.commit r).rb.vbyte h [.pad] (nextPage h) :=
      w.laid_pad.congr fun z hz hz' => w'.vbyte_commit_of_window hfit hroom' (by omega) hz'
    refine ⟨[.pad] ++ [.record r], _, ⟨w'.commit hfit hroom', fun y hy hy' => ?_,
      hpad.append (w'.laid_commit hw hfit), rfl, rfl⟩, ?_⟩
    swap
    · exact ⟨by omega, trivial⟩
    rw [w'.vbyte_commit_of_window hfit hroom' hy (by omega), w.vbyte_stuff_of_window hroom hy hy']

end RingBuffer

end SchedMon
