import Mathlib.Data.List.Nodup
import Mathlib.Data.List.Perm.Basic
import Mathlib.Tactic.Common

/-!
# Intrusive circular lists

A node carries its own `next` and `prev`; a list is nothing but links that lead back to where they
started. One node serves as the head, and every node can. This is what `list_head` is in the Linux
kernel, and the operations are its `INIT_LIST_HEAD`, `list_add` and `list_del`.

*`Seg l a xs b`* says that the links lead from `a` through `xs` to `b`, both ways. A ring is a
segment from a node to itself without repetitions: `IsRing l r xs`. Adding behind *any* node of a
ring keeps it a ring of the same head, which is why a tree of lists spliced into one another is one
flat ring.

## Main results

* `IsRing.add` — adding behind any element
* `IsRing.del` — deleting the first element
* `IsRing.congr`, `add_frame`, `del_frame` — other rings are untouched
-/

namespace SchedMon

/-- The links of all nodes. -/
structure Links (α : Type*) where
  next : α → α
  prev : α → α

namespace Links

variable {α : Type*}

/-! ### Segments and rings -/

/-- The links lead from `a` through `xs` to `b`, and back. -/
def Seg (l : Links α) : α → List α → α → Prop
  | a, [], b => l.next a = b ∧ l.prev b = a
  | a, x :: xs, b => (l.next a = x ∧ l.prev x = a) ∧ Seg l x xs b

/-- The links lead from `r` through `xs` back to `r`, without repetitions. -/
def IsRing (l : Links α) (r : α) (xs : List α) : Prop := Seg l r xs r ∧ (r :: xs).Nodup

variable {l l' : Links α} {a b r r' x y : α} {xs ys : List α}

theorem seg_append : Seg l a (xs ++ y :: ys) b ↔ Seg l a xs y ∧ Seg l y ys b := by
  induction xs generalizing a with
  | nil => exact Iff.rfl
  | cons x xs ih =>
    simp only [List.cons_append, Seg, ih, and_assoc]

/-- A segment depends on the links out of its nodes and back into them only. -/
theorem Seg.congr (h : Seg l a xs b) (hnext : ∀ y ∈ a :: xs, l'.next y = l.next y)
    (hprev : ∀ y ∈ xs ++ [b], l'.prev y = l.prev y) : Seg l' a xs b := by
  induction xs generalizing a with
  | nil =>
    exact ⟨(hnext a List.mem_cons_self).trans h.1, (hprev b (by simp)).trans h.2⟩
  | cons x xs ih =>
    obtain ⟨⟨hn, hp⟩, hrest⟩ := h
    refine ⟨⟨(hnext a List.mem_cons_self).trans hn, (hprev x (by simp)).trans hp⟩, ih hrest ?_ ?_⟩
    · exact fun y hy => hnext y (List.mem_cons_of_mem _ hy)
    · exact fun y hy => hprev y (List.mem_cons_of_mem _ hy)

theorem Seg.next_mem (h : Seg l a xs b) : l.next a ∈ xs ++ [b] := by
  cases xs with
  | nil => exact List.mem_singleton.mpr h.1
  | cons x xs => exact h.1.1 ▸ List.mem_cons_self

theorem IsRing.nodup (h : IsRing l r xs) : (r :: xs).Nodup := h.2

theorem IsRing.congr (h : IsRing l r xs)
    (heq : ∀ y ∈ r :: xs, l'.next y = l.next y ∧ l'.prev y = l.prev y) : IsRing l' r xs := by
  refine ⟨h.1.congr (fun y hy => (heq y hy).1) fun y hy => (heq y ?_).2, h.2⟩
  simpa [or_comm] using hy

theorem Seg.unique (h : Seg l a xs b) (h' : Seg l a ys b) (hxs : b ∉ xs) (hys : b ∉ ys) :
    xs = ys := by
  induction xs generalizing a ys with
  | nil =>
    cases ys with
    | nil => rfl
    | cons y ys => exact absurd (h.1.symm.trans h'.1.1) fun heq => hys (heq ▸ List.mem_cons_self)
  | cons x xs ih =>
    cases ys with
    | nil => exact absurd (h'.1.symm.trans h.1.1) fun heq => hxs (heq ▸ List.mem_cons_self)
    | cons y ys =>
      obtain rfl : x = y := h.1.1.symm.trans h'.1.1
      rw [ih h.2 h'.2 (fun hmem => hxs (List.mem_cons_of_mem _ hmem))
        fun hmem => hys (List.mem_cons_of_mem _ hmem)]

/-- The links and the head determine a ring. -/
theorem IsRing.unique (h : IsRing l r xs) (h' : IsRing l r ys) : xs = ys :=
  h.1.unique h'.1 (List.nodup_cons.mp h.2).1 (List.nodup_cons.mp h'.2).1

/-- Cutting a ring open behind one of its nodes. -/
theorem IsRing.cut (h : IsRing l r xs) (ha : a ∈ xs) :
    ∃ pre post, xs = pre ++ a :: post ∧ Seg l r pre a ∧ Seg l a post r := by
  obtain ⟨pre, post, rfl⟩ := List.append_of_mem ha
  obtain ⟨hpre, hpost⟩ := seg_append.mp h.1
  exact ⟨pre, post, rfl, hpre, hpost⟩

/-- The links do not leave a ring. -/
theorem IsRing.next_mem (h : IsRing l r xs) (ha : a ∈ r :: xs) : l.next a ∈ r :: xs := by
  rcases List.mem_cons.mp ha with rfl | ha
  · simpa [or_comm] using h.1.next_mem
  · obtain ⟨pre, post, rfl, -, hpost⟩ := h.cut ha
    have := hpost.next_mem
    simp only [List.mem_append, List.mem_cons, List.not_mem_nil, or_false] at this ⊢
    tauto

theorem Seg.next_head (h : Seg l a xs b) : l.next a = xs.headD b := by
  cases xs with
  | nil => exact h.1
  | cons x xs => exact h.1.1

theorem IsRing.next_head (h : IsRing l r xs) : l.next r = xs.headD r := h.1.next_head

theorem IsRing.prev_head (h : IsRing l r (x :: xs)) : l.prev x = r := h.1.1.2

/-- The node behind the first element. -/
theorem IsRing.next_next (h : IsRing l r (x :: xs)) : l.next x = xs.headD r := h.1.2.next_head

/-! ### The operations -/

variable [DecidableEq α]

/-- `INIT_LIST_HEAD`. -/
def init (l : Links α) (x : α) : Links α where
  next := Function.update l.next x x
  prev := Function.update l.prev x x

/-- `list_add`: node `x` goes behind node `a`. -/
def add (l : Links α) (x a : α) : Links α where
  next := Function.update (Function.update l.next x (l.next a)) a x
  prev := Function.update (Function.update l.prev (l.next a) x) x a

/-- `list_del`, but for the poison it leaves in the deleted node. -/
def del (l : Links α) (x : α) : Links α where
  next := Function.update l.next (l.prev x) (l.next x)
  prev := Function.update l.prev (l.next x) (l.prev x)

theorem isRing_init (l : Links α) (x : α) : IsRing (l.init x) x [] :=
  ⟨⟨Function.update_self .., Function.update_self ..⟩, List.nodup_singleton x⟩

theorem init_frame (h : IsRing l r xs) (hx : x ∉ r :: xs) : IsRing (l.init x) r xs := by
  refine h.congr fun y hy => ?_
  have hne : y ≠ x := fun hyx => hx (hyx ▸ hy)
  exact ⟨Function.update_of_ne hne .., Function.update_of_ne hne ..⟩

theorem add_next_of_ne (hx : y ≠ x) (ha : y ≠ a) : (l.add x a).next y = l.next y := by
  simp only [add, Function.update_of_ne ha, Function.update_of_ne hx]

theorem add_prev_of_ne (hx : y ≠ x) (hn : y ≠ l.next a) : (l.add x a).prev y = l.prev y := by
  simp only [add, Function.update_of_ne hx, Function.update_of_ne hn]

/-- The segment behind `a` gets `x` as its first node. -/
theorem Seg.add_head (h : Seg l a xs b) (hnodup : (a :: xs).Nodup) (hb : b ∉ xs)
    (hx : x ∉ a :: b :: xs) : Seg (l.add x a) a (x :: xs) b := by
  simp only [List.mem_cons, not_or] at hx
  obtain ⟨hxa, hxb, hxs⟩ := hx
  have hnext : (l.add x a).next a = x := Function.update_self ..
  have hprev : (l.add x a).prev x = a := Function.update_self ..
  have hnext' : (l.add x a).next x = l.next a := by
    simp only [add, Function.update_of_ne hxa, Function.update_self]
  have hprev' : l.next a ≠ x → (l.add x a).prev (l.next a) = x := by
    intro hne
    simp only [add, Function.update_of_ne hne, Function.update_self]
  refine ⟨⟨hnext, hprev⟩, ?_⟩
  cases xs with
  | nil =>
    have hn : l.next a = b := h.1
    rw [hn] at hnext' hprev'
    exact ⟨hnext', hprev' fun heq => hxb heq.symm⟩
  | cons y ys =>
    obtain ⟨⟨hn, -⟩, hrest⟩ := h
    rw [List.mem_cons, not_or] at hxs hb
    rw [List.nodup_cons, List.mem_cons, not_or, List.nodup_cons] at hnodup
    obtain ⟨⟨hay, hays⟩, hyys, -⟩ := hnodup
    rw [hn] at hnext' hprev'
    refine ⟨⟨hnext', hprev' fun heq => hxs.1 heq.symm⟩, hrest.congr (fun z hz => ?_) fun z hz => ?_⟩
    · refine add_next_of_ne ?_ ?_
      · rintro rfl
        exact List.mem_cons.mp hz |>.elim hxs.1 hxs.2
      · rintro rfl
        exact List.mem_cons.mp hz |>.elim hay hays
    · rw [List.mem_append, List.mem_singleton] at hz
      refine add_prev_of_ne ?_ ?_
      · rintro rfl
        exact hz.elim hxs.2 hxb
      · rw [hn]
        rintro rfl
        exact hz.elim hyys fun heq => hb.1 heq.symm

/-- **Adding behind any element** of a ring, or behind its head, makes a longer ring of the same
head. -/
theorem IsRing.add (h : IsRing l r xs) (ha : a ∈ r :: xs) (hx : x ∉ r :: xs) :
    ∃ ys, IsRing (l.add x a) r ys ∧ ys.Perm (x :: xs) := by
  have hnodup := h.nodup
  rw [List.mem_cons] at ha
  by_cases har : a = r
  · subst har
    have ha : a ∉ xs := (List.nodup_cons.mp hnodup).1
    refine ⟨x :: xs, ⟨h.1.add_head hnodup ha ?_, ?_⟩, .refl _⟩
    · simpa using hx
    · simp only [List.nodup_cons, List.mem_cons, not_or] at hnodup hx ⊢
      exact ⟨⟨fun heq => hx.1 heq.symm, hnodup.1⟩, hx.2, hnodup.2⟩
  · obtain ⟨pre, post, rfl, hpre, hpost⟩ := h.cut (ha.resolve_left har)
    simp only [List.nodup_cons, List.nodup_append, List.mem_append, List.mem_cons, not_or]
      at hnodup hx
    obtain ⟨⟨hrpre, hra, hrpost⟩, hnpre, ⟨hapost, hnpost⟩, hdisj⟩ := hnodup
    obtain ⟨hxr, hxpre, hxa, hxpost⟩ := hx
    have hpost' := hpost.add_head (x := x) (List.nodup_cons.mpr ⟨hapost, hnpost⟩) hrpost (by
      simp only [List.mem_cons, not_or]
      exact ⟨hxa, hxr, hxpost⟩)
    have hpre' : Seg (l.add x a) r pre a := by
      refine hpre.congr (fun y hy => ?_) fun y hy => ?_
      · rcases List.mem_cons.mp hy with rfl | hy
        · exact add_next_of_ne (Ne.symm hxr) (Ne.symm har)
        · refine add_next_of_ne ?_ (hdisj y hy a (.inl rfl))
          rintro rfl
          exact hxpre hy
      · -- the node behind `a` is not before `a`
        have hn := hpost.next_mem
        rw [List.mem_append, List.mem_singleton] at hn hy
        rcases hy with hy | rfl
        · refine add_prev_of_ne ?_ ?_
          · rintro rfl
            exact hxpre hy
          · rintro rfl
            rcases hn with hn | hn
            · exact hdisj _ hy _ (.inr hn) rfl
            · exact hrpre (hn ▸ hy)
        · refine add_prev_of_ne (Ne.symm hxa) ?_
          intro heq
          rcases hn with hn | hn
          · exact hapost (heq ▸ hn)
          · exact har (heq.trans hn)
    refine ⟨pre ++ a :: x :: post, ⟨seg_append.mpr ⟨hpre', hpost'⟩, ?_⟩, ?_⟩
    · simp only [List.nodup_cons, List.nodup_append, List.mem_append, List.mem_cons, not_or]
      refine ⟨⟨hrpre, hra, Ne.symm hxr, hrpost⟩, hnpre,
        ⟨⟨Ne.symm hxa, hapost⟩, hxpost, hnpost⟩, fun y hy z hz => ?_⟩
      rcases hz with rfl | rfl | hz
      · exact hdisj y hy _ (.inl rfl)
      · rintro rfl
        exact hxpre hy
      · exact hdisj y hy z (.inr hz)
    · have hmid : (pre ++ a :: x :: post).Perm (x :: (pre ++ a :: post)) := by
        have hperm : (pre ++ [a] ++ x :: post).Perm (x :: (pre ++ [a] ++ post)) := List.perm_middle
        simpa using hperm
      exact hmid

/-- **Deleting the first element** of a ring. -/
theorem IsRing.del (h : IsRing l r (x :: xs)) : IsRing (l.del x) r xs := by
  obtain ⟨⟨⟨hn, hp⟩, hrest⟩, hnodup⟩ := h
  have hnodup' := hnodup
  simp only [List.nodup_cons, List.mem_cons, not_or] at hnodup'
  obtain ⟨⟨hrx, hrxs⟩, hxxs, hxs⟩ := hnodup'
  refine ⟨?_, List.nodup_cons.mpr ⟨hrxs, hxs⟩⟩
  cases xs with
  | nil =>
    have hnx : l.next x = r := hrest.1
    refine ⟨?_, ?_⟩
    · simp only [Links.del, hp, Function.update_self, hnx]
    · simp only [Links.del, hnx, Function.update_self, hp]
  | cons y ys =>
    obtain ⟨⟨hnx, -⟩, htail⟩ := hrest
    rw [List.mem_cons, not_or] at hrxs hxxs
    rw [List.nodup_cons] at hxs
    refine ⟨⟨?_, ?_⟩, htail.congr (fun z hz => ?_) fun z hz => ?_⟩
    · simp only [Links.del, hp, Function.update_self, hnx]
    · simp only [Links.del, hnx, Function.update_self, hp]
    · simp only [Links.del, hp]
      refine Function.update_of_ne ?_ ..
      rintro rfl
      exact List.mem_cons.mp hz |>.elim hrxs.1 hrxs.2
    · simp only [Links.del, hnx]
      refine Function.update_of_ne ?_ ..
      rintro rfl
      rw [List.mem_append, List.mem_singleton] at hz
      exact hz.elim hxs.1 fun heq => hrxs.1 heq.symm

/-! ### Other rings -/

/-- Rings that have no node in `zs` are kept. -/
def KeepsRings (l l' : Links α) (zs : List α) : Prop :=
  ∀ r ys, IsRing l r ys → (∀ y ∈ r :: ys, y ∉ zs) → IsRing l' r ys

omit [DecidableEq α] in
theorem KeepsRings.refl (l : Links α) (zs : List α) : KeepsRings l l zs := fun _ _ h _ => h

omit [DecidableEq α] in
theorem KeepsRings.trans {l'' : Links α} {zs zs' : List α} (h : KeepsRings l l' zs)
    (h' : KeepsRings l' l'' zs') (hsub : zs' ⊆ zs) : KeepsRings l l'' zs := by
  intro r ys hring hdisj
  exact h' r ys (h r ys hring hdisj) fun y hy hmem => hdisj y hy (hsub hmem)

theorem add_frame (h : IsRing l r xs) (ha : a ∈ r :: xs) :
    KeepsRings l (l.add x a) (x :: r :: xs) := by
  intro r' ys hring hdisj
  refine hring.congr fun y hy => ?_
  have hyx : y ≠ x := fun heq => hdisj y hy (heq ▸ List.mem_cons_self)
  have hne : ∀ z ∈ r :: xs, y ≠ z := fun z hz heq =>
    hdisj y hy (List.mem_cons_of_mem _ (heq ▸ hz))
  exact ⟨add_next_of_ne hyx (hne a ha), add_prev_of_ne hyx (hne _ (h.next_mem ha))⟩

theorem del_frame (h : IsRing l r (x :: xs)) : KeepsRings l (l.del x) (r :: x :: xs) := by
  intro r' ys hring hdisj
  have hn : l.next x ∈ r :: x :: xs := h.next_mem (by simp)
  refine hring.congr fun y hy => ?_
  have hyr : y ≠ r := fun heq => hdisj y hy (heq ▸ List.mem_cons_self)
  have hyn : y ≠ l.next x := fun heq => hdisj y hy (heq ▸ hn)
  simp only [del, h.prev_head]
  exact ⟨Function.update_of_ne hyr .., Function.update_of_ne hyn ..⟩

end Links

end SchedMon
