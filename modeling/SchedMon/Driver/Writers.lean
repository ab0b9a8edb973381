import SchedMon.Driver.Descendants
import SchedMon.Lib.Census

/-!
# Who writes to a ring buffer

`rb->active` is raised when a task is made, and lowered when its process exits or when it is
destroyed before that. It is the number of tasks that have the buffer, in every reachable state and
whatever the tasks do.

## Main definitions

* `Book.Counted` — every buffer counts its tasks

## Main results

* `active_of_run` — **the count of a buffer is the number of tasks that have it**
-/

namespace SchedMon

open State

/-- Every buffer counts the tasks that have it. -/
def Book.Counted (b : Book) : Prop := ∀ rb, b.active rb = census (b.holds rb) b.fresh

section Books

variable {b b' : Book} {rb : RbId} {t : TaskId} {c : TaskCore × Option RbId} {l : Label}
  {ring : TaskId → List TaskId}

theorem Book.holds_of_entry (hc : b.entry t = some c) : b.holds rb t = (c.1.rb = some rb : Bool) := by
  simp only [Book.holds, hc]

theorem Book.holds_of_none (ht : b.entry t = none) : b.holds rb t = false := by
  simp only [Book.holds, ht]

theorem Book.holds_congr (h : b'.entry t = b.entry t) : b'.holds rb t = b.holds rb t := by
  simp only [Book.holds, h]

/-- A new task has the buffer, and the others have what they had. -/
theorem Book.Counted.add (h : b.Counted) (hc : b'.entry b.fresh = some c) (hrb : c.1.rb = some rb)
    (hactive : b'.active = Function.update b.active rb (b.active rb + 1))
    (hfresh : b'.fresh = b.fresh + 1)
    (hsame : ∀ rb' u, u ≠ b.fresh → b'.holds rb' u = b.holds rb' u) : b'.Counted := by
  intro rb'
  have hold : census (b'.holds rb') b.fresh = census (b.holds rb') b.fresh :=
    census_congr fun u hu => hsame rb' u (Nat.ne_of_lt hu)
  rw [hfresh, census_succ, hold, hactive, Book.holds_of_entry hc, hrb]
  push_cast
  rw [← h rb']
  by_cases hne : rb' = rb
  · subst hne
    simp
  · have hne' : rb ≠ rb' := fun heq => hne heq.symm
    simp [hne, hne']

/-- A task gives its buffer back. -/
theorem Book.Counted.leave (h : b.Counted) (hlt : t < b.fresh) (hc : b.entry t = some c)
    (hrb : c.1.rb = some rb) (i : Place) : (b.leave t c rb i).Counted := by
  intro rb'
  have hnew : (b.leave t c rb i).entry t = some ({ c.1 with p := none, rb := none }, c.2) :=
    Function.update_self ..
  have hsame : ∀ u, u ≠ t → (b.leave t c rb i).holds rb' u = b.holds rb' u := fun u hu =>
    Book.holds_congr (Function.update_of_ne hu ..)
  change Function.update b.active rb (b.active rb - 1) rb' = census _ b.fresh
  by_cases hne : rb' = rb
  · subst hne
    have hlose : census (b.holds rb') b.fresh = census ((b.leave t c rb' i).holds rb') b.fresh + 1 :=
      census_lose hlt (by simp [Book.holds_of_entry hc, hrb])
        (by simp [Book.holds_of_entry hnew]) hsame
    rw [Function.update_self, h rb', hlose]
    push_cast
    omega
  · have hne' : rb ≠ rb' := fun heq => hne heq.symm
    rw [Function.update_of_ne hne, h rb']
    refine congrArg Nat.cast (census_congr fun u _ => ?_).symm
    by_cases hu : u = t
    · subst hu
      rw [Book.holds_of_entry hnew, Book.holds_of_entry hc, hrb]
      simp [hne']
    · exact hsame u hu

/-- A family gives back what it has. -/
theorem Book.Counted.drop (h : b.Counted) (hforest : Forest b ring) {r : TaskId}
    (hr : r ∈ b.taskList) (hd : b.Dropped r (ring r) b') : b'.Counted := by
  intro rb
  have hgone : ∀ u ∈ r :: ring r, b'.holds rb u = false := fun u hu =>
    Book.holds_of_none (by rw [hd.entry, if_pos hu])
  have hsame : ∀ u, u ∉ r :: ring r → b'.holds rb u = b.holds rb u := fun u hu =>
    Book.holds_congr (by rw [hd.entry, if_neg hu])
  have hlose := census_lose_all (hforest.rings r hr).nodup (fun u hu => hforest.lt_fresh hr hu)
    hgone hsame
  rw [hd.active, h rb, hd.fresh, hlose]
  push_cast
  omega

/-- **Every event keeps the counts right.** -/
theorem Book.Counted.step (h : b.Counted) (hforest : Forest b ring) (hstep : BookStep b l b') :
    b'.Counted := by
  cases hstep with
  | fork parent child pid cpu leader k t c rb envir hk hat hc hrb henvir hinherit =>
    have hne : b.fresh ≠ t := Nat.ne_of_gt (hforest.bound t c hc)
    have hnew : ({ b with kernel := k }.addChild t c rb envir child).entry b.fresh =
        some (⟨some child, k.pid child, c.1.envir, 0, some rb⟩, none) := by
      simp only [Book.addChild, Function.update_of_ne hne, Function.update_self]
    refine Book.Counted.add (b := { b with kernel := k }) h hnew rfl rfl rfl fun rb' u hu => ?_
    by_cases hut : u = t
    · subst hut
      have hparent : ({ b with kernel := k }.addChild u c rb envir child).entry u =
          some ({ c.1 with nChildren := c.1.nChildren + 1 }, c.2) := Function.update_self ..
      rw [Book.holds_of_entry hparent]
      exact (Book.holds_of_entry (b := { b with kernel := k }) hc).symm
    · refine Book.holds_congr ?_
      simp only [Book.addChild, Function.update_of_ne hut, Function.update_of_ne hu]
  | exit p i t c rb hi hat hc hrb => exact h.leave (hforest.bound t c hc) hc hrb i
  | register me pid envir rb alloc halloc =>
    refine h.add (c := (⟨some _, pid, b.fresh, 0, some rb⟩, some rb)) (Function.update_self ..) rfl
      rfl rfl fun rb' u hu => ?_
    exact Book.holds_congr (Function.update_of_ne hu ..)
  | unregister pid r c xs b' hr hc hpid hring hd =>
    obtain rfl := (hforest.rings r hr).unique hring
    exact h.drop hforest hr hd
  | _ => exact h

end Books

/-! ### In a state -/

variable {s s₀ : State} {ls : List Label}

theorem Initial.counted (h : s₀.Initial) : s₀.book.Counted := by
  intro rb
  have hzero : census (s₀.book.holds rb) s₀.book.fresh = 0 :=
    census_eq_zero.mpr fun u _ => Book.holds_of_none (by simp [State.book, h.tasks u])
  rw [hzero]
  exact (h.rbs rb).1

/-- **The count of a buffer is the number of tasks that have it**, in every reachable state. -/
theorem active_of_run (run : Run State.Step s₀ ls s) (init : s₀.Initial) (b : RbId) :
    (s.rbs b).active = census (s.holds b) s.fresh := by
  have hcounted : s.book.Counted := by
    refine (run.invariant (motive := fun s => (∃ ring, Forest s.book ring) ∧ s.book.Counted)
      ⟨⟨_, Initial.forest init⟩, Initial.counted init⟩ ?_).2
    rintro s l s' ⟨⟨ring, hforest⟩, hcounted⟩ hstep
    have hbook := exec_book_step hforest hstep.2
    exact ⟨hforest.step hbook, hcounted.step hforest hbook⟩
  have hholds : s.book.holds b = s.holds b := funext (book_holds s b)
  rw [← hholds]
  exact hcounted b

theorem active_of_run_forkTree : (forkTree.rbs 0).active = census (forkTree.holds 0) forkTree.fresh :=
  active_of_run (run_after rfl) (initial_boot ..) 0

end SchedMon
