import SchedMon.Driver.State
import SchedMon.Lib.Fallible
import SchedMon.RingBuffer.Basic

/-!
# Allocating the ring buffer

`smon_create_rb` with allocations that may fail. When a page cannot be had, the pages taken so far
should be given back. The loop that does so counts down from the index that failed, and decrements
before it tests: it stops in front of page 0, and if page 0 is the one that failed it goes on
below it.

## Main definitions

* `Memory` — the array `rb->data`, and what was taken, given back and looked at
* `smonCreateRbWith` — `smon_create_rb`
* `CleansUp` — what should be left behind when a page fails

## Main results

* `smonCreateRbWith_of_page` — a later page fails: page 0 is lost
* `smonCreateRbWith_of_first` — the first page fails: the loop leaves the array
* `not_cleansUp` — **the clean-up never does what it should**
-/

namespace SchedMon

namespace RingBuffer

/-! ### The code -/

/-- What is taken from the allocators, and given back to them. Pages have the order in which they
were taken for an address. -/
inductive Block where
  | rb
  | data
  | page (addr : ℕ)
  deriving DecidableEq

/-- Which allocations succeed, and what is in the pages. -/
structure Supply where
  rb : Bool
  data : Bool
  page : ℕ → Bool
  content : ℕ → ℕ → Byte

/-- The array `rb->data`, the number of pages taken, the blocks given back, in order, and the
indices of the array that the clean-up looked at. -/
structure Memory where
  slots : ℤ → Option ℕ
  taken : ℕ
  freed : List Block
  touched : List ℤ

/-- `rb->data[i]`, in an array of `n` pointers. -/
def Memory.slot (m : Memory) (n : ℕ) (i : ℤ) : Except Fault (Option ℕ) :=
  if 0 ≤ i ∧ i < n then .ok (m.slots i) else .error .outOfBounds

/-- The `for` loop of `smon_create_rb` at index `i`, with `left` indices to go: the index that
fails, if one does. -/
def getPages (page : ℕ → Bool) : ℕ → ℕ → Memory → Memory × Option ℕ
  | 0, _, m => (m, none)
  | left + 1, i, m =>
    if page i then
      getPages page left (i + 1)
        { m with slots := Function.update m.slots i (some m.taken), taken := m.taken + 1 }
    else (m, some i)

/-- `free_pages (rb->data[i], 0); rb->data[i] = NULL`. -/
def Memory.freePage (m : Memory) (n : ℕ) (i : ℤ) : Except Fault Memory := do
  let page ← m.slot n i
  return { m with
    slots := Function.update m.slots i none
    freed := m.freed ++ page.toList.map .page
    touched := m.touched ++ [i] }

/-- The loop behind `error_pages`, `while (--i)`. -/
def freePages (n : ℕ) : ℕ → ℤ → Memory → Except Fault Memory
  | 0, _, _ => .error .diverges
  | fuel + 1, i, m =>
    let i := i - 1
    if i = 0 then .ok m
    else do
      let m ← m.freePage n i
      freePages n fuel i m

/-- `smon_create_rb`: the buffer or a null pointer, and the memory behind it. -/
def smonCreateRbWith (nPages : U32) (supply : Supply) : Except Fault (Option RingBuffer × Memory) :=
  let m : Memory := ⟨fun _ => none, 0, [], []⟩
  if smonMaxPages < nPages.toNat then return (none, m)
  else if !supply.rb then return (none, m)
  else if !supply.data then return (none, { m with freed := [.rb] })
  else match getPages supply.page nPages.toNat 0 m with
    | (m, none) => return (some (smonCreateRb nPages supply.content), m)
    | (m, some i) => do
      let m ← freePages nPages.toNat (nPages.toNat + 1) i m
      return (none, { m with freed := m.freed ++ [.data, .rb] })

/-! ### What it does -/

variable {nPages : U32} {supply : Supply} {k n i left : ℕ} {m m' : Memory}

/-- The pages before the one that fails are taken, one after the other. -/
theorem getPages_of_fails {page : ℕ → Bool} (hpages : ∀ j < k, page j = true)
    (hk : page k = false) (hik : i ≤ k) (hleft : k < i + left) (htaken : m.taken = i)
    (hslots : ∀ j : ℕ, j < i → m.slots j = some j) :
    ∃ m', getPages page left i m = (m', some k) ∧ (∀ j : ℕ, j < k → m'.slots j = some j) ∧
      m'.freed = m.freed := by
  induction left generalizing i m with
  | zero => omega
  | succ left ih =>
    rw [getPages]
    rcases Nat.lt_or_eq_of_le hik with hlt | rfl
    · rw [if_pos (hpages i hlt)]
      refine ih hlt (by omega) (by rw [htaken]) fun j hj => ?_
      show Function.update m.slots i (some m.taken) j = some j
      by_cases hji : j = i
      · rw [hji, htaken]
        exact Function.update_self ..
      · have hne : (j : ℤ) ≠ i := by omega
        rw [Function.update_of_ne hne]
        exact hslots j (by omega)
    · rw [hk]
      exact ⟨m, rfl, hslots, rfl⟩

/-- Going down from a page behind the first, all but the first are given back. -/
theorem freePages_succ (hn : k < n) (hfuel : k < left)
    (hslots : ∀ j : ℕ, j ≤ k → m.slots j = some j) :
    ∃ m', freePages n left (k + 1) m = .ok m' ∧
      m'.freed = m.freed ++ (List.range' 1 k).reverse.map .page := by
  induction k generalizing left m with
  | zero =>
    obtain ⟨left, rfl⟩ : ∃ l, left = l + 1 := ⟨left - 1, by omega⟩
    exact ⟨m, by rw [freePages]; rfl, by simp⟩
  | succ k ih =>
    obtain ⟨left, rfl⟩ : ∃ l, left = l + 1 := ⟨left - 1, by omega⟩
    have hleft : k < left := by omega
    have hslot : m.slot n (k + 1) = .ok (some (k + 1)) := by
      rw [Memory.slot, if_pos (by omega)]
      exact congrArg _ (hslots (k + 1) (Nat.le_refl _))
    have hfree : m.freePage n (k + 1) = .ok { m with
        slots := Function.update m.slots (k + 1) none
        freed := m.freed ++ [.page (k + 1)]
        touched := m.touched ++ [(k + 1 : ℤ)] } := by
      rw [Memory.freePage, hslot]
      rfl
    obtain ⟨m', hm', hfreed⟩ := ih (m := { m with
        slots := Function.update m.slots (k + 1) none
        freed := m.freed ++ [.page (k + 1)]
        touched := m.touched ++ [(k + 1 : ℤ)] }) (by omega) hleft fun j hj => by
      have hne : (j : ℤ) ≠ k + 1 := by omega
      exact (Function.update_of_ne hne ..).trans (hslots j (by omega))
    refine ⟨m', ?_, ?_⟩
    · rw [freePages]
      have hi : ((k + 1 : ℕ) + 1 : ℤ) - 1 = k + 1 := by omega
      have hne : (k + 1 : ℤ) ≠ 0 := by omega
      simp only [hi, if_neg hne, hfree]
      exact hm'
    · rw [hfreed, List.range'_1_concat, List.reverse_append, List.map_append, Nat.add_comm 1 k]
      simp

/-- When no page fails, the buffer is the one that the other functions start with. -/
theorem smonCreateRbWith_of_pages (hle : nPages.toNat ≤ smonMaxPages) (hrb : supply.rb = true)
    (hdata : supply.data = true) (hpages : ∀ j, supply.page j = true) :
    ∃ m, smonCreateRbWith nPages supply = .ok (some (smonCreateRb nPages supply.content), m) := by
  have hget : ∀ left i m, (getPages supply.page left i m).2 = none := by
    intro left
    induction left with
    | zero => exact fun i m => rfl
    | succ left ih =>
      intro i m
      rw [getPages, if_pos (hpages i)]
      exact ih ..
  rw [smonCreateRbWith, if_neg (Nat.not_lt.mpr hle), hrb, hdata]
  dsimp only
  generalize hm : getPages supply.page nPages.toNat 0 _ = x
  obtain ⟨m, i⟩ := x
  have hi : i = none := (congrArg Prod.snd hm).symm.trans (hget ..)
  rw [hi]
  exact ⟨m, rfl⟩

/-- What the clean-up should do when page `k` is the first that fails: come to an end, give back
each page before it once, and the array and the buffer, and look at nothing else. -/
def CleansUp (nPages : U32) (supply : Supply) (k : ℕ) : Prop :=
  ∃ m, smonCreateRbWith nPages supply = .ok (none, m) ∧
    (∀ j < k, m.freed.count (.page j) = 1) ∧ (∀ j, .page j ∈ m.freed → j < k) ∧
    m.freed.count .data = 1 ∧ m.freed.count .rb = 1 ∧ ∀ i ∈ m.touched, 0 ≤ i ∧ i < k

/-- The index that fails reaches the clean-up. -/
theorem smonCreateRbWith_of_fails (hle : nPages.toNat ≤ smonMaxPages) (hk : k < nPages.toNat)
    (hrb : supply.rb = true) (hdata : supply.data = true) (hpages : ∀ j < k, supply.page j = true)
    (hpage : supply.page k = false) : ∃ m, (∀ j : ℕ, j < k → m.slots j = some j) ∧ m.freed = [] ∧
      smonCreateRbWith nPages supply = do
        let m ← freePages nPages.toNat (nPages.toNat + 1) k m
        return (none, { m with freed := m.freed ++ [.data, .rb] }) := by
  obtain ⟨m, hget, hslots, hfreed⟩ := getPages_of_fails (m := ⟨fun _ => none, 0, [], []⟩) hpages
    hpage (Nat.zero_le k) (by rwa [Nat.zero_add]) rfl fun j hj => absurd hj (Nat.not_lt_zero j)
  refine ⟨m, hslots, hfreed, ?_⟩
  rw [smonCreateRbWith, if_neg (Nat.not_lt.mpr hle), hrb, hdata]
  dsimp only
  rw [hget]
  rfl

/-- **The first page fails**: the loop goes on below it, and leaves the array. -/
theorem smonCreateRbWith_of_first (hle : nPages.toNat ≤ smonMaxPages) (hn : 0 < nPages.toNat)
    (hrb : supply.rb = true) (hdata : supply.data = true) (hpage : supply.page 0 = false) :
    smonCreateRbWith nPages supply = .error .outOfBounds := by
  obtain ⟨m, -, -, hcreate⟩ := smonCreateRbWith_of_fails hle hn hrb hdata
    (fun j hj => absurd hj (Nat.not_lt_zero j)) hpage
  rw [hcreate, freePages]
  have hslot : m.freePage nPages.toNat (0 - 1) = .error .outOfBounds := by
    rw [Memory.freePage, Memory.slot, if_neg (by omega)]
    rfl
  exact bind_of_error (bind_of_error hslot)

/-- **A later page fails**: all pages taken are given back but page 0. -/
theorem smonCreateRbWith_of_page (hle : nPages.toNat ≤ smonMaxPages) (hk : k + 1 < nPages.toNat)
    (hrb : supply.rb = true) (hdata : supply.data = true)
    (hpages : ∀ j < k + 1, supply.page j = true) (hpage : supply.page (k + 1) = false) :
    ∃ m, smonCreateRbWith nPages supply = .ok (none, m) ∧
      m.freed = (List.range' 1 k).reverse.map .page ++ [.data, .rb] := by
  obtain ⟨m, hslots, hfreed, hcreate⟩ := smonCreateRbWith_of_fails hle hk hrb hdata hpages hpage
  obtain ⟨m', hm', hfreed'⟩ := freePages_succ (Nat.lt_of_succ_lt hk)
    (Nat.lt_succ_of_lt (Nat.lt_of_succ_lt hk)) fun j hj => hslots j (Nat.lt_succ_of_le hj)
  refine ⟨_, hcreate.trans (bind_of_ok hm'), ?_⟩
  show m'.freed ++ _ = _
  rw [hfreed', hfreed, List.nil_append]

/-- **The clean-up never does what it should**, whichever page fails. -/
theorem not_cleansUp (hle : nPages.toNat ≤ smonMaxPages) (hk : k < nPages.toNat)
    (hrb : supply.rb = true) (hdata : supply.data = true) (hpages : ∀ j < k, supply.page j = true)
    (hpage : supply.page k = false) : ¬ CleansUp nPages supply k := by
  rintro ⟨m, hcreate, honce, -⟩
  cases k with
  | zero => cases (smonCreateRbWith_of_first hle hk hrb hdata hpage).symm.trans hcreate
  | succ k =>
    obtain ⟨m', hcreate', hfreed⟩ := smonCreateRbWith_of_page hle hk hrb hdata hpages hpage
    obtain ⟨-, rfl⟩ := Prod.mk.inj (Except.ok.inj (hcreate.symm.trans hcreate'))
    have hcount := honce 0 (Nat.succ_pos k)
    have hmem : Block.page 0 ∈ m.freed := List.count_pos_iff.mp (by omega)
    rw [hfreed] at hmem
    simp only [List.map_reverse, List.mem_append, List.mem_reverse, List.mem_map, List.mem_range'_1,
      Block.page.injEq, exists_eq_right, List.mem_cons, reduceCtorEq, List.not_mem_nil, or_false] at hmem
    omega

/-- Two pages are asked for, and the second one fails. -/
theorem not_cleansUp_second : ¬ CleansUp 2 ⟨true, true, fun i => i = 0, fun _ _ => 0⟩ 1 :=
  not_cleansUp (by decide) (by decide) rfl rfl (by decide) (by decide)

/-- The first of two pages fails. -/
theorem not_cleansUp_first :
    smonCreateRbWith 2 ⟨true, true, fun _ => false, fun _ _ => 0⟩ = .error .outOfBounds ∧
    ¬ CleansUp 2 ⟨true, true, fun _ => false, fun _ _ => 0⟩ 0 := by
  have hcreate : smonCreateRbWith 2 ⟨true, true, fun _ => false, fun _ _ => 0⟩ = .error .outOfBounds :=
    smonCreateRbWith_of_first (by decide) (by decide) rfl rfl rfl
  refine ⟨hcreate, ?_⟩
  rintro ⟨m, hok, -⟩
  cases hcreate.symm.trans hok

end RingBuffer

end SchedMon
