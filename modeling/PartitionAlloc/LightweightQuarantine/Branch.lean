/-
The lightweight quarantine `LightweightQuarantineBranch<kQuarantineCapacityCount>` and the counters of the
`LightweightQuarantineRoot` its branches share (`lightweight_quarantine.cc`).

All branches of a root share one byte capacity, but a branch can only evict its own entries. `Quarantine` first
checks that the entry would fit even if the branch evicted everything it holds; if not, it frees the object at once
and counts a miss. Otherwise `PurgeInternal(kQuarantineCapacityCount - 1, capacity - usable_size)` frees entries
from the top of the branch until both the count and the root's total are under target, and the entry is written at
`slots_[branch_count_ - 1]` and swapped with a random live entry.

Model:
- the runs are sequential, so the root's relaxed `fetch_add`s and `fetch_sub`s are plain updates that land before
  the next call; `size_t` values are `Nat`, and the invariant shows that no subtraction truncates.
- `slots_` is the fixed `std::array` of `kQuarantineCapacityCount` entries, a list whose reads and writes give
  `none` past its end; entries at `branch_count_` and above are stale.
- `FreeNoHooksImmediate` appends `(branch, object)` to the world's `effects`; `GetSlotUsableSize` and
  `random_.RandUint32()` are arguments; `DCHECK`s are not evaluated but shown to hold (`Runs`).

- `purgeInternalLoop_spec`: from a root size that covers the branch, the loop frees the top entries and stops with
  an empty branch, or with both targets met.
- `Branch.push_spec`: the write and the swap stay in bounds when the branch is not full, and add the entry's bytes
  to the live entries.
-/
import Mathlib.Data.List.Perm.Basic
import Mathlib.Algebra.BigOperators.Group.List
import Mathlib.Algebra.Order.Ring.Nat

namespace PartitionAlloc.LightweightQuarantine

/-! ## Slots, branches and the root -/

/-- an entry of `slots_` -/
structure QuarantineSlot where
  object : Nat
  usableSize : Nat
deriving DecidableEq, Repr

/-- the bytes held by some entries -/
def sumUsable (slots : List QuarantineSlot) : Nat := (slots.map (·.usableSize)).sum

@[simp] theorem sumUsable_nil : sumUsable [] = 0 := rfl

@[simp] theorem sumUsable_cons (s : QuarantineSlot) (l : List QuarantineSlot) :
    sumUsable (s :: l) = s.usableSize + sumUsable l := by
  simp [sumUsable]

@[simp] theorem sumUsable_append (l l' : List QuarantineSlot) : sumUsable (l ++ l') = sumUsable l + sumUsable l' := by
  simp [sumUsable]

@[simp] theorem sumUsable_reverse (l : List QuarantineSlot) : sumUsable l.reverse = sumUsable l := by
  simp [sumUsable, List.sum_reverse]

/-- the counters of `LightweightQuarantineRoot` that `Quarantine` and `PurgeInternal` read and write -/
structure Root where
  capacityInBytes : Nat
  sizeInBytes : Nat
  count : Nat
  cumulativeCount : Nat
  cumulativeSizeInBytes : Nat
  quarantineMissCount : Nat
deriving DecidableEq, Repr

/-- `LightweightQuarantineBranch`: the array `slots_`, of which the first `branch_count_` entries are live, and their
bytes -/
structure Branch where
  slots : List QuarantineSlot
  branchCount : Nat
  branchSizeInBytes : Nat
deriving DecidableEq, Repr

/-- one root, its branches by index, and the objects freed so far, with the branch that freed each -/
structure World where
  root : Root
  branches : List Branch
  effects : List (Nat × Nat)
deriving DecidableEq, Repr

/-- a root of capacity `capacityInBytes` with `n` empty branches of `kQuarantineCapacityCount` slots -/
def World.initial (kQuarantineCapacityCount capacityInBytes n : Nat) : World :=
  ⟨⟨capacityInBytes, 0, 0, 0, 0, 0⟩, List.replicate n ⟨List.replicate kQuarantineCapacityCount ⟨0, 0⟩, 0, 0⟩, []⟩

/-! ## The code -/

/-- the `while` loop of `PurgeInternal(target_branch_count, target_size_in_bytes)`, from `branch_count_ = n` and the
local `size_in_bytes`: the final `branch_count_` and `size_in_bytes`, and the entries freed, in order -/
def purgeInternalLoop (targetBranchCount targetSizeInBytes : Nat) (slots : List QuarantineSlot) :
    Nat → Nat → Option (Nat × Nat × List QuarantineSlot)
  | 0, sizeInBytes => some (0, sizeInBytes, [])
  | n + 1, sizeInBytes =>
    if targetBranchCount < n + 1 ∨ targetSizeInBytes < sizeInBytes then do
      let toFree ← slots[n]?
      let (branchCount, sizeInBytes', freed) ←
        purgeInternalLoop targetBranchCount targetSizeInBytes slots n (sizeInBytes - toFree.usableSize)
      pure (branchCount, sizeInBytes', toFree :: freed)
    else some (n + 1, sizeInBytes, [])

/-- `PurgeInternal` on branch `i`: the loop starts from the root's `size_in_bytes_`, then the branch and the root
give back what it freed -/
def World.purgeInternal (w : World) (i targetBranchCount targetSizeInBytes : Nat) : Option World := do
  let b ← w.branches[i]?
  let (branchCount, _, freed) ←
    purgeInternalLoop targetBranchCount targetSizeInBytes b.slots b.branchCount w.root.sizeInBytes
  pure
    { root := { w.root with
        count := w.root.count - freed.length
        sizeInBytes := w.root.sizeInBytes - sumUsable freed }
      branches := w.branches.set i
        { b with branchCount := branchCount, branchSizeInBytes := b.branchSizeInBytes - sumUsable freed }
      effects := w.effects ++ freed.map fun s => (i, s.object) }

/-- `slots_[j] = slot`; `none` past the end of the array -/
def setSlot (slots : List QuarantineSlot) (j : Nat) (slot : QuarantineSlot) : Option (List QuarantineSlot) :=
  if j < slots.length then some (slots.set j slot) else none

/-- `std::swap(slots_[i], slots_[j])`; `none` past the end of the array -/
def swapSlots (slots : List QuarantineSlot) (i j : Nat) : Option (List QuarantineSlot) := do
  let a ← slots[i]?
  let b ← slots[j]?
  pure ((slots.set i b).set j a)

/-- the locked tail of `Quarantine` after the purge: `branch_count_++`, `branch_size_in_bytes_ += usable_size`, the
write of `slots_[branch_count_ - 1]` and its swap with `slots_[RandUint32() % branch_count_]` -/
def Branch.push (b : Branch) (slot : QuarantineSlot) (rand : Nat) : Option Branch := do
  let branchCount := b.branchCount + 1
  let slots ← setSlot b.slots (branchCount - 1) slot
  let slots ← swapSlots slots (rand % branchCount) (branchCount - 1)
  pure ⟨slots, branchCount, b.branchSizeInBytes + slot.usableSize⟩

/-- the miss counter after a miss -/
def Root.recordMiss (r : Root) : Root := { r with quarantineMissCount := r.quarantineMissCount + 1 }

/-- the unlocked statistics update of a `Quarantine` call that kept its entry -/
def Root.addQuarantined (r : Root) (usableSize : Nat) : Root :=
  { r with
    count := r.count + 1
    sizeInBytes := r.sizeInBytes + usableSize
    cumulativeCount := r.cumulativeCount + 1
    cumulativeSizeInBytes := r.cumulativeSizeInBytes + usableSize }

/-- `Quarantine(object)` on branch `i`, with the object's `usable_size` and the value of `random_.RandUint32()`:
the new world and the result, `false` when the object was freed at once -/
def World.quarantine (kQuarantineCapacityCount : Nat) (w : World) (i object usableSize rand : Nat) :
    Option (World × Bool) := do
  let b ← w.branches[i]?
  let capacityInBytes := w.root.capacityInBytes
  let sizeInBytesHeldByOthers := w.root.sizeInBytes - b.branchSizeInBytes
  if capacityInBytes < sizeInBytesHeldByOthers + usableSize then
    pure ({ w with root := w.root.recordMiss, effects := w.effects ++ [(i, object)] }, false)
  else
    let w' ← w.purgeInternal i (kQuarantineCapacityCount - 1) (capacityInBytes - usableSize)
    let b' ← w'.branches[i]?
    let b'' ← b'.push ⟨object, usableSize⟩ rand
    pure ({ w' with root := w'.root.addQuarantined usableSize, branches := w'.branches.set i b'' }, true)

/-- a `Quarantine` call: the branch, the object, its `usable_size`, and what `RandUint32()` returns -/
structure Call where
  branch : Nat
  object : Nat
  usableSize : Nat
  rand : Nat
deriving DecidableEq, Repr

/-- a sequential run of calls; `none` once a call goes out of bounds -/
def World.run (kQuarantineCapacityCount : Nat) (w : World) : List Call → Option World
  | [] => some w
  | c :: calls => do
    let (w', _) ← w.quarantine kQuarantineCapacityCount c.branch c.object c.usableSize c.rand
    w'.run kQuarantineCapacityCount calls

/-! ## What the calls do -/

theorem World.purgeInternal_eq {w : World} {i : Nat} {b : Branch} (hb : w.branches[i]? = some b)
    {targetBranchCount targetSizeInBytes c sizeInBytes : Nat} {freed : List QuarantineSlot}
    (hloop : purgeInternalLoop targetBranchCount targetSizeInBytes b.slots b.branchCount w.root.sizeInBytes =
      some (c, sizeInBytes, freed)) :
    w.purgeInternal i targetBranchCount targetSizeInBytes = some
      { root := { w.root with
          count := w.root.count - freed.length
          sizeInBytes := w.root.sizeInBytes - sumUsable freed }
        branches := w.branches.set i
          { b with branchCount := c, branchSizeInBytes := b.branchSizeInBytes - sumUsable freed }
        effects := w.effects ++ freed.map fun s => (i, s.object) } := by
  simp [World.purgeInternal, hb, hloop]

/-- a call whose entry fits: the purge, then the push on the purged branch -/
theorem World.quarantine_of_fit {K : Nat} {w w' : World} {i object usableSize rand : Nat} {b b' b'' : Branch}
    (hb : w.branches[i]? = some b)
    (h : ¬w.root.capacityInBytes < w.root.sizeInBytes - b.branchSizeInBytes + usableSize)
    (hpurge : w.purgeInternal i (K - 1) (w.root.capacityInBytes - usableSize) = some w')
    (hb' : w'.branches[i]? = some b') (hpush : b'.push ⟨object, usableSize⟩ rand = some b'') :
    w.quarantine K i object usableSize rand =
      some ({ w' with root := w'.root.addQuarantined usableSize, branches := w'.branches.set i b'' }, true) := by
  simp [World.quarantine, hb, h, hpurge, hb', hpush]

/-! ## What the loop and the push do -/

/-- **`PurgeInternal`'s loop.** From at most as many live entries as the array holds, and a local size that covers
their bytes, the loop reads only live entries, frees them from the top, and stops with no live entry or with both
targets met. -/
theorem purgeInternalLoop_spec (targetBranchCount targetSizeInBytes : Nat) (slots : List QuarantineSlot) :
    ∀ n sizeInBytes, n ≤ slots.length → sumUsable (slots.take n) ≤ sizeInBytes →
      ∃ c freed, purgeInternalLoop targetBranchCount targetSizeInBytes slots n sizeInBytes =
          some (c, sizeInBytes - sumUsable freed, freed) ∧ c ≤ n ∧ slots.take n = slots.take c ++ freed.reverse ∧
        (c = 0 ∨ c ≤ targetBranchCount ∧ sizeInBytes - sumUsable freed ≤ targetSizeInBytes)
  | 0, _, _, _ => ⟨0, [], rfl, le_rfl, by simp, .inl rfl⟩
  | n + 1, size, hn, hsize => by
    by_cases hcond : targetBranchCount < n + 1 ∨ targetSizeInBytes < size
    · have hx : slots[n]? = some slots[n] := List.getElem?_eq_getElem (by omega)
      have htake : slots.take (n + 1) = slots.take n ++ [slots[n]] := by
        rw [List.take_succ, hx, Option.toList_some]
      rw [htake, sumUsable_append] at hsize
      obtain ⟨c, freed, hloop, hc, hsplit, hstop⟩ :=
        purgeInternalLoop_spec targetBranchCount targetSizeInBytes slots n (size - slots[n].usableSize)
          (by omega) (by simp at hsize; omega)
      refine ⟨c, slots[n] :: freed, ?_, by omega, by simp [htake, hsplit], by simpa [Nat.sub_sub] using hstop⟩
      simp [purgeInternalLoop, hcond, hx, hloop, Nat.sub_sub]
    · exact ⟨n + 1, [], by simp [purgeInternalLoop, hcond], le_rfl, by simp, .inr (by simp; omega)⟩

theorem sum_map_set_add {α : Type} {l : List α} {i : Nat} {x : α} (h : l[i]? = some x) (f : α → Nat) (a : α) :
    ((l.set i a).map f).sum + f x = (l.map f).sum + f a := by
  induction l generalizing i with
  | nil => simp at h
  | cons y l ih =>
    cases i with
    | zero => simp only [List.getElem?_cons_zero, Option.some.injEq] at h; subst h; simp; omega
    | succ i =>
      have := ih (by simpa using h)
      simp only [List.set_cons_succ, List.map_cons, List.sum_cons]
      omega

theorem sum_map_eraseIdx_add {α : Type} {l : List α} {i : Nat} {x : α} (h : l[i]? = some x) (f : α → Nat) :
    ((l.eraseIdx i).map f).sum + f x = (l.map f).sum := by
  induction l generalizing i with
  | nil => simp at h
  | cons y l ih =>
    cases i with
    | zero => simp only [List.getElem?_cons_zero, Option.some.injEq] at h; subst h; simp; omega
    | succ i => have := ih (by simpa using h); simp; omega

theorem sumUsable_set_add {l : List QuarantineSlot} {i : Nat} {x : QuarantineSlot} (h : l[i]? = some x)
    (a : QuarantineSlot) : sumUsable (l.set i a) + x.usableSize = sumUsable l + a.usableSize :=
  sum_map_set_add h _ a

theorem swapSlots_length {l l' : List QuarantineSlot} {i j : Nat} (h : swapSlots l i j = some l') :
    l'.length = l.length := by
  simp only [swapSlots, Option.bind_eq_bind, Option.bind_eq_some, Option.pure_def, Option.some.injEq] at h
  obtain ⟨_, _, _, _, rfl⟩ := h
  simp

/-- the swap keeps the bytes -/
theorem swapSlots_sumUsable {l l' : List QuarantineSlot} {i j : Nat} (h : swapSlots l i j = some l') :
    sumUsable l' = sumUsable l := by
  simp only [swapSlots, Option.bind_eq_bind, Option.bind_eq_some, Option.pure_def, Option.some.injEq] at h
  obtain ⟨a, ha, b, hb, rfl⟩ := h
  have hb' : (l.set i b)[j]? = some b := by
    rw [List.getElem?_set]
    split_ifs with h1 h2
    · rfl
    · exact absurd (List.getElem?_eq_some_iff.1 hb).1 (h1 ▸ h2)
    · exact hb
  have := sumUsable_set_add ha b
  have := sumUsable_set_add hb' a
  omega

/-- a swap of two entries below `n` is a swap of the first `n` entries -/
theorem swapSlots_take {l l' : List QuarantineSlot} {i j n : Nat} (h : swapSlots l i j = some l') (hi : i < n)
    (hj : j < n) : swapSlots (l.take n) i j = some (l'.take n) := by
  simp only [swapSlots, Option.bind_eq_bind, Option.bind_eq_some, Option.pure_def, Option.some.injEq] at h
  obtain ⟨a, ha, b, hb, rfl⟩ := h
  simp [swapSlots, List.getElem?_take, hi, hj, ha, hb, List.set_take]

/-- **The push.** On a branch that is not full, the write of `slots_[branch_count_ - 1]` and the swap stay in
bounds, and the live entries gain the entry's bytes. -/
theorem Branch.push_spec {b : Branch} (h : b.branchCount < b.slots.length) (slot : QuarantineSlot) (rand : Nat) :
    ∃ b', b.push slot rand = some b' ∧ b'.slots.length = b.slots.length ∧ b'.branchCount = b.branchCount + 1 ∧
      b'.branchSizeInBytes = b.branchSizeInBytes + slot.usableSize ∧
      sumUsable (b'.slots.take b'.branchCount) = sumUsable (b.slots.take b.branchCount) + slot.usableSize := by
  set n := b.branchCount
  have hr : rand % (n + 1) < n + 1 := Nat.mod_lt _ (by omega)
  have hset : (b.slots.set n slot).take (n + 1) = b.slots.take n ++ [slot] := by
    rw [List.set_take, ← List.take_concat_get' _ _ h, List.set_append]
    simp [Nat.min_eq_left h.le]
  obtain ⟨l, hl⟩ : ∃ l, swapSlots (b.slots.set n slot) (rand % (n + 1)) n = some l := by
    simp [swapSlots, List.getElem?_set, h, show rand % (n + 1) < b.slots.length by omega]
  refine ⟨⟨l, n + 1, b.branchSizeInBytes + slot.usableSize⟩, ?_, by simp [swapSlots_length hl], rfl, rfl, ?_⟩
  · simp [Branch.push, setSlot, h, hl, n]
  · show sumUsable (l.take (n + 1)) = _
    rw [swapSlots_sumUsable (swapSlots_take hl hr (by omega)), hset, sumUsable_append]
    simp

end PartitionAlloc.LightweightQuarantine
