/-
The Scheduler-Loop Quarantine branch `SchedulerLoopQuarantineBranch<thread_bound>` and the statistics of its
`SchedulerLoopQuarantineRoot` (`scheduler_loop_quarantine.h`, `scheduler_loop_quarantine.cc`).

A branch holds freed slots back from the allocator root in `slots_`, with their byte total `branch_size_in_bytes_`.
To make room for an entry, `PurgeInternal` frees slots from the back of `slots_` until the total is at most its
target. The shared branch (`thread_bound = false`) instead saves at most `kMaxFreeTimesPerPurge` victims under its lock
(`PurgeInternalWithDefferedFree`) and frees them after it (`BatchFree`). A new entry is appended and swapped with the
slot at a random index, so that the back is a random victim.

`purgeInternalWithDefferedFree_agrees`: the shared branch's purge saves exactly the slots the thread-bound purge
frees, in the same order and with the same branch and root after it, up to `kMaxFreeTimesPerPurge` of them.

Model:
- this module holds what one branch does to itself and to its root; `World` runs whole calls on many branches, and
  `Concurrent` splits the shared `Quarantine` into its atomic steps.
- `size_t` values are `Nat`; every subtraction the code makes is shown not to truncate (`Invariants`).
- `slots_` is a list whose last element is its back. The purge loops read it reversed, so `slots_.back()` is the head
  and `pop_back()` drops it; they return the slots freed in order. A loop that would read `slots_.back()` from an
  empty `slots_` ends in `none`.
- the random number `random_.RandUint32()` is an argument; `DCHECK`s are not evaluated; `shrink_to_fit` changes
  nothing the model sees.
-/
import Mathlib.Data.List.Perm.Basic
import Mathlib.Algebra.BigOperators.Group.List
import Mathlib.Algebra.Order.Ring.Nat

namespace PartitionAlloc.SchedulerLoopQuarantine

/-! ## Configuration, slots and roots -/

/-- `kMaxFreeTimesPerPurge`: the length of a `ToBeFreedArray` -/
def kMaxFreeTimesPerPurge : Nat := 1024

/-- `SchedulerLoopQuarantineConfig` -/
structure SchedulerLoopQuarantineConfig where
  branchCapacityInBytes : Nat
  leakOnDestruction : Bool
  enableQuarantine : Bool
  enableZapping : Bool
deriving DecidableEq

/-- `QuarantineSlot`, an entry of `slots_` -/
structure QuarantineSlot where
  slotStart : Nat
  usableSize : Nat
deriving DecidableEq

/-- the bytes held by some slots -/
def sumUsable (slots : List QuarantineSlot) : Nat := (slots.map (·.usableSize)).sum

@[simp] theorem sumUsable_nil : sumUsable [] = 0 := rfl

@[simp] theorem sumUsable_cons (s : QuarantineSlot) (l : List QuarantineSlot) :
    sumUsable (s :: l) = s.usableSize + sumUsable l := by
  simp [sumUsable]

@[simp] theorem sumUsable_append (l l' : List QuarantineSlot) : sumUsable (l ++ l') = sumUsable l + sumUsable l' := by
  simp [sumUsable]

@[simp] theorem sumUsable_reverse (l : List QuarantineSlot) : sumUsable l.reverse = sumUsable l := by
  simp [sumUsable, List.sum_reverse]

/-- `SchedulerLoopQuarantineRoot`: the partition root it belongs to (`allocator_root_`) and its statistics -/
structure Root where
  allocatorRoot : Nat
  sizeInBytes : Nat
  count : Nat
  cumulativeCount : Nat
  cumulativeSizeInBytes : Nat
  quarantineMissCount : Nat

/-- the statistics of a retained entry, added at the end of `Quarantine` -/
def Root.addQuarantined (root : Root) (usableSize : Nat) : Root :=
  { root with
    count := root.count + 1
    sizeInBytes := root.sizeInBytes + usableSize
    cumulativeCount := root.cumulativeCount + 1
    cumulativeSizeInBytes := root.cumulativeSizeInBytes + usableSize }

/-- `quarantine_miss_count_.fetch_add(1u)` -/
def Root.addMiss (root : Root) : Root := { root with quarantineMissCount := root.quarantineMissCount + 1 }

/-- the `fetch_sub`s that end both purges, for the slots they took off `slots_` -/
def Root.subFreed (root : Root) (freed : List QuarantineSlot) : Root :=
  { root with sizeInBytes := root.sizeInBytes - sumUsable freed, count := root.count - freed.length }

/-! ## The branch -/

/-- `SchedulerLoopQuarantineBranch<thread_bound>`; `root` is `root_`, `none` until `Configure` sets it -/
structure Branch where
  threadBound : Bool
  allocatorRoot : Nat
  root : Option Nat
  enableQuarantine : Bool
  enableZapping : Bool
  leakOnDestruction : Bool
  pauseQuarantine : Nat
  slots : List QuarantineSlot
  branchSizeInBytes : Nat
  branchCapacityInBytes : Nat

/-- the constructor: not configured, quarantine off, nothing held -/
def Branch.new (threadBound : Bool) (allocatorRoot : Nat) : Branch :=
  ⟨threadBound, allocatorRoot, none, false, false, false, 0, [], 0, 0⟩

/-- what the allocator root is handed -/
inductive Effect
  | freeNoHooksImmediate (slotStart : Nat)
  | secureMemset (slotStart usableSize : Nat)
  | preReleaseFromAllocator (slotStart : Nat)
deriving DecidableEq

/-- the fast reject of `Quarantine`: quarantine off, paused, or a direct-mapped bucket -/
def Branch.rejects (b : Branch) (directMapped : Bool) : Bool :=
  !b.enableQuarantine || b.pauseQuarantine != 0 || directMapped

/-- the `while` loop of `PurgeInternal` over `slots_` reversed, from `branch_size_in_bytes_ = size`: the size left,
the slots left (reversed) and the slots freed, in order -/
def purgeInternalLoop (target : Nat) : Nat → List QuarantineSlot →
    Option (Nat × List QuarantineSlot × List QuarantineSlot)
  | size, [] => if target < size then none else some (size, [], [])
  | size, toFree :: rest =>
    if target < size then
      (purgeInternalLoop target (size - toFree.usableSize) rest).map fun (s, r, f) => (s, r, toFree :: f)
    else some (size, toFree :: rest, [])

/-- the `while` loop of `PurgeInternalWithDefferedFree` over `slots_` reversed, from `branch_size_in_bytes_ = size`
and `num_of_slots`: as `purgeInternalLoop`, but it breaks once `num_of_slots` reaches `kMaxFreeTimesPerPurge` -/
def purgeInternalWithDefferedFreeLoop (target : Nat) : Nat → Nat → List QuarantineSlot →
    Option (Nat × List QuarantineSlot × List QuarantineSlot)
  | size, _, [] => if target < size then none else some (size, [], [])
  | size, numOfSlots, toFree :: rest =>
    if target < size then
      if kMaxFreeTimesPerPurge ≤ numOfSlots + 1 then some (size - toFree.usableSize, rest, [toFree])
      else (purgeInternalWithDefferedFreeLoop target (size - toFree.usableSize) (numOfSlots + 1) rest).map
        fun (s, r, f) => (s, r, toFree :: f)
    else some (size, toFree :: rest, [])

/-- `PurgeInternal(target_size_in_bytes)` on a branch whose root is `root`: the branch, the root, and the slots
passed to `FreeNoHooksImmediate`, in order -/
def Branch.purgeInternal (b : Branch) (root : Root) (target : Nat) : Option (Branch × Root × List QuarantineSlot) :=
  (purgeInternalLoop target b.branchSizeInBytes b.slots.reverse).map fun (size, rest, freed) =>
    ({ b with slots := rest.reverse, branchSizeInBytes := size }, root.subFreed freed, freed)

/-- `PurgeInternalWithDefferedFree(target_size_in_bytes, to_be_freed, num_of_slots)`: the branch, the root, and the
slot starts saved in `to_be_freed` (`num_of_slots` of them) -/
def Branch.purgeInternalWithDefferedFree (b : Branch) (root : Root) (target : Nat) :
    Option (Branch × Root × List Nat) :=
  (purgeInternalWithDefferedFreeLoop target b.branchSizeInBytes 0 b.slots.reverse).map fun (size, rest, freed) =>
    ({ b with slots := rest.reverse, branchSizeInBytes := size }, root.subFreed freed, freed.map (·.slotStart))

/-- `std::swap(slots_[i], slots_.back())` -/
def swapBack (slots : List QuarantineSlot) (i : Nat) : List QuarantineSlot :=
  match slots[i]?, slots.getLast? with
  | some a, some z => (slots.set i z).set (slots.length - 1) a
  | _, _ => slots

/-- the locked tail of `Quarantine`: add the entry's bytes, `push_back` it, and swap it with the slot at
`RandUint32() % slots_.size()` -/
def Branch.pushSlot (b : Branch) (slot : QuarantineSlot) (rand : Nat) : Branch :=
  { b with
    branchSizeInBytes := b.branchSizeInBytes + slot.usableSize
    slots := swapBack (b.slots ++ [slot]) (rand % (b.slots ++ [slot]).length) }

/-- `QuarantineEpilogue`: zap the payload when `enable_zapping_`, and `PreReleaseFromAllocator` when the allocator
root has BackupRefPtr on -/
def Branch.quarantineEpilogue (b : Branch) (brpEnabled : Bool) (slot : QuarantineSlot) : List Effect :=
  (if b.enableZapping then [.secureMemset slot.slotStart slot.usableSize] else []) ++
    (if brpEnabled then [.preReleaseFromAllocator slot.slotStart] else [])

/-- the settings `Configure` installs after draining the branch -/
def Branch.install (b : Branch) (root : Nat) (config : SchedulerLoopQuarantineConfig) : Branch :=
  { b with
    root := some root
    enableQuarantine := config.enableQuarantine
    enableZapping := config.enableZapping
    leakOnDestruction := config.leakOnDestruction
    branchCapacityInBytes := config.branchCapacityInBytes }

/-! ## What the loops do -/

/-- **`PurgeInternal`'s loop.** From a size that is the bytes of the slots, it reads `slots_.back()` only from a
non-empty `slots_`, frees slots from the back, and stops with the bytes left at most the target. -/
theorem purgeInternalLoop_spec (target : Nat) :
    ∀ (rev : List QuarantineSlot) (size : Nat), size = sumUsable rev →
      ∃ freed rest, purgeInternalLoop target size rev = some (sumUsable rest, rest, freed) ∧
        rev = freed ++ rest ∧ sumUsable rest ≤ target
  | [], _, rfl => ⟨[], [], by simp [purgeInternalLoop], rfl, by simp⟩
  | toFree :: rest, _, rfl => by
    simp only [sumUsable_cons]
    by_cases hlt : target < toFree.usableSize + sumUsable rest
    · obtain ⟨freed, rest', hloop, hrev, hle⟩ := purgeInternalLoop_spec target rest _ rfl
      exact ⟨toFree :: freed, rest', by simp [purgeInternalLoop, hlt, hloop], by simp [hrev], hle⟩
    · exact ⟨[], toFree :: rest, by simp [purgeInternalLoop, hlt], rfl, by simp; omega⟩

/-- **`PurgeInternalWithDefferedFree`'s loop.** As `purgeInternalLoop_spec`, but it may also stop with more bytes
left than the target, once it has taken `kMaxFreeTimesPerPurge` slots. -/
theorem purgeInternalWithDefferedFreeLoop_spec (target : Nat) :
    ∀ (rev : List QuarantineSlot) (size numOfSlots : Nat), size = sumUsable rev →
      numOfSlots < kMaxFreeTimesPerPurge →
      ∃ freed rest, purgeInternalWithDefferedFreeLoop target size numOfSlots rev = some (sumUsable rest, rest, freed) ∧
        rev = freed ++ rest ∧ numOfSlots + freed.length ≤ kMaxFreeTimesPerPurge ∧
        (sumUsable rest ≤ target ∨ numOfSlots + freed.length = kMaxFreeTimesPerPurge)
  | [], _, n, rfl, _ => ⟨[], [], by simp [purgeInternalWithDefferedFreeLoop], rfl, by simp; omega, by simp⟩
  | toFree :: rest, _, n, rfl, hn => by
    simp only [sumUsable_cons]
    by_cases hlt : target < toFree.usableSize + sumUsable rest
    · by_cases hmax : kMaxFreeTimesPerPurge ≤ n + 1
      · refine ⟨[toFree], rest, ?_, rfl, by simp; omega, .inr (by simp; omega)⟩
        simp [purgeInternalWithDefferedFreeLoop, hlt, hmax]
      · obtain ⟨freed, rest', hloop, hrev, hlen, hle⟩ :=
          purgeInternalWithDefferedFreeLoop_spec target rest _ (n + 1) rfl (by omega)
        refine ⟨toFree :: freed, rest', ?_, by simp [hrev], by simp; omega, by simp; omega⟩
        simp [purgeInternalWithDefferedFreeLoop, hlt, hmax, hloop]
    · exact ⟨[], toFree :: rest, by simp [purgeInternalWithDefferedFreeLoop, hlt], rfl, by simp; omega,
        .inl (by simp; omega)⟩

/-- whatever `PurgeInternal`'s loop returns, it took the freed slots off the back and kept the rest -/
theorem purgeInternalLoop_split (target : Nat) :
    ∀ (rev : List QuarantineSlot) (size : Nat) {r : Nat × List QuarantineSlot × List QuarantineSlot},
      purgeInternalLoop target size rev = some r → rev = r.2.2 ++ r.2.1
  | [], _, _, h => by
    simp only [purgeInternalLoop] at h; split_ifs at h; cases h; rfl
  | toFree :: rest, _, _, h => by
    simp only [purgeInternalLoop] at h
    split_ifs at h
    · obtain ⟨_, h', rfl⟩ := Option.map_eq_some'.1 h
      rw [purgeInternalLoop_split target rest _ h']; rfl
    · cases h; rfl

/-- as `purgeInternalLoop_split`, for `PurgeInternalWithDefferedFree`'s loop -/
theorem purgeInternalWithDefferedFreeLoop_split (target : Nat) :
    ∀ (rev : List QuarantineSlot) (size numOfSlots : Nat) {r : Nat × List QuarantineSlot × List QuarantineSlot},
      purgeInternalWithDefferedFreeLoop target size numOfSlots rev = some r → rev = r.2.2 ++ r.2.1
  | [], _, _, _, h => by
    simp only [purgeInternalWithDefferedFreeLoop] at h; split_ifs at h; cases h; rfl
  | toFree :: rest, _, _, _, h => by
    simp only [purgeInternalWithDefferedFreeLoop] at h
    split_ifs at h
    · cases h; rfl
    · obtain ⟨_, h', rfl⟩ := Option.map_eq_some'.1 h
      rw [purgeInternalWithDefferedFreeLoop_split target rest _ _ h']; rfl
    · cases h; rfl

/-- what `PurgeInternal` returns: the slots it freed off the back, and the branch with the rest -/
theorem Branch.purgeInternal_split {b b' : Branch} {root root' : Root} {target : Nat} {freed : List QuarantineSlot}
    (h : b.purgeInternal root target = some (b', root', freed)) :
    ∃ rest, b.slots.reverse = freed ++ rest ∧ b'.slots = rest.reverse := by
  obtain ⟨⟨size, rest, freed'⟩, hloop, heq⟩ := Option.map_eq_some'.1 h
  simp only [Prod.mk.injEq] at heq
  obtain ⟨rfl, -, rfl⟩ := heq
  exact ⟨rest, purgeInternalLoop_split target _ _ hloop, rfl⟩

/-- what `PurgeInternalWithDefferedFree` returns: the starts of the slots it took off the back, and the branch with
the rest -/
theorem Branch.purgeInternalWithDefferedFree_split {b b' : Branch} {root root' : Root} {target : Nat}
    {toBeFreed : List Nat} (h : b.purgeInternalWithDefferedFree root target = some (b', root', toBeFreed)) :
    ∃ freed rest, b.slots.reverse = freed ++ rest ∧ b'.slots = rest.reverse ∧
      toBeFreed = freed.map (·.slotStart) := by
  obtain ⟨⟨size, rest, freed⟩, hloop, heq⟩ := Option.map_eq_some'.1 h
  simp only [Prod.mk.injEq] at heq
  obtain ⟨rfl, -, rfl⟩ := heq
  exact ⟨freed, rest, purgeInternalWithDefferedFreeLoop_split target _ _ _ hloop, rfl, rfl⟩

/-- the swap permutes the slots -/
theorem swapBack_perm (slots : List QuarantineSlot) (i : Nat) : (swapBack slots i).Perm slots := by
  unfold swapBack
  match ha : slots[i]?, hz : slots.getLast? with
  | some a, some z =>
    rw [List.getLast?_eq_getElem?] at hz
    obtain ⟨hi, rfl⟩ := List.getElem?_eq_some_iff.1 ha
    obtain ⟨hj, rfl⟩ := List.getElem?_eq_some_iff.1 hz
    refine List.perm_iff_count.2 fun x => ?_
    have hj' : slots.length - 1 < (slots.set i slots[slots.length - 1]).length := by simpa using hj
    have hpos : (if (slots[i] == x) = true then 1 else 0) ≤ List.count x slots := by
      split_ifs with h
      · exact List.count_pos_iff.2 (beq_iff_eq.1 h ▸ List.getElem_mem hi)
      · exact Nat.zero_le _
    rw [List.count_set _ _ _ _ hj', List.count_set _ _ _ _ hi]
    simp only [List.getElem_set, ite_self]
    generalize List.count x slots = c at hpos ⊢
    by_cases h1 : slots[i] = x <;> by_cases h2 : slots[slots.length - 1] = x <;> simp [h1, h2] at hpos ⊢ <;> omega
  | some _, none => rfl
  | none, _ => rfl

theorem pushSlot_perm (b : Branch) (slot : QuarantineSlot) (rand : Nat) :
    (b.pushSlot slot rand).slots.Perm (b.slots ++ [slot]) :=
  swapBack_perm _ _

/-! ## The deferred purge against the immediate one -/

/-- a run of `PurgeInternal`'s loop that frees nothing stops where it started -/
theorem purgeInternalLoop_of_nil {target size s : Nat} {rev r : List QuarantineSlot}
    (h : purgeInternalLoop target size rev = some (s, r, [])) : s = size ∧ r = rev := by
  cases rev with
  | nil =>
    simp only [purgeInternalLoop] at h
    split_ifs at h
    cases h
    exact ⟨rfl, rfl⟩
  | cons toFree rest =>
    simp only [purgeInternalLoop] at h
    split_ifs at h
    · obtain ⟨⟨_, _, _⟩, -, h⟩ := Option.map_eq_some'.1 h
      cases h
    · cases h
      exact ⟨rfl, rfl⟩

/-- **The two loops.** Where `PurgeInternal`'s loop frees `f`, `PurgeInternalWithDefferedFree`'s loop from
`num_of_slots = n` takes the same slots in the same order when `n + f.length <= kMaxFreeTimesPerPurge`, and otherwise
the first `kMaxFreeTimesPerPurge - n` of them -/
theorem purgeInternalWithDefferedFreeLoop_eq (target : Nat) :
    ∀ (rev : List QuarantineSlot) (size n : Nat) {s : Nat} {r f : List QuarantineSlot}, n < kMaxFreeTimesPerPurge →
      purgeInternalLoop target size rev = some (s, r, f) →
      purgeInternalWithDefferedFreeLoop target size n rev =
        if n + f.length ≤ kMaxFreeTimesPerPurge then some (s, r, f)
        else some (size - sumUsable (f.take (kMaxFreeTimesPerPurge - n)), f.drop (kMaxFreeTimesPerPurge - n) ++ r,
          f.take (kMaxFreeTimesPerPurge - n))
  | [], size, n, s, r, f, hn, h => by
    simp only [purgeInternalLoop] at h
    split_ifs at h with hlt
    cases h
    rw [if_pos (by simp only [List.length_nil]; omega)]
    simp [purgeInternalWithDefferedFreeLoop, hlt]
  | toFree :: rest, size, n, s, r, f, hn, h => by
    simp only [purgeInternalLoop] at h
    by_cases hlt : target < size
    · rw [if_pos hlt] at h
      obtain ⟨⟨s', r', f'⟩, hloop, heq⟩ := Option.map_eq_some'.1 h
      cases heq
      simp only [purgeInternalWithDefferedFreeLoop, if_pos hlt, List.length_cons]
      by_cases hmax : kMaxFreeTimesPerPurge ≤ n + 1
      · have hk : kMaxFreeTimesPerPurge - n = 0 + 1 := by omega
        rw [if_pos hmax, hk, List.take_succ_cons, List.drop_succ_cons, List.take_zero, List.drop_zero]
        cases f' with
        | nil =>
          obtain ⟨rfl, rfl⟩ := purgeInternalLoop_of_nil hloop
          rw [if_pos (by simp only [List.length_nil]; omega)]
        | cons x f' =>
          rw [if_neg (by simp only [List.length_cons]; omega), ← purgeInternalLoop_split target rest _ hloop]
          simp
      · rw [if_neg hmax, purgeInternalWithDefferedFreeLoop_eq target rest _ (n + 1) (by omega) hloop]
        have hk : kMaxFreeTimesPerPurge - n = kMaxFreeTimesPerPurge - (n + 1) + 1 := by omega
        by_cases hfit : n + 1 + f'.length ≤ kMaxFreeTimesPerPurge
        · rw [if_pos hfit, if_pos (by omega)]
          rfl
        · rw [if_neg hfit, if_neg (by omega), hk, List.take_succ_cons, List.drop_succ_cons]
          simp [Nat.sub_sub]
    · rw [if_neg hlt] at h
      cases h
      rw [if_pos (by simp only [List.length_nil]; omega)]
      simp [purgeInternalWithDefferedFreeLoop, hlt]

/-- **The deferred purge takes what the immediate one frees.** Where `PurgeInternal(target)` frees the slots `freed`
from a branch and its root, `PurgeInternalWithDefferedFree(target)` saves the starts of the same slots in the same
order, which `BatchFree` then frees in that order, and leaves the same branch and root, when there are at most
`kMaxFreeTimesPerPurge` of them. When there are more, it saves the first `kMaxFreeTimesPerPurge` and leaves the
others in `slots_` and their bytes in `branch_size_in_bytes_`. -/
theorem purgeInternalWithDefferedFree_agrees {b b' : Branch} {root root' : Root} {target : Nat}
    {freed : List QuarantineSlot} (h : b.purgeInternal root target = some (b', root', freed)) :
    b.purgeInternalWithDefferedFree root target =
      if freed.length ≤ kMaxFreeTimesPerPurge then some (b', root', freed.map (·.slotStart))
      else some ({ b with
          slots := (freed.drop kMaxFreeTimesPerPurge ++ b'.slots.reverse).reverse
          branchSizeInBytes := b.branchSizeInBytes - sumUsable (freed.take kMaxFreeTimesPerPurge) },
        root.subFreed (freed.take kMaxFreeTimesPerPurge), (freed.take kMaxFreeTimesPerPurge).map (·.slotStart)) := by
  obtain ⟨⟨size, rest, freed'⟩, hloop, heq⟩ := Option.map_eq_some'.1 h
  simp only [Prod.mk.injEq] at heq
  obtain ⟨rfl, rfl, rfl⟩ := heq
  rw [Branch.purgeInternalWithDefferedFree,
    purgeInternalWithDefferedFreeLoop_eq target _ _ 0 (by decide) hloop, Nat.zero_add, Nat.sub_zero]
  split_ifs <;> simp

/-- a branch holding five one-byte slots -/
def fiveSlots : Branch := { Branch.new false 0 with slots := (List.range 5).map (⟨·, 1⟩), branchSizeInBytes := 5 }

theorem purgeInternalWithDefferedFree_agrees_fiveSlots :
    fiveSlots.purgeInternal ⟨0, 5, 5, 5, 5, 0⟩ 2 =
      some ({ fiveSlots with slots := [⟨0, 1⟩, ⟨1, 1⟩], branchSizeInBytes := 2 }, ⟨0, 2, 2, 5, 5, 0⟩,
        [⟨4, 1⟩, ⟨3, 1⟩, ⟨2, 1⟩]) ∧
    fiveSlots.purgeInternalWithDefferedFree ⟨0, 5, 5, 5, 5, 0⟩ 2 =
      if [(⟨4, 1⟩ : QuarantineSlot), ⟨3, 1⟩, ⟨2, 1⟩].length ≤ kMaxFreeTimesPerPurge then
        some ({ fiveSlots with slots := [⟨0, 1⟩, ⟨1, 1⟩], branchSizeInBytes := 2 }, ⟨0, 2, 2, 5, 5, 0⟩,
          [(⟨4, 1⟩ : QuarantineSlot), ⟨3, 1⟩, ⟨2, 1⟩].map (·.slotStart))
      else some ({ fiveSlots with
          slots := ([(⟨4, 1⟩ : QuarantineSlot), ⟨3, 1⟩, ⟨2, 1⟩].drop kMaxFreeTimesPerPurge ++
            [(⟨0, 1⟩ : QuarantineSlot), ⟨1, 1⟩].reverse).reverse
          branchSizeInBytes :=
            fiveSlots.branchSizeInBytes - sumUsable ([(⟨4, 1⟩ : QuarantineSlot), ⟨3, 1⟩, ⟨2, 1⟩].take kMaxFreeTimesPerPurge) },
        Root.subFreed ⟨0, 5, 5, 5, 5, 0⟩ ([(⟨4, 1⟩ : QuarantineSlot), ⟨3, 1⟩, ⟨2, 1⟩].take kMaxFreeTimesPerPurge),
        ([(⟨4, 1⟩ : QuarantineSlot), ⟨3, 1⟩, ⟨2, 1⟩].take kMaxFreeTimesPerPurge).map (·.slotStart)) :=
  have h : fiveSlots.purgeInternal ⟨0, 5, 5, 5, 5, 0⟩ 2 =
      some ({ fiveSlots with slots := [⟨0, 1⟩, ⟨1, 1⟩], branchSizeInBytes := 2 }, ⟨0, 2, 2, 5, 5, 0⟩,
        [⟨4, 1⟩, ⟨3, 1⟩, ⟨2, 1⟩]) := rfl
  ⟨h, purgeInternalWithDefferedFree_agrees h⟩

end PartitionAlloc.SchedulerLoopQuarantine
