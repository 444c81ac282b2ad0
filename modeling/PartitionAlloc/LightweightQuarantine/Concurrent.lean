/-
The lightweight quarantine under threads (`lightweight_quarantine.cc`): one branch of a root, and `Quarantine` split
into the steps other threads can interleave with.

A call is three steps (`Pc` says where a thread is): taking `lock_` with the capacity check (a refused entry is
freed and counted as a miss before the guard releases the lock); `PurgeInternal`, the write and the swap, ending with
the release of `lock_`; and the unlocked `fetch_add`s of the root's statistics. Between a thread's release and its
`fetch_add`s, `branch_size_in_bytes_` counts its entry and the root's `size_in_bytes_` does not.

Model:
- the root's counters are `std::atomic<size_t>`: they hold their value modulo `2 ^ 64`, and their `fetch_add`s and
  `fetch_sub`s, `size_in_bytes_held_by_others`, `capacity_in_bytes - usable_size` and `PurgeInternal`'s local
  `size_in_bytes` wrap (`addT`, `subT`). `branch_size_in_bytes_` is the bytes of live slots (`Branch.Sound`), and
  its updates do not wrap.
- the capacity check and `PurgeInternal` load `size_in_bytes_` at two points of the locked section, so they are two
  steps. Another thread's `fetch_add` between `PurgeInternal`'s load and its `fetch_sub` commutes with both, so the
  purge, the write and the swap are one step; so are the four `fetch_add`s, since nothing reads `count_` or the
  cumulative counters.
- `capacity_in_bytes_` does not change; `FreeNoHooksImmediate` appends the object to `effects`.

- `Inv.step`, `reachable_inv`: every interleaving keeps the branch sound, and the root's `size_in_bytes_` plus the
  bytes of the threads between their release and their `fetch_add`s equal `branch_size_in_bytes_`, modulo `2 ^ 64`;
- `held_by_others_wraps`: so the `size_in_bytes_held_by_others` a thread computes once it holds the lock is minus
  those pending bytes, modulo `2 ^ 64`: it wraps whenever a thread is pending;
- `lock_with_pending_add`: two threads of 4 and 8 bytes on a capacity of 8. The second takes the lock before the
  first adds its bytes to the root, computes `2 ^ 64 - 4` bytes held by others, is let in, and leaves 12 bytes in the
  branch, breaking `DCHECK(branch_size_in_bytes_ <= capacity_in_bytes)`; the root ends at 12 bytes. With 2 bytes
  instead, the same wrap refuses an entry that fits.
-/
import PartitionAlloc.LightweightQuarantine.Runs
import PartitionAlloc.SizeT

namespace PartitionAlloc.LightweightQuarantine.Concurrent

/-- the `while` loop of `PurgeInternal` in `size_t`: as `purgeInternalLoop`, with the local `size_in_bytes` wrapping -/
def purgeInternalLoopT (targetBranchCount targetSizeInBytes : Nat) (slots : List QuarantineSlot) :
    Nat → Nat → Option (Nat × Nat × List QuarantineSlot)
  | 0, sizeInBytes => some (0, sizeInBytes, [])
  | n + 1, sizeInBytes =>
    if targetBranchCount < n + 1 ∨ targetSizeInBytes < sizeInBytes then do
      let toFree ← slots[n]?
      let (branchCount, sizeInBytes', freed) ←
        purgeInternalLoopT targetBranchCount targetSizeInBytes slots n (subT sizeInBytes toFree.usableSize)
      pure (branchCount, sizeInBytes', toFree :: freed)
    else some (n + 1, sizeInBytes, [])

/-- **The loop in `size_t`.** Whatever the local size, the loop reads only live entries, frees them from the top,
and stops with no live entry or at most `target_branch_count` of them. -/
theorem purgeInternalLoopT_spec (targetBranchCount targetSizeInBytes : Nat) (slots : List QuarantineSlot) :
    ∀ n sizeInBytes, n ≤ slots.length →
      ∃ c s freed, purgeInternalLoopT targetBranchCount targetSizeInBytes slots n sizeInBytes = some (c, s, freed) ∧
        c ≤ n ∧ slots.take n = slots.take c ++ freed.reverse ∧ (c = 0 ∨ c ≤ targetBranchCount)
  | 0, _, _ => ⟨0, _, [], rfl, le_rfl, by simp, .inl rfl⟩
  | n + 1, size, hn => by
    by_cases hcond : targetBranchCount < n + 1 ∨ targetSizeInBytes < size
    · have hx : slots[n]? = some slots[n] := List.getElem?_eq_getElem (by omega)
      obtain ⟨c, s, freed, hloop, hc, hsplit, hstop⟩ :=
        purgeInternalLoopT_spec targetBranchCount targetSizeInBytes slots n (subT size slots[n].usableSize) (by omega)
      refine ⟨c, s, slots[n] :: freed, ?_, by omega, ?_, hstop⟩
      · simp [purgeInternalLoopT, hcond, hx, hloop]
      · rw [List.take_succ, hx, Option.toList_some, hsplit]; simp
    · exact ⟨n + 1, size, [], by simp [purgeInternalLoopT, hcond], le_rfl, by simp, .inr (by omega)⟩

/-! ## Threads and the shared state -/

/-- where a thread is in its call: idle, holding `lock_` past the capacity check, or past the release of `lock_`
before its `fetch_add`s -/
inductive Pc
  | idle
  | checked (object usableSize rand : Nat)
  | unlocked (usableSize : Nat)
deriving DecidableEq

/-- the bytes a thread has kept in the branch and not yet added to the root -/
def Pc.pendingBytes : Pc → Nat
  | .unlocked usableSize => usableSize
  | _ => 0

/-- the root, the branch, whether `lock_` is held, the threads, and the objects handed to `FreeNoHooksImmediate` -/
structure Shared where
  root : Root
  branch : Branch
  locked : Bool
  threads : List Pc
  effects : List Nat

/-- the steps of the threads; `rand` is what `random_.RandUint32()` returns in the locked section -/
inductive Action
  | lock (thread object usableSize rand : Nat)
  | purgeAndPush (thread : Nat)
  | addStats (thread : Nat)
deriving DecidableEq

namespace Shared

/-- a root of capacity `capacityInBytes`, an empty branch of `kQuarantineCapacityCount` slots, idle threads -/
def initial (kQuarantineCapacityCount capacityInBytes threads : Nat) : Shared :=
  ⟨⟨capacityInBytes, 0, 0, 0, 0, 0⟩, ⟨List.replicate kQuarantineCapacityCount ⟨0, 0⟩, 0, 0⟩, false,
    List.replicate threads .idle, []⟩

/-- the thread's state; a thread past the end of `threads` is idle -/
def pc (s : Shared) (t : Nat) : Pc := (s.threads[t]?).getD .idle

/-- `size_in_bytes_held_by_others`, as a thread computes it under the lock -/
def heldByOthers (s : Shared) : Nat := subT s.root.sizeInBytes s.branch.branchSizeInBytes

/-- the bytes of the threads between their release of `lock_` and their `fetch_add`s -/
def pending (s : Shared) : Nat := (s.threads.map Pc.pendingBytes).sum

/-- `ScopedGuard guard(lock_)` and the capacity check: a refused entry is freed and counted, and the guard releases
the lock (`return false`) -/
def lock (s : Shared) (t object usableSize rand : Nat) : Option Shared :=
  if s.locked ∨ s.pc t ≠ .idle ∨ s.threads.length ≤ t then none
  else if s.root.capacityInBytes < addT s.heldByOthers usableSize then
    some { s with
      root := { s.root with quarantineMissCount := addT s.root.quarantineMissCount 1 }
      effects := s.effects ++ [object] }
  else some { s with locked := true, threads := s.threads.set t (.checked object usableSize rand) }

/-- `PurgeInternal(kQuarantineCapacityCount - 1, capacity_in_bytes - usable_size)`, `branch_count_++`,
`branch_size_in_bytes_ += usable_size`, the write and the swap, and the release of `lock_` -/
def purgeAndPush (kQuarantineCapacityCount : Nat) (s : Shared) (t : Nat) : Option Shared :=
  match s.pc t with
  | .checked object usableSize rand => do
    let (branchCount, _, freed) ← purgeInternalLoopT (kQuarantineCapacityCount - 1)
      (subT s.root.capacityInBytes usableSize) s.branch.slots s.branch.branchCount s.root.sizeInBytes
    let b ← Branch.push
      { s.branch with branchCount := branchCount, branchSizeInBytes := s.branch.branchSizeInBytes - sumUsable freed }
      ⟨object, usableSize⟩ rand
    pure { s with
      root := { s.root with
        count := subT s.root.count freed.length
        sizeInBytes := subT s.root.sizeInBytes (sumUsable freed) }
      branch := b
      locked := false
      threads := s.threads.set t (.unlocked usableSize)
      effects := s.effects ++ freed.map (·.object) }
  | _ => none

/-- the unlocked `fetch_add`s of `count_`, `size_in_bytes_`, `cumulative_count_` and `cumulative_size_in_bytes_` -/
def addStats (s : Shared) (t : Nat) : Option Shared :=
  match s.pc t with
  | .unlocked usableSize => some { s with
      root := { s.root with
        count := addT s.root.count 1
        sizeInBytes := addT s.root.sizeInBytes usableSize
        cumulativeCount := addT s.root.cumulativeCount 1
        cumulativeSizeInBytes := addT s.root.cumulativeSizeInBytes usableSize }
      threads := s.threads.set t .idle }
  | _ => none

def step (kQuarantineCapacityCount : Nat) (s : Shared) : Action → Option Shared
  | .lock t object usableSize rand => s.lock t object usableSize rand
  | .purgeAndPush t => s.purgeAndPush kQuarantineCapacityCount t
  | .addStats t => s.addStats t

end Shared

/-- the states an interleaving reaches from `s₀` -/
inductive Reachable (kQuarantineCapacityCount : Nat) (s₀ : Shared) : List Action → Shared → Prop
  | nil : Reachable kQuarantineCapacityCount s₀ [] s₀
  | snoc {acts : List Action} {s s' : Shared} {a : Action} : Reachable kQuarantineCapacityCount s₀ acts s →
      s.step kQuarantineCapacityCount a = some s' → Reachable kQuarantineCapacityCount s₀ (acts ++ [a]) s'

/-! ## What every interleaving keeps -/

namespace Shared

/-- the branch is sound, and the root's bytes plus the pending ones are the branch's, modulo `2 ^ 64` -/
structure Inv (kQuarantineCapacityCount : Nat) (s : Shared) : Prop where
  sound : s.branch.Sound kQuarantineCapacityCount
  size_lt : s.root.sizeInBytes < 2 ^ 64
  size_mod : (s.root.sizeInBytes + s.pending) % 2 ^ 64 = s.branch.branchSizeInBytes % 2 ^ 64

variable {K : Nat} {s s' : Shared} {t : Nat}

theorem getElem?_of_pc {pc : Pc} (h : s.pc t = pc) (hne : pc ≠ .idle) : s.threads[t]? = some pc := by
  unfold Shared.pc at h
  cases ht : s.threads[t]? with
  | none => rw [ht] at h; exact absurd h.symm hne
  | some p => rw [ht] at h; exact congrArg some h

/-- the pending bytes after thread `t` moves from `old` to `new` -/
theorem pending_set {old : Pc} (h : s.threads[t]? = some old) (new : Pc) :
    ((s.threads.set t new).map Pc.pendingBytes).sum + old.pendingBytes = s.pending + new.pendingBytes :=
  sum_map_set_add h _ new

theorem Inv.lock (hs : s.Inv K) {object usableSize rand : Nat} (h : s.lock t object usableSize rand = some s') :
    s'.Inv K := by
  unfold Shared.lock at h
  split_ifs at h with hbusy hmiss
  · cases h
    exact ⟨hs.sound, hs.size_lt, hs.size_mod⟩
  · cases h
    have hidle : s.threads[t]? = some .idle := by
      rw [List.getElem?_eq_getElem (by omega)]
      simpa [Shared.pc, List.getElem?_eq_getElem (show t < s.threads.length by omega)] using
        (not_or.1 (not_or.1 hbusy).2).1
    have hp := pending_set hidle (.checked object usableSize rand)
    refine ⟨hs.sound, hs.size_lt, ?_⟩
    simp only [Shared.pending, Pc.pendingBytes, Nat.add_zero] at hp ⊢
    rw [hp]
    exact hs.size_mod

theorem Inv.purgeAndPush (hs : s.Inv K) (hK : 0 < K) (h : s.purgeAndPush K t = some s') : s'.Inv K := by
  unfold Shared.purgeAndPush at h
  split at h
  case h_2 => cases h
  case h_1 object usableSize rand hpc =>
  obtain ⟨hlen, hcount, hsize⟩ := hs.sound
  obtain ⟨c, sz, freed, hloop, hc, hsplit, hstop⟩ := purgeInternalLoopT_spec (K - 1)
    (subT s.root.capacityInBytes usableSize) s.branch.slots s.branch.branchCount s.root.sizeInBytes (by omega)
  have hbytes : s.branch.branchSizeInBytes = sumUsable (s.branch.slots.take c) + sumUsable freed := by
    rw [hsize, hsplit, sumUsable_append, sumUsable_reverse]
  have hroom : c < s.branch.slots.length := by omega
  obtain ⟨b', hpush, hlen', hcount', hsize', htake'⟩ :=
    @Branch.push_spec ⟨s.branch.slots, c, s.branch.branchSizeInBytes - sumUsable freed⟩ hroom ⟨object, usableSize⟩ rand
  simp only [hloop, hpush, Option.bind_eq_bind, Option.some_bind, Option.pure_def, Option.some.injEq] at h
  subst h
  have hp := pending_set (getElem?_of_pc hpc (by simp)) (.unlocked usableSize)
  simp only [Pc.pendingBytes, Nat.add_zero] at hp
  refine ⟨⟨hlen'.trans hlen, by simp only at hcount' ⊢; omega, ?_⟩, subT_lt _ _, ?_⟩
  · simp only at hsize' htake' ⊢; omega
  · have hmod := hs.size_mod
    have hlt := hs.size_lt
    simp only [Shared.pending, subT] at hp hmod hsize' ⊢
    rw [hp, hsize']
    simp only [two_pow_64] at hmod hlt ⊢
    omega

theorem Inv.addStats (hs : s.Inv K) (h : s.addStats t = some s') : s'.Inv K := by
  unfold Shared.addStats at h
  split at h
  case h_2 => cases h
  case h_1 usableSize hpc =>
  cases h
  have hp := pending_set (getElem?_of_pc hpc (by simp)) .idle
  refine ⟨hs.sound, addT_lt _ _, ?_⟩
  have hmod := hs.size_mod
  simp only [Shared.pending, Pc.pendingBytes, Nat.add_zero, addT] at hp hmod ⊢
  simp only [two_pow_64] at hmod ⊢
  omega

theorem Inv.step (hs : s.Inv K) (hK : 0 < K) {a : Action} (h : s.step K a = some s') : s'.Inv K := by
  cases a with
  | lock t object usableSize rand => exact hs.lock h
  | purgeAndPush t => exact hs.purgeAndPush hK h
  | addStats t => exact hs.addStats h

theorem Inv.initial (C n : Nat) : (Shared.initial K C n).Inv K := by
  refine ⟨⟨by simp [Shared.initial], by simp [Shared.initial], by simp [Shared.initial]⟩, Nat.two_pow_pos 64, ?_⟩
  have : (Shared.initial K C n).pending = 0 := by
    simp [Shared.pending, Shared.initial, List.map_replicate, Pc.pendingBytes]
  rw [this]
  rfl

end Shared

theorem reachable_inv {K C n : Nat} (hK : 0 < K) {acts : List Action} {s : Shared}
    (hrun : Reachable K (Shared.initial K C n) acts s) : s.Inv K := by
  induction hrun with
  | nil => exact Shared.Inv.initial C n
  | snoc _ hstep ih => exact ih.step hK hstep

/-- **What a thread under the lock sees.** In every interleaving from an empty branch, the root's `size_in_bytes_`
plus the bytes of the threads between their release of `lock_` and their `fetch_add`s is `branch_size_in_bytes_`,
modulo `2 ^ 64`. So the `size_in_bytes_held_by_others` a thread computes once it holds the lock is minus those
pending bytes, modulo `2 ^ 64`: 0 when no thread is pending, and wrapped past `2 ^ 64 - 1` whenever one is (and they
are fewer than `2 ^ 64` bytes). -/
theorem held_by_others_wraps {K C n : Nat} (hK : 0 < K) {acts : List Action} {s : Shared}
    (hrun : Reachable K (Shared.initial K C n) acts s) :
    (s.root.sizeInBytes + s.pending) % 2 ^ 64 = s.branch.branchSizeInBytes % 2 ^ 64 ∧
      s.heldByOthers = (2 ^ 64 - s.pending % 2 ^ 64) % 2 ^ 64 := by
  have hs := reachable_inv hK hrun
  refine ⟨hs.size_mod, ?_⟩
  have hmod := hs.size_mod
  have hlt := hs.size_lt
  simp only [Shared.heldByOthers, subT, two_pow_64] at hmod hlt ⊢
  omega

theorem held_by_others_wraps_initial :
    0 < 1024 ∧ ((Shared.initial 1024 8 2).root.sizeInBytes + (Shared.initial 1024 8 2).pending) % 2 ^ 64 =
        (Shared.initial 1024 8 2).branch.branchSizeInBytes % 2 ^ 64 ∧
      (Shared.initial 1024 8 2).heldByOthers = (2 ^ 64 - (Shared.initial 1024 8 2).pending % 2 ^ 64) % 2 ^ 64 :=
  ⟨by decide, held_by_others_wraps (by decide) .nil⟩

/-! ## A thread that takes the lock before another's `fetch_add` -/

/-- two threads on a branch of 1024 slots whose root has a capacity of 8 bytes -/
def lwStart : Shared := Shared.initial 1024 8 2

set_option maxRecDepth 20000 in
/-- **The held bytes wrap.** Thread 0 quarantines 4 bytes and releases the lock before adding them to the root.
Thread 1 takes the lock: the root holds 0 bytes and the branch 4, so `size_in_bytes_held_by_others` is
`2 ^ 64 - 4`. An entry of 8 bytes then passes the capacity check (`4 + 8` wraps to 4), `PurgeInternal` frees nothing,
and the branch holds 12 bytes, over the capacity of 8: `DCHECK(branch_size_in_bytes_ <= capacity_in_bytes)` fails,
and once both threads have added their bytes the root holds 12. An entry of 2 bytes instead is refused, though with
the 4 bytes of the branch it fits. -/
theorem lock_with_pending_add :
    ∃ s, Reachable 1024 lwStart [.lock 0 16 4 0, .purgeAndPush 0] s ∧
      s.root.sizeInBytes = 0 ∧ s.branch.branchSizeInBytes = 4 ∧ s.heldByOthers = 2 ^ 64 - 4 ∧
      (∃ s', Reachable 1024 lwStart [.lock 0 16 4 0, .purgeAndPush 0, .lock 1 32 8 0, .purgeAndPush 1, .addStats 0,
          .addStats 1] s' ∧
        s'.branch.branchSizeInBytes = 12 ∧ s'.root.sizeInBytes = 12 ∧ s'.root.capacityInBytes = 8 ∧ s'.effects = []) ∧
      (s.lock 1 32 2 0).map (·.effects) = some [32] ∧ (s.lock 1 32 2 0).map (·.root.quarantineMissCount) = some 1 ∧
        s.branch.branchSizeInBytes + 2 ≤ s.root.capacityInBytes := by
  have h₀ : Reachable 1024 lwStart [] lwStart := .nil
  have h₁ := h₀.snoc (a := .lock 0 16 4 0) rfl
  have h₂ := h₁.snoc (a := .purgeAndPush 0) rfl
  refine ⟨_, h₂, rfl, rfl, rfl, ?_, rfl, rfl, by decide⟩
  have h₃ := h₂.snoc (a := .lock 1 32 8 0) rfl
  have h₄ := h₃.snoc (a := .purgeAndPush 1) rfl
  have h₅ := h₄.snoc (a := .addStats 0) rfl
  exact ⟨_, h₅.snoc (a := .addStats 1) rfl, rfl, rfl, rfl, rfl⟩

end PartitionAlloc.LightweightQuarantine.Concurrent
