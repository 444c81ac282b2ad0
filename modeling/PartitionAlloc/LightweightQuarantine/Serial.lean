/-
The lightweight quarantine under threads whose calls do not overlap (`lightweight_quarantine.cc`): the interleaved
model of `Concurrent` computes what the sequential model of `Branch` computes.

A call made while no other thread is inside `Quarantine` is one thread's `lock` alone (a miss), or its `lock`, its
purge and push, and its `fetch_add`s in a row. `Refines s w` relates an interleaved state with no thread inside a call
to a sequential world of one branch: the same branch, the same capacity and `size_in_bytes_` (below `2 ^ 64`), the
other counters modulo `2 ^ 64`, and the same frees.

- `purgeInternalLoopT_eq`: the loop in `size_t` is the loop while the local size covers the live entries it reads;
- `Refines.quarantine`: a call on the world is matched by one thread's steps, and the states after them are related
  again;
- `serial_quarantine_refines`: every sequential run of calls from an empty branch is the outcome of one thread's
  steps, call after call, from the empty shared state. The root's `size_in_bytes_` is then the branch's, so
  `size_in_bytes_held_by_others` is 0 and the branch stays within the capacity: the wrap and the overshoot of
  `lock_with_pending_add` need calls that overlap.
-/
import PartitionAlloc.LightweightQuarantine.Concurrent

namespace PartitionAlloc.LightweightQuarantine.Concurrent

/-- **The loop in `size_t` is the loop** as long as the local size, below `2 ^ 64`, covers the bytes of the live
entries: every subtraction then stays in range. -/
theorem purgeInternalLoopT_eq (tc ts : Nat) (slots : List QuarantineSlot) :
    ∀ n size, sumUsable (slots.take n) ≤ size → size < 2 ^ 64 →
      purgeInternalLoopT tc ts slots n size = purgeInternalLoop tc ts slots n size
  | 0, _, _, _ => rfl
  | n + 1, size, hle, hlt => by
    unfold purgeInternalLoopT purgeInternalLoop
    split_ifs
    · cases hx : slots[n]? with
      | none => simp [hx]
      | some x =>
        have hsum : sumUsable (slots.take n) + x.usableSize ≤ size := by
          rwa [List.take_succ, hx, Option.toList_some, sumUsable_append, sumUsable_cons, sumUsable_nil,
            Nat.add_zero] at hle
        simp only [hx, Option.bind_eq_bind, Option.some_bind, subT_of_le (show x.usableSize ≤ size by omega) hlt,
          purgeInternalLoopT_eq tc ts slots n (size - x.usableSize) (by omega) (by omega)]
    · rfl

/-! ## The relation -/

/-- an interleaved state with no thread inside a call and a sequential world of its one branch that agree: the
branch, the capacity and `size_in_bytes_`, the other counters modulo `2 ^ 64`, and the objects freed -/
structure Refines (s : Shared) (w : World) : Prop where
  branches : w.branches = [s.branch]
  capacityInBytes : s.root.capacityInBytes = w.root.capacityInBytes
  capacity_lt : w.root.capacityInBytes < 2 ^ 64
  sizeInBytes : s.root.sizeInBytes = w.root.sizeInBytes
  count : s.root.count = w.root.count % 2 ^ 64
  cumulativeCount : s.root.cumulativeCount = w.root.cumulativeCount % 2 ^ 64
  cumulativeSizeInBytes : s.root.cumulativeSizeInBytes = w.root.cumulativeSizeInBytes % 2 ^ 64
  quarantineMissCount : s.root.quarantineMissCount = w.root.quarantineMissCount % 2 ^ 64
  effects : s.effects = w.effects.map Prod.snd
  unlocked : s.locked = false
  idle : ∀ pc ∈ s.threads, pc = .idle

/-- the steps of thread `t` for a call made while no other thread is inside `Quarantine`: the locked check, and for
a kept entry the purge and push and the `fetch_add`s -/
def soloSteps (t : Nat) (c : Call) : Bool → List Action
  | false => [.lock t c.object c.usableSize c.rand]
  | true => [.lock t c.object c.usableSize c.rand, .purgeAndPush t, .addStats t]

/-- the steps of thread `t` for calls made one after the other, given whether each kept its entry -/
def serialSteps (t : Nat) : List Call → List Bool → List Action
  | c :: calls, k :: kept => soloSteps t c k ++ serialSteps t calls kept
  | _, _ => []

theorem Reachable.append {K : Nat} {s₀ s s' : Shared} {acts acts' : List Action} (h : Reachable K s₀ acts s)
    (h' : Reachable K s acts' s') : Reachable K s₀ (acts ++ acts') s' := by
  induction h' with
  | nil => simpa using h
  | snoc _ hstep ih => rw [← List.append_assoc]; exact ih.snoc hstep

namespace Refines

variable {K : Nat} {s : Shared} {w : World}

theorem pc_idle (hR : Refines s w) (t : Nat) : s.pc t = .idle := by
  unfold Shared.pc
  cases h : s.threads[t]? with
  | none => rfl
  | some pc => exact hR.idle pc (List.getElem?_mem h)

theorem getElem?_branches (hR : Refines s w) : w.branches[0]? = some s.branch := by
  rw [hR.branches]; rfl

/-- one branch: the root's bytes and count are the branch's, and fit in `size_t` -/
theorem root_eq (hR : Refines s w) (hw : w.Inv K) :
    w.root.sizeInBytes = s.branch.branchSizeInBytes ∧ w.root.count = s.branch.branchCount ∧
      w.root.sizeInBytes < 2 ^ 64 := by
  have hsize := hw.sizeInBytes_eq
  have hcount := hw.count_eq
  simp only [hR.branches, List.map_cons, List.map_nil, List.sum_cons, List.sum_nil, Nat.add_zero] at hsize hcount
  exact ⟨hsize, hcount, lt_of_le_of_lt hw.sizeInBytes_le hR.capacity_lt⟩

/-- **The check under the lock is the sequential one.** The size held by others is 0, so `capacity_in_bytes <
size_in_bytes_held_by_others + usable_size` reads as in the sequential model. -/
theorem lock_eq (hR : Refines s w) (hw : w.Inv K) {t : Nat} (ht : t < s.threads.length) (object : Nat)
    {usableSize : Nat} (hu : usableSize < 2 ^ 64) (rand : Nat) :
    s.lock t object usableSize rand =
      if w.root.capacityInBytes < w.root.sizeInBytes - s.branch.branchSizeInBytes + usableSize then
        some { s with
          root := { s.root with quarantineMissCount := addT s.root.quarantineMissCount 1 }
          effects := s.effects ++ [object] }
      else some { s with locked := true, threads := s.threads.set t (.checked object usableSize rand) } := by
  obtain ⟨hsize, -, hlt⟩ := hR.root_eq hw
  have hheld : s.heldByOthers = 0 := by
    rw [Shared.heldByOthers, hR.sizeInBytes, subT_of_le (by omega) hlt, hsize, Nat.sub_self]
  simp only [Shared.lock, hR.unlocked, hR.pc_idle t, hheld, addT_of_lt (show 0 + usableSize < 2 ^ 64 by omega),
    hR.capacityInBytes, hsize, Nat.sub_self]
  simp [Nat.not_le.2 ht]

/-- a miss: the object is freed, the miss counted -/
theorem lock_miss (hR : Refines s w) {object : Nat} :
    Refines { s with
        root := { s.root with quarantineMissCount := addT s.root.quarantineMissCount 1 }
        effects := s.effects ++ [object] }
      { w with root := w.root.recordMiss, effects := w.effects ++ [(0, object)] } where
  branches := hR.branches
  capacityInBytes := hR.capacityInBytes
  capacity_lt := hR.capacity_lt
  sizeInBytes := hR.sizeInBytes
  count := hR.count
  cumulativeCount := hR.cumulativeCount
  cumulativeSizeInBytes := hR.cumulativeSizeInBytes
  quarantineMissCount := by rw [hR.quarantineMissCount]; exact addT_mod _ 1
  effects := by simp [hR.effects]
  unlocked := hR.unlocked
  idle := hR.idle

/-- **One call.** A `Quarantine` call on the sequential world is matched by the steps of any thread `t` of the
interleaved state, run while no other thread is inside a call; the states after them are related again. -/
theorem quarantine (hK : 0 < K) (hR : Refines s w) (hw : w.Inv K) {t : Nat} (ht : t < s.threads.length) {c : Call}
    (hu : c.usableSize < 2 ^ 64) {w' : World} {kept : Bool}
    (hq : w.quarantine K 0 c.object c.usableSize c.rand = some (w', kept)) :
    ∃ s', Reachable K s (soloSteps t c kept) s' ∧ Refines s' w' ∧ s'.threads.length = s.threads.length := by
  have hb := hR.getElem?_branches
  have hlock := hR.lock_eq hw ht c.object hu c.rand
  by_cases hmiss : w.root.capacityInBytes < w.root.sizeInBytes - s.branch.branchSizeInBytes + c.usableSize
  case pos =>
    rw [World.quarantine_miss hb hmiss c.rand, Option.some.injEq, Prod.mk.injEq] at hq
    obtain ⟨rfl, rfl⟩ := hq
    rw [if_pos hmiss] at hlock
    exact ⟨_, (Reachable.nil : Reachable K s [] s).snoc hlock, hR.lock_miss, rfl⟩
  case neg =>
  rw [if_neg hmiss] at hlock
  obtain ⟨hsize, hcount, hlt⟩ := hR.root_eq hw
  have hs := hw.sound s.branch (List.getElem?_mem hb)
  obtain ⟨c', freed, hloop, hc, hlength, hbytes, hroom⟩ := hs.purge_room hK (le_of_eq hsize.symm) hmiss
  set b₀ : Branch :=
    { s.branch with branchCount := c', branchSizeInBytes := s.branch.branchSizeInBytes - sumUsable freed }
  obtain ⟨b'', hpush, -⟩ := Branch.push_spec (b := b₀)
    (show c' < s.branch.slots.length by rw [hs.slots_length]; exact hc) ⟨c.object, c.usableSize⟩ c.rand
  rw [World.quarantine_of_fit hb hmiss (World.purgeInternal_eq hb hloop)
    (List.getElem?_set_self (by simp [hR.branches])) hpush, Option.some.injEq, Prod.mk.injEq] at hq
  obtain ⟨rfl, rfl⟩ := hq
  have hfit : c.usableSize ≤ w.root.capacityInBytes := by omega
  have hloopT : purgeInternalLoopT (K - 1) (subT s.root.capacityInBytes c.usableSize) s.branch.slots
      s.branch.branchCount s.root.sizeInBytes = some (c', w.root.sizeInBytes - sumUsable freed, freed) := by
    rw [hR.capacityInBytes, subT_of_le hfit hR.capacity_lt, hR.sizeInBytes,
      purgeInternalLoopT_eq _ _ _ _ _ (by rw [← hs.branchSizeInBytes_eq, hsize]) hlt]
    exact hloop
  have hpc₁ : (s.threads.set t (.checked c.object c.usableSize c.rand))[t]? = some (.checked c.object c.usableSize
      c.rand) := List.getElem?_set_self ht
  have h₂ := (Reachable.nil : Reachable K s [] s).snoc (a := .lock t c.object c.usableSize c.rand) hlock
  have h₃ := h₂.snoc (a := .purgeAndPush t) (by
    simp only [Shared.step, Shared.purgeAndPush, Shared.pc, hpc₁, Option.getD_some, hloopT, hpush,
      Option.bind_eq_bind, Option.some_bind, Option.pure_def]
    rfl)
  have h₄ := h₃.snoc (a := .addStats t) (by
    simp only [Shared.step, Shared.addStats, Shared.pc, List.getElem?_set_self
      (show t < (s.threads.set t (.checked c.object c.usableSize c.rand)).length by simpa using ht), Option.getD_some]
    rfl)
  refine ⟨_, h₄, ?_, by simp⟩
  have hfreed : freed.length ≤ w.root.count := by omega
  have hsum : sumUsable freed ≤ w.root.sizeInBytes := by omega
  refine ⟨by simp [hR.branches], hR.capacityInBytes, hR.capacity_lt, ?_, ?_, ?_, ?_, hR.quarantineMissCount, ?_, rfl,
    fun pc hpc => ?_⟩
  · simp only [Root.addQuarantined, hR.sizeInBytes, subT_of_le hsum hlt]
    exact addT_of_lt (lt_of_le_of_lt hroom hR.capacity_lt)
  · simp only [Root.addQuarantined, hR.count, subT_mod hfreed, addT_mod]
  · simp only [Root.addQuarantined, hR.cumulativeCount, addT_mod]
  · simp only [Root.addQuarantined, hR.cumulativeSizeInBytes, addT_mod]
  · simp [hR.effects, Function.comp_def]
  · simp only [List.set_set] at hpc
    exact (List.mem_or_eq_of_mem_set hpc).elim (hR.idle pc) id

end Refines

/-- **Runs.** A sequential run of calls on the branch is matched by thread `t`'s steps for the calls, one after the
other. -/
theorem Refines.run {K t : Nat} (hK : 0 < K) : ∀ {s : Shared} {w w' : World} (calls : List Call), Refines s w →
    w.Inv K → t < s.threads.length → (∀ c ∈ calls, c.branch = 0 ∧ c.usableSize < 2 ^ 64) →
    w.run K calls = some w' →
    ∃ kept : List Bool, kept.length = calls.length ∧ ∃ s', Reachable K s (serialSteps t calls kept) s' ∧
      Refines s' w' ∧ w'.Inv K
  | _, _, _, [], hR, hw, _, _, h => by cases h; exact ⟨[], rfl, _, .nil, hR, hw⟩
  | s, w, w', c :: calls, hR, hw, ht, hcalls, h => by
    simp only [World.run, Option.bind_eq_bind, Option.bind_eq_some] at h
    obtain ⟨⟨w₁, k⟩, hq, hrun⟩ := h
    obtain ⟨hc, hu⟩ := hcalls c (List.mem_cons_self _ _)
    rw [hc] at hq
    obtain ⟨w₂, k₂, hq₂, hw₂, -⟩ := hw.quarantine hK hR.getElem?_branches c.object c.usableSize c.rand
    obtain ⟨rfl, rfl⟩ := Prod.mk.inj (Option.some.inj (hq.symm.trans hq₂))
    obtain ⟨s₁, h₁, hR₁, hlen₁⟩ := hR.quarantine hK hw ht hu hq
    obtain ⟨kept, hkept, s', h', hR', hw'⟩ :=
      Refines.run hK calls hR₁ hw₂ (hlen₁ ▸ ht) (fun c hc => hcalls c (List.mem_cons_of_mem _ hc)) hrun
    exact ⟨k :: kept, by simp [hkept], s', h₁.append h', hR', hw'⟩

/-- **Calls that do not overlap compute the sequential model.** For every sequential run of `Quarantine` calls on
one branch from empty, under a capacity `C` and usable sizes that fit in `size_t`, and every thread `t`: the
interleaving in which `t` makes the calls one after the other, from the empty shared state, is a run of the
interleaved model (each call's steps are enabled), and it ends in a state related to the sequential world, with the
same branch, the same capacity and `size_in_bytes_`, and the same frees. Its `size_in_bytes_held_by_others` is 0 and
its branch holds at most `C` bytes: the wrap and the overshoot need overlapping calls. -/
theorem serial_quarantine_refines {K C n t : Nat} (hK : 0 < K) (hC : C < 2 ^ 64) (ht : t < n) {calls : List Call}
    {w : World} (hcalls : ∀ c ∈ calls, c.branch = 0 ∧ c.usableSize < 2 ^ 64)
    (hrun : (World.initial K C 1).run K calls = some w) :
    ∃ kept : List Bool, kept.length = calls.length ∧
      ∃ s, Reachable K (Shared.initial K C n) (serialSteps t calls kept) s ∧
        Refines s w ∧ s.heldByOthers = 0 ∧ s.branch.branchSizeInBytes ≤ C := by
  have hR₀ : Refines (Shared.initial K C n) (World.initial K C 1) :=
    ⟨rfl, rfl, hC, rfl, rfl, rfl, rfl, rfl, rfl, rfl, fun pc hpc => List.eq_of_mem_replicate hpc⟩
  obtain ⟨kept, hkept, s, h, hR, hw⟩ := Refines.run hK calls hR₀ (World.Inv.initial K C 1)
    (by simpa [Shared.initial] using ht) hcalls hrun
  obtain ⟨hsize, -, hlt⟩ := hR.root_eq hw
  have hcap : w.root.capacityInBytes = C := (World.Inv.run hK calls (World.Inv.initial K C 1) hrun).2
  refine ⟨kept, hkept, s, h, hR, ?_, by rw [← hsize, ← hcap]; exact hw.sizeInBytes_le⟩
  rw [Shared.heldByOthers, hR.sizeInBytes, subT_of_le (by omega) hlt, hsize, Nat.sub_self]

/-- three calls on a branch of 2 slots under a capacity of 8 bytes: the second evicts the first, the third misses -/
def serialCalls : List Call := [⟨0, 100, 4, 0⟩, ⟨0, 200, 6, 1⟩, ⟨0, 300, 9, 0⟩]

theorem serial_quarantine_refines_serialCalls :
    ∃ w, (World.initial 2 8 1).run 2 serialCalls = some w ∧ 0 < 2 ∧ (8 : Nat) < 2 ^ 64 ∧ 1 < 2 ∧
      (∀ c ∈ serialCalls, c.branch = 0 ∧ c.usableSize < 2 ^ 64) ∧
      ∃ kept : List Bool, kept.length = serialCalls.length ∧ ∃ s,
        Reachable 2 (Shared.initial 2 8 2) (serialSteps 1 serialCalls kept) s ∧ Refines s w ∧ s.heldByOthers = 0 ∧
          s.branch.branchSizeInBytes ≤ 8 := by
  obtain ⟨w, hrun⟩ : ∃ w, (World.initial 2 8 1).run 2 serialCalls = some w := ⟨_, rfl⟩
  have hcalls : ∀ c ∈ serialCalls, c.branch = 0 ∧ c.usableSize < 2 ^ 64 := by decide
  exact ⟨w, hrun, by decide, by decide, by decide, hcalls,
    serial_quarantine_refines (by decide) (by decide) (by decide) hcalls hrun⟩

end PartitionAlloc.LightweightQuarantine.Concurrent
