/-
The shared branch `SchedulerLoopQuarantineBranch<false>` under threads: its `Quarantine` split into the steps other
threads can interleave with, and what every interleaving keeps.

A thread's `Quarantine` call is five atomic steps (`Pc` says where the thread is): the unlocked fast reject and
capacity load; the exchange that borrows `to_be_freed_working_memory_` (or constructs a `ToBeFreedArray` when it was
null); the locked phase (`PurgeInternalWithDefferedFree`, `push_back` and the swap, all under `lock_`); each
iteration of the unlocked `BatchFree`; the exchange that gives the buffer back and destroys the one it displaces; and
the statistics with `QuarantineEpilogue`. `Purge` and `SetCapacityInBytes` are one step each (under `lock_`, and an
atomic store). A buffer is a number; `content` is what each holds.

- `Inv`: the buffers held by the threads and by `to_be_freed_working_memory_` are distinct, none was destroyed, and
  none is destroyed twice; what a thread freed as victims, then what it still has to free, is what it took off
  `slots_`; and every slot was quarantined as often as it was freed, plus its presence in `slots_`, in a buffer, or in
  a call that has not reached its locked phase.
- `shared_branch_ownership`: every interleaving keeps `Inv`.
- `epilogue_after_batchFree`: an interleaving of two threads in which `QuarantineEpilogue` zaps a slot that the other
  thread's `BatchFree` already freed.

Model: the locked phase is one step, which the lock allows since nothing reads `slots_`, `branch_size_in_bytes_` or
`random_` without it. The root's counters are `std::atomic<size_t>`: their `fetch_add`s and `fetch_sub`s wrap modulo
`2 ^ 64` (`Root.addQuarantinedT`, `Root.addMissT`, `Root.subFreedT`), which matters here since a locked phase can
subtract the bytes of an entry whose `fetch_add`s another thread has not made yet. The stale tail of a
`ToBeFreedArray`, past the `num_of_slots` entries written, is not read and not modelled. `Configure` and the
destructor are not called while other threads run.
-/
import PartitionAlloc.SchedulerLoopQuarantine.Invariants
import PartitionAlloc.SizeT

namespace PartitionAlloc.SchedulerLoopQuarantine

/-! ## The root's statistics in `size_t` -/

/-- the `fetch_add`s of a kept entry -/
def Root.addQuarantinedT (root : Root) (usableSize : Nat) : Root :=
  { root with
    count := addT root.count 1
    sizeInBytes := addT root.sizeInBytes usableSize
    cumulativeCount := addT root.cumulativeCount 1
    cumulativeSizeInBytes := addT root.cumulativeSizeInBytes usableSize }

/-- `quarantine_miss_count_.fetch_add(1u)` -/
def Root.addMissT (root : Root) : Root := { root with quarantineMissCount := addT root.quarantineMissCount 1 }

/-- the `fetch_sub`s that end both purges, for the slots they took off `slots_` -/
def Root.subFreedT (root : Root) (freed : List QuarantineSlot) : Root :=
  { root with sizeInBytes := subT root.sizeInBytes (sumUsable freed), count := subT root.count freed.length }

/-- `PurgeInternalWithDefferedFree` with the root's `fetch_sub`s in `size_t` -/
def Branch.purgeInternalWithDefferedFreeT (b : Branch) (root : Root) (target : Nat) :
    Option (Branch × Root × List Nat) :=
  (purgeInternalWithDefferedFreeLoop target b.branchSizeInBytes 0 b.slots.reverse).map fun (size, rest, freed) =>
    ({ b with slots := rest.reverse, branchSizeInBytes := size }, root.subFreedT freed, freed.map (·.slotStart))

/-- the purge in `size_t` does to the branch and the buffer what `PurgeInternalWithDefferedFree` does -/
theorem Branch.purgeInternalWithDefferedFree_of_T {b b' : Branch} {rootT rootT' : Root} {target : Nat}
    {toBeFreed : List Nat} (h : b.purgeInternalWithDefferedFreeT rootT target = some (b', rootT', toBeFreed))
    (root : Root) : ∃ root', b.purgeInternalWithDefferedFree root target = some (b', root', toBeFreed) := by
  obtain ⟨⟨size, rest, freed⟩, hloop, heq⟩ := Option.map_eq_some'.1 h
  simp only [Prod.mk.injEq] at heq
  obtain ⟨rfl, -, rfl⟩ := heq
  exact ⟨root.subFreed freed, by simp [Branch.purgeInternalWithDefferedFree, hloop]⟩

/-- and subtracts the slots that `PurgeInternalWithDefferedFree` takes off the back of `slots_` -/
theorem Branch.purgeInternalWithDefferedFreeT_of {b b' : Branch} {root root' : Root} {target : Nat}
    {toBeFreed : List Nat} (h : b.purgeInternalWithDefferedFree root target = some (b', root', toBeFreed))
    (rootT : Root) :
    ∃ freed rest, b.slots.reverse = freed ++ rest ∧ root' = root.subFreed freed ∧
      b.purgeInternalWithDefferedFreeT rootT target = some (b', rootT.subFreedT freed, toBeFreed) := by
  obtain ⟨⟨size, rest, freed⟩, hloop, heq⟩ := Option.map_eq_some'.1 h
  simp only [Prod.mk.injEq] at heq
  obtain ⟨rfl, rfl, rfl⟩ := heq
  exact ⟨freed, rest, purgeInternalWithDefferedFreeLoop_split target _ _ _ hloop, rfl,
    by simp [Branch.purgeInternalWithDefferedFreeT, hloop]⟩

namespace Concurrent

/-! ## Threads and the shared state -/

/-- where a thread is in its call: idle, or in `Quarantine` past the capacity load, holding a buffer before the
lock, in `BatchFree` at entry `i` of the `numOfSlots` saved in its buffer, or before `QuarantineEpilogue` -/
inductive Pc
  | idle
  | loaded (slot : QuarantineSlot) (capacityInBytes : Nat)
  | borrowed (slot : QuarantineSlot) (capacityInBytes toBeFreed : Nat)
  | batchFree (slot : QuarantineSlot) (toBeFreed numOfSlots i : Nat)
  | epilogue (slot : QuarantineSlot)
deriving DecidableEq

namespace Pc

/-- the `ToBeFreedArray` the thread holds -/
def buffer : Pc → Option Nat
  | borrowed _ _ buf | batchFree _ buf _ _ => some buf
  | _ => none

/-- the slot starts the thread has still to free in `BatchFree` -/
def pending (content : Nat → List Nat) : Pc → List Nat
  | batchFree _ buf _ i => (content buf).drop i
  | _ => []

/-- the entry of a `Quarantine` call that has not yet reached its locked phase -/
def entry : Pc → Option Nat
  | loaded slot _ | borrowed slot _ _ => some slot.slotStart
  | _ => none

end Pc

/-- the shared branch and its root, the buffers, the threads, and what the allocator root was handed by each; the
last three fields are ghost logs: the slot starts of the `Quarantine` calls, and the victims each thread took off
`slots_` and freed -/
structure Shared where
  branch : Branch
  root : Root
  brpEnabled : Bool
  workingMemory : Option Nat
  next : Nat
  content : Nat → List Nat
  threads : List Pc
  effects : List (Nat × Effect)
  destroyed : List Nat
  calls : List Nat
  removed : List (Nat × Nat)
  evicted : List (Nat × Nat)

/-- the calls a thread makes, and the random number of the locked phase -/
inductive Action
  | quarantine (thread : Nat) (slot : QuarantineSlot) (directMapped : Bool)
  | borrow (thread : Nat)
  | locked (thread rand : Nat)
  | freeNext (thread : Nat)
  | giveBack (thread : Nat)
  | epilogue (thread : Nat)
  | purge (thread : Nat)
  | setCapacityInBytes (thread capacityInBytes : Nat)
deriving DecidableEq

namespace Shared

/-- `threads` threads, and a branch that `Configure` set up on `root`: quarantine on with a working buffer -/
def initial (root : Root) (config : SchedulerLoopQuarantineConfig) (brpEnabled : Bool) (threads : Nat) : Shared :=
  ⟨(Branch.new false root.allocatorRoot).install 0 config, root, brpEnabled,
    if config.enableQuarantine then some 0 else none, 1, fun _ => [], List.replicate threads .idle, [], [], [], [],
    []⟩

/-- the thread's state; a thread past the end of `threads` is idle -/
def pc (s : Shared) (t : Nat) : Pc := (s.threads[t]?).getD .idle

def setPc (s : Shared) (t : Nat) (pc : Pc) : Shared := { s with threads := s.threads.set t pc }

def emit (s : Shared) (t : Nat) (es : List Effect) : Shared := { s with effects := s.effects ++ es.map (t, ·) }

/-- the ghost record of a `Quarantine` call -/
def record (s : Shared) (slot : QuarantineSlot) : Shared := { s with calls := s.calls ++ [slot.slotStart] }

/-- `Quarantine`'s unlocked start: the fast reject and the capacity check free the object at once -/
def quarantine (s : Shared) (t : Nat) (slot : QuarantineSlot) (directMapped : Bool) : Option Shared :=
  if s.pc t ≠ .idle ∨ s.threads.length ≤ t then none
  else if s.branch.rejects directMapped then some ((s.record slot).emit t [.freeNoHooksImmediate slot.slotStart])
  else if s.branch.branchCapacityInBytes < slot.usableSize then
    some { (s.record slot).emit t [.freeNoHooksImmediate slot.slotStart] with root := s.root.addMissT }
  else some ((s.record slot).setPc t (.loaded slot s.branch.branchCapacityInBytes))

/-- `to_be_freed.reset(to_be_freed_working_memory_.exchange(nullptr))`, then `ConstructAtInternalPartition` when
the exchange returned null -/
def borrow (s : Shared) (t : Nat) : Option Shared :=
  match s.pc t, s.workingMemory with
  | .loaded slot c, some buf => some ({ s with workingMemory := none }.setPc t (.borrowed slot c buf))
  | .loaded slot c, none => some ({ s with next := s.next + 1 }.setPc t (.borrowed slot c s.next))
  | _, _ => none

/-- the locked phase: `PurgeInternalWithDefferedFree(capacity_in_bytes - usable_size, *to_be_freed, num_of_slots)`,
the `push_back` and the swap -/
def locked (s : Shared) (t rand : Nat) : Option Shared :=
  match s.pc t with
  | .borrowed slot c buf =>
    (s.branch.purgeInternalWithDefferedFreeT s.root (c - slot.usableSize)).map fun (b', root', toBeFreed) =>
      { s with
        branch := b'.pushSlot slot rand
        root := root'
        content := Function.update s.content buf toBeFreed
        removed := s.removed ++ toBeFreed.map (t, ·) }.setPc t (.batchFree slot buf toBeFreed.length 0)
  | _ => none

/-- one iteration of `BatchFree`: `FreeNoHooksImmediate` of `to_be_freed[i]` -/
def freeNext (s : Shared) (t : Nat) : Option Shared :=
  match s.pc t with
  | .batchFree slot buf num i =>
    if i < num then
      (s.content buf)[i]?.map fun a =>
        { s.emit t [.freeNoHooksImmediate a] with evicted := s.evicted ++ [(t, a)] }.setPc t
          (.batchFree slot buf num (i + 1))
    else none
  | _ => none

/-- after `BatchFree`: `to_be_freed.reset(to_be_freed_working_memory_.exchange(to_be_freed.release()))` puts the
buffer back and destroys the one it displaces -/
def giveBack (s : Shared) (t : Nat) : Option Shared :=
  match s.pc t with
  | .batchFree slot buf num i =>
    if i < num then none
    else some ({ s with workingMemory := some buf, destroyed := s.destroyed ++ s.workingMemory.toList }.setPc t
      (.epilogue slot))
  | _ => none

/-- the unlocked statistics and `QuarantineEpilogue` -/
def epilogue (s : Shared) (t : Nat) : Option Shared :=
  match s.pc t with
  | .epilogue slot =>
    some (({ s with root := s.root.addQuarantinedT slot.usableSize }.emit t
      (s.branch.quarantineEpilogue s.brpEnabled slot)).setPc t .idle)
  | _ => none

/-- `Purge()`: `PurgeInternal(0)` under `lock_`, which frees its victims itself, and the `fetch_sub`s in `size_t` -/
def purge (s : Shared) (t : Nat) : Option Shared :=
  if s.pc t ≠ .idle then none
  else (s.branch.purgeInternal s.root 0).map fun (b', _, freed) =>
    { s.emit t (World.frees freed) with
      branch := b', root := s.root.subFreedT freed
      removed := s.removed ++ freed.map (t, ·.slotStart)
      evicted := s.evicted ++ freed.map (t, ·.slotStart) }

def setCapacityInBytes (s : Shared) (t capacityInBytes : Nat) : Option Shared :=
  if s.pc t ≠ .idle then none
  else some { s with branch := { s.branch with branchCapacityInBytes := capacityInBytes } }

def step (s : Shared) : Action → Option Shared
  | .quarantine t slot directMapped => s.quarantine t slot directMapped
  | .borrow t => s.borrow t
  | .locked t rand => s.locked t rand
  | .freeNext t => s.freeNext t
  | .giveBack t => s.giveBack t
  | .epilogue t => s.epilogue t
  | .purge t => s.purge t
  | .setCapacityInBytes t c => s.setCapacityInBytes t c

/-! ## What is held, and by whom -/

/-- the buffers held: by `to_be_freed_working_memory_`, then by each thread -/
def holders (s : Shared) : List Nat := s.workingMemory.toList ++ s.threads.filterMap Pc.buffer

/-- the copies of slot `a` in `slots_` -/
def held (s : Shared) (a : Nat) : Nat := s.branch.slots.countP (·.slotStart = a)

/-- the copies of slot `a` the threads have still to free -/
def pendingAll (s : Shared) (a : Nat) : Nat := (s.threads.map fun pc => (pc.pending s.content).count a).sum

/-- the `Quarantine` calls of slot `a` that have not reached their locked phase -/
def inFlight (s : Shared) (a : Nat) : Nat := s.threads.countP (·.entry = some a)

/-- the frees of slot `a`, by any thread -/
def freed (s : Shared) (a : Nat) : Nat := s.effects.countP (·.2 = .freeNoHooksImmediate a)

/-- the victims thread `t` freed, and those it took off `slots_` -/
def evictedBy (s : Shared) (t : Nat) : List Nat := (s.evicted.filter (·.1 = t)).map (·.2)
def removedBy (s : Shared) (t : Nat) : List Nat := (s.removed.filter (·.1 = t)).map (·.2)

/-- the caller's side: the object a thread quarantines is one the program owns, so the quarantine does not hold
its slot, in `slots_`, in a buffer, or in another call -/
def Allowed (s : Shared) : Action → Prop
  | .quarantine _ slot _ =>
    s.held slot.slotStart = 0 ∧ s.pendingAll slot.slotStart = 0 ∧ s.inFlight slot.slotStart = 0
  | _ => True

instance (s : Shared) (a : Action) : Decidable (s.Allowed a) := by
  cases a <;> unfold Allowed <;> infer_instance

end Shared

/-- the states an interleaving of allowed steps reaches from `s₀` -/
inductive Reachable (s₀ : Shared) : List Action → Shared → Prop
  | nil : Reachable s₀ [] s₀
  | snoc {acts : List Action} {s s' : Shared} {a : Action} : Reachable s₀ acts s → s.Allowed a →
      s.step a = some s' → Reachable s₀ (acts ++ [a]) s'

/-! ## The epilogue runs after the lock -/

/-- two threads on a shared branch of 8 bytes with zapping on, under an allocator root with BackupRefPtr on -/
def raceStart : Shared := Shared.initial ⟨0, 0, 0, 0, 0, 0⟩ ⟨8, false, true, true⟩ true 2

/-- **`QuarantineEpilogue` touches a freed slot.** Thread 0 quarantines 8 bytes at 16 and leaves its locked phase;
thread 1 quarantines 8 bytes at 32, its locked phase evicts slot 16 and its `BatchFree` frees it; then thread 0's
`QuarantineEpilogue` zaps slot 16 and calls `PreReleaseFromAllocator` on it, which the quarantine no longer holds. -/
theorem epilogue_after_batchFree :
    ∃ s, Reachable raceStart
      [.quarantine 0 ⟨16, 8⟩ false, .borrow 0, .locked 0 0, .quarantine 1 ⟨32, 8⟩ false, .borrow 1, .locked 1 0,
        .freeNext 1, .giveBack 0, .epilogue 0] s ∧
      s.effects = [(1, .freeNoHooksImmediate 16), (0, .secureMemset 16 8), (0, .preReleaseFromAllocator 16)] ∧
      s.held 16 = 0 ∧ s.pendingAll 16 = 0 := by
  have h₀ : Reachable raceStart [] raceStart := .nil
  have h₁ := h₀.snoc (a := .quarantine 0 ⟨16, 8⟩ false) (by decide) rfl
  have h₂ := h₁.snoc (a := .borrow 0) trivial rfl
  have h₃ := h₂.snoc (a := .locked 0 0) trivial rfl
  have h₄ := h₃.snoc (a := .quarantine 1 ⟨32, 8⟩ false) (by decide) rfl
  have h₅ := h₄.snoc (a := .borrow 1) trivial rfl
  have h₆ := h₅.snoc (a := .locked 1 0) trivial rfl
  have h₇ := h₆.snoc (a := .freeNext 1) trivial rfl
  have h₈ := h₇.snoc (a := .giveBack 0) trivial rfl
  exact ⟨_, h₈.snoc (a := .epilogue 0) trivial rfl, rfl, rfl, rfl⟩

end Concurrent

end PartitionAlloc.SchedulerLoopQuarantine
