/-
Sequential runs of the Scheduler-Loop Quarantine: roots and branches, and the calls a program makes on them.

A `World` holds the roots (by index), the branches (a branch is its index in `branches`), and what the allocator root
is handed on each branch's account, in order (`effects`). Two ghost fields record the branch and slot of each
`Quarantine` call (`calls`) and the branches whose destructor ran (`destroyed`); `Runs` ties `calls` back to the
`Quarantine` calls of the run. A call is one step of `World.step`:
the thread-bound branch is used by its one thread, and here a shared branch by one thread at a time (`Concurrent`
interleaves them). `none` is a call that does not return: a failed `PA_CHECK`, `slots_.back()` on an empty `slots_`,
or a `root_` that no `Configure` set (the member has no initializer).

`Reachable` collects the runs from a world of fresh branches in which the caller keeps its side of the contract:
calls go to branches that exist and were not destroyed, a quarantined slot has a positive usable size
(`GetSlotUsableSize`) and is not already held by the branch, and a `ScopedQuarantineExclusion` ends only after it
began.
-/
import PartitionAlloc.SchedulerLoopQuarantine.Branch

namespace PartitionAlloc.SchedulerLoopQuarantine

/-! ## Worlds and calls -/

/-- the branch and the slot of a `Quarantine` call (ghost) -/
structure Call where
  branch : Nat
  slot : QuarantineSlot
deriving DecidableEq

/-- roots, branches, and what the allocator root was handed; `brpEnabled` is the allocator root's
`brp_enabled()` -/
structure World where
  roots : Nat → Root
  branches : List Branch
  brpEnabled : Bool
  effects : List (Nat × Effect)
  calls : List Call
  destroyed : List Nat

/-- the calls of a run; `pause` and `resume` are the constructor and destructor of `ScopedQuarantineExclusion` -/
inductive Op
  | configure (branch root : Nat) (config : SchedulerLoopQuarantineConfig)
  | quarantine (branch : Nat) (slot : QuarantineSlot) (directMapped : Bool) (rand : Nat)
  | purge (branch : Nat)
  | setCapacityInBytes (branch capacityInBytes : Nat)
  | destroy (branch : Nat)
  | pause (branch : Nat)
  | resume (branch : Nat)
deriving DecidableEq

namespace World

/-- fresh branches (thread-bound or not, and the partition root each belongs to) and roots with no statistics -/
def initial (allocatorRootOf : Nat → Nat) (branches : List (Bool × Nat)) (brpEnabled : Bool) : World :=
  ⟨fun r => ⟨allocatorRootOf r, 0, 0, 0, 0, 0⟩, branches.map fun (t, a) => Branch.new t a, brpEnabled, [], [], []⟩

def setBranch (w : World) (i : Nat) (b : Branch) : World := { w with branches := w.branches.set i b }

def setRoot (w : World) (r : Nat) (root : Root) : World := { w with roots := Function.update w.roots r root }

/-- the allocator root is handed `es` on branch `i`'s account -/
def emit (w : World) (i : Nat) (es : List Effect) : World := { w with effects := w.effects ++ es.map (i, ·) }

def record (w : World) (c : Call) : World := { w with calls := w.calls ++ [c] }

section Setters

variable (w : World)

@[simp] theorem setBranch_roots (i : Nat) (b : Branch) : (w.setBranch i b).roots = w.roots := rfl
@[simp] theorem setBranch_branches (i : Nat) (b : Branch) : (w.setBranch i b).branches = w.branches.set i b := rfl
@[simp] theorem setBranch_brpEnabled (i : Nat) (b : Branch) : (w.setBranch i b).brpEnabled = w.brpEnabled := rfl
@[simp] theorem setBranch_effects (i : Nat) (b : Branch) : (w.setBranch i b).effects = w.effects := rfl
@[simp] theorem setBranch_calls (i : Nat) (b : Branch) : (w.setBranch i b).calls = w.calls := rfl
@[simp] theorem setBranch_destroyed (i : Nat) (b : Branch) : (w.setBranch i b).destroyed = w.destroyed := rfl

@[simp] theorem setRoot_roots (r : Nat) (root : Root) : (w.setRoot r root).roots = Function.update w.roots r root :=
  rfl
@[simp] theorem setRoot_branches (r : Nat) (root : Root) : (w.setRoot r root).branches = w.branches := rfl
@[simp] theorem setRoot_brpEnabled (r : Nat) (root : Root) : (w.setRoot r root).brpEnabled = w.brpEnabled := rfl
@[simp] theorem setRoot_effects (r : Nat) (root : Root) : (w.setRoot r root).effects = w.effects := rfl
@[simp] theorem setRoot_calls (r : Nat) (root : Root) : (w.setRoot r root).calls = w.calls := rfl
@[simp] theorem setRoot_destroyed (r : Nat) (root : Root) : (w.setRoot r root).destroyed = w.destroyed := rfl

@[simp] theorem emit_roots (i : Nat) (es : List Effect) : (w.emit i es).roots = w.roots := rfl
@[simp] theorem emit_branches (i : Nat) (es : List Effect) : (w.emit i es).branches = w.branches := rfl
@[simp] theorem emit_brpEnabled (i : Nat) (es : List Effect) : (w.emit i es).brpEnabled = w.brpEnabled := rfl
@[simp] theorem emit_effects (i : Nat) (es : List Effect) : (w.emit i es).effects = w.effects ++ es.map (i, ·) :=
  rfl
@[simp] theorem emit_calls (i : Nat) (es : List Effect) : (w.emit i es).calls = w.calls := rfl
@[simp] theorem emit_destroyed (i : Nat) (es : List Effect) : (w.emit i es).destroyed = w.destroyed := rfl

@[simp] theorem record_roots (c : Call) : (w.record c).roots = w.roots := rfl
@[simp] theorem record_branches (c : Call) : (w.record c).branches = w.branches := rfl
@[simp] theorem record_brpEnabled (c : Call) : (w.record c).brpEnabled = w.brpEnabled := rfl
@[simp] theorem record_effects (c : Call) : (w.record c).effects = w.effects := rfl
@[simp] theorem record_calls (c : Call) : (w.record c).calls = w.calls ++ [c] := rfl
@[simp] theorem record_destroyed (c : Call) : (w.record c).destroyed = w.destroyed := rfl

end Setters

/-- the frees of some slots, in order -/
def frees (slots : List QuarantineSlot) : List Effect := slots.map fun s => .freeNoHooksImmediate s.slotStart

/-! ## The calls -/

/-- `PurgeInternal(target_size_in_bytes)` on branch `i` -/
def purgeInternal (w : World) (i target : Nat) : Option World := do
  let b ← w.branches[i]?
  let r ← b.root
  let (b', root', freed) ← b.purgeInternal (w.roots r) target
  pure (((w.setBranch i b').setRoot r root').emit i (frees freed))

/-- `Quarantine(object, slot_span, slot_start, usable_size)` on branch `i`, both specializations -/
def quarantine (w : World) (i : Nat) (slot : QuarantineSlot) (directMapped : Bool) (rand : Nat) : Option World := do
  let b ← w.branches[i]?
  if b.rejects directMapped then
    pure ((w.emit i [.freeNoHooksImmediate slot.slotStart]).record ⟨i, slot⟩)
  else
    let r ← b.root
    let capacityInBytes := b.branchCapacityInBytes
    if capacityInBytes < slot.usableSize then
      pure (((w.emit i [.freeNoHooksImmediate slot.slotStart]).setRoot r (w.roots r).addMiss).record ⟨i, slot⟩)
    else if b.threadBound then do
      let (b', root', freed) ← b.purgeInternal (w.roots r) (capacityInBytes - slot.usableSize)
      let b'' := b'.pushSlot slot rand
      pure ((((w.setBranch i b'').setRoot r (root'.addQuarantined slot.usableSize)).emit i
        (frees freed ++ b''.quarantineEpilogue w.brpEnabled slot)).record ⟨i, slot⟩)
    else do
      let (b', root', toBeFreed) ← b.purgeInternalWithDefferedFree (w.roots r) (capacityInBytes - slot.usableSize)
      let b'' := b'.pushSlot slot rand
      pure ((((w.setBranch i b'').setRoot r (root'.addQuarantined slot.usableSize)).emit i
        (toBeFreed.map .freeNoHooksImmediate ++ b''.quarantineEpilogue w.brpEnabled slot)).record ⟨i, slot⟩)

/-- `Configure(root, config)` on branch `i`: its `PA_CHECK`s, the purge of a branch already enabled, and the new
settings -/
def configure (w : World) (i r : Nat) (config : SchedulerLoopQuarantineConfig) : Option World := do
  let b ← w.branches[i]?
  if b.pauseQuarantine ≠ 0 ∨ b.allocatorRoot ≠ (w.roots r).allocatorRoot then none
  else
    let w' ← if b.enableQuarantine then do
        let w' ← w.purgeInternal i 0
        let b' ← w'.branches[i]?
        if b'.slots = [] then pure w' else none
      else pure w
    let b' ← w'.branches[i]?
    pure (w'.setBranch i (b'.install r config))

/-- `Purge()`: `PurgeInternal(0)` under the lock -/
def purge (w : World) (i : Nat) : Option World := w.purgeInternal i 0

def setCapacityInBytes (w : World) (i capacityInBytes : Nat) : Option World := do
  let b ← w.branches[i]?
  pure (w.setBranch i { b with branchCapacityInBytes := capacityInBytes })

/-- `~SchedulerLoopQuarantineBranch()`: `Purge()` unless `leak_on_destruction_` -/
def destroy (w : World) (i : Nat) : Option World := do
  let b ← w.branches[i]?
  let w' ← if b.leakOnDestruction then pure w else w.purge i
  pure { w' with destroyed := w'.destroyed ++ [i] }

/-- `ScopedQuarantineExclusion(branch)`: `++pause_quarantine_` -/
def pause (w : World) (i : Nat) : Option World := do
  let b ← w.branches[i]?
  pure (w.setBranch i { b with pauseQuarantine := b.pauseQuarantine + 1 })

/-- `~ScopedQuarantineExclusion()`: `--pause_quarantine_` -/
def resume (w : World) (i : Nat) : Option World := do
  let b ← w.branches[i]?
  pure (w.setBranch i { b with pauseQuarantine := b.pauseQuarantine - 1 })

def step (w : World) : Op → Option World
  | .configure i r config => w.configure i r config
  | .quarantine i slot directMapped rand => w.quarantine i slot directMapped rand
  | .purge i => w.purge i
  | .setCapacityInBytes i c => w.setCapacityInBytes i c
  | .destroy i => w.destroy i
  | .pause i => w.pause i
  | .resume i => w.resume i

/-! ## Runs -/

/-- branch `i` exists and its destructor has not run -/
def Live (w : World) (i : Nat) : Prop := i < w.branches.length ∧ i ∉ w.destroyed

/-- the caller's side of the contract -/
def Allowed (w : World) : Op → Prop
  | .configure i _ _ | .purge i | .setCapacityInBytes i _ | .destroy i | .pause i => w.Live i
  | .quarantine i slot _ _ =>
    w.Live i ∧ 0 < slot.usableSize ∧ ∀ b ∈ w.branches[i]?, ∀ s ∈ b.slots, s.slotStart ≠ slot.slotStart
  | .resume i => w.Live i ∧ ∀ b ∈ w.branches[i]?, 0 < b.pauseQuarantine

end World

/-- the worlds a run of allowed calls reaches from `w₀`, with the calls made -/
inductive Reachable (w₀ : World) : List Op → World → Prop
  | nil : Reachable w₀ [] w₀
  | snoc {ops : List Op} {w w' : World} {o : Op} : Reachable w₀ ops w → w.Allowed o → w.step o = some w' →
      Reachable w₀ (ops ++ [o]) w'

end PartitionAlloc.SchedulerLoopQuarantine
