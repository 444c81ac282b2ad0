/-
The shared branch under threads whose calls do not overlap (`scheduler_loop_quarantine.cc`): the interleaved model
of `Concurrent` computes what the sequential model of `World` computes.

A call made while no other thread is inside one is a run of one thread's steps: `Quarantine`'s unlocked start alone
when it frees the object at once, and otherwise also the exchange that borrows the buffer, the locked phase, one
`BatchFree` iteration per saved victim, the exchange that gives the buffer back, and the epilogue; `Purge` and
`SetCapacityInBytes` are one step each. `Refines s w` relates an interleaved state whose threads are all idle to a
sequential world whose one branch is the shared branch: the same branch, its root's statistics (the interleaved
model keeps them in `size_t`, so modulo `2 ^ 64`), `brp_enabled()`, the calls, and what the allocator root was handed,
in the same order. The sequential world's invariant keeps every purge's subtraction above zero, so the counters
modulo `2 ^ 64` follow the unbounded ones (`World.Inv.wrap_subFreed`).

- `batchFree_run`: `BatchFree` frees the saved victims in order, one step each;
- `Refines.step`: a sequential call is matched by one thread's steps, and the states after them are related again;
- `serial_shared_branch_refines`: every sequential run of `Quarantine`, `Purge` and `SetCapacityInBytes` calls on a
  shared branch after its `Configure` is the outcome of one thread's steps from the state that `Configure` sets up:
  the allocator root is handed the same frees, zaps and `PreReleaseFromAllocator`s, in the same order. The epilogue
  of `epilogue_after_batchFree`, after another thread's `BatchFree`, needs calls that overlap.
-/
import PartitionAlloc.SchedulerLoopQuarantine.Ownership
import PartitionAlloc.SchedulerLoopQuarantine.Runs

namespace PartitionAlloc.SchedulerLoopQuarantine

/-- the calls the threads of the interleaved model make: `Quarantine`, `Purge` and `SetCapacityInBytes` -/
def Op.threadCall : Op → Bool
  | .quarantine .. | .purge _ | .setCapacityInBytes .. => true
  | _ => false

/-- `PurgeInternalWithDefferedFree` keeps the branch's settings and its `root_` -/
theorem Branch.purgeInternalWithDefferedFree_settings {b b' : Branch} {root root' : Root} {target : Nat}
    {toBeFreed : List Nat} (h : b.purgeInternalWithDefferedFree root target = some (b', root', toBeFreed)) :
    b'.threadBound = b.threadBound ∧ b'.root = b.root := by
  obtain ⟨_, -, heq⟩ := Option.map_eq_some'.1 h
  obtain ⟨rfl, -, -⟩ := Prod.mk.inj_iff.1 heq |>.imp_right Prod.mk.inj_iff.1
  exact ⟨rfl, rfl⟩

/-- so does `PurgeInternal` -/
theorem Branch.purgeInternal_settings {b b' : Branch} {root root' : Root} {target : Nat}
    {freed : List QuarantineSlot} (h : b.purgeInternal root target = some (b', root', freed)) :
    b'.threadBound = b.threadBound ∧ b'.root = b.root := by
  obtain ⟨_, -, heq⟩ := Option.map_eq_some'.1 h
  obtain ⟨rfl, -, -⟩ := Prod.mk.inj_iff.1 heq |>.imp_right Prod.mk.inj_iff.1
  exact ⟨rfl, rfl⟩

/-- `PurgeInternal` frees the same slots, and leaves the same branch, whatever root it counts them on -/
theorem Branch.purgeInternal_root {b b' : Branch} {root root' : Root} {target : Nat} {freed : List QuarantineSlot}
    (h : b.purgeInternal root target = some (b', root', freed)) (root₂ : Root) :
    root' = root.subFreed freed ∧ b.purgeInternal root₂ target = some (b', root₂.subFreed freed, freed) := by
  obtain ⟨⟨size, rest, freed'⟩, hloop, heq⟩ := Option.map_eq_some'.1 h
  simp only [Prod.mk.injEq] at heq
  obtain ⟨rfl, rfl, rfl⟩ := heq
  exact ⟨rfl, by simp [Branch.purgeInternal, hloop]⟩

/-! ## The root's counters modulo `2 ^ 64` -/

/-- the root's counters as `std::atomic<size_t>` holds them -/
def Root.wrap (root : Root) : Root :=
  { root with
    sizeInBytes := root.sizeInBytes % 2 ^ 64
    count := root.count % 2 ^ 64
    cumulativeCount := root.cumulativeCount % 2 ^ 64
    cumulativeSizeInBytes := root.cumulativeSizeInBytes % 2 ^ 64
    quarantineMissCount := root.quarantineMissCount % 2 ^ 64 }

theorem Root.wrap_addMiss (root : Root) : root.addMiss.wrap = root.wrap.addMissT := by
  simp only [Root.wrap, Root.addMiss, Root.addMissT, addT_mod]

theorem Root.wrap_addQuarantined (root : Root) (usableSize : Nat) :
    (root.addQuarantined usableSize).wrap = root.wrap.addQuarantinedT usableSize := by
  simp only [Root.wrap, Root.addQuarantined, Root.addQuarantinedT, addT_mod]

/-- the `fetch_sub`s in `size_t` follow the sequential ones when those do not go below zero -/
theorem Root.wrap_subFreed {root : Root} {freed : List QuarantineSlot} (hsize : sumUsable freed ≤ root.sizeInBytes)
    (hcount : freed.length ≤ root.count) : (root.subFreed freed).wrap = root.wrap.subFreedT freed := by
  simp only [Root.wrap, Root.subFreed, Root.subFreedT, subT_mod hsize, subT_mod hcount]

/-- a purge of branch `i` takes no more from its root than the root counts: the subtractions do not go below zero -/
theorem World.Inv.wrap_subFreed {w : World} (hw : w.Inv) {i r : Nat} {b : Branch} (hb : w.branches[i]? = some b)
    (hr : b.root = some r) {freed rest : List QuarantineSlot} (hsplit : b.slots.reverse = freed ++ rest) :
    ((w.roots r).subFreed freed).wrap = (w.roots r).wrap.subFreedT freed := by
  have hcount := w.le_tally hb hr fun b => b.slots.length
  have hbytes := w.le_tally hb hr (·.branchSizeInBytes)
  rw [← hw.count] at hcount
  rw [← hw.sizeInBytes, (hw.sound b (List.getElem?_mem hb)).size_eq] at hbytes
  have hlen : b.slots.length = freed.length + rest.length := by
    rw [← List.length_reverse, hsplit, List.length_append]
  have hsum : sumUsable b.slots = sumUsable freed + sumUsable rest := by
    rw [← sumUsable_reverse, hsplit, sumUsable_append]
  exact Root.wrap_subFreed (by omega) (by omega)

namespace Concurrent

/-- the thread that takes a step -/
def Action.thread : Action → Nat
  | .quarantine t _ _ | .borrow t | .locked t _ | .freeNext t | .giveBack t | .epilogue t | .purge t
  | .setCapacityInBytes t _ => t

theorem Reachable.append {s₀ s s' : Shared} {acts acts' : List Action} (h : Reachable s₀ acts s)
    (h' : Reachable s acts' s') : Reachable s₀ (acts ++ acts') s' := by
  induction h' with
  | nil => simpa using h
  | snoc _ ha hstep ih => rw [← List.append_assoc]; exact ih.snoc ha hstep

theorem Reachable.cons {s s₁ s' : Shared} {a : Action} {acts : List Action} (ha : s.Allowed a)
    (hstep : s.step a = some s₁) (h : Reachable s₁ acts s') : Reachable s (a :: acts) s' :=
  ((Reachable.nil : Reachable s [] s).snoc ha hstep).append h

theorem set_of_getElem? {α : Type} {l : List α} {i : Nat} {x : α} (h : l[i]? = some x) : l.set i x = l :=
  List.ext_getElem? fun j => by
    rw [List.getElem?_set]
    split_ifs with hij hi
    · subst hij; exact h.symm
    · subst hij; rw [List.getElem?_eq_none (by omega)] at h; cases h
    · rfl

namespace Shared

variable {s : Shared} {t : Nat}

theorem setPc_of_pc (ht : t < s.threads.length) {p : Pc} (h : s.pc t = p) : s.setPc t p = s := by
  have hp : s.threads[t]? = some p := by
    rw [List.getElem?_eq_getElem ht]; simpa [pc, List.getElem?_eq_getElem ht] using h
  simp only [setPc, set_of_getElem? hp]

theorem pc_setPc_self (ht : t < s.threads.length) (p : Pc) : (s.setPc t p).pc t = p := by
  simp [pc, setPc, List.getElem?_set_self ht]

end Shared

/-! ## `BatchFree` -/

/-- **`BatchFree`.** From entry `num - k` of the `num` victims saved in its buffer, a thread's `k` iterations free
the rest in order, one step each, and leave it at the end of its buffer. -/
theorem batchFree_run {t buf num : Nat} {slot : QuarantineSlot} : ∀ (k : Nat) {s : Shared}, t < s.threads.length →
    s.pc t = .batchFree slot buf num (num - k) → k ≤ num → num = (s.content buf).length →
    Reachable s (List.replicate k (.freeNext t))
      ({ s.emit t (((s.content buf).drop (num - k)).map .freeNoHooksImmediate) with
          evicted := s.evicted ++ ((s.content buf).drop (num - k)).map (t, ·) }.setPc t
        (.batchFree slot buf num num))
  | 0, s, ht, hpc, _, hnum => by
    rw [Nat.sub_zero] at hpc ⊢
    rw [hnum, List.drop_length, ← hnum]
    convert (Reachable.nil : Reachable s [] s) using 1
    simp only [List.map_nil, Shared.emit, List.append_nil]
    exact Shared.setPc_of_pc (s := s) ht hpc
  | k + 1, s, ht, hpc, hk, hnum => by
    have hi : num - (k + 1) < (s.content buf).length := by omega
    have hdrop : (s.content buf).drop (num - (k + 1)) = (s.content buf)[num - (k + 1)] ::
        (s.content buf).drop (num - k) := by
      rw [List.drop_eq_getElem_cons hi, show num - (k + 1) + 1 = num - k by omega]
    set x := (s.content buf)[num - (k + 1)]
    set s₁ : Shared := { s.emit t [.freeNoHooksImmediate x] with evicted := s.evicted ++ [(t, x)] }.setPc t
      (.batchFree slot buf num (num - k))
    have hstep : s.step (.freeNext t) = some s₁ := by
      simp only [Shared.step, Shared.freeNext, hpc, if_pos (show num - (k + 1) < num by omega),
        List.getElem?_eq_getElem hi, Option.map_some', s₁, show num - (k + 1) + 1 = num - k by omega]
    have ih := batchFree_run k (s := s₁) (by simpa [s₁, Shared.setPc] using ht)
      (Shared.pc_setPc_self (by simpa [Shared.emit] using ht) _) (by omega) hnum
    convert Reachable.cons (s := s) (a := .freeNext t) trivial hstep ih using 1
    simp only [s₁, Shared.emit, Shared.setPc, List.set_set, hdrop, List.map_cons, List.map_nil, List.append_assoc,
      List.cons_append, List.nil_append]

/-! ## The relation -/

/-- an interleaved state whose threads are all idle and a sequential world whose one branch is the shared branch,
that agree: the branch, which is not thread-bound, its root's statistics (modulo `2 ^ 64` in the interleaved state),
`brp_enabled()`, what the allocator root was handed, in order, and the calls -/
structure Refines (s : Shared) (w : World) : Prop where
  branches : w.branches = [s.branch]
  threadBound : s.branch.threadBound = false
  roots : ∀ r, s.branch.root = some r → s.root = (w.roots r).wrap
  brpEnabled : w.brpEnabled = s.brpEnabled
  effects : s.effects.map Prod.snd = w.effects.map Prod.snd
  calls : s.calls = w.calls.map (·.slot.slotStart)
  idle : ∀ pc ∈ s.threads, pc = .idle

namespace Refines

variable {s : Shared} {w : World} {t : Nat}

theorem pc_idle (hR : Refines s w) (t : Nat) : s.pc t = .idle := by
  unfold Shared.pc
  cases h : s.threads[t]? with
  | none => rfl
  | some pc => exact hR.idle pc (List.getElem?_mem h)

theorem getElem?_branches (hR : Refines s w) : w.branches[0]? = some s.branch := by
  rw [hR.branches]; rfl

/-- the caller's side carries over: with every thread idle, a slot that the branch does not hold is held nowhere -/
theorem allowed_quarantine (hR : Refines s w) {slot : QuarantineSlot} (directMapped : Bool)
    (hfresh : ∀ x ∈ s.branch.slots, x.slotStart ≠ slot.slotStart) : s.Allowed (.quarantine t slot directMapped) := by
  refine ⟨List.countP_eq_zero.2 fun x hx => by simpa using hfresh x hx, ?_, ?_⟩
  · refine List.sum_eq_zero fun n hn => ?_
    obtain ⟨pc, hpc, rfl⟩ := List.mem_map.1 hn
    rw [hR.idle pc hpc]; rfl
  · exact List.countP_eq_zero.2 fun pc hpc => by simp [hR.idle pc hpc, Pc.entry]

/-- a thread that sets its pc over and over ends with its last one, and every other thread idle -/
theorem idle_set (hR : Refines s w) {l : List Pc} (hl : l = s.threads.set t .idle) : ∀ pc ∈ l, pc = .idle := by
  subst hl
  exact fun pc hpc => (List.mem_or_eq_of_mem_set hpc).elim (hR.idle pc) id

/-- **A kept entry.** From the unlocked start of a `Quarantine` call whose entry fits, thread `t`'s borrow, locked
phase, `BatchFree` steps, give-back and epilogue compute what the sequential call computes. -/
theorem retain (hR : Refines s w) (hw : w.Inv) (ht : t < s.threads.length) {slot : QuarantineSlot} {directMapped : Bool}
    (hallowed : s.Allowed (.quarantine t slot directMapped))
    (h₁ : s.step (.quarantine t slot directMapped) =
      some ((s.record slot).setPc t (.loaded slot s.branch.branchCapacityInBytes)))
    {r : Nat} (hr : s.branch.root = some r) {b' : Branch} {root' : Root} {toBeFreed : List Nat}
    (hpurge : s.branch.purgeInternalWithDefferedFree (w.roots r) (s.branch.branchCapacityInBytes - slot.usableSize) =
      some (b', root', toBeFreed)) (rand : Nat) :
    ∃ acts s', (∀ a ∈ acts, a.thread = t) ∧ Reachable s acts s' ∧
      Refines s' ((((w.setBranch 0 (b'.pushSlot slot rand)).setRoot r (root'.addQuarantined slot.usableSize)).emit 0
        (toBeFreed.map .freeNoHooksImmediate ++ (b'.pushSlot slot rand).quarantineEpilogue w.brpEnabled slot)).record
        ⟨0, slot⟩) ∧
      s'.threads.length = s.threads.length := by
  obtain ⟨hbound, hroot'⟩ := Branch.purgeInternalWithDefferedFree_settings hpurge
  obtain ⟨freed, rest, hsplit, rfl, hpurgeT⟩ := Branch.purgeInternalWithDefferedFreeT_of hpurge s.root
  set c := s.branch.branchCapacityInBytes
  set s₁ := (s.record slot).setPc t (.loaded slot c)
  have ht₁ : t < s₁.threads.length := by simpa [s₁, Shared.setPc, Shared.record] using ht
  have hpc₁ : s₁.pc t = .loaded slot c := Shared.pc_setPc_self (s := s.record slot) ht _
  -- the exchange returns the working buffer, or null and a new buffer is constructed
  obtain ⟨buf, wm, nx, h₂⟩ : ∃ buf wm nx, s₁.step (.borrow t) =
      some ({ s₁ with workingMemory := wm, next := nx }.setPc t (.borrowed slot c buf)) := by
    cases hwm : s.workingMemory with
    | none => exact ⟨s.next, none, s.next + 1, by
        simp only [Shared.step, Shared.borrow, hpc₁, show s₁.workingMemory = none from hwm]; rfl⟩
    | some buf => exact ⟨buf, none, s.next, by
        simp only [Shared.step, Shared.borrow, hpc₁, show s₁.workingMemory = some buf from hwm]; rfl⟩
  set s₂ := { s₁ with workingMemory := wm, next := nx }.setPc t (.borrowed slot c buf)
  have hpc₂ : s₂.pc t = .borrowed slot c buf := Shared.pc_setPc_self (s := { s₁ with workingMemory := wm, next := nx })
    ht₁ _
  -- the locked phase saves the victims in the buffer
  set s₃ := { s₂ with
    branch := b'.pushSlot slot rand
    root := s.root.subFreedT freed
    content := Function.update s₂.content buf toBeFreed
    removed := s₂.removed ++ toBeFreed.map (t, ·) }.setPc t (.batchFree slot buf toBeFreed.length 0)
  have h₃ : s₂.step (.locked t rand) = some s₃ := by
    simp only [Shared.step, Shared.locked, hpc₂, show s₂.branch.purgeInternalWithDefferedFreeT s₂.root
      (c - slot.usableSize) = some (b', s.root.subFreedT freed, toBeFreed) from hpurgeT, Option.map_some']
  have ht₂ : t < s₂.threads.length := by simpa [s₂, Shared.setPc] using ht₁
  have ht₃ : t < s₃.threads.length := by simpa [s₃, Shared.setPc] using ht₂
  -- `BatchFree` frees them
  have h₄ := batchFree_run toBeFreed.length (s := s₃) ht₃
    (by rw [Nat.sub_self]; exact Shared.pc_setPc_self (by simpa [Shared.setPc] using ht₂) _) le_rfl
    (by simp [s₃, Shared.setPc])
  set s₄ := { s₃.emit t (((s₃.content buf).drop (toBeFreed.length - toBeFreed.length)).map
      .freeNoHooksImmediate) with
    evicted := s₃.evicted ++ ((s₃.content buf).drop (toBeFreed.length - toBeFreed.length)).map (t, ·) }.setPc t
    (.batchFree slot buf toBeFreed.length toBeFreed.length)
  have ht₄ : t < s₄.threads.length := by simpa [s₄, Shared.setPc, Shared.emit] using ht₃
  -- the buffer goes back, then the statistics and the epilogue
  set s₅ := { s₄ with workingMemory := some buf, destroyed := s₄.destroyed ++ s₄.workingMemory.toList }.setPc t
    (.epilogue slot)
  have h₅ : s₄.step (.giveBack t) = some s₅ := by
    simp only [Shared.step, Shared.giveBack, show s₄.pc t = .batchFree slot buf toBeFreed.length toBeFreed.length
      from Shared.pc_setPc_self (by simpa [Shared.setPc, Shared.emit] using ht₃) _, lt_self_iff_false, if_false]
  have h₆ : s₅.step (.epilogue t) = some ((({ s₅ with root := s₅.root.addQuarantinedT slot.usableSize }.emit t
      (s₅.branch.quarantineEpilogue s₅.brpEnabled slot)).setPc t .idle)) := by
    simp only [Shared.step, Shared.epilogue, show s₅.pc t = .epilogue slot from Shared.pc_setPc_self
      (by simpa [Shared.setPc] using ht₄) _]
  have hrun := ((((((Reachable.nil : Reachable s [] s).snoc hallowed h₁).snoc (a := .borrow t) trivial h₂).snoc
    (a := .locked t rand) trivial h₃).append h₄).snoc (a := .giveBack t) trivial h₅).snoc (a := .epilogue t) trivial
    h₆
  refine ⟨_, _, fun a ha => ?_, hrun, ⟨?_, ?_, fun r' hr' => ?_, ?_, ?_, ?_, hR.idle_set (t := t) ?_⟩, ?_⟩
  · simp only [List.mem_append, List.mem_singleton, List.mem_replicate, List.not_mem_nil, false_or] at ha
    rcases ha with ((((rfl | rfl) | rfl) | ⟨-, rfl⟩) | rfl) | rfl <;> rfl
  · simp [s₅, s₄, s₃, Shared.setPc, Shared.emit, hR.branches]
  · simp [s₅, s₄, s₃, Shared.setPc, Shared.emit, Branch.pushSlot, hbound, hR.threadBound]
  · obtain rfl : r' = r := by
      simp only [s₅, s₄, s₃, Shared.setPc, Shared.emit, Branch.pushSlot, hroot'] at hr'
      exact Option.some.inj (hr'.symm.trans hr)
    simp [s₅, s₄, s₃, Shared.setPc, Shared.emit, Root.wrap_addQuarantined,
      hw.wrap_subFreed hR.getElem?_branches hr hsplit, ← hR.roots _ hr]
  · simp [s₅, s₄, s₃, s₂, s₁, Shared.setPc, Shared.emit, Shared.record, hR.brpEnabled]
  · simp [s₅, s₄, s₃, s₂, s₁, Shared.setPc, Shared.emit, Shared.record, hR.effects, hR.brpEnabled,
      Function.comp_def]
  · simp [s₅, s₄, s₃, s₂, s₁, Shared.setPc, Shared.emit, Shared.record, hR.calls]
  · simp [s₅, s₄, s₃, s₂, s₁, Shared.setPc, Shared.emit, Shared.record, List.set_set]
  · simp [s₅, s₄, s₃, s₂, s₁, Shared.setPc, Shared.emit, Shared.record]

/-- **A `Quarantine` call.** It is matched by thread `t`'s steps: the unlocked start alone when the fast reject or
the capacity check frees the entry at once, and otherwise the steps of a kept entry. -/
theorem quarantine (hR : Refines s w) (hw : w.Inv) (ht : t < s.threads.length) {slot : QuarantineSlot} {directMapped : Bool}
    {rand : Nat} (hfresh : ∀ x ∈ s.branch.slots, x.slotStart ≠ slot.slotStart) {w' : World}
    (hq : w.quarantine 0 slot directMapped rand = some w') :
    ∃ acts s', (∀ a ∈ acts, a.thread = t) ∧ Reachable s acts s' ∧ Refines s' w' ∧
      s'.threads.length = s.threads.length := by
  have hallowed := hR.allowed_quarantine (t := t) directMapped hfresh
  simp only [World.quarantine, hR.getElem?_branches, Option.bind_eq_bind, Option.some_bind, Option.pure_def] at hq
  have hgo : ¬(s.pc t ≠ .idle ∨ s.threads.length ≤ t) := by simp [hR.pc_idle t, ht]
  by_cases hrej : s.branch.rejects directMapped = true
  case pos =>
    -- the fast reject frees the object at once
    rw [if_pos hrej, Option.some.injEq] at hq
    subst hq
    have hstep : s.step (.quarantine t slot directMapped) =
        some ((s.record slot).emit t [.freeNoHooksImmediate slot.slotStart]) := by
      simp only [Shared.step, Shared.quarantine, if_neg hgo, if_pos hrej]
    refine ⟨_, _, by simp [Action.thread], (Reachable.nil : Reachable s [] s).snoc hallowed hstep,
      ⟨hR.branches, hR.threadBound, hR.roots, hR.brpEnabled, ?_, ?_, hR.idle⟩, rfl⟩
    · simp [Shared.emit, Shared.record, hR.effects]
    · simp [Shared.emit, Shared.record, hR.calls]
  case neg =>
  rw [if_neg hrej] at hq
  cases hr : s.branch.root with
  | none => simp [hr] at hq
  | some r =>
  simp only [hr, Option.some_bind] at hq
  by_cases hcap : s.branch.branchCapacityInBytes < slot.usableSize
  case pos =>
    -- a miss: freed at once and counted
    rw [if_pos hcap, Option.some.injEq] at hq
    subst hq
    have hstep : s.step (.quarantine t slot directMapped) =
        some { (s.record slot).emit t [.freeNoHooksImmediate slot.slotStart] with root := s.root.addMissT } := by
      simp only [Shared.step, Shared.quarantine, if_neg hgo, if_neg hrej, if_pos hcap]
    refine ⟨_, _, by simp [Action.thread], (Reachable.nil : Reachable s [] s).snoc hallowed hstep,
      ⟨hR.branches, hR.threadBound, fun r' hr' => ?_, hR.brpEnabled, ?_, ?_, hR.idle⟩, rfl⟩
    · obtain rfl : r' = r := Option.some.inj (hr'.symm.trans hr)
      simp [hR.roots _ hr, Root.wrap_addMiss]
    · simp [Shared.emit, Shared.record, hR.effects]
    · simp [Shared.emit, Shared.record, hR.calls]
  case neg =>
  -- the entry fits: the shared branch defers the frees to `BatchFree`
  simp only [if_neg hcap, hR.threadBound, Bool.false_eq_true, if_false, Option.bind_eq_some, Option.some.injEq]
    at hq
  obtain ⟨⟨b', root', toBeFreed⟩, hpurge, rfl⟩ := hq
  exact hR.retain hw ht hallowed (by simp only [Shared.step, Shared.quarantine, if_neg hgo, if_neg hrej, if_neg hcap])
    hr hpurge rand

/-- **A `Purge` call** is thread `t`'s one step, `PurgeInternal(0)` under the lock. -/
theorem purge (hR : Refines s w) (hw : w.Inv) {w' : World} (hp : w.purge 0 = some w') :
    ∃ s', s.step (.purge t) = some s' ∧ Refines s' w' ∧ s'.threads.length = s.threads.length := by
  simp only [World.purge, World.purgeInternal, hR.getElem?_branches, Option.bind_eq_bind, Option.some_bind] at hp
  cases hr : s.branch.root with
  | none => simp [hr] at hp
  | some r =>
  simp only [hr, Option.some_bind, Option.bind_eq_some, Option.pure_def, Option.some.injEq] at hp
  obtain ⟨⟨b', root', freed⟩, hpurge, rfl⟩ := hp
  obtain ⟨hbound, hroot⟩ := Branch.purgeInternal_settings hpurge
  obtain ⟨rest, hsplit, -⟩ := Branch.purgeInternal_split hpurge
  obtain ⟨rfl, hpurgeS⟩ := Branch.purgeInternal_root hpurge s.root
  refine ⟨{ s.emit t (World.frees freed) with
    branch := b', root := s.root.subFreedT freed
    removed := s.removed ++ freed.map (t, ·.slotStart)
    evicted := s.evicted ++ freed.map (t, ·.slotStart) }, ?_, ⟨?_, hbound.trans hR.threadBound, fun r' hr' => ?_,
    hR.brpEnabled, ?_, hR.calls, hR.idle⟩, rfl⟩
  · simp only [Shared.step, Shared.purge, hR.pc_idle t, ne_eq, not_true_eq_false, if_false, hpurgeS,
      Option.map_some']
  · simp [hR.branches]
  · obtain rfl : r' = r := Option.some.inj ((hroot.symm.trans hr').symm.trans hr)
    simp [hw.wrap_subFreed hR.getElem?_branches hr hsplit, ← hR.roots _ hr]
  · simp [Shared.emit, hR.effects]

/-- **A `SetCapacityInBytes` call** is thread `t`'s one step. -/
theorem setCapacityInBytes (hR : Refines s w) {c : Nat} {w' : World} (hc : w.setCapacityInBytes 0 c = some w') :
    ∃ s', s.step (.setCapacityInBytes t c) = some s' ∧ Refines s' w' ∧ s'.threads.length = s.threads.length := by
  simp only [World.setCapacityInBytes, hR.getElem?_branches, Option.bind_eq_bind, Option.some_bind,
    Option.pure_def, Option.some.injEq] at hc
  subst hc
  refine ⟨{ s with branch := { s.branch with branchCapacityInBytes := c } }, ?_,
    ⟨by simp [hR.branches], hR.threadBound, hR.roots, hR.brpEnabled, hR.effects, hR.calls, hR.idle⟩, rfl⟩
  simp [Shared.step, Shared.setCapacityInBytes, hR.pc_idle t]

theorem eq_zero_of_live (hR : Refines s w) {i : Nat} (h : w.Live i) : i = 0 := by
  have := h.1
  rw [hR.branches] at this
  exact Nat.lt_one_iff.1 this

/-- **One call.** Every allowed sequential call that the threads make is matched by thread `t`'s steps, made while
the other threads are idle; the states after them are related again. -/
theorem step (hR : Refines s w) (hw : w.Inv) (ht : t < s.threads.length) {o : Op} (ho : w.Allowed o)
    (hcall : o.threadCall = true) {w' : World} (hstep : w.step o = some w') :
    ∃ acts s', (∀ a ∈ acts, a.thread = t) ∧ Reachable s acts s' ∧ Refines s' w' ∧
      s'.threads.length = s.threads.length := by
  cases o with
  | quarantine i slot directMapped rand =>
    obtain ⟨hlive, -, hfresh⟩ := ho
    obtain rfl := hR.eq_zero_of_live hlive
    exact hR.quarantine hw ht (hfresh s.branch (Option.mem_def.2 hR.getElem?_branches)) hstep
  | purge i =>
    obtain rfl := hR.eq_zero_of_live ho
    obtain ⟨s', h, hR', hlen⟩ := hR.purge (t := t) hw hstep
    exact ⟨[.purge t], s', by simp [Action.thread], (Reachable.nil : Reachable s [] s).snoc trivial h, hR', hlen⟩
  | setCapacityInBytes i c =>
    obtain rfl := hR.eq_zero_of_live ho
    obtain ⟨s', h, hR', hlen⟩ := hR.setCapacityInBytes (t := t) hstep
    exact ⟨[.setCapacityInBytes t c], s', by simp [Action.thread], (Reachable.nil : Reachable s [] s).snoc trivial h,
      hR', hlen⟩
  | configure | destroy | pause | resume => simp [Op.threadCall] at hcall

/-- **Runs.** A sequential run of the calls the threads make is matched by thread `t`'s steps, call after call. -/
theorem run (hR : Refines s w) (hw : w.Inv) (ht : t < s.threads.length) {ops : List Op} {w' : World}
    (hrun : SchedulerLoopQuarantine.Reachable w ops w') (hops : ∀ o ∈ ops, o.threadCall = true) :
    ∃ acts s', (∀ a ∈ acts, a.thread = t) ∧ Reachable s acts s' ∧ Refines s' w' ∧
      s'.threads.length = s.threads.length := by
  induction hrun with
  | nil => exact ⟨[], s, (fun _ h => nomatch h), .nil, hR, rfl⟩
  | snoc hrun ho hstep ih =>
    obtain ⟨acts, s₁, hacts, hreach, hR₁, hlen⟩ := ih fun o h => hops o (List.mem_append_left _ h)
    obtain ⟨acts', s', hacts', hreach', hR', hlen'⟩ :=
      hR₁.step (World.reachable_inv hw hrun) (hlen ▸ ht) ho (hops _ (List.mem_append_right _ (List.mem_singleton_self _))) hstep
    exact ⟨acts ++ acts', s', fun a ha => (List.mem_append.1 ha).elim (hacts a) (hacts' a), hreach.append hreach',
      hR', hlen'.trans hlen⟩

/-- the shared state that `Configure` sets up, with `threads` idle threads, matches the world after the same
`Configure` of a fresh shared branch -/
theorem initial {allocatorRootOf : Nat → Nat} {config : SchedulerLoopQuarantineConfig} {brpEnabled : Bool}
    (threads : Nat) {w₁ : World}
    (hconf : (World.initial allocatorRootOf [(false, allocatorRootOf 0)] brpEnabled).configure 0 0 config = some w₁) :
    Refines (Shared.initial ⟨allocatorRootOf 0, 0, 0, 0, 0, 0⟩ config brpEnabled threads) w₁ := by
  simp [World.configure, World.initial, Branch.new] at hconf
  subst hconf
  refine ⟨rfl, rfl, fun r hr => ?_, rfl, rfl, rfl, fun pc hpc => List.eq_of_mem_replicate hpc⟩
  obtain rfl : r = 0 := (Option.some.inj hr).symm
  rfl

end Refines

/-- **Calls that do not overlap compute the sequential model.** For every sequential run of `Quarantine`, `Purge`
and `SetCapacityInBytes` calls on a shared branch after its `Configure`, and every thread `t` of the shared state
that the same `Configure` sets up: thread `t` can make the calls, one after the other, each step enabled, and the
allocator root is then handed the same frees, zaps and `PreReleaseFromAllocator`s, in the same order, with the
same branch, root statistics (modulo `2 ^ 64`) and calls. -/
theorem serial_shared_branch_refines {allocatorRootOf : Nat → Nat} {config : SchedulerLoopQuarantineConfig}
    {brpEnabled : Bool} {n t : Nat} (ht : t < n) {w₁ w : World} {ops : List Op}
    (hconf : (World.initial allocatorRootOf [(false, allocatorRootOf 0)] brpEnabled).configure 0 0 config = some w₁)
    (hrun : SchedulerLoopQuarantine.Reachable w₁ ops w) (hops : ∀ o ∈ ops, o.threadCall = true) :
    ∃ acts s, (∀ a ∈ acts, a.thread = t) ∧
      Reachable (Shared.initial ⟨allocatorRootOf 0, 0, 0, 0, 0, 0⟩ config brpEnabled n) acts s ∧
      s.effects.map Prod.snd = w.effects.map Prod.snd ∧ Refines s w := by
  obtain ⟨acts, s, hacts, hreach, hR, -⟩ :=
    (Refines.initial n hconf).run (World.step_inv (World.Inv.initial _ _ _) (o := .configure 0 0 config)
      ⟨by simp [World.initial], by simp [World.initial]⟩ hconf) (by simpa [Shared.initial] using ht) hrun hops
  exact ⟨acts, s, hacts, hreach, hR.effects, hR⟩

/-- a shared branch of 8 bytes with zapping on -/
def serialConfig : SchedulerLoopQuarantineConfig := ⟨8, false, true, true⟩

/-- quarantine 8 bytes at 16, then 8 bytes at 32 (which evicts the first), raise the capacity to 16, quarantine 8
bytes at 48, and purge -/
def serialOps : List Op :=
  [.quarantine 0 ⟨16, 8⟩ false 0, .quarantine 0 ⟨32, 8⟩ false 0, .setCapacityInBytes 0 16,
    .quarantine 0 ⟨48, 8⟩ false 1, .purge 0]

theorem serial_shared_branch_refines_serialOps :
    ∃ w₁ w, (World.initial (fun _ => 0) [(false, 0)] true).configure 0 0 serialConfig = some w₁ ∧
      SchedulerLoopQuarantine.Reachable w₁ serialOps w ∧ (∀ o ∈ serialOps, o.threadCall = true) ∧ 1 < 2 ∧
      ∃ acts s, (∀ a ∈ acts, a.thread = 1) ∧ Reachable (Shared.initial ⟨0, 0, 0, 0, 0, 0⟩ serialConfig true 2) acts s ∧
        s.effects.map Prod.snd = w.effects.map Prod.snd ∧ Refines s w := by
  have hconf : (World.initial (fun _ => 0) [(false, 0)] true).configure 0 0 serialConfig =
      some ((World.initial (fun _ => 0) [(false, 0)] true).setBranch 0 ((Branch.new false 0).install 0 serialConfig)) :=
    rfl
  have h₀ : SchedulerLoopQuarantine.Reachable
      ((World.initial (fun _ => 0) [(false, 0)] true).setBranch 0 ((Branch.new false 0).install 0 serialConfig)) [] _ :=
    .nil
  have h₁ := h₀.snoc (o := .quarantine 0 ⟨16, 8⟩ false 0) ⟨⟨by decide, by decide⟩, by decide, by decide⟩ rfl
  have h₂ := h₁.snoc (o := .quarantine 0 ⟨32, 8⟩ false 0) ⟨⟨by decide, by decide⟩, by decide, by decide⟩ rfl
  have h₃ := h₂.snoc (o := .setCapacityInBytes 0 16) ⟨by decide, by decide⟩ rfl
  have h₄ := h₃.snoc (o := .quarantine 0 ⟨48, 8⟩ false 1) ⟨⟨by decide, by decide⟩, by decide, by decide⟩ rfl
  have h₅ := h₄.snoc (o := .purge 0) ⟨by decide, by decide⟩ rfl
  have hops : ∀ o ∈ serialOps, o.threadCall = true := by decide
  exact ⟨_, _, hconf, h₅, hops, by decide, serial_shared_branch_refines (by decide) hconf h₅ hops⟩

end Concurrent

end PartitionAlloc.SchedulerLoopQuarantine
