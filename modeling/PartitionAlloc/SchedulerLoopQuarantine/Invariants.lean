/-
The invariant of sequential runs of the Scheduler-Loop Quarantine, and the two results it gives.

- `World.Inv`: every branch's byte total is the bytes of its `slots_`, which are positive and held once each, and
  `slots_` is empty unless the quarantine is on; every root's `count_` and `size_in_bytes_` are the entries and bytes
  of the branches it roots (destroyed ones included: a destroyed branch holds nothing unless it leaked); and on
  each branch, the calls that quarantined a slot are the frees of it plus its presence in `slots_` (`ledger`).
- `World.drain`, `World.retain`: what a purge and the insertion of a kept entry do; `Inv.drain`, `Inv.retain` and the
  lemmas for the other calls keep the invariant, and `step_inv` assembles them for every call.

`Runs` draws the results from it: the ledger of each slot over the `Quarantine` calls of the run, and the roots'
statistics.
-/
import PartitionAlloc.SchedulerLoopQuarantine.World

namespace PartitionAlloc.SchedulerLoopQuarantine

/-- replacing one element moves a sum by the difference -/
theorem sum_set_add {l : List Nat} {i x : Nat} (h : l[i]? = some x) (a : Nat) :
    (l.set i a).sum + x = l.sum + a := by
  induction l generalizing i with
  | nil => simp at h
  | cons y l ih =>
    cases i with
    | zero =>
      rw [List.getElem?_cons_zero, Option.some.injEq] at h
      subst h
      simp only [List.set_cons_zero, List.sum_cons]
      omega
    | succ i =>
      have := ih (by rwa [List.getElem?_cons_succ] at h)
      simp only [List.set_cons_succ, List.sum_cons]
      omega

/-- the copies of slot `s` in a branch's `slots_` -/
def Branch.held (b : Branch) (s : Nat) : Nat := b.slots.countP (·.slotStart = s)

/-- what holds of every branch between calls: its byte total is the bytes of `slots_`, whose entries have positive
sizes and distinct slot starts, and which is empty unless the quarantine is on, which it is only with a root -/
structure Branch.Sound (b : Branch) : Prop where
  size_eq : b.branchSizeInBytes = sumUsable b.slots
  pos : ∀ s ∈ b.slots, 0 < s.usableSize
  nodup : (b.slots.map (·.slotStart)).Nodup
  enabled : b.slots ≠ [] → b.enableQuarantine = true
  rooted : b.enableQuarantine = true → b.root ≠ none

namespace World

/-- the `Quarantine` calls on branch `i` for slot `s` -/
def quarantined (w : World) (i s : Nat) : Nat := w.calls.countP fun c => c.branch = i ∧ c.slot.slotStart = s

/-- the frees of slot `s` on branch `i`'s account -/
def freed (w : World) (i s : Nat) : Nat := w.effects.count (i, .freeNoHooksImmediate s)

/-- `f` summed over the branches whose root is `r`, destroyed ones included -/
def tally (w : World) (r : Nat) (f : Branch → Nat) : Nat :=
  (w.branches.map fun b => if b.root = some r then f b else 0).sum

/-- the invariant of sequential runs -/
structure Inv (w : World) : Prop where
  sound : ∀ b ∈ w.branches, b.Sound
  count : ∀ r, (w.roots r).count = w.tally r fun b => b.slots.length
  sizeInBytes : ∀ r, (w.roots r).sizeInBytes = w.tally r (·.branchSizeInBytes)
  ledger : ∀ i b, w.branches[i]? = some b → ∀ s, w.quarantined i s = w.freed i s + b.held s
  drained : ∀ i b, i ∈ w.destroyed → w.branches[i]? = some b → b.leakOnDestruction = false → b.slots = []

/-! ## Bookkeeping of the setters -/

theorem tally_setBranch (w : World) {i : Nat} {b : Branch} (h : w.branches[i]? = some b) (b' : Branch) (r : Nat)
    (f : Branch → Nat) :
    (w.setBranch i b').tally r f + (if b.root = some r then f b else 0) =
      w.tally r f + (if b'.root = some r then f b' else 0) := by
  unfold tally setBranch
  rw [List.map_set]
  exact sum_set_add (by simp [h]) _

theorem freed_emit (w : World) (j : Nat) (es : List Effect) (i s : Nat) :
    (w.emit j es).freed i s = w.freed i s + if j = i then es.count (.freeNoHooksImmediate s) else 0 := by
  simp only [freed, emit, List.count_append, Nat.add_left_cancel_iff]
  induction es with
  | nil => simp
  | cons e es ih =>
    simp only [List.map_cons, List.count_cons, ih, beq_iff_eq, Prod.mk.injEq]
    split_ifs <;> simp_all

theorem count_frees (l : List QuarantineSlot) (s : Nat) :
    (frees l).count (.freeNoHooksImmediate s) = l.countP (·.slotStart = s) := by
  induction l with
  | nil => rfl
  | cons x l ih => simp [frees, List.count_cons, List.countP_cons] at ih ⊢; rw [ih]

theorem count_quarantineEpilogue (b : Branch) (brp : Bool) (slot : QuarantineSlot) (s : Nat) :
    (b.quarantineEpilogue brp slot).count (.freeNoHooksImmediate s) = 0 := by
  unfold Branch.quarantineEpilogue; split_ifs <;> simp

theorem quarantined_record (w : World) (c : Call) (i s : Nat) :
    (w.record c).quarantined i s = w.quarantined i s + if c.branch = i ∧ c.slot.slotStart = s then 1 else 0 := by
  simp only [quarantined, record, List.countP_append, List.countP_singleton, decide_eq_true_eq]

@[simp] theorem quarantined_setBranch (w : World) (j : Nat) (b : Branch) :
    (w.setBranch j b).quarantined = w.quarantined := rfl
@[simp] theorem quarantined_setRoot (w : World) (r : Nat) (root : Root) :
    (w.setRoot r root).quarantined = w.quarantined := rfl
@[simp] theorem quarantined_emit (w : World) (j : Nat) (es : List Effect) :
    (w.emit j es).quarantined = w.quarantined := rfl
@[simp] theorem freed_setBranch (w : World) (j : Nat) (b : Branch) : (w.setBranch j b).freed = w.freed := rfl
@[simp] theorem freed_setRoot (w : World) (r : Nat) (root : Root) : (w.setRoot r root).freed = w.freed := rfl
@[simp] theorem freed_record (w : World) (c : Call) : (w.record c).freed = w.freed := rfl

@[simp] theorem tally_setRoot (w : World) (r : Nat) (root : Root) : (w.setRoot r root).tally = w.tally := rfl
@[simp] theorem tally_emit (w : World) (i : Nat) (es : List Effect) : (w.emit i es).tally = w.tally := rfl
@[simp] theorem tally_record (w : World) (c : Call) : (w.record c).tally = w.tally := rfl

theorem sound_setBranch {w : World} (h : ∀ b ∈ w.branches, b.Sound) {b' : Branch} (h' : b'.Sound) (i : Nat) :
    ∀ b ∈ (w.setBranch i b').branches, b.Sound := fun _ hb =>
  (List.mem_or_eq_of_mem_set hb).elim (h _) fun e => e ▸ h'

/-- a branch can hold no more than its root's tally -/
theorem le_tally (w : World) {i : Nat} {b : Branch} (h : w.branches[i]? = some b) {r : Nat} (hr : b.root = some r)
    (f : Branch → Nat) : f b ≤ w.tally r f := by
  have := w.tally_setBranch h { b with root := none } r f
  simp [hr] at this
  omega

end World

/-! ## Purges -/

/-- the branch a purge leaves when it took `freed` off the back of `slots_`, leaving `rest` reversed -/
def Branch.keep (b : Branch) (rest : List QuarantineSlot) : Branch :=
  { b with slots := rest.reverse, branchSizeInBytes := sumUsable rest }

@[simp] theorem Branch.keep_root (b : Branch) (rest : List QuarantineSlot) : (b.keep rest).root = b.root := rfl
@[simp] theorem Branch.keep_slots (b : Branch) (rest : List QuarantineSlot) : (b.keep rest).slots = rest.reverse := rfl
@[simp] theorem Branch.keep_branchSizeInBytes (b : Branch) (rest : List QuarantineSlot) :
    (b.keep rest).branchSizeInBytes = sumUsable rest := rfl
@[simp] theorem Branch.keep_enableQuarantine (b : Branch) (rest : List QuarantineSlot) :
    (b.keep rest).enableQuarantine = b.enableQuarantine := rfl
@[simp] theorem Branch.keep_leakOnDestruction (b : Branch) (rest : List QuarantineSlot) :
    (b.keep rest).leakOnDestruction = b.leakOnDestruction := rfl

theorem Branch.Sound.keep {b : Branch} (h : b.Sound) {freed rest : List QuarantineSlot}
    (hsplit : b.slots.reverse = freed ++ rest) : (b.keep rest).Sound := by
  have hslots : b.slots = rest.reverse ++ freed.reverse := by
    rw [← List.reverse_reverse b.slots, hsplit, List.reverse_append]
  refine ⟨by simp [Branch.keep], fun s hs => h.pos s (hslots ▸ List.mem_append_left _ hs), ?_,
    fun hne => h.enabled (by rw [hslots]; simp_all [Branch.keep]), h.rooted⟩
  have := h.nodup
  rw [hslots, List.map_append] at this
  exact this.sublist (List.sublist_append_left _ _)

namespace World

/-- branch `i` (`b`, rooted at `r`) after a purge took `freed` off the back of its `slots_`, leaving `rest`
reversed, and freed them -/
def drain (w : World) (i r : Nat) (b : Branch) (freed rest : List QuarantineSlot) : World :=
  ((w.setBranch i (b.keep rest)).setRoot r ((w.roots r).subFreed freed)).emit i (frees freed)

section Drain

variable (w : World) (i r : Nat) (b : Branch) (freed rest : List QuarantineSlot)

@[simp] theorem drain_roots :
    (w.drain i r b freed rest).roots = Function.update w.roots r ((w.roots r).subFreed freed) := rfl
@[simp] theorem drain_branches : (w.drain i r b freed rest).branches = w.branches.set i (b.keep rest) := rfl
@[simp] theorem drain_calls : (w.drain i r b freed rest).calls = w.calls := rfl
@[simp] theorem drain_destroyed : (w.drain i r b freed rest).destroyed = w.destroyed := rfl
@[simp] theorem drain_brpEnabled : (w.drain i r b freed rest).brpEnabled = w.brpEnabled := rfl
theorem drain_tally : (w.drain i r b freed rest).tally = (w.setBranch i (b.keep rest)).tally := rfl

end Drain

/-- the counters of root `r'` after branch `i` (`b`, rooted at `r`) is replaced by `b'` with the same root, and
`r`'s counter `g` is replaced: they match the new tally when `g` moved by the branch's change -/
theorem tally_update {w : World} {i r : Nat} {b : Branch} (hb : w.branches[i]? = some b) (hr : b.root = some r)
    (b' : Branch) (hr' : b'.root = b.root) (f : Branch → Nat) (g : Root → Nat) (root' : Root)
    (hg : ∀ r'', g (w.roots r'') = w.tally r'' f) (hroot : g root' + f b = g (w.roots r) + f b') (r' : Nat) :
    g (Function.update w.roots r root' r') = (w.setBranch i b').tally r' f := by
  have hT := w.tally_setBranch hb b' r' f
  rw [hr', hr] at hT
  by_cases h : r = r'
  · subst h
    have := w.le_tally hb hr f
    simp only [Function.update_same, if_true] at hT ⊢
    rw [hg] at hroot
    omega
  · simp only [Function.update_noteq (Ne.symm h), Option.some.injEq, h, if_false, Nat.add_zero, hg] at hT ⊢
    exact hT.symm

/-- a counter that a root update leaves alone -/
theorem update_root_eq {α : Type} (roots : Nat → Root) {r : Nat} {root' : Root} (g : Root → α)
    (hg : g root' = g (roots r)) (r' : Nat) : g (Function.update roots r root' r') = g (roots r') := by
  by_cases h : r' = r
  · subst h; simpa using hg
  · rw [Function.update_noteq h]

/-- the branch at `j` after branch `i` is replaced by `b'` -/
theorem getElem?_set_branch {l : List Branch} {i j : Nat} {b' b'' : Branch} (h : (l.set i b')[j]? = some b'') :
    (i = j ∧ b'' = b') ∨ (i ≠ j ∧ l[j]? = some b'') := by
  rw [List.getElem?_set] at h
  split_ifs at h with hij
  · exact .inl ⟨hij, (Option.some.inj h).symm⟩
  · exact .inr ⟨hij, h⟩

theorem Inv.drain {w : World} (hw : w.Inv) {i r : Nat} {b : Branch} (hb : w.branches[i]? = some b)
    (hr : b.root = some r) {freed rest : List QuarantineSlot} (hsplit : b.slots.reverse = freed ++ rest) :
    (w.drain i r b freed rest).Inv := by
  have hsb := hw.sound b (List.getElem?_mem hb)
  have hlen : b.slots.length = freed.length + rest.length := by
    rw [← List.length_reverse, hsplit, List.length_append]
  have hsum : sumUsable b.slots = sumUsable freed + sumUsable rest := by
    rw [← sumUsable_reverse, hsplit, sumUsable_append]
  have hcount := w.le_tally hb hr fun b => b.slots.length
  have hbytes := w.le_tally hb hr (·.branchSizeInBytes)
  rw [← hw.count] at hcount
  rw [← hw.sizeInBytes, hsb.size_eq] at hbytes
  constructor
  · exact sound_setBranch hw.sound (hsb.keep hsplit) i
  · intro r'
    rw [drain_tally, drain_roots]
    refine tally_update hb hr (b.keep rest) rfl _ Root.count _ hw.count ?_ r'
    simp [Root.subFreed]; omega
  · intro r'
    rw [drain_tally, drain_roots]
    refine tally_update hb hr (b.keep rest) rfl _ Root.sizeInBytes _ hw.sizeInBytes ?_ r'
    simp [Root.subFreed, hsb.size_eq]; omega
  · intro j b' hj s
    have hfr : (w.drain i r b freed rest).freed j s =
        w.freed j s + if i = j then freed.countP (·.slotStart = s) else 0 := by
      rw [World.drain, freed_emit, count_frees]; rfl
    rw [hfr]
    rcases getElem?_set_branch hj with ⟨rfl, rfl⟩ | ⟨hij, hj⟩
    · have := hw.ledger _ _ hb s
      simp only [Branch.held] at this ⊢
      rw [← List.countP_reverse, hsplit, List.countP_append] at this
      simp only [Branch.keep_slots, List.countP_reverse, if_true]
      exact this.trans (by omega)
    · rw [if_neg hij]; exact hw.ledger j b' hj s
  · intro j b' hj hb' hleak
    rcases getElem?_set_branch hb' with ⟨rfl, rfl⟩ | ⟨hij, hb'⟩
    · have := hw.drained _ _ hj hb hleak
      rw [this, List.reverse_nil] at hsplit
      simp [List.append_eq_nil.1 hsplit.symm]
    · exact hw.drained j b' hj hb' hleak


end World

/-! ## Retaining an entry -/

theorem sumUsable_perm {l l' : List QuarantineSlot} (h : l.Perm l') : sumUsable l = sumUsable l' :=
  (h.map _).sum_eq

theorem Branch.Sound.pushSlot {b : Branch} (h : b.Sound) (hen : b.enableQuarantine = true) {slot : QuarantineSlot}
    (hpos : 0 < slot.usableSize) (hfresh : ∀ s ∈ b.slots, s.slotStart ≠ slot.slotStart) (rand : Nat) :
    (b.pushSlot slot rand).Sound := by
  have hp := pushSlot_perm b slot rand
  refine ⟨?_, fun s hs => ?_, ?_, fun _ => hen, h.rooted⟩
  · rw [sumUsable_perm hp, sumUsable_append, ← h.size_eq]; simp [Branch.pushSlot, sumUsable]
  · rcases List.mem_append.1 (hp.subset hs) with hs | hs
    · exact h.pos s hs
    · rw [List.mem_singleton.1 hs]; exact hpos
  · rw [(hp.map _).nodup_iff, List.map_append, List.nodup_append]
    refine ⟨h.nodup, List.nodup_singleton _, ?_⟩
    simp only [List.map_cons, List.map_nil, List.disjoint_singleton, List.mem_map, not_exists, not_and]
    exact hfresh

namespace World

/-- branch `i` (`b`, rooted at `r`) after a kept entry was pushed onto `slots_` and counted by the root, and
`QuarantineEpilogue` ran -/
def retain (w : World) (i r : Nat) (b : Branch) (slot : QuarantineSlot) (rand : Nat) : World :=
  (((w.setBranch i (b.pushSlot slot rand)).setRoot r ((w.roots r).addQuarantined slot.usableSize)).emit i
    ((b.pushSlot slot rand).quarantineEpilogue w.brpEnabled slot)).record ⟨i, slot⟩

section Retain

variable (w : World) (i r : Nat) (b : Branch) (slot : QuarantineSlot) (rand : Nat)

@[simp] theorem retain_roots :
    (w.retain i r b slot rand).roots = Function.update w.roots r ((w.roots r).addQuarantined slot.usableSize) := rfl
@[simp] theorem retain_branches : (w.retain i r b slot rand).branches = w.branches.set i (b.pushSlot slot rand) := rfl
@[simp] theorem retain_calls : (w.retain i r b slot rand).calls = w.calls ++ [⟨i, slot⟩] := rfl
@[simp] theorem retain_destroyed : (w.retain i r b slot rand).destroyed = w.destroyed := rfl
@[simp] theorem retain_brpEnabled : (w.retain i r b slot rand).brpEnabled = w.brpEnabled := rfl
theorem retain_tally : (w.retain i r b slot rand).tally = (w.setBranch i (b.pushSlot slot rand)).tally := rfl

theorem retain_freed (j s : Nat) : (w.retain i r b slot rand).freed j s = w.freed j s := by
  rw [retain, freed, record_effects, ← freed, freed_emit, count_quarantineEpilogue]; simp [freed]

end Retain

theorem Inv.retain {w : World} (hw : w.Inv) {i r : Nat} {b : Branch} (hb : w.branches[i]? = some b)
    (hr : b.root = some r) (hen : b.enableQuarantine = true) (hlive : i ∉ w.destroyed) {slot : QuarantineSlot}
    (hpos : 0 < slot.usableSize) (hfresh : ∀ s ∈ b.slots, s.slotStart ≠ slot.slotStart) (rand : Nat) :
    (w.retain i r b slot rand).Inv := by
  have hsb := hw.sound b (List.getElem?_mem hb)
  have hp := pushSlot_perm b slot rand
  have hsound := hsb.pushSlot hen hpos hfresh rand
  constructor
  · exact sound_setBranch hw.sound hsound i
  · intro r'
    rw [retain_tally, retain_roots]
    refine tally_update hb hr (b.pushSlot slot rand) rfl _ Root.count _ hw.count ?_ r'
    simp [Root.addQuarantined, hp.length_eq]; omega
  · intro r'
    rw [retain_tally, retain_roots]
    refine tally_update hb hr (b.pushSlot slot rand) rfl _ Root.sizeInBytes _ hw.sizeInBytes ?_ r'
    simp [Root.addQuarantined, Branch.pushSlot]; omega
  · intro j b' hj s
    rw [retain_freed]
    have hq : (w.retain i r b slot rand).quarantined j s =
        w.quarantined j s + if i = j ∧ slot.slotStart = s then 1 else 0 := by
      rw [World.retain, quarantined_record]; rfl
    rw [hq]
    rcases getElem?_set_branch hj with ⟨rfl, rfl⟩ | ⟨hij, hj⟩
    · have := hw.ledger _ _ hb s
      simp only [Branch.held] at this ⊢
      rw [hp.countP_eq, List.countP_append, this]
      simp [List.countP_singleton, Nat.add_assoc]
    · simp only [hij, false_and, if_false, Nat.add_zero]; exact hw.ledger j b' hj s
  · intro j b' hj hb' hleak
    rcases getElem?_set_branch hb' with ⟨rfl, rfl⟩ | ⟨_, hb'⟩
    · exact absurd hj hlive
    · exact hw.drained j b' hj hb' hleak

end World

/-! ## Branch facts for the calls -/

theorem Branch.Sound.install {b : Branch} (h : b.Sound) (hnil : b.slots = []) (r : Nat)
    (config : SchedulerLoopQuarantineConfig) : (b.install r config).Sound :=
  ⟨h.size_eq, h.pos, h.nodup, fun hne => absurd hnil hne, fun _ => Option.some_ne_none r⟩

theorem eq_nil_of_sumUsable_le_zero {l : List QuarantineSlot} (hpos : ∀ s ∈ l, 0 < s.usableSize)
    (h : sumUsable l ≤ 0) : l = [] := by
  cases l with
  | nil => rfl
  | cons s l => have := hpos s (List.mem_cons_self _ _); simp at h; omega

theorem Branch.purgeInternal_eq {b : Branch} (h : b.Sound) (root : Root) (target : Nat) :
    ∃ freed rest, b.slots.reverse = freed ++ rest ∧ sumUsable rest ≤ target ∧
      b.purgeInternal root target = some (b.keep rest, root.subFreed freed, freed) := by
  obtain ⟨freed, rest, hloop, hsplit, hle⟩ :=
    purgeInternalLoop_spec target b.slots.reverse b.branchSizeInBytes (by rw [sumUsable_reverse]; exact h.size_eq)
  exact ⟨freed, rest, hsplit, hle, by simp [Branch.purgeInternal, hloop, Branch.keep]⟩

theorem Branch.purgeInternalWithDefferedFree_eq {b : Branch} (h : b.Sound) (root : Root) (target : Nat) :
    ∃ freed rest, b.slots.reverse = freed ++ rest ∧ freed.length ≤ kMaxFreeTimesPerPurge ∧
      (sumUsable rest ≤ target ∨ freed.length = kMaxFreeTimesPerPurge) ∧
      b.purgeInternalWithDefferedFree root target =
        some (b.keep rest, root.subFreed freed, freed.map (·.slotStart)) := by
  obtain ⟨freed, rest, hloop, hsplit, hlen, hle⟩ := purgeInternalWithDefferedFreeLoop_spec target b.slots.reverse
    b.branchSizeInBytes 0 (by rw [sumUsable_reverse]; exact h.size_eq) (by decide)
  rw [Nat.zero_add] at hlen hle
  exact ⟨freed, rest, hsplit, hlen, hle, by simp [Branch.purgeInternalWithDefferedFree, hloop, Branch.keep]⟩

namespace World

/-! ## Frees at once, settings and destruction -/

theorem Inv.bypass {w : World} (hw : w.Inv) (i : Nat) (slot : QuarantineSlot) :
    ((w.emit i [.freeNoHooksImmediate slot.slotStart]).record ⟨i, slot⟩).Inv := by
  refine ⟨hw.sound, hw.count, hw.sizeInBytes, fun j b hb s => ?_, hw.drained⟩
  rw [quarantined_record, quarantined_emit, freed_record, freed_emit, hw.ledger j b hb]
  by_cases h : i = j <;> simp [h, List.count_singleton, Nat.add_right_comm]

theorem Inv.miss {w : World} (hw : w.Inv) (i r : Nat) (slot : QuarantineSlot) :
    (((w.emit i [.freeNoHooksImmediate slot.slotStart]).setRoot r (w.roots r).addMiss).record ⟨i, slot⟩).Inv := by
  refine ⟨hw.sound, fun r' => ?_, fun r' => ?_, fun j b hb s => ?_, hw.drained⟩
  · rw [record_roots, setRoot_roots, update_root_eq _ Root.count (by rfl)]; exact hw.count r'
  · rw [record_roots, setRoot_roots, update_root_eq _ Root.sizeInBytes (by rfl)]; exact hw.sizeInBytes r'
  · rw [quarantined_record, quarantined_setRoot, quarantined_emit, freed_record, freed_setRoot, freed_emit,
      hw.ledger j b hb]
    by_cases h : i = j <;> simp [h, List.count_singleton, Nat.add_right_comm]

/-- replacing branch `i` by one that holds the same slots and bytes for the same root, or by one that holds nothing
in place of one that held nothing, keeps the invariant -/
theorem Inv.setBranch {w : World} (hw : w.Inv) {i : Nat} {b : Branch} (hb : w.branches[i]? = some b) {b' : Branch}
    (hsound : b'.Sound) (hslots : b'.slots = b.slots) (hsize : b'.branchSizeInBytes = b.branchSizeInBytes)
    (hsame : b'.root = b.root ∧ b'.leakOnDestruction = b.leakOnDestruction ∨ b.slots = []) :
    (w.setBranch i b').Inv := by
  have hsb := hw.sound b (List.getElem?_mem hb)
  have hcontrib (f : Branch → Nat) (hf : f b' = f b) (h0 : b.slots = [] → f b = 0) (r : Nat) :
      (w.setBranch i b').tally r f = w.tally r f := by
    have := w.tally_setBranch hb b' r f
    rcases hsame with ⟨hr, -⟩ | hnil
    · rw [hr, hf] at this; omega
    · rw [hf, h0 hnil] at this; simpa using this
  refine ⟨sound_setBranch hw.sound hsound i, fun r => ?_, fun r => ?_, fun j b'' hj s => ?_,
    fun j b'' hj hj' hleak => ?_⟩
  · rw [hcontrib _ (by rw [hslots]) (fun h => by simp [h])]; exact hw.count r
  · rw [hcontrib _ hsize (fun h => by rw [hsb.size_eq, h]; rfl)]; exact hw.sizeInBytes r
  · rcases getElem?_set_branch hj with ⟨rfl, rfl⟩ | ⟨_, hj⟩
    · rw [quarantined_setBranch, freed_setBranch, hw.ledger _ _ hb s]; simp only [Branch.held, hslots]
    · exact hw.ledger j b'' hj s
  · rcases getElem?_set_branch hj' with ⟨rfl, rfl⟩ | ⟨_, hj'⟩
    · rw [hslots]
      rcases hsame with ⟨-, hl⟩ | hnil
      · exact hw.drained _ _ hj hb (hl ▸ hleak)
      · exact hnil
    · exact hw.drained j b'' hj hj' hleak

/-- a call that changes only a branch's settings, leaving its slots, size, switch, root and destruction mode, keeps
the invariant -/
theorem Inv.setBranch_settings {w : World} (hw : w.Inv) {i : Nat} {b b' : Branch} (hb : w.branches[i]? = some b)
    (hslots : b'.slots = b.slots) (hsize : b'.branchSizeInBytes = b.branchSizeInBytes)
    (henable : b'.enableQuarantine = b.enableQuarantine) (hroot : b'.root = b.root)
    (hleak : b'.leakOnDestruction = b.leakOnDestruction) : (w.setBranch i b').Inv := by
  have hsb := hw.sound b (List.getElem?_mem hb)
  refine hw.setBranch hb ⟨?_, ?_, ?_, ?_, ?_⟩ hslots hsize (.inl ⟨hroot, hleak⟩)
  · rw [hsize, hslots]; exact hsb.size_eq
  · rw [hslots]; exact hsb.pos
  · rw [hslots]; exact hsb.nodup
  · rw [hslots, henable]; exact hsb.enabled
  · rw [henable, hroot]; exact hsb.rooted

/-- the destructor's bookkeeping: it marks branch `i` destroyed, which it may when the branch leaks or holds
nothing -/
theorem Inv.destroyed {w : World} (hw : w.Inv) {i : Nat} {b : Branch} (hb : w.branches[i]? = some b)
    (hdrained : b.leakOnDestruction = false → b.slots = []) : { w with destroyed := w.destroyed ++ [i] }.Inv := by
  refine ⟨hw.sound, hw.count, hw.sizeInBytes, hw.ledger, fun j b' hj hb' => ?_⟩
  rcases List.mem_append.1 hj with hj | hj
  · exact hw.drained j b' hj hb'
  · rw [List.mem_singleton.1 hj, hb] at hb'
    exact Option.some.inj hb' ▸ hdrained

/-! ## The calls as purges and retentions -/

theorem purgeInternal_eq {w : World} (hw : w.Inv) {i r : Nat} {b : Branch} (hb : w.branches[i]? = some b)
    (hr : b.root = some r) (target : Nat) :
    ∃ freed rest, b.slots.reverse = freed ++ rest ∧ sumUsable rest ≤ target ∧
      w.purgeInternal i target = some (w.drain i r b freed rest) := by
  obtain ⟨freed, rest, hsplit, hle, heq⟩ := Branch.purgeInternal_eq (hw.sound b (List.getElem?_mem hb)) (w.roots r) target
  exact ⟨freed, rest, hsplit, hle, by simp [World.purgeInternal, hb, hr, heq, World.drain]⟩

/-- a purge to 0 frees every slot, since their sizes are positive -/
theorem purgeInternal_zero {w : World} (hw : w.Inv) {i r : Nat} {b : Branch} (hb : w.branches[i]? = some b)
    (hr : b.root = some r) : w.purgeInternal i 0 = some (w.drain i r b b.slots.reverse []) := by
  obtain ⟨freed, rest, hsplit, hle, heq⟩ := purgeInternal_eq hw hb hr 0
  obtain rfl : rest = [] := eq_nil_of_sumUsable_le_zero (fun s hs => (hw.sound b (List.getElem?_mem hb)).pos s
    (by rw [← List.mem_reverse, hsplit]; exact List.mem_append_right _ hs)) hle
  rw [heq, hsplit, List.append_nil]

theorem drain_retain (w : World) (i r : Nat) (b : Branch) (freed rest : List QuarantineSlot) (slot : QuarantineSlot)
    (rand : Nat) (es : List Effect) (hes : es = frees freed) :
    (w.drain i r b freed rest).retain i r (b.keep rest) slot rand =
      ((((w.setBranch i ((b.keep rest).pushSlot slot rand)).setRoot r
        (((w.roots r).subFreed freed).addQuarantined slot.usableSize)).emit i
        (es ++ ((b.keep rest).pushSlot slot rand).quarantineEpilogue w.brpEnabled slot)).record ⟨i, slot⟩) := by
  subst hes
  simp only [World.retain, World.drain, setBranch, setRoot, emit, record, List.set_set, Function.update_idem,
    Function.update_same, List.map_append, List.append_assoc]

/-- `Quarantine` when it keeps its entry: the purge of the branch (`PurgeInternal` on the thread-bound branch,
`PurgeInternalWithDefferedFree` then `BatchFree` on the shared one), then the retention -/
theorem quarantine_retained {w : World} (hw : w.Inv) {i r : Nat} {b : Branch} (hb : w.branches[i]? = some b)
    (hr : b.root = some r) {slot : QuarantineSlot} {directMapped : Bool} (hrej : b.rejects directMapped = false)
    (hcap : slot.usableSize ≤ b.branchCapacityInBytes) (rand : Nat) :
    ∃ freed rest, b.slots.reverse = freed ++ rest ∧
      (b.threadBound = true →
        b.purgeInternal (w.roots r) (b.branchCapacityInBytes - slot.usableSize) =
          some (b.keep rest, (w.roots r).subFreed freed, freed) ∧
        sumUsable rest ≤ b.branchCapacityInBytes - slot.usableSize) ∧
      (b.threadBound = false →
        b.purgeInternalWithDefferedFree (w.roots r) (b.branchCapacityInBytes - slot.usableSize) =
          some (b.keep rest, (w.roots r).subFreed freed, freed.map (·.slotStart)) ∧
        freed.length ≤ kMaxFreeTimesPerPurge ∧
        (sumUsable rest ≤ b.branchCapacityInBytes - slot.usableSize ∨ freed.length = kMaxFreeTimesPerPurge)) ∧
      w.quarantine i slot directMapped rand = some ((w.drain i r b freed rest).retain i r (b.keep rest) slot rand) := by
  have hsb := hw.sound b (List.getElem?_mem hb)
  have hcap' : ¬ b.branchCapacityInBytes < slot.usableSize := Nat.not_lt.2 hcap
  cases ht : b.threadBound
  · obtain ⟨freed, rest, hsplit, hlen, hle, heq⟩ :=
      Branch.purgeInternalWithDefferedFree_eq hsb (w.roots r) (b.branchCapacityInBytes - slot.usableSize)
    refine ⟨freed, rest, hsplit, nofun, fun _ => ⟨heq, hlen, hle⟩, ?_⟩
    rw [drain_retain _ _ _ _ _ _ _ _ ((freed.map (·.slotStart)).map .freeNoHooksImmediate) (by simp [frees])]
    simp [World.quarantine, hb, hrej, hr, hcap', ht, heq]
  · obtain ⟨freed, rest, hsplit, hle, heq⟩ :=
      Branch.purgeInternal_eq hsb (w.roots r) (b.branchCapacityInBytes - slot.usableSize)
    refine ⟨freed, rest, hsplit, fun _ => ⟨heq, hle⟩, nofun, ?_⟩
    rw [drain_retain _ _ _ _ _ _ _ _ (frees freed) rfl]
    simp [World.quarantine, hb, hrej, hr, hcap', ht, heq]

theorem Live.getElem? {w : World} {i : Nat} (h : w.Live i) : ∃ b, w.branches[i]? = some b :=
  ⟨_, List.getElem?_eq_getElem h.1⟩

/-- `Configure` drains the branch (a purge to 0 when the quarantine was on; nothing is held when it was off) and
installs the settings on the empty branch -/
theorem configure_drains {w w' : World} (hw : w.Inv) {i : Nat} {b : Branch} (hb : w.branches[i]? = some b)
    {r : Nat} {config : SchedulerLoopQuarantineConfig} (h : w.configure i r config = some w') :
    ∃ (w₁ : World) (b₁ : Branch), w₁.Inv ∧ w₁.branches[i]? = some b₁ ∧ b₁.Sound ∧ b₁.slots = [] ∧
      w₁.calls = w.calls ∧ w' = w₁.setBranch i (b₁.install r config) := by
  have hsb := hw.sound b (List.getElem?_mem hb)
  have hi : i < w.branches.length := (List.getElem?_eq_some_iff.1 hb).1
  unfold World.configure at h
  simp only [hb, Option.bind_eq_bind, Option.some_bind] at h
  have hchk : ¬(b.pauseQuarantine ≠ 0 ∨ b.allocatorRoot ≠ (w.roots r).allocatorRoot) := fun hc => by
    rw [if_pos hc] at h; cases h
  rw [if_neg hchk] at h
  by_cases hen : b.enableQuarantine = true
  · rw [if_pos hen] at h
    obtain ⟨r₀, hr₀⟩ := Option.ne_none_iff_exists'.1 (hsb.rooted hen)
    have hsplit := (List.append_nil b.slots.reverse).symm
    have hb₁ : (w.drain i r₀ b b.slots.reverse []).branches[i]? = some (b.keep []) := by
      simp [List.getElem?_set_self hi]
    refine ⟨_, _, hw.drain hb hr₀ hsplit, hb₁, hsb.keep hsplit, rfl, rfl, ?_⟩
    simp only [purgeInternal_zero hw hb hr₀, hb₁, Option.bind_eq_bind, Option.some_bind, Branch.keep_slots,
      List.reverse_nil, if_true, Option.pure_def, Option.some.injEq] at h
    exact h.symm
  · rw [if_neg hen] at h
    have hnil : b.slots = [] := by
      by_contra hne; exact hen (hsb.enabled hne)
    refine ⟨w, b, hw, hb, hsb, hnil, rfl, ?_⟩
    simpa [hb] using h.symm

/-- **A call keeps the invariant.** -/
theorem step_inv {w w' : World} (hw : w.Inv) {o : Op} (ho : w.Allowed o) (hstep : w.step o = some w') : w'.Inv := by
  cases o with
  | configure i r config =>
    obtain ⟨b, hb⟩ := Live.getElem? ho
    obtain ⟨w₁, b₁, hw₁, hb₁, hsb₁, hnil, -, rfl⟩ := configure_drains hw hb hstep
    exact hw₁.setBranch hb₁ (hsb₁.install hnil r config) rfl rfl (.inr hnil)
  | quarantine i slot directMapped rand =>
    obtain ⟨hlive, hpos, hfresh⟩ := ho
    obtain ⟨b, hb⟩ := Live.getElem? hlive
    have hsb := hw.sound b (List.getElem?_mem hb)
    cases hrej : b.rejects directMapped
    · have hen : b.enableQuarantine = true := by
        simp only [Branch.rejects, Bool.or_eq_false_iff, Bool.not_eq_false'] at hrej
        exact hrej.1.1
      obtain ⟨r, hr⟩ := Option.ne_none_iff_exists'.1 (hsb.rooted hen)
      by_cases hcap : b.branchCapacityInBytes < slot.usableSize
      · simp only [step, World.quarantine, hb, hrej, hr, hcap, Option.bind_eq_bind, Option.some_bind,
          Bool.false_eq_true, if_false, if_true, Option.pure_def, Option.some.injEq] at hstep
        exact hstep ▸ hw.miss i r slot
      · obtain ⟨freed, rest, hsplit, -, -, heq⟩ := quarantine_retained hw hb hr hrej (Nat.not_lt.1 hcap) rand
        rw [step, heq, Option.some.injEq] at hstep
        subst hstep
        have hslots : b.slots = rest.reverse ++ freed.reverse := by
          rw [← List.reverse_reverse b.slots, hsplit, List.reverse_append]
        refine (hw.drain hb hr hsplit).retain (b := b.keep rest) (by simp [List.getElem?_set_self hlive.1]) hr hen
          hlive.2 hpos
          (fun s hs => hfresh b hb s (by rw [hslots]; exact List.mem_append_left _ (by simpa using hs))) rand
    · simp only [step, World.quarantine, hb, hrej, Option.bind_eq_bind, Option.some_bind, if_true,
        Option.pure_def, Option.some.injEq] at hstep
      exact hstep ▸ hw.bypass i slot
  | purge i =>
    obtain ⟨b, hb⟩ := Live.getElem? ho
    cases hr : b.root with
    | none => simp [step, World.purge, World.purgeInternal, hb, hr] at hstep
    | some r =>
      obtain ⟨freed, rest, hsplit, -, heq⟩ := purgeInternal_eq hw hb hr 0
      rw [step, World.purge, heq, Option.some.injEq] at hstep
      exact hstep ▸ hw.drain hb hr hsplit
  | setCapacityInBytes i c =>
    obtain ⟨b, hb⟩ := Live.getElem? ho
    simp only [step, World.setCapacityInBytes, hb, Option.bind_eq_bind, Option.some_bind, Option.pure_def,
      Option.some.injEq] at hstep
    exact hstep ▸ hw.setBranch_settings hb rfl rfl rfl rfl rfl
  | destroy i =>
    obtain ⟨b, hb⟩ := Live.getElem? ho
    cases hleak : b.leakOnDestruction
    · cases hr : b.root with
      | none => simp [step, World.destroy, World.purge, World.purgeInternal, hb, hr, hleak] at hstep
      | some r =>
        simp only [step, World.destroy, World.purge, hb, hleak, purgeInternal_zero hw hb hr, Option.bind_eq_bind,
          Option.some_bind, Option.pure_def, Option.some.injEq, if_false, Bool.false_eq_true] at hstep
        exact hstep ▸ (hw.drain hb hr (List.append_nil _).symm).destroyed (b := b.keep [])
          (by simp [List.getElem?_set_self ho.1]) fun _ => rfl
    · simp only [step, World.destroy, hb, hleak, Option.bind_eq_bind, Option.some_bind, Option.pure_def,
        Option.some.injEq, if_true] at hstep
      exact hstep ▸ hw.destroyed hb (by simp [hleak])
  | pause i =>
    obtain ⟨b, hb⟩ := Live.getElem? ho
    simp only [step, World.pause, hb, Option.bind_eq_bind, Option.some_bind, Option.pure_def,
      Option.some.injEq] at hstep
    exact hstep ▸ hw.setBranch_settings hb rfl rfl rfl rfl rfl
  | resume i =>
    obtain ⟨b, hb⟩ := Live.getElem? ho.1
    simp only [step, World.resume, hb, Option.bind_eq_bind, Option.some_bind, Option.pure_def,
      Option.some.injEq] at hstep
    exact hstep ▸ hw.setBranch_settings hb rfl rfl rfl rfl rfl

end World

end PartitionAlloc.SchedulerLoopQuarantine
