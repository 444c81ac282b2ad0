/-
What every interleaving of threads on the shared branch keeps: the `ToBeFreedArray`s and the victims each have one
owner, and no slot is freed twice.

- `Inv`: the buffers held (by `to_be_freed_working_memory_` and by the threads) are fresh, distinct and not destroyed,
  and none was destroyed twice; a thread in `BatchFree` reads `num_of_slots` entries its buffer holds; what each thread
  freed as victims, then what it still has to free, is what it took off `slots_`; and each slot was quarantined as
  often as it was freed, plus its copies in `slots_`, in buffers, and in calls before their locked phase.
- one lemma per step, assembled by `Inv.step`; the locked phase writes into the buffer only its thread holds, so it
  changes nothing another thread has still to free.
- `shared_branch_ownership`: every interleaving from a configured branch keeps `Inv`.
-/
import PartitionAlloc.SchedulerLoopQuarantine.Concurrent

namespace PartitionAlloc.SchedulerLoopQuarantine.Concurrent

/-! ## Lists of threads -/

theorem filterMap_cons_toList {α β : Type} (f : α → Option β) (a : α) (l : List α) :
    (a :: l).filterMap f = (f a).toList ++ l.filterMap f := by
  cases h : f a <;> simp [h]

/-- replacing one thread's state exchanges the buffer it held for the one it holds -/
theorem filterMap_set_perm {l : List Pc} {t : Nat} {p : Pc} (h : l[t]? = some p) (p' : Pc) :
    ((l.set t p').filterMap Pc.buffer ++ p.buffer.toList).Perm (l.filterMap Pc.buffer ++ p'.buffer.toList) := by
  induction l generalizing t with
  | nil => simp at h
  | cons z l ih =>
    cases t with
    | zero =>
      simp only [List.getElem?_cons_zero, Option.some.injEq] at h
      subst h
      simp only [List.set_cons_zero, filterMap_cons_toList]
      exact List.perm_iff_count.2 fun _ => by simp only [List.count_append]; omega
    | succ t =>
      simp only [List.getElem?_cons_succ] at h
      simp only [List.set_cons_succ, filterMap_cons_toList, List.append_assoc]
      exact (ih h).append_left _

/-- two threads holding the same buffer are one thread, when no buffer is held twice -/
theorem buffer_unique {l : List Pc} (h : (l.filterMap Pc.buffer).Nodup) {i j : Nat} {x y : Pc}
    (hi : l[i]? = some x) (hj : l[j]? = some y) {b : Nat} (hx : x.buffer = some b) (hy : y.buffer = some b) :
    i = j := by
  induction l generalizing i j with
  | nil => simp at hi
  | cons z l ih =>
    rw [filterMap_cons_toList, List.nodup_append] at h
    have hin : ∀ (k : Nat) (w : Pc), l[k]? = some w → w.buffer = some b → b ∈ l.filterMap Pc.buffer :=
      fun k w hk hw => List.mem_filterMap.2 ⟨w, List.mem_iff_getElem?.2 ⟨k, hk⟩, hw⟩
    cases i <;> cases j
    · rfl
    · simp only [List.getElem?_cons_zero, Option.some.injEq, List.getElem?_cons_succ] at hi hj
      subst hi
      exact absurd (hin _ _ hj hy) (h.2.2 (by simp [hx]))
    · simp only [List.getElem?_cons_zero, Option.some.injEq, List.getElem?_cons_succ] at hi hj
      subst hj
      exact absurd (hin _ _ hi hx) (h.2.2 (by simp [hy]))
    · simp only [List.getElem?_cons_succ] at hi hj
      rw [ih h.2.1 hi hj]

/-- replacing one element moves a count by the difference -/
theorem countP_set_add {α : Type} {l : List α} {i : Nat} {x : α} (h : l[i]? = some x) (p : α → Bool) (a : α) :
    (l.set i a).countP p + (if p x then 1 else 0) = l.countP p + (if p a then 1 else 0) := by
  have hi : i < l.length := (List.getElem?_eq_some_iff.1 h).1
  have hx : l[i] = x := (List.getElem?_eq_some_iff.1 h).2
  have hle : (if p l[i] then 1 else 0) ≤ l.countP p := by
    split_ifs with hp
    · exact List.countP_pos_iff.2 ⟨_, List.getElem_mem hi, hp⟩
    · exact Nat.zero_le _
  rw [List.countP_set p l i a hi, ← hx]
  omega

namespace Shared

/-! ## Replacing a thread's state -/

section SetPc

variable (s : Shared) {t : Nat} (p : Pc)

theorem getElem?_of_pc_ne_idle (h : s.pc t ≠ .idle) : s.threads[t]? = some (s.pc t) := by
  unfold pc at h ⊢
  cases hs : s.threads[t]? <;> simp_all

theorem lt_of_pc_ne_idle (h : s.pc t ≠ .idle) : t < s.threads.length :=
  (List.getElem?_eq_some_iff.1 (s.getElem?_of_pc_ne_idle h)).1

theorem pc_setPc (ht : t < s.threads.length) (j : Nat) : (s.setPc t p).pc j = if t = j then p else s.pc j := by
  simp only [pc, setPc, List.getElem?_set]
  split_ifs <;> simp_all

theorem holders_setPc (ht : t < s.threads.length) :
    ((s.setPc t p).holders ++ (s.pc t).buffer.toList).Perm (s.holders ++ p.buffer.toList) := by
  have := filterMap_set_perm (List.getElem?_eq_getElem ht) p
  simp only [holders, setPc, List.append_assoc, pc, List.getElem?_eq_getElem ht, Option.getD_some]
  exact this.append_left _

theorem pendingAll_setPc (ht : t < s.threads.length) (a : Nat) :
    (s.setPc t p).pendingAll a + ((s.pc t).pending s.content).count a =
      s.pendingAll a + (p.pending s.content).count a := by
  simp only [pendingAll, setPc, List.map_set]
  exact sum_set_add (by simp [List.getElem?_eq_getElem ht, pc]) _

theorem inFlight_setPc (ht : t < s.threads.length) (a : Nat) :
    (s.setPc t p).inFlight a + (if (s.pc t).entry = some a then 1 else 0) =
      s.inFlight a + (if p.entry = some a then 1 else 0) := by
  simp only [inFlight, setPc, pc, List.getElem?_eq_getElem ht, Option.getD_some]
  simpa using countP_set_add (List.getElem?_eq_getElem ht) (fun pc => decide (pc.entry = some a)) p

@[simp] theorem setPc_branch : (s.setPc t p).branch = s.branch := rfl
@[simp] theorem setPc_content : (s.setPc t p).content = s.content := rfl
@[simp] theorem setPc_effects : (s.setPc t p).effects = s.effects := rfl
@[simp] theorem setPc_destroyed : (s.setPc t p).destroyed = s.destroyed := rfl
@[simp] theorem setPc_calls : (s.setPc t p).calls = s.calls := rfl
@[simp] theorem setPc_removed : (s.setPc t p).removed = s.removed := rfl
@[simp] theorem setPc_evicted : (s.setPc t p).evicted = s.evicted := rfl
@[simp] theorem setPc_workingMemory : (s.setPc t p).workingMemory = s.workingMemory := rfl
@[simp] theorem setPc_next : (s.setPc t p).next = s.next := rfl

end SetPc

/-! ## The invariant -/

/-- what every interleaving keeps -/
structure Inv (s : Shared) : Prop where
  lt_next : ∀ b ∈ s.holders ++ s.destroyed, b < s.next
  exclusive : s.holders.Nodup
  alive : ∀ b ∈ s.holders, b ∉ s.destroyed
  destroyed_nodup : s.destroyed.Nodup
  batch : ∀ t slot buf num i, s.pc t = .batchFree slot buf num i → num = (s.content buf).length
  victims : ∀ t, s.evictedBy t ++ (s.pc t).pending s.content = s.removedBy t
  ledger : ∀ a, s.calls.count a = s.freed a + s.held a + s.pendingAll a + s.inFlight a

/-- the buffer facts of `Inv` carry over when the holders are the same buffers and nothing was destroyed -/
theorem Inv.buffers_of_perm {s s' : Shared} (hs : s.Inv) (hh : s'.holders.Perm s.holders)
    (hd : s'.destroyed = s.destroyed) (hn : s'.next = s.next) :
    (∀ b ∈ s'.holders ++ s'.destroyed, b < s'.next) ∧ s'.holders.Nodup ∧ (∀ b ∈ s'.holders, b ∉ s'.destroyed) ∧
      s'.destroyed.Nodup := by
  rw [hd, hn]
  refine ⟨fun b hb => hs.lt_next b ?_, hh.nodup_iff.2 hs.exclusive, fun b hb => hs.alive b (hh.subset hb),
    hs.destroyed_nodup⟩
  rcases List.mem_append.1 hb with hb | hb
  · exact List.mem_append_left _ (hh.subset hb)
  · exact List.mem_append_right _ hb

theorem holders_setPc_of_buffer (s : Shared) {t : Nat} {p : Pc} (ht : t < s.threads.length)
    (hb : p.buffer = (s.pc t).buffer) : (s.setPc t p).holders.Perm s.holders := by
  have := s.holders_setPc p ht
  rwa [hb, List.perm_append_right_iff] at this

theorem batch_setPc {s : Shared} (hb : ∀ t slot buf num i, s.pc t = .batchFree slot buf num i →
      num = (s.content buf).length) {t : Nat} {p : Pc} (ht : t < s.threads.length)
    (hp : ∀ slot buf num i, p = .batchFree slot buf num i → num = (s.content buf).length) :
    ∀ j slot buf num i, (s.setPc t p).pc j = .batchFree slot buf num i → num = ((s.setPc t p).content buf).length := by
  intro j slot buf num i h
  rw [pc_setPc _ _ ht] at h
  split_ifs at h
  · exact hp _ _ _ _ h
  · exact hb _ _ _ _ _ h

theorem victims_setPc {s : Shared} (hv : ∀ t, s.evictedBy t ++ (s.pc t).pending s.content = s.removedBy t)
    {t : Nat} {p : Pc} (ht : t < s.threads.length) (hp : p.pending s.content = (s.pc t).pending s.content) :
    ∀ j, (s.setPc t p).evictedBy j ++ ((s.setPc t p).pc j).pending (s.setPc t p).content =
      (s.setPc t p).removedBy j := by
  intro j
  rw [pc_setPc _ _ ht]
  split_ifs with h
  · subst h; rw [setPc_content, hp]; exact hv t
  · exact hv j

theorem ledger_setPc {s : Shared}
    (hl : ∀ a, s.calls.count a = s.freed a + s.held a + s.pendingAll a + s.inFlight a) {t : Nat} {p : Pc}
    (ht : t < s.threads.length) (hp : p.pending s.content = (s.pc t).pending s.content)
    (he : p.entry = (s.pc t).entry) :
    ∀ a, (s.setPc t p).calls.count a =
      (s.setPc t p).freed a + (s.setPc t p).held a + (s.setPc t p).pendingAll a + (s.setPc t p).inFlight a := by
  intro a
  have h₁ := s.pendingAll_setPc p ht a
  have h₂ := s.inFlight_setPc p ht a
  rw [hp] at h₁
  rw [he] at h₂
  show s.calls.count a = s.freed a + s.held a + _ + _
  rw [hl a]
  omega

/-- the buffer facts of `Inv` carry over when a freshly constructed buffer joins the holders -/
theorem Inv.buffers_of_fresh {s s' : Shared} (hs : s.Inv) (hh : s'.holders.Perm (s.holders ++ [s.next]))
    (hd : s'.destroyed = s.destroyed) (hn : s'.next = s.next + 1) :
    (∀ b ∈ s'.holders ++ s'.destroyed, b < s'.next) ∧ s'.holders.Nodup ∧ (∀ b ∈ s'.holders, b ∉ s'.destroyed) ∧
      s'.destroyed.Nodup := by
  rw [hd, hn]
  have hlt := hs.lt_next
  refine ⟨fun b hb => ?_, hh.nodup_iff.2 (List.nodup_append.2 ⟨hs.exclusive, List.nodup_singleton _, ?_⟩),
    fun b hb => ?_, hs.destroyed_nodup⟩
  · rcases List.mem_append.1 hb with hb | hb
    · rcases List.mem_append.1 (hh.subset hb) with hb | hb
      · exact Nat.lt_succ_of_lt (hlt b (List.mem_append_left _ hb))
      · rw [List.mem_singleton.1 hb]; exact Nat.lt_succ_self _
    · exact Nat.lt_succ_of_lt (hlt b (List.mem_append_right _ hb))
  · simp only [List.disjoint_singleton]
    exact fun hb => Nat.lt_irrefl _ (hlt _ (List.mem_append_left _ hb))
  · rcases List.mem_append.1 (hh.subset hb) with hb | hb
    · exact hs.alive b hb
    · rw [List.mem_singleton.1 hb]
      exact fun hd => Nat.lt_irrefl _ (hlt _ (List.mem_append_right _ hd))

/-- the buffer of a thread that holds one is its own: no other thread's state names it -/
theorem pc_eq_of_buffer {s : Shared} (hs : s.Inv) {t j buf : Nat} (ht : (s.pc t).buffer = some buf)
    (hj : (s.pc j).buffer = some buf) : j = t := by
  have hne (k : Nat) (hk : (s.pc k).buffer = some buf) : s.pc k ≠ .idle := by
    intro h; rw [h] at hk; cases hk
  exact buffer_unique (List.Nodup.of_append_right hs.exclusive) (s.getElem?_of_pc_ne_idle (hne j hj))
    (s.getElem?_of_pc_ne_idle (hne t ht)) hj ht

/-- writing into the buffer of a thread that has nothing to free changes nothing any thread has to free -/
theorem pending_update {s : Shared} (hs : s.Inv) {t buf : Nat} (ht : (s.pc t).buffer = some buf)
    (hnil : ∀ content, (s.pc t).pending content = []) (l : List Nat) (j : Nat) :
    (s.pc j).pending (Function.update s.content buf l) = (s.pc j).pending s.content := by
  cases hj : s.pc j with
  | batchFree slot buf' num i =>
    by_cases hb : buf' = buf
    · subst hb
      have := pc_eq_of_buffer hs ht (by rw [hj]; rfl)
      subst this
      rw [hj] at hnil
      rw [hnil, hnil]
    · simp [Pc.pending, Function.update_noteq hb]
  | _ => rfl

theorem pendingAll_update {s : Shared} (hs : s.Inv) {t buf : Nat} (ht : (s.pc t).buffer = some buf)
    (hnil : ∀ content, (s.pc t).pending content = []) (l : List Nat) (a : Nat) :
    ({ s with content := Function.update s.content buf l } : Shared).pendingAll a = s.pendingAll a := by
  unfold pendingAll
  congr 1
  refine List.map_congr_left fun p hp => ?_
  obtain ⟨j, hj⟩ := List.mem_iff_getElem?.1 hp
  have := pending_update hs ht hnil l j
  rw [Shared.pc, show s.threads[j]? = some p from hj, Option.getD_some] at this
  exact congrArg _ this

/-! ## Each step keeps the invariant -/

/-- a call that frees its object at once, as the fast reject and the miss do, keeps the invariant, whatever it does
to the root's statistics -/
theorem Inv.freeAtOnce {s : Shared} (hs : s.Inv) (t : Nat) (slot : QuarantineSlot) (root : Root) :
    ({ (s.record slot).emit t [.freeNoHooksImmediate slot.slotStart] with root := root } : Shared).Inv := by
  refine ⟨hs.lt_next, hs.exclusive, hs.alive, hs.destroyed_nodup, hs.batch, hs.victims, fun a => ?_⟩
  have := hs.ledger a
  simp only [held, pendingAll, inFlight, freed, emit, record, List.count_append, List.countP_append,
    List.map_cons, List.map_nil, List.countP_singleton, List.count_singleton] at this ⊢
  simp only [decide_eq_true_eq, Effect.freeNoHooksImmediate.injEq, beq_iff_eq]
  split_ifs <;> omega

theorem Inv.quarantine {s s' : Shared} (hs : s.Inv) {t : Nat} {slot : QuarantineSlot} {directMapped : Bool}
    (h : s.quarantine t slot directMapped = some s') : s'.Inv := by
  unfold Shared.quarantine at h
  split_ifs at h with hidle
  all_goals simp only [not_or, not_le, ne_eq, not_not, Option.some.injEq] at hidle h
  all_goals subst h
  -- the fast reject and the miss free the object at once
  · exact hs.freeAtOnce t slot s.root
  · exact hs.freeAtOnce t slot _
  -- otherwise the call is in flight
  obtain ⟨hidle, ht⟩ := hidle
  have hpc : (s.record slot).pc t = .idle := hidle
  obtain ⟨h₁, h₂, h₃, h₄⟩ := hs.buffers_of_perm
    (holders_setPc_of_buffer (s.record slot) (p := .loaded slot s.branch.branchCapacityInBytes) ht (by rw [hpc]; rfl))
    rfl rfl
  refine ⟨h₁, h₂, h₃, h₄, batch_setPc hs.batch ht nofun, victims_setPc hs.victims ht (by rw [hidle]; rfl),
    fun a => ?_⟩
  have hp := (s.record slot).pendingAll_setPc (.loaded slot s.branch.branchCapacityInBytes) ht a
  have hf := (s.record slot).inFlight_setPc (.loaded slot s.branch.branchCapacityInBytes) ht a
  simp only [hpc, Pc.pending, Pc.entry, List.count_nil, Nat.add_zero, reduceCtorEq, if_false,
    Option.some.injEq] at hp hf
  rw [hp, hf]
  show (s.calls ++ [slot.slotStart]).count a = s.freed a + s.held a + s.pendingAll a + (s.inFlight a + _)
  rw [List.count_append, List.count_singleton, hs.ledger a]
  simp only [beq_iff_eq, Nat.add_assoc]

theorem Inv.borrow {s s' : Shared} (hs : s.Inv) {t : Nat} (h : s.borrow t = some s') : s'.Inv := by
  unfold Shared.borrow at h
  cases hp : s.pc t <;> cases hw : s.workingMemory <;> simp only [hp, hw, reduceCtorEq, Option.some.injEq] at h
  all_goals
    subst h
    have ht := s.lt_of_pc_ne_idle (by rw [hp]; exact nofun)
  · -- `to_be_freed_working_memory_` was null: a new buffer
    rename_i slot c
    have hh := holders_setPc { s with workingMemory := none, next := s.next + 1 } (.borrowed slot c s.next) ht
    simp only [show ({ s with workingMemory := none, next := s.next + 1 } : Shared).pc t = s.pc t from rfl, hp,
      Pc.buffer, Option.toList_none, Option.toList_some, List.append_nil] at hh
    rw [show ({ s with workingMemory := none, next := s.next + 1 } : Shared).holders = s.holders by
      simp [holders, hw]] at hh
    obtain ⟨h₁, h₂, h₃, h₄⟩ := hs.buffers_of_fresh hh rfl rfl
    exact ⟨h₁, h₂, h₃, h₄, batch_setPc hs.batch ht nofun, victims_setPc hs.victims ht (by rw [hp]; rfl),
      ledger_setPc hs.ledger ht (by rw [hp]; rfl) (by rw [hp]; rfl)⟩
  · -- the exchange took the working buffer
    rename_i slot c buf
    have hh := holders_setPc { s with workingMemory := none } (.borrowed slot c buf) ht
    simp only [show ({ s with workingMemory := none } : Shared).pc t = s.pc t from rfl, hp, Pc.buffer,
      Option.toList_none, Option.toList_some, List.append_nil] at hh
    have hperm : (({ s with workingMemory := none } : Shared).setPc t (.borrowed slot c buf)).holders.Perm
        s.holders := by
      refine hh.trans ?_
      simp only [holders, hw, Option.toList_some, Option.toList_none, List.nil_append, List.singleton_append]
      exact List.perm_append_comm
    obtain ⟨h₁, h₂, h₃, h₄⟩ := hs.buffers_of_perm hperm rfl rfl
    exact ⟨h₁, h₂, h₃, h₄, batch_setPc hs.batch ht nofun, victims_setPc hs.victims ht (by rw [hp]; rfl),
      ledger_setPc hs.ledger ht (by rw [hp]; rfl) (by rw [hp]; rfl)⟩

/-- the locked phase moves the victims from `slots_` into the thread's own buffer and puts the entry in their place -/
theorem Inv.locked {s s' : Shared} (hs : s.Inv) {t rand : Nat} (h : s.locked t rand = some s') : s'.Inv := by
  unfold Shared.locked at h
  cases hp : s.pc t <;> simp only [hp, reduceCtorEq] at h
  rename_i slot c buf
  obtain ⟨⟨b', root', toBeFreed⟩, heq, rfl⟩ := Option.map_eq_some'.1 h
  obtain ⟨_, heq'⟩ := Branch.purgeInternalWithDefferedFree_of_T heq s.root
  obtain ⟨freed, rest, hsplit, hslots, rfl⟩ := Branch.purgeInternalWithDefferedFree_split heq'
  clear h heq heq'
  dsimp only
  have ht := s.lt_of_pc_ne_idle (by rw [hp]; exact nofun)
  have hbuf : (s.pc t).buffer = some buf := by rw [hp]; rfl
  have hnil : ∀ content, (s.pc t).pending content = [] := by rw [hp]; exact fun _ => rfl
  -- the state before the thread's own state changes
  let s₀ : Shared := { s with
    branch := b'.pushSlot slot rand, root := root'
    content := Function.update s.content buf (freed.map (·.slotStart))
    removed := s.removed ++ (freed.map (·.slotStart)).map (t, ·) }
  have hpc₀ : s₀.pc t = s.pc t := rfl
  let p' : Pc := .batchFree slot buf (freed.map (·.slotStart)).length 0
  have hh := s₀.holders_setPc p' ht
  rw [hpc₀, hbuf, show p'.buffer = some buf from rfl, List.perm_append_right_iff] at hh
  obtain ⟨h₁, h₂, h₃, h₄⟩ := hs.buffers_of_perm hh rfl rfl
  refine ⟨h₁, h₂, h₃, h₄, fun j slot' buf' num i hj => ?_, fun j => ?_, fun a => ?_⟩
  · rw [pc_setPc s₀ p' ht] at hj
    split_ifs at hj with htj
    · simp only [p', Pc.batchFree.injEq] at hj
      obtain ⟨rfl, rfl, rfl, rfl⟩ := hj
      simp [s₀]
    · have hne : buf' ≠ buf := fun e => htj (pc_eq_of_buffer hs hbuf (by rw [← e]; exact congrArg Pc.buffer hj)).symm
      simp only [setPc_content, s₀, Function.update_noteq hne]
      exact hs.batch j _ _ _ _ hj
  · rw [pc_setPc s₀ p' ht]
    split_ifs with htj
    · subst htj
      have hv := hs.victims t
      rw [hnil, List.append_nil] at hv
      have hr : (s₀.setPc t p').removedBy t = s.removedBy t ++ freed.map (·.slotStart) := by
        simp [removedBy, s₀, List.filter_map, Function.comp_def]
      rw [hr, ← hv]
      show s.evictedBy t ++ (Function.update s.content buf (freed.map (·.slotStart)) buf).drop 0 = _
      rw [Function.update_same, List.drop_zero]
    · have hv := hs.victims j
      rw [← pending_update hs hbuf hnil (freed.map (·.slotStart)) j] at hv
      have hr : (s₀.setPc t p').removedBy j = s.removedBy j := by
        simp [removedBy, s₀, List.filter_map, Function.comp_def, htj]
      rw [hr, ← hv]
      rfl
  · have hpend : (s₀.setPc t p').pendingAll a = s.pendingAll a + freed.countP (·.slotStart = a) := by
      have h₁ : (s₀.setPc t p').pendingAll a + ((s.pc t).pending s₀.content).count a =
          s.pendingAll a + (p'.pending s₀.content).count a :=
        (s₀.pendingAll_setPc p' ht a).trans (by rw [show s₀.pendingAll a = s.pendingAll a from
          pendingAll_update hs hbuf hnil _ a])
      rw [hnil, List.count_nil, Nat.add_zero] at h₁
      rw [h₁]
      show _ + ((Function.update s.content buf (freed.map (·.slotStart)) buf).drop 0).count a = _
      rw [Function.update_same, List.drop_zero, List.count_eq_countP, List.countP_map]
      rfl
    have hflight : (s₀.setPc t p').inFlight a + (if slot.slotStart = a then 1 else 0) = s.inFlight a := by
      have h₂ : (s₀.setPc t p').inFlight a + (if (s.pc t).entry = some a then 1 else 0) =
          s.inFlight a + (if p'.entry = some a then 1 else 0) := s₀.inFlight_setPc p' ht a
      simpa only [hp, Pc.entry, p', Option.some.injEq, reduceCtorEq, if_false, Nat.add_zero] using h₂
    have hheld : (s₀.setPc t p').held a + freed.countP (·.slotStart = a) =
        s.held a + if slot.slotStart = a then 1 else 0 := by
      have hnew : (s₀.setPc t p').held a = rest.countP (·.slotStart = a) + if slot.slotStart = a then 1 else 0 := by
        show (b'.pushSlot slot rand).slots.countP _ = _
        rw [(pushSlot_perm b' slot rand).countP_eq, List.countP_append, hslots, List.countP_reverse,
          List.countP_singleton]
        simp only [decide_eq_true_eq]
      have hold : s.held a = freed.countP (·.slotStart = a) + rest.countP (·.slotStart = a) := by
        rw [held, ← List.countP_reverse, hsplit, List.countP_append]
      omega
    show s.calls.count a = s.freed a + (s₀.setPc t p').held a + (s₀.setPc t p').pendingAll a +
      (s₀.setPc t p').inFlight a
    rw [hs.ledger a]
    split_ifs at hflight hheld <;> omega

/-- one iteration of `BatchFree` frees the next victim the thread saved -/
theorem Inv.freeNext {s s' : Shared} (hs : s.Inv) {t : Nat} (h : s.freeNext t = some s') : s'.Inv := by
  unfold Shared.freeNext at h
  cases hp : s.pc t <;> simp only [hp, reduceCtorEq] at h
  rename_i slot buf num i
  split_ifs at h with hi
  obtain ⟨x, hx, rfl⟩ := Option.map_eq_some'.1 h
  clear h
  have ht := s.lt_of_pc_ne_idle (by rw [hp]; exact nofun)
  have hnum := hs.batch t _ _ _ _ hp
  have hdrop : (s.content buf).drop i = x :: (s.content buf).drop (i + 1) := by
    rw [List.drop_eq_getElem_cons (by omega)]
    rw [List.getElem?_eq_getElem (by omega), Option.some.injEq] at hx
    rw [hx]
  let s₀ : Shared := { s.emit t [.freeNoHooksImmediate x] with evicted := s.evicted ++ [(t, x)] }
  let p' : Pc := .batchFree slot buf num (i + 1)
  have hpc₀ : s₀.pc t = .batchFree slot buf num i := hp
  obtain ⟨h₁, h₂, h₃, h₄⟩ := hs.buffers_of_perm (holders_setPc_of_buffer s₀ (p := p') ht (by rw [hpc₀]; rfl))
    rfl rfl
  refine ⟨h₁, h₂, h₃, h₄, batch_setPc (s := s₀) hs.batch ht fun _ _ _ _ e => by cases e; exact hnum,
    fun j => ?_, fun a => ?_⟩
  · have he : (s₀.setPc t p').evictedBy j = s.evictedBy j ++ if t = j then [x] else [] := by
      simp only [evictedBy, setPc_evicted, s₀, List.filter_append, List.map_append]
      split_ifs with htj <;> simp [htj]
    have hv := hs.victims j
    rw [pc_setPc s₀ p' ht, he, show (s₀.setPc t p').removedBy j = s.removedBy j from rfl, ← hv]
    split_ifs with htj
    · subst htj
      rw [hp]
      show _ ++ (s.content buf).drop (i + 1) = _ ++ (s.content buf).drop i
      rw [hdrop, List.append_assoc, List.singleton_append]
    · rw [List.append_nil]; rfl
  · have h₁ := s₀.pendingAll_setPc p' ht a
    rw [hpc₀] at h₁
    change (s₀.setPc t p').pendingAll a + ((s.content buf).drop i).count a =
      s.pendingAll a + ((s.content buf).drop (i + 1)).count a at h₁
    have h₂ := s₀.inFlight_setPc p' ht a
    rw [hpc₀] at h₂
    change (s₀.setPc t p').inFlight a + 0 = s.inFlight a + 0 at h₂
    have h₃ : (s₀.setPc t p').freed a = s.freed a + if x = a then 1 else 0 := by
      show (s.effects ++ [(t, Effect.freeNoHooksImmediate x)]).countP _ = _
      rw [List.countP_append, List.countP_singleton]
      simp [freed, eq_comm]
    rw [hdrop, List.count_cons] at h₁
    show s.calls.count a = (s₀.setPc t p').freed a + s.held a + (s₀.setPc t p').pendingAll a +
      (s₀.setPc t p').inFlight a
    rw [hs.ledger a, h₃]
    simp only [beq_iff_eq] at h₁
    split_ifs at h₁ h₃ ⊢ <;> omega

/-- giving the buffer back destroys the one in `to_be_freed_working_memory_`, which no thread holds -/
theorem Inv.giveBack {s s' : Shared} (hs : s.Inv) {t : Nat} (h : s.giveBack t = some s') : s'.Inv := by
  unfold Shared.giveBack at h
  cases hp : s.pc t <;> simp only [hp, reduceCtorEq] at h
  rename_i slot buf num i
  split_ifs at h with hi
  simp only [Option.some.injEq] at h
  subst h
  have ht := s.lt_of_pc_ne_idle (by rw [hp]; exact nofun)
  have hnum := hs.batch t _ _ _ _ hp
  let s₀ : Shared := { s with workingMemory := some buf, destroyed := s.destroyed ++ s.workingMemory.toList }
  let p' : Pc := .epilogue slot
  have hpc₀ : s₀.pc t = .batchFree slot buf num i := hp
  have hpend : (s.pc t).pending s.content = [] := by rw [hp]; exact List.drop_eq_nil_of_le (by omega)
  -- the holders lose the thread's buffer to `to_be_freed_working_memory_`, which loses its own
  have hh := s₀.holders_setPc p' ht
  rw [hpc₀] at hh
  change ((s₀.setPc t p').holders ++ [buf]).Perm (buf :: s.threads.filterMap Pc.buffer ++ []) at hh
  rw [List.append_nil] at hh
  have hF : (s₀.setPc t p').holders.Perm (s.threads.filterMap Pc.buffer) :=
    (List.perm_cons buf).1 (List.perm_append_comm.trans hh)
  have hsub : ∀ b ∈ (s₀.setPc t p').holders, b ∈ s.threads.filterMap Pc.buffer := fun b hb => hF.subset hb
  have hexcl := hs.exclusive
  rw [holders, List.nodup_append] at hexcl
  refine ⟨fun b hb => ?_, hF.nodup_iff.2 hexcl.2.1, fun b hb hd => ?_, ?_,
    batch_setPc (s := s₀) hs.batch ht nofun, victims_setPc (s := s₀) hs.victims ht (by rw [hpc₀, ← hp, hpend]; rfl),
    ledger_setPc (s := s₀) hs.ledger ht (by rw [hpc₀, ← hp, hpend]; rfl) (by rw [hpc₀]; rfl)⟩
  · rcases List.mem_append.1 hb with hb | hb
    · exact hs.lt_next b (List.mem_append_left _ (List.mem_append_right _ (hsub b hb)))
    · rcases List.mem_append.1 hb with hb | hb
      · exact hs.lt_next b (List.mem_append_right _ hb)
      · exact hs.lt_next b (List.mem_append_left _ (List.mem_append_left _ hb))
  · have hb' := hsub b hb
    rcases List.mem_append.1 hd with hd | hd
    · exact hs.alive b (List.mem_append_right _ hb') hd
    · exact hexcl.2.2 hd hb'
  · refine List.nodup_append.2 ⟨hs.destroyed_nodup, hexcl.1, fun b hb hw => ?_⟩
    exact hs.alive b (List.mem_append_left _ hw) hb

/-- `QuarantineEpilogue` hands the allocator root no free -/
theorem Inv.epilogue {s s' : Shared} (hs : s.Inv) {t : Nat} (h : s.epilogue t = some s') : s'.Inv := by
  unfold Shared.epilogue at h
  cases hp : s.pc t <;> simp only [hp, reduceCtorEq, Option.some.injEq] at h
  rename_i slot
  subst h
  have ht := s.lt_of_pc_ne_idle (by rw [hp]; exact nofun)
  let s₀ : Shared := { s with root := s.root.addQuarantinedT slot.usableSize }.emit t
    (s.branch.quarantineEpilogue s.brpEnabled slot)
  have hpc₀ : s₀.pc t = .epilogue slot := hp
  have hfreed : ∀ a, s₀.freed a = s.freed a := fun a => by
    show (s.effects ++ (s.branch.quarantineEpilogue s.brpEnabled slot).map (t, ·)).countP _ = _
    rw [List.countP_append, List.countP_map, freed, Nat.add_right_eq_self]
    refine List.countP_eq_zero.2 fun e he hfe => ?_
    simp only [Function.comp_apply, decide_eq_true_eq] at hfe
    exact List.count_eq_zero.1 (World.count_quarantineEpilogue s.branch s.brpEnabled slot a) (hfe ▸ he)
  obtain ⟨h₁, h₂, h₃, h₄⟩ := hs.buffers_of_perm (holders_setPc_of_buffer s₀ (p := .idle) ht (by rw [hpc₀]; rfl))
    rfl rfl
  refine ⟨h₁, h₂, h₃, h₄, batch_setPc (s := s₀) hs.batch ht nofun,
    victims_setPc (s := s₀) hs.victims ht (by rw [hpc₀]; rfl),
    ledger_setPc (s := s₀) (fun a => ?_) ht (by rw [hpc₀]; rfl) (by rw [hpc₀]; rfl)⟩
  rw [hfreed]
  exact hs.ledger a

/-- `Purge()` frees its victims itself, under the lock -/
theorem Inv.purge {s s' : Shared} (hs : s.Inv) {t : Nat} (h : s.purge t = some s') : s'.Inv := by
  unfold Shared.purge at h
  split_ifs at h with hidle
  rw [not_not] at hidle
  obtain ⟨⟨b', root', victims⟩, heq, rfl⟩ := Option.map_eq_some'.1 h
  obtain ⟨rest, hsplit, hslots⟩ := Branch.purgeInternal_split heq
  clear h heq
  refine ⟨hs.lt_next, hs.exclusive, hs.alive, hs.destroyed_nodup, hs.batch, fun j => ?_, fun a => ?_⟩
  · have hv := hs.victims j
    simp only [evictedBy, removedBy, List.filter_append, List.map_append] at hv ⊢
    show _ ++ _ ++ (s.pc j).pending s.content = _
    by_cases htj : t = j
    · subst htj
      rw [hidle] at hv ⊢
      simp only [Pc.pending, List.append_nil] at hv ⊢
      rw [hv]
    · have hB : List.map (fun x => x.2) (List.filter (fun x => decide (x.1 = j))
          (List.map (fun x => (t, x.slotStart)) victims)) = [] := by
        simp [List.filter_map, Function.comp_def, htj]
      simp only [hB, List.nil_append, List.append_nil]
      exact hv
  · have hheld : s.held a = victims.countP (·.slotStart = a) + rest.countP (·.slotStart = a) := by
      rw [held, ← List.countP_reverse, hsplit, List.countP_append]
    have hheld' : b'.slots.countP (·.slotStart = a) = rest.countP (·.slotStart = a) := by
      rw [hslots, List.countP_reverse]
    have hfreed : (s.effects ++ (World.frees victims).map (t, ·)).countP (·.2 = .freeNoHooksImmediate a) =
        s.freed a + victims.countP (·.slotStart = a) := by
      rw [List.countP_append, ← World.count_frees, List.countP_map, List.count_eq_countP]
      simp only [Shared.freed, Function.comp_def, Nat.add_left_cancel_iff]
      exact List.countP_congr fun x _ => by simp
    show s.calls.count a = (s.effects ++ (World.frees victims).map (t, ·)).countP _ +
      b'.slots.countP _ + s.pendingAll a + s.inFlight a
    rw [hfreed, hheld', hs.ledger a, hheld]
    omega

theorem Inv.setCapacityInBytes {s s' : Shared} (hs : s.Inv) {t c : Nat} (h : s.setCapacityInBytes t c = some s') :
    s'.Inv := by
  unfold Shared.setCapacityInBytes at h
  split_ifs at h
  cases h
  exact ⟨hs.lt_next, hs.exclusive, hs.alive, hs.destroyed_nodup, hs.batch, hs.victims, hs.ledger⟩

/-- **A step keeps the invariant.** -/
theorem Inv.step {s s' : Shared} (hs : s.Inv) {a : Action} (h : s.step a = some s') : s'.Inv := by
  cases a with
  | quarantine t slot directMapped => exact hs.quarantine h
  | borrow t => exact hs.borrow h
  | locked t rand => exact hs.locked h
  | freeNext t => exact hs.freeNext h
  | giveBack t => exact hs.giveBack h
  | epilogue t => exact hs.epilogue h
  | purge t => exact hs.purge h
  | setCapacityInBytes t c => exact hs.setCapacityInBytes h

theorem pc_initial (root : Root) (config : SchedulerLoopQuarantineConfig) (brpEnabled : Bool) (threads t : Nat) :
    (Shared.initial root config brpEnabled threads).pc t = .idle := by
  simp only [pc, initial, List.getElem?_replicate]
  split_ifs <;> rfl

theorem Inv.initial (root : Root) (config : SchedulerLoopQuarantineConfig) (brpEnabled : Bool) (threads : Nat) :
    (Shared.initial root config brpEnabled threads).Inv := by
  have hpc := pc_initial root config brpEnabled threads
  have hthreads : ∀ p ∈ (Shared.initial root config brpEnabled threads).threads, p = .idle := fun p hp =>
    List.eq_of_mem_replicate hp
  have hholders : (Shared.initial root config brpEnabled threads).holders =
      (if config.enableQuarantine then some 0 else none : Option Nat).toList := by
    have hnone : (List.replicate threads Pc.idle).filterMap Pc.buffer = [] :=
      List.filterMap_eq_nil_iff.2 fun p hp => by rw [List.eq_of_mem_replicate hp]; rfl
    simp only [holders, Shared.initial, hnone, List.append_nil]
  refine ⟨fun b hb => ?_, ?_, fun b _ hd => absurd hd (List.not_mem_nil _), List.nodup_nil,
    fun t _ _ _ _ h => (by rw [hpc] at h; cases h), fun t => (by rw [hpc]; rfl), fun a => ?_⟩
  · rw [hholders] at hb
    change b ∈ _ ++ [] at hb
    rw [List.append_nil] at hb
    change b < 1
    split_ifs at hb <;> simp_all
  · rw [hholders]; split_ifs <;> simp
  · have hpend : (Shared.initial root config brpEnabled threads).pendingAll a = 0 :=
      List.sum_eq_zero fun n hn => by
        obtain ⟨p, hp, rfl⟩ := List.mem_map.1 hn
        rw [hthreads p hp]; rfl
    have hflight : (Shared.initial root config brpEnabled threads).inFlight a = 0 :=
      List.countP_eq_zero.2 fun p hp => by rw [hthreads p hp]; simp [Pc.entry]
    rw [hpend, hflight]
    rfl

/-- **Every interleaving keeps the invariant.** -/
theorem reachable_inv {s₀ s : Shared} {acts : List Action} (h₀ : s₀.Inv) (hrun : Reachable s₀ acts s) : s.Inv := by
  induction hrun with
  | nil => exact h₀
  | snoc _ _ hstep ih => exact ih.step hstep

end Shared

/-! ## Ownership on the shared branch -/

/-- **Ownership on the shared branch.** In every interleaving of any number of threads calling `Quarantine`, `Purge`
and `SetCapacityInBytes` on a configured shared branch: no `ToBeFreedArray` is held by two threads, nor by a thread
and `to_be_freed_working_memory_`; no buffer a thread holds has been destroyed, and none was destroyed twice; what
each thread freed as victims, followed by what it still has to free, is exactly what it took off `slots_`, in order;
and each slot was quarantined as often as it was freed plus its copies in `slots_`, in buffers and in calls before
their locked phase, so no slot is freed more often than it was quarantined. -/
theorem shared_branch_ownership {root : Root} {config : SchedulerLoopQuarantineConfig} {brpEnabled : Bool}
    {threads : Nat} {acts : List Action} {s : Shared}
    (hrun : Reachable (Shared.initial root config brpEnabled threads) acts s) :
    (∀ t t' b, (s.pc t).buffer = some b → (s.pc t').buffer = some b → t = t') ∧
    (∀ t b, s.workingMemory = some b → (s.pc t).buffer ≠ some b) ∧
    (∀ t b, (s.pc t).buffer = some b → b ∉ s.destroyed) ∧ s.destroyed.Nodup ∧
    (∀ t, s.evictedBy t ++ (s.pc t).pending s.content = s.removedBy t) ∧
    (∀ a, s.calls.count a = s.freed a + s.held a + s.pendingAll a + s.inFlight a) := by
  have hs := Shared.reachable_inv (Shared.Inv.initial _ _ _ _) hrun
  -- a held buffer is among the holders
  have hmem (t b : Nat) (h : (s.pc t).buffer = some b) : b ∈ s.threads.filterMap Pc.buffer := by
    have hne : s.pc t ≠ .idle := by intro e; rw [e] at h; cases h
    exact List.mem_filterMap.2 ⟨_, List.mem_iff_getElem?.2 ⟨t, s.getElem?_of_pc_ne_idle hne⟩, h⟩
  refine ⟨fun t t' b ht ht' => (Shared.pc_eq_of_buffer hs ht ht').symm, fun t b hw ht => ?_,
    fun t b ht => hs.alive b (List.mem_append_right _ (hmem t b ht)), hs.destroyed_nodup, hs.victims, hs.ledger⟩
  have hexcl := hs.exclusive
  rw [Shared.holders, hw, Option.toList_some, List.singleton_append, List.nodup_cons] at hexcl
  exact hexcl.1 (hmem t b ht)

/-- one thread runs a whole `Quarantine` call on the branch of `raceStart` -/
theorem shared_branch_ownership_single :
    ∃ s, Reachable raceStart
      [.quarantine 0 ⟨16, 8⟩ false, .borrow 0, .locked 0 0, .giveBack 0, .epilogue 0] s ∧
      (∀ t t' b, (s.pc t).buffer = some b → (s.pc t').buffer = some b → t = t') ∧
      (∀ t b, s.workingMemory = some b → (s.pc t).buffer ≠ some b) ∧
      (∀ t b, (s.pc t).buffer = some b → b ∉ s.destroyed) ∧ s.destroyed.Nodup ∧
      (∀ t, s.evictedBy t ++ (s.pc t).pending s.content = s.removedBy t) ∧
      (∀ a, s.calls.count a = s.freed a + s.held a + s.pendingAll a + s.inFlight a) := by
  have h₀ : Reachable raceStart [] raceStart := .nil
  have h₁ := h₀.snoc (a := .quarantine 0 ⟨16, 8⟩ false) (by decide) rfl
  have h₂ := h₁.snoc (a := .borrow 0) trivial rfl
  have h₃ := h₂.snoc (a := .locked 0 0) trivial rfl
  have h₄ := h₃.snoc (a := .giveBack 0) trivial rfl
  have h₅ := h₄.snoc (a := .epilogue 0) trivial rfl
  exact ⟨_, h₅, shared_branch_ownership h₅⟩

end PartitionAlloc.SchedulerLoopQuarantine.Concurrent
