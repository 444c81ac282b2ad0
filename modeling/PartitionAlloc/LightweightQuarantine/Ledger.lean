/-
What the lightweight quarantine does with the objects it is given (`lightweight_quarantine.cc`): each is freed once or
held.

`Quarantine` frees a refused object at once; otherwise `PurgeInternal` frees entries from the top of the live prefix of
`slots_`, and the object is written at `slots_[branch_count_ - 1]` and swapped with a random live entry. Entries at
`branch_count_` and above are stale copies that are overwritten before they are read, so the ledger counts the live
prefix only.

- `swapSlots_perm`, `Branch.push_live`: the write and the swap give the live entries and the new one, in another order;
- `World.ledger_quarantine`: a call adds one to the ledger of its branch and object, and nothing elsewhere;
- `lightweight_quarantine_ledger`: after every sequential run from empty branches, for every branch and object, the
  calls that gave the object to the branch are the branch's frees of it plus its live entries holding it: no object
  is lost, and none is freed more often than it was given;
- `concurrent_quarantine_ledger`: under threads, the same holds in every interleaving, with the objects of the threads
  between their capacity check and their push counted as well, also where `size_in_bytes_held_by_others` wraps.
-/
import PartitionAlloc.LightweightQuarantine.Concurrent

namespace PartitionAlloc.LightweightQuarantine

/-- the live entries: the first `branch_count_` of `slots_` -/
def Branch.live (b : Branch) : List QuarantineSlot := b.slots.take b.branchCount

/-- the swap permutes the array -/
theorem swapSlots_perm {l l' : List QuarantineSlot} {i j : Nat} (h : swapSlots l i j = some l') : l'.Perm l := by
  simp only [swapSlots, Option.bind_eq_bind, Option.bind_eq_some, Option.pure_def, Option.some.injEq] at h
  obtain ⟨a, ha, b, hb, rfl⟩ := h
  obtain ⟨hi, rfl⟩ := List.getElem?_eq_some_iff.1 ha
  obtain ⟨hj, rfl⟩ := List.getElem?_eq_some_iff.1 hb
  refine List.perm_iff_count.2 fun x => ?_
  have hpos : (if (l[i] == x) = true then 1 else 0) ≤ l.count x := by
    split_ifs with h
    · exact List.count_pos_iff.2 (beq_iff_eq.1 h ▸ List.getElem_mem hi)
    · exact Nat.zero_le _
  rw [List.count_set _ _ _ _ (by simpa using hj), List.count_set _ _ _ _ hi]
  simp only [List.getElem_set, ite_self]
  generalize l.count x = c at hpos ⊢
  by_cases h1 : l[i] = x <;> by_cases h2 : l[j] = x <;> simp [h1, h2] at hpos ⊢ <;> omega

/-- **The push.** The live entries after the write of `slots_[branch_count_ - 1]` and the swap are those before and
the new entry, in another order. -/
theorem Branch.push_live {b b' : Branch} {slot : QuarantineSlot} {rand : Nat} (h : b.push slot rand = some b') :
    b'.live.Perm (b.live ++ [slot]) := by
  simp only [Branch.push, setSlot, Option.bind_eq_bind, Option.bind_eq_some, Option.pure_def,
    Option.some.injEq] at h
  obtain ⟨l, hset, l', hswap, rfl⟩ := h
  simp only [Nat.add_sub_cancel] at hset hswap
  split_ifs at hset with hlt
  cases hset
  have hr : rand % (b.branchCount + 1) < b.branchCount + 1 := Nat.mod_lt _ (by omega)
  have htake : (b.slots.set b.branchCount slot).take (b.branchCount + 1) = b.live ++ [slot] := by
    rw [List.set_take, ← List.take_concat_get' _ _ hlt, List.set_append]
    simp [Branch.live, Nat.min_eq_left hlt.le]
  exact htake ▸ swapSlots_perm (swapSlots_take hswap hr (by omega))

/-- how often branch `i` freed `object`, and how many of its live entries hold it -/
def World.ledger (w : World) (i object : Nat) : Nat :=
  w.effects.count (i, object) + (((w.branches[i]?).map fun b => (b.live.map (·.object)).count object).getD 0)

/-- the frees of branch `i` that free `o` -/
theorem count_map_pair (i o : Nat) (l : List QuarantineSlot) :
    (l.map fun s => (i, s.object)).count (i, o) = (l.map (·.object)).count o := by
  induction l with
  | nil => rfl
  | cons s l ih => simp [List.count_cons, ih]

namespace World

variable {K : Nat} {w w' : World} {j : Nat} {b : Branch}

/-- the ledger of a world whose branches and effects are given -/
theorem ledger_mk (root : Root) (branches : List Branch) (effects : List (Nat × Nat)) (i object : Nat) :
    World.ledger ⟨root, branches, effects⟩ i object =
      effects.count (i, object) + ((branches[i]?.map fun b => (b.live.map (·.object)).count object).getD 0) := rfl

/-- **One call.** A `Quarantine` call on branch `j` with `object` adds one to the ledger of `j` and `object`, keeps
every other ledger and the number of branches. -/
theorem ledger_quarantine (hK : 0 < K) (hw : w.Inv K) (hb : w.branches[j]? = some b) {object usableSize rand : Nat}
    {kept : Bool} (hq : w.quarantine K j object usableSize rand = some (w', kept)) :
    w'.branches.length = w.branches.length ∧
      ∀ i o, w'.ledger i o = w.ledger i o + if i = j ∧ o = object then 1 else 0 := by
  by_cases h : w.root.capacityInBytes < w.root.sizeInBytes - b.branchSizeInBytes + usableSize
  · rw [quarantine_miss hb h rand, Option.some.injEq, Prod.mk.injEq] at hq
    obtain ⟨rfl, -⟩ := hq
    refine ⟨rfl, fun i o => ?_⟩
    simp only [ledger, List.count_append, List.count_singleton', Prod.mk.injEq]
    split_ifs <;> simp_all [Nat.add_right_comm]
  · have hs := hw.sound b (List.getElem?_mem hb)
    obtain ⟨c, freed, hloop, hc, -, -, -⟩ := hs.purge_room hK (hw.heldByOthers hb).2 h
    obtain ⟨c', freed', hloop', -, hsplit, -⟩ := purgeInternalLoop_spec (K - 1) (w.root.capacityInBytes - usableSize)
      b.slots b.branchCount w.root.sizeInBytes (by rw [hs.slots_length]; exact hs.branchCount_le)
      (by rw [← hs.branchSizeInBytes_eq]; exact (hw.heldByOthers hb).2)
    rw [hloop, Option.some.injEq, Prod.mk.injEq, Prod.mk.injEq] at hloop'
    obtain ⟨rfl, -, rfl⟩ := hloop'
    obtain ⟨b'', hpush, -⟩ :=
      Branch.push_spec (b := { b with branchCount := c, branchSizeInBytes := b.branchSizeInBytes - sumUsable freed })
        (show c < b.slots.length by rw [hs.slots_length]; exact hc) ⟨object, usableSize⟩ rand
    have hj := (List.getElem?_eq_some_iff.1 hb).1
    rw [quarantine_of_fit hb h (purgeInternal_eq hb hloop) (List.getElem?_set_self hj) hpush, Option.some.injEq,
      Prod.mk.injEq] at hq
    obtain ⟨rfl, -⟩ := hq
    have hlive := (Branch.push_live hpush).map (·.object)
    refine ⟨by simp, fun i o => ?_⟩
    simp only [ledger, List.set_set, List.count_append]
    by_cases hi : i = j
    · subst hi
      rw [List.getElem?_set_self (by simpa using hj), hb]
      simp only [Option.map_some', Option.getD_some]
      rw [hlive.count_eq]
      simp only [Branch.live, List.map_append, List.count_append] at hsplit ⊢
      rw [hsplit, List.map_append, List.count_append, List.map_reverse, List.count_reverse]
      simp only [count_map_pair, List.map_cons, List.map_nil, List.count_singleton', true_and]
      split_ifs <;> omega
    · rw [List.getElem?_set_ne (Ne.symm hi)]
      have hfreed : (freed.map fun s => (j, s.object)).count (i, o) = 0 :=
        List.count_eq_zero.2 fun hm => by
          simp only [List.mem_map, Prod.mk.injEq] at hm
          obtain ⟨_, _, h, _⟩ := hm
          exact hi h.symm
      simp [hfreed, hi]

/-- **Runs.** Over a run of calls, each ledger grows by the calls that gave its object to its branch. -/
theorem ledger_run (hK : 0 < K) : ∀ {w w' : World} (calls : List Call), w.Inv K → w.run K calls = some w' →
    w'.branches.length = w.branches.length ∧
      ∀ i o, w'.ledger i o = w.ledger i o + calls.countP fun c => c.branch = i ∧ c.object = o
  | _, _, [], _, h => by cases h; exact ⟨rfl, fun _ _ => rfl⟩
  | w, w', c :: calls, hw, h => by
    simp only [World.run, Option.bind_eq_bind, Option.bind_eq_some] at h
    obtain ⟨⟨w₁, kept⟩, hq, hrun⟩ := h
    cases hb : w.branches[c.branch]? with
    | none => simp [World.quarantine, hb] at hq
    | some b =>
      obtain ⟨w₂, kept₂, hq₂, hw₂, -⟩ := hw.quarantine hK hb c.object c.usableSize c.rand
      obtain ⟨hlen₁, hstep⟩ := ledger_quarantine hK hw hb hq
      obtain ⟨rfl, -⟩ := Prod.mk.inj (Option.some.inj (hq.symm.trans hq₂))
      obtain ⟨hlen, hrest⟩ := ledger_run hK calls hw₂ hrun
      refine ⟨hlen.trans hlen₁, fun i o => ?_⟩
      rw [hrest, hstep, List.countP_cons]
      by_cases hc : c.branch = i ∧ c.object = o
      · simp [hc.1.symm, hc.2.symm]
        omega
      · have : ¬(i = c.branch ∧ o = c.object) := fun h => hc ⟨h.1.symm, h.2.symm⟩
        simp [this, hc]

end World

/-- **No object is lost, none is freed twice.** After every sequential run of `Quarantine` calls on the `n` branches
of one root, starting empty, for every branch and object: the calls that gave the object to the branch are as many
as the frees of the object by that branch (at once or by a purge) plus the live entries of the branch that hold it. -/
theorem lightweight_quarantine_ledger {K C n : Nat} (hK : 0 < K) {calls : List Call} {w : World}
    (hrun : (World.initial K C n).run K calls = some w) :
    w.branches.length = n ∧ ∀ i b, w.branches[i]? = some b → ∀ object,
      calls.countP (fun c => c.branch = i ∧ c.object = object) =
        w.effects.count (i, object) + (b.live.map (·.object)).count object := by
  obtain ⟨hlen, hledger⟩ := World.ledger_run hK calls (World.Inv.initial K C n) hrun
  refine ⟨by simpa [World.initial] using hlen, fun i b hb object => ?_⟩
  have h := hledger i object
  have h₀ : (World.initial K C n).ledger i object = 0 := by
    simp only [World.initial, World.ledger_mk, List.count_nil, Nat.zero_add, List.getElem?_replicate]
    split <;> simp [Branch.live]
  rw [h₀, Nat.zero_add, World.ledger, hb] at h
  simpa using h.symm

/-- one object given twice to branch 0, which evicts another to make room, and a miss on branch 1 -/
def ledgerCalls : List Call := [⟨0, 100, 4, 0⟩, ⟨0, 200, 4, 1⟩, ⟨0, 100, 4, 0⟩, ⟨1, 300, 6, 0⟩]

theorem lightweight_quarantine_ledger_ledgerCalls :
    ∃ w, (World.initial 2 8 2).run 2 ledgerCalls = some w ∧ 0 < 2 ∧
      (w.branches.length = 2 ∧ ∀ i b, w.branches[i]? = some b → ∀ object,
        ledgerCalls.countP (fun c => c.branch = i ∧ c.object = object) =
          w.effects.count (i, object) + (b.live.map (·.object)).count object) := by
  obtain ⟨w, hrun⟩ : ∃ w, (World.initial 2 8 2).run 2 ledgerCalls = some w := ⟨_, rfl⟩
  exact ⟨w, hrun, by decide, lightweight_quarantine_ledger (by decide) hrun⟩

/-! ## Under threads -/

namespace Concurrent

/-- what the loop in `size_t` frees is the top of the live prefix, whatever the local size does -/
theorem purgeInternalLoopT_take {tc ts : Nat} {slots : List QuarantineSlot} :
    ∀ {n size c size' : Nat} {freed : List QuarantineSlot},
      purgeInternalLoopT tc ts slots n size = some (c, size', freed) → slots.take n = slots.take c ++ freed.reverse
  | 0, _, _, _, _, h => by cases h; simp
  | n + 1, size, c, size', freed, h => by
    unfold purgeInternalLoopT at h
    split_ifs at h
    · cases hx : slots[n]? with
      | none => simp [hx] at h
      | some x =>
        simp only [hx, Option.bind_eq_bind, Option.some_bind, Option.bind_eq_some, Option.pure_def] at h
        obtain ⟨⟨c', s', f'⟩, hloop, h⟩ := h
        simp only [Option.some.injEq, Prod.mk.injEq] at h
        obtain ⟨rfl, rfl, rfl⟩ := h
        rw [List.take_succ, hx, Option.toList_some, purgeInternalLoopT_take hloop]
        simp
    · cases h; simp

/-- one for a thread that holds `o` between its capacity check and its push -/
def Pc.holding (o : Nat) : Pc → Nat
  | .checked object _ _ => if object = o then 1 else 0
  | _ => 0

/-- the object a step gives to the quarantine: `lock` takes the call's object, the other steps none -/
def Action.object? : Action → Option Nat
  | .lock _ object _ _ => some object
  | _ => none

namespace Shared

variable {K : Nat} {s s' : Shared}

/-- the frees of `o`, the live entries holding it, and the threads holding it -/
def ledger (s : Shared) (o : Nat) : Nat :=
  s.effects.count o + (s.branch.live.map (·.object)).count o + (s.threads.map (Pc.holding o)).sum

theorem getElem?_of_idle {t : Nat} (h : s.pc t = .idle) (ht : t < s.threads.length) :
    s.threads[t]? = some .idle := by
  rw [List.getElem?_eq_getElem ht]
  simpa [Shared.pc, List.getElem?_eq_getElem ht] using h

/-- a refused object is freed, an accepted one is held by its thread -/
theorem ledger_lock {t object usableSize rand : Nat} (h : s.lock t object usableSize rand = some s') (o : Nat) :
    s'.ledger o = s.ledger o + if object = o then 1 else 0 := by
  unfold Shared.lock at h
  split_ifs at h with hbusy
  · cases h
    simp only [ledger, List.count_append, List.count_singleton']
    omega
  · cases h
    obtain ⟨-, hidle, ht⟩ := not_or.1 hbusy |>.imp_right not_or.1
    have hp := sum_map_set_add (getElem?_of_idle (not_not.1 hidle) (by omega)) (Pc.holding o)
      (.checked object usableSize rand)
    simp only [ledger, Pc.holding] at hp ⊢
    omega

/-- the purge moves the freed entries from the branch to the frees, and the push moves the thread's object from the
thread to the branch -/
theorem ledger_purgeAndPush {t : Nat} (h : s.purgeAndPush K t = some s') (o : Nat) : s'.ledger o = s.ledger o := by
  unfold Shared.purgeAndPush at h
  split at h
  case h_2 => cases h
  case h_1 object usableSize rand hpc =>
  simp only [Option.bind_eq_bind, Option.bind_eq_some, Option.pure_def, Option.some.injEq] at h
  obtain ⟨⟨c, sz, freed⟩, hloop, b, hpush, rfl⟩ := h
  have hsplit := purgeInternalLoopT_take hloop
  have hlive := (Branch.push_live hpush).map (·.object)
  have hp := sum_map_set_add (getElem?_of_pc hpc (by simp)) (Pc.holding o) (.unlocked usableSize)
  simp only [Branch.live] at hsplit hlive
  simp only [ledger, Pc.holding, Branch.live, hlive.count_eq, hsplit, List.map_append, List.count_append,
    List.map_reverse, List.count_reverse, List.map_cons, List.map_nil, List.count_singleton'] at hp ⊢
  omega

theorem ledger_addStats {t : Nat} (h : s.addStats t = some s') (o : Nat) : s'.ledger o = s.ledger o := by
  unfold Shared.addStats at h
  split at h
  case h_2 => cases h
  case h_1 usableSize hpc =>
  cases h
  have hp := sum_map_set_add (getElem?_of_pc hpc (by simp)) (Pc.holding o) .idle
  simp only [ledger, Pc.holding] at hp ⊢
  omega

theorem ledger_step {a : Action} (h : s.step K a = some s') (o : Nat) :
    s'.ledger o = s.ledger o + ([a].filterMap Action.object?).count o := by
  cases a with
  | lock t object usableSize rand =>
    simp only [List.filterMap, Action.object?, List.count_singleton']
    exact ledger_lock h o
  | purgeAndPush t => exact ledger_purgeAndPush h o
  | addStats t => exact ledger_addStats h o

theorem ledger_initial (C n o : Nat) : (Shared.initial K C n).ledger o = 0 := by
  simp [ledger, Shared.initial, Branch.live, List.map_replicate, Pc.holding]

end Shared

theorem ledger_run {K : Nat} {s₀ s : Shared} {acts : List Action} (h : Reachable K s₀ acts s) (o : Nat) :
    s.ledger o = s₀.ledger o + (acts.filterMap Action.object?).count o := by
  induction h with
  | nil => simp
  | snoc _ hstep ih => rw [Shared.ledger_step hstep, ih, List.filterMap_append, List.count_append, Nat.add_assoc]

/-- **No object is lost under threads.** In every interleaving of `Quarantine` calls on one branch, starting empty,
for every object: the calls that gave it are as many as its frees (at once or by a purge), the live entries that
hold it, and the threads that hold it between their capacity check and their push. This holds also where
`size_in_bytes_held_by_others` wraps and the branch outgrows its capacity: the wrap breaks the byte accounting, not
the slots. -/
theorem concurrent_quarantine_ledger {K C n : Nat} {acts : List Action} {s : Shared}
    (h : Reachable K (Shared.initial K C n) acts s) (object : Nat) :
    (acts.filterMap Action.object?).count object =
      s.effects.count object + (s.branch.live.map (·.object)).count object +
        (s.threads.map (Pc.holding object)).sum := by
  have := ledger_run h object
  rw [Shared.ledger_initial, Nat.zero_add] at this
  exact this.symm

/-- the interleaving of `lock_with_pending_add` on a branch of 2 slots: the second thread is let in past the
capacity -/
def wrapActs : List Action :=
  [.lock 0 16 4 0, .purgeAndPush 0, .lock 1 32 8 0, .purgeAndPush 1, .addStats 0, .addStats 1]

theorem concurrent_quarantine_ledger_wrapActs :
    ∃ s, Reachable 2 (Shared.initial 2 8 2) wrapActs s ∧ s.branch.branchSizeInBytes = 12 ∧
      s.root.capacityInBytes = 8 ∧ ∀ object, (wrapActs.filterMap Action.object?).count object =
        s.effects.count object + (s.branch.live.map (·.object)).count object +
          (s.threads.map (Pc.holding object)).sum := by
  have h₀ : Reachable 2 (Shared.initial 2 8 2) [] (Shared.initial 2 8 2) := .nil
  have h₁ := h₀.snoc (a := .lock 0 16 4 0) rfl
  have h₂ := h₁.snoc (a := .purgeAndPush 0) rfl
  have h₃ := h₂.snoc (a := .lock 1 32 8 0) rfl
  have h₄ := h₃.snoc (a := .purgeAndPush 1) rfl
  have h₅ := h₄.snoc (a := .addStats 0) rfl
  have h₆ := h₅.snoc (a := .addStats 1) rfl
  exact ⟨_, h₆, rfl, rfl, concurrent_quarantine_ledger h₆⟩

end Concurrent

end PartitionAlloc.LightweightQuarantine
