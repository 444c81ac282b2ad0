/-
What every sequential run of the lightweight quarantine keeps (`lightweight_quarantine.cc`).

The capacity is shared by all branches of a root, while a branch evicts only its own entries. The bound holds
because `Quarantine` refuses an entry that would not fit even once its branch is empty, and `PurgeInternal` compares
the root's whole `size_in_bytes_` with `capacity - usable_size`: its loop stops with an empty branch (the others'
bytes then fit, by the check) or with the total under target.

- `Inv.quarantine`: from a world whose root counters are the sums of its branches' and whose bytes are within the
  capacity, a call on any branch returns, keeps all of this and the capacity, and misses exactly when the other
  branches' bytes and the entry's exceed the capacity.
- `Inv.run`: the same over whole runs.
- `lightweight_quarantine_accounting`: every run from empty branches.
-/
import PartitionAlloc.LightweightQuarantine.Branch

namespace PartitionAlloc.LightweightQuarantine

/-! ## The invariant -/

/-- what a branch keeps between calls: the array has its `kQuarantineCapacityCount` entries, at most that many are
live, and `branch_size_in_bytes_` is their bytes -/
structure Branch.Sound (kQuarantineCapacityCount : Nat) (b : Branch) : Prop where
  slots_length : b.slots.length = kQuarantineCapacityCount
  branchCount_le : b.branchCount ≤ kQuarantineCapacityCount
  branchSizeInBytes_eq : b.branchSizeInBytes = sumUsable (b.slots.take b.branchCount)

/-- **The purge leaves room.** When the entry fits once the branch is empty, `PurgeInternal`'s loop, run from a
root size that covers the branch, stops below `kQuarantineCapacityCount` entries, with the root's bytes plus the
entry's within the capacity. -/
theorem Branch.Sound.purge_room {K : Nat} {b : Branch} (hs : b.Sound K) (hK : 0 < K) {C usableSize sizeInBytes : Nat}
    (hle : b.branchSizeInBytes ≤ sizeInBytes) (hfit : ¬C < sizeInBytes - b.branchSizeInBytes + usableSize) :
    ∃ c freed, purgeInternalLoop (K - 1) (C - usableSize) b.slots b.branchCount sizeInBytes =
        some (c, sizeInBytes - sumUsable freed, freed) ∧
      c < K ∧ b.branchCount = c + freed.length ∧ b.branchSizeInBytes = sumUsable (b.slots.take c) + sumUsable freed ∧
      sizeInBytes - sumUsable freed + usableSize ≤ C := by
  obtain ⟨hlen, hcount, hsize⟩ := hs
  obtain ⟨c, freed, hloop, hcn, hsplit, hstop⟩ := purgeInternalLoop_spec (K - 1) (C - usableSize) b.slots
    b.branchCount sizeInBytes (by omega) (hsize ▸ hle)
  have hlength : b.branchCount = c + freed.length := by
    simpa [Nat.min_eq_left (show c ≤ b.slots.length by omega),
      Nat.min_eq_left (show b.branchCount ≤ b.slots.length by omega)] using congrArg List.length hsplit
  have hbytes : b.branchSizeInBytes = sumUsable (b.slots.take c) + sumUsable freed := by
    simpa [hsize] using congrArg sumUsable hsplit
  refine ⟨c, freed, hloop, by omega, hlength, hbytes, ?_⟩
  rcases hstop with rfl | ⟨-, hroom⟩
  · simp only [List.take_zero, sumUsable_nil] at hbytes
    omega
  · omega

namespace World

/-- every branch is sound, the root's counters are the sums of the branches', and its bytes are within the capacity -/
structure Inv (kQuarantineCapacityCount : Nat) (w : World) : Prop where
  sound : ∀ b ∈ w.branches, b.Sound kQuarantineCapacityCount
  sizeInBytes_eq : w.root.sizeInBytes = (w.branches.map (·.branchSizeInBytes)).sum
  count_eq : w.root.count = (w.branches.map (·.branchCount)).sum
  sizeInBytes_le : w.root.sizeInBytes ≤ w.root.capacityInBytes

variable {K : Nat} {w : World} {i : Nat} {b : Branch}

/-- `size_in_bytes_held_by_others` is the other branches' bytes, and does not truncate -/
theorem Inv.heldByOthers (hw : w.Inv K) (hb : w.branches[i]? = some b) :
    w.root.sizeInBytes - b.branchSizeInBytes = ((w.branches.eraseIdx i).map (·.branchSizeInBytes)).sum ∧
      b.branchSizeInBytes ≤ w.root.sizeInBytes := by
  have := sum_map_eraseIdx_add hb (·.branchSizeInBytes)
  rw [hw.sizeInBytes_eq]
  omega

theorem Inv.branchCount_le (hw : w.Inv K) (hb : w.branches[i]? = some b) : b.branchCount ≤ w.root.count := by
  have := sum_map_eraseIdx_add hb (·.branchCount)
  rw [hw.count_eq]
  omega

theorem Inv.initial (K C n : Nat) : (World.initial K C n).Inv K where
  sound b hb := by
    obtain rfl := List.eq_of_mem_replicate hb
    exact ⟨List.length_replicate _ _, Nat.zero_le _, rfl⟩
  sizeInBytes_eq := by simp [World.initial]
  count_eq := by simp [World.initial]
  sizeInBytes_le := Nat.zero_le _

/-! ## One call -/

/-- a miss frees the object and counts it, and changes nothing else -/
theorem quarantine_miss (hb : w.branches[i]? = some b) {object usableSize : Nat}
    (h : w.root.capacityInBytes < w.root.sizeInBytes - b.branchSizeInBytes + usableSize) (rand : Nat) :
    w.quarantine K i object usableSize rand =
      some ({ w with root := w.root.recordMiss, effects := w.effects ++ [(i, object)] }, false) := by
  simp [World.quarantine, hb, h]

theorem Inv.recordMiss (hw : w.Inv K) (e : List (Nat × Nat)) :
    ({ w with root := w.root.recordMiss, effects := e } : World).Inv K :=
  ⟨hw.sound, hw.sizeInBytes_eq, hw.count_eq, hw.sizeInBytes_le⟩

/-- replacing branch `i` by a sound branch, with the root's counters moved by the difference, keeps the invariant -/
theorem Inv.replace (hw : w.Inv K) (hb : w.branches[i]? = some b) {b' : Branch} (hb' : b'.Sound K) {root : Root}
    (hsize : root.sizeInBytes + b.branchSizeInBytes = w.root.sizeInBytes + b'.branchSizeInBytes)
    (hcount : root.count + b.branchCount = w.root.count + b'.branchCount) (hle : root.sizeInBytes ≤ root.capacityInBytes)
    (effects : List (Nat × Nat)) : (⟨root, w.branches.set i b', effects⟩ : World).Inv K where
  sound x hx := (List.mem_or_eq_of_mem_set hx).elim (hw.sound x) (· ▸ hb')
  sizeInBytes_eq := by
    have := sum_map_set_add hb (·.branchSizeInBytes) b'
    have := hw.sizeInBytes_eq
    dsimp only
    omega
  count_eq := by
    have := sum_map_set_add hb (·.branchCount) b'
    have := hw.count_eq
    dsimp only
    omega
  sizeInBytes_le := hle

/-- **A call that fits.** When the entry fits once its branch is empty, the call purges, pushes in bounds, returns
`true`, and keeps the invariant. -/
theorem Inv.quarantine_fit (hK : 0 < K) (hw : w.Inv K) (hb : w.branches[i]? = some b) {object usableSize : Nat}
    (h : ¬w.root.capacityInBytes < w.root.sizeInBytes - b.branchSizeInBytes + usableSize) (rand : Nat) :
    ∃ w', w.quarantine K i object usableSize rand = some (w', true) ∧ w'.Inv K ∧
      w'.root.capacityInBytes = w.root.capacityInBytes := by
  have hs := hw.sound b (List.getElem?_mem hb)
  have hle := (hw.heldByOthers hb).2
  have hcount := hw.branchCount_le hb
  obtain ⟨c, freed, hloop, hc, hlength, hbytes, hroom⟩ := hs.purge_room hK hle h
  obtain ⟨b'', hpush, hlen'', hcount'', hsize'', hsum''⟩ :=
    Branch.push_spec (b := { b with branchCount := c, branchSizeInBytes := b.branchSizeInBytes - sumUsable freed })
      (show c < b.slots.length by rw [hs.slots_length]; exact hc) ⟨object, usableSize⟩ rand
  dsimp only at hlen'' hcount'' hsize'' hsum''
  refine ⟨_, World.quarantine_of_fit hb h (World.purgeInternal_eq hb hloop)
    (List.getElem?_set_self (List.getElem?_eq_some_iff.1 hb).1) hpush, ?_, rfl⟩
  rw [List.set_set]
  exact hw.replace hb ⟨hlen''.trans hs.slots_length, by omega, by omega⟩ (by dsimp [Root.addQuarantined]; omega)
    (by dsimp [Root.addQuarantined]; omega) (by dsimp [Root.addQuarantined]; omega) _

/-- **One call.** From the invariant, a `Quarantine` call on any branch returns; it misses exactly when the other
branches' bytes and the entry's exceed the capacity, and a miss only frees the object and counts it. The world
after the call keeps the invariant and the capacity. -/
theorem Inv.quarantine (hK : 0 < K) (hw : w.Inv K) (hb : w.branches[i]? = some b) (object usableSize rand : Nat) :
    ∃ w' kept, w.quarantine K i object usableSize rand = some (w', kept) ∧ w'.Inv K ∧
      w'.root.capacityInBytes = w.root.capacityInBytes ∧
      (kept = false ↔ w.root.capacityInBytes < w.root.sizeInBytes - b.branchSizeInBytes + usableSize) ∧
      (kept = false → w'.root.quarantineMissCount = w.root.quarantineMissCount + 1 ∧ w'.branches = w.branches ∧
        w'.effects = w.effects ++ [(i, object)]) := by
  by_cases h : w.root.capacityInBytes < w.root.sizeInBytes - b.branchSizeInBytes + usableSize
  · exact ⟨_, false, quarantine_miss hb h rand, hw.recordMiss _, rfl, by simp [h], fun _ => ⟨rfl, rfl, rfl⟩⟩
  · obtain ⟨w', hq, hw', hcap⟩ := hw.quarantine_fit hK hb h rand
    exact ⟨w', true, hq, hw', hcap, by simp [h], nofun⟩

/-! ## Whole runs -/

/-- **Runs keep the invariant.** -/
theorem Inv.run (hK : 0 < K) : ∀ {w : World} (calls : List Call) {w' : World}, w.Inv K → w.run K calls = some w' →
    w'.Inv K ∧ w'.root.capacityInBytes = w.root.capacityInBytes
  | _, [], _, hw, h => by cases h; exact ⟨hw, rfl⟩
  | w, c :: calls, w', hw, h => by
    simp only [World.run, Option.bind_eq_bind, Option.bind_eq_some] at h
    obtain ⟨⟨w₁, kept⟩, hq, hrun⟩ := h
    cases hb : w.branches[c.branch]? with
    | none => simp [World.quarantine, hb] at hq
    | some b =>
      obtain ⟨w₂, kept₂, hq₂, hw₂, hcap₂, -⟩ := hw.quarantine hK hb c.object c.usableSize c.rand
      obtain ⟨rfl, -⟩ := Prod.mk.inj (Option.some.inj (hq.symm.trans hq₂))
      obtain ⟨hw', hcap⟩ := Inv.run hK calls hw₂ hrun
      exact ⟨hw', hcap.trans hcap₂⟩

end World

/-- **The lightweight quarantine's accounting.** After every sequential run of `Quarantine` calls on the branches of
one root of capacity `C`, starting empty: the root's `size_in_bytes_` is the sum of the branches' bytes and at most
`C`; its `count_` is the sum of their counts; each branch holds at most `kQuarantineCapacityCount` entries in its
array of that size, and its bytes are those of its live entries, at most `C`. The next call on any branch returns
(every `slots_` access in bounds), and returns `false` exactly when the other branches' bytes plus `usable_size`
exceed `C`, after freeing the object and counting a miss. -/
theorem lightweight_quarantine_accounting {K C n : Nat} (hK : 0 < K) {calls : List Call} {w : World}
    (hrun : (World.initial K C n).run K calls = some w) :
    w.root.sizeInBytes = (w.branches.map (·.branchSizeInBytes)).sum ∧ w.root.sizeInBytes ≤ C ∧
      w.root.count = (w.branches.map (·.branchCount)).sum ∧
      (∀ b ∈ w.branches, b.slots.length = K ∧ b.branchCount ≤ K ∧
        b.branchSizeInBytes = sumUsable (b.slots.take b.branchCount) ∧ b.branchSizeInBytes ≤ C) ∧
      ∀ i b, w.branches[i]? = some b → ∀ object usableSize rand, ∃ w' kept,
        w.quarantine K i object usableSize rand = some (w', kept) ∧
        (kept = false ↔ C < ((w.branches.eraseIdx i).map (·.branchSizeInBytes)).sum + usableSize) ∧
        (kept = false → w'.root.quarantineMissCount = w.root.quarantineMissCount + 1 ∧ w'.branches = w.branches ∧
          w'.effects = w.effects ++ [(i, object)]) := by
  obtain ⟨hw, hcap⟩ := World.Inv.run hK calls (World.Inv.initial K C n) hrun
  have hC : w.root.capacityInBytes = C := hcap
  refine ⟨hw.sizeInBytes_eq, hC ▸ hw.sizeInBytes_le, hw.count_eq, fun b hb => ?_, fun i b hb object usableSize rand => ?_⟩
  · have hs := hw.sound b hb
    obtain ⟨j, hj⟩ := List.getElem?_of_mem hb
    exact ⟨hs.slots_length, hs.branchCount_le, hs.branchSizeInBytes_eq,
      (hw.heldByOthers hj).2.trans (hC ▸ hw.sizeInBytes_le)⟩
  · obtain ⟨w', kept, hq, -, -, hmiss, hfree⟩ := hw.quarantine hK hb object usableSize rand
    exact ⟨w', kept, hq, by rw [hmiss, (hw.heldByOthers hb).1, hC], hfree⟩

/-- two branches of two entries under a capacity of 8 bytes: the third call evicts its branch's entry to fit, the
fourth misses -/
def sampleCalls : List Call := [⟨0, 100, 4, 0⟩, ⟨1, 200, 4, 0⟩, ⟨0, 300, 4, 1⟩, ⟨1, 400, 6, 0⟩]

theorem lightweight_quarantine_accounting_sample :
    ∃ w, (World.initial 2 8 2).run 2 sampleCalls = some w ∧ w.root.sizeInBytes ≤ 8 ∧
      w.root.count = (w.branches.map (·.branchCount)).sum := by
  obtain ⟨w, hrun⟩ : ∃ w, (World.initial 2 8 2).run 2 sampleCalls = some w := ⟨_, rfl⟩
  exact ⟨w, hrun, (lightweight_quarantine_accounting (by decide) hrun).2.1,
    (lightweight_quarantine_accounting (by decide) hrun).2.2.1⟩

example : ((World.initial 2 8 2).run 2 sampleCalls).map (fun w => (w.root.sizeInBytes, w.root.quarantineMissCount)) =
    some (8, 1) := rfl

end PartitionAlloc.LightweightQuarantine
