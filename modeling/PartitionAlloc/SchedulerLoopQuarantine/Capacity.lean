/-
How far a `Quarantine` call that keeps its entry leaves the branch from its capacity.

- `threadBound_capacity_bound`: on the thread-bound branch, `PurgeInternal(C - usable_size)` never reads
  `slots_.back()` from an empty `slots_` and leaves at most `C - usable_size` bytes, so the call returns with
  `branch_size_in_bytes_ ≤ C`.
- `shared_capacity_bound`: on the shared branch, `PurgeInternalWithDefferedFree` stops after `kMaxFreeTimesPerPurge`
  victims, so the call returns with `branch_size_in_bytes_ ≤ C` unless it took that many.
- `shared_capacity_overshoot`: 1025 one-byte entries in a shared branch of 1025 bytes, then an entry of 1025 bytes:
  the call returns with 1026 bytes held.
-/
import PartitionAlloc.SchedulerLoopQuarantine.Runs

namespace PartitionAlloc.SchedulerLoopQuarantine

open World

/-! ## The bound -/

/-- the branch a kept entry leaves at `i` -/
theorem retain_getElem? {w : World} {i r : Nat} {b b' : Branch} (hb : w.branches[i]? = some b)
    {freed rest : List QuarantineSlot} (slot : QuarantineSlot) (rand : Nat) :
    ((w.drain i r b freed rest).retain i r b' slot rand).branches[i]? = some (b'.pushSlot slot rand) := by
  simp [List.getElem?_set_self (List.getElem?_eq_some_iff.1 hb).1]

/-- **The thread-bound branch stays within its capacity.** In every sequential run, a `Quarantine` call on a
thread-bound branch that keeps its entry (quarantine on, not paused, bucket not direct-mapped, `usable_size` at most
the capacity `C` it loads) runs `PurgeInternal(C - usable_size)` to the end without reading `slots_.back()` from an
empty `slots_`, leaving at most `C - usable_size` bytes, and returns with `branch_size_in_bytes_ ≤ C`. -/
theorem threadBound_capacity_bound {allocatorRootOf : Nat → Nat} {branches : List (Bool × Nat)} {brpEnabled : Bool}
    {ops : List Op} {w : World} (hrun : Reachable (World.initial allocatorRootOf branches brpEnabled) ops w)
    {i : Nat} {b : Branch} (hb : w.branches[i]? = some b) (hthread : b.threadBound = true) {slot : QuarantineSlot}
    {directMapped : Bool} (hrej : b.rejects directMapped = false) (hcap : slot.usableSize ≤ b.branchCapacityInBytes)
    (rand : Nat) :
    ∃ r, b.root = some r ∧
      (∃ b' root' freed, b.purgeInternal (w.roots r) (b.branchCapacityInBytes - slot.usableSize) =
        some (b', root', freed) ∧ b'.branchSizeInBytes ≤ b.branchCapacityInBytes - slot.usableSize) ∧
      ∃ w' b'', w.quarantine i slot directMapped rand = some w' ∧ w'.branches[i]? = some b'' ∧
        b''.branchCapacityInBytes = b.branchCapacityInBytes ∧ b''.branchSizeInBytes ≤ b''.branchCapacityInBytes := by
  have hw := reachable_inv (Inv.initial _ _ _) hrun
  obtain ⟨r, hr⟩ := Option.ne_none_iff_exists'.1
    ((hw.sound b (List.getElem?_mem hb)).rooted (by simp_all [Branch.rejects]))
  obtain ⟨freed, rest, -, hpurge, -, hq⟩ := quarantine_retained hw hb hr hrej hcap rand
  obtain ⟨hpurge, hle⟩ := hpurge hthread
  refine ⟨r, hr, ⟨_, _, _, hpurge, hle⟩, _, _, hq, retain_getElem? hb slot rand, rfl, ?_⟩
  show sumUsable rest + slot.usableSize ≤ b.branchCapacityInBytes
  omega

/-- a thread-bound branch of 8 bytes holding 4 bytes at 16 takes 8 bytes at 32 -/
theorem threadBound_capacity_bound_sample :
    ∃ w b, Reachable (World.initial (fun _ => 0) [(true, 0)] false)
        [.configure 0 0 sampleConfig, .quarantine 0 ⟨16, 4⟩ false 0] w ∧ w.branches[0]? = some b ∧
      b.threadBound = true ∧ b.rejects false = false ∧ 8 ≤ b.branchCapacityInBytes ∧
      ∃ r, b.root = some r ∧
        (∃ b' root' freed, b.purgeInternal (w.roots r) (b.branchCapacityInBytes - 8) = some (b', root', freed) ∧
          b'.branchSizeInBytes ≤ b.branchCapacityInBytes - 8) ∧
        ∃ w' b'', w.quarantine 0 ⟨32, 8⟩ false 0 = some w' ∧ w'.branches[0]? = some b'' ∧
          b''.branchCapacityInBytes = b.branchCapacityInBytes ∧ b''.branchSizeInBytes ≤ b''.branchCapacityInBytes := by
  have h₀ : Reachable (World.initial (fun _ => 0) [(true, 0)] false) [] _ := .nil
  have h₁ := h₀.snoc (o := .configure 0 0 sampleConfig) ⟨by decide, by decide⟩ rfl
  have h₂ := h₁.snoc (o := .quarantine 0 ⟨16, 4⟩ false 0) ⟨⟨by decide, by decide⟩, by decide, by decide⟩ rfl
  refine ⟨_, _, h₂, rfl, rfl, rfl, le_rfl, ?_⟩
  exact @threadBound_capacity_bound _ _ _ _ _ h₂ 0 _ rfl rfl ⟨32, 8⟩ false rfl le_rfl 0

/-- **The shared branch's bound.** In every sequential run, a `Quarantine` call on a shared branch that keeps its
entry has `PurgeInternalWithDefferedFree(C - usable_size)` save at most `kMaxFreeTimesPerPurge` victims, and returns
with `branch_size_in_bytes_ ≤ C` unless the purge stopped at `kMaxFreeTimesPerPurge`. -/
theorem shared_capacity_bound {allocatorRootOf : Nat → Nat} {branches : List (Bool × Nat)} {brpEnabled : Bool}
    {ops : List Op} {w : World} (hrun : Reachable (World.initial allocatorRootOf branches brpEnabled) ops w)
    {i : Nat} {b : Branch} (hb : w.branches[i]? = some b) (hshared : b.threadBound = false) {slot : QuarantineSlot}
    {directMapped : Bool} (hrej : b.rejects directMapped = false) (hcap : slot.usableSize ≤ b.branchCapacityInBytes)
    (rand : Nat) :
    ∃ r, b.root = some r ∧ ∃ b' root' toBeFreed,
      b.purgeInternalWithDefferedFree (w.roots r) (b.branchCapacityInBytes - slot.usableSize) =
        some (b', root', toBeFreed) ∧ toBeFreed.length ≤ kMaxFreeTimesPerPurge ∧
      ∃ w' b'', w.quarantine i slot directMapped rand = some w' ∧ w'.branches[i]? = some b'' ∧
        b''.branchCapacityInBytes = b.branchCapacityInBytes ∧
        (b''.branchSizeInBytes ≤ b''.branchCapacityInBytes ∨ toBeFreed.length = kMaxFreeTimesPerPurge) := by
  have hw := reachable_inv (Inv.initial _ _ _) hrun
  obtain ⟨r, hr⟩ := Option.ne_none_iff_exists'.1
    ((hw.sound b (List.getElem?_mem hb)).rooted (by simp_all [Branch.rejects]))
  obtain ⟨freed, rest, -, -, hpurge, hq⟩ := quarantine_retained hw hb hr hrej hcap rand
  obtain ⟨hpurge, hlen, hle⟩ := hpurge hshared
  refine ⟨r, hr, _, _, _, hpurge, by rwa [List.length_map], _, _, hq, retain_getElem? hb slot rand, rfl, ?_⟩
  rw [List.length_map]
  refine hle.imp (fun hle => ?_) id
  show sumUsable rest + slot.usableSize ≤ b.branchCapacityInBytes
  omega

/-- the shared branch of the sample run, holding 4 bytes at 16, takes 8 bytes at 32 -/
theorem shared_capacity_bound_sample :
    ∃ w b, Reachable (World.initial (fun _ => 0) [(false, 0)] true)
        [.configure 0 0 sampleConfig, .quarantine 0 ⟨16, 4⟩ false 0] w ∧ w.branches[0]? = some b ∧
      b.threadBound = false ∧ b.rejects false = false ∧ 8 ≤ b.branchCapacityInBytes ∧
      ∃ r, b.root = some r ∧ ∃ b' root' toBeFreed,
        b.purgeInternalWithDefferedFree (w.roots r) (b.branchCapacityInBytes - 8) = some (b', root', toBeFreed) ∧
        toBeFreed.length ≤ kMaxFreeTimesPerPurge ∧
        ∃ w' b'', w.quarantine 0 ⟨32, 8⟩ false 0 = some w' ∧ w'.branches[0]? = some b'' ∧
          b''.branchCapacityInBytes = b.branchCapacityInBytes ∧
          (b''.branchSizeInBytes ≤ b''.branchCapacityInBytes ∨ toBeFreed.length = kMaxFreeTimesPerPurge) := by
  have h₀ : Reachable (World.initial (fun _ => 0) [(false, 0)] true) [] _ := .nil
  have h₁ := h₀.snoc (o := .configure 0 0 sampleConfig) ⟨by decide, by decide⟩ rfl
  have h₂ := h₁.snoc (o := .quarantine 0 ⟨16, 4⟩ false 0) ⟨⟨by decide, by decide⟩, by decide, by decide⟩ rfl
  refine ⟨_, _, h₂, rfl, rfl, rfl, le_rfl, ?_⟩
  exact @shared_capacity_bound _ _ _ _ _ h₂ 0 _ rfl rfl ⟨32, 8⟩ false rfl le_rfl 0

/-! ## The overshoot -/

theorem purgeInternalWithDefferedFreeLoop_of_le {target size : Nat} (h : size ≤ target) (numOfSlots : Nat)
    (rev : List QuarantineSlot) :
    purgeInternalWithDefferedFreeLoop target size numOfSlots rev = some (size, rev, []) := by
  cases rev <;> simp [purgeInternalWithDefferedFreeLoop, Nat.not_lt.2 h]

/-- swapping the back with itself -/
theorem swapBack_length (l : List QuarantineSlot) (x : QuarantineSlot) : swapBack (l ++ [x]) l.length = l ++ [x] := by
  simp [swapBack]

/-- a shared branch of 1025 bytes, zapping off, no leak -/
def overshootConfig : SchedulerLoopQuarantineConfig := ⟨1025, false, true, false⟩

/-- the `k`-th entry of the fill: one byte at `k`, swapped with itself -/
def fillOp (k : Nat) : Op := .quarantine 0 ⟨k, 1⟩ false k

/-- the branch after `n` entries of the fill -/
def filled (n : Nat) : Branch :=
  { (Branch.new false 0).install 0 overshootConfig with
    slots := (List.range n).map (⟨·, 1⟩), branchSizeInBytes := n }

@[simp] theorem filled_slots_length (n : Nat) : (filled n).slots.length = n := by simp [filled]

@[simp] theorem filled_branchCapacityInBytes (n : Nat) : (filled n).branchCapacityInBytes = 1025 := rfl

theorem mem_filled_slots {n : Nat} {s : QuarantineSlot} (hs : s ∈ (filled n).slots) :
    s.slotStart < n ∧ s.usableSize = 1 := by
  obtain ⟨k, hk, rfl⟩ := List.mem_map.1 hs
  exact ⟨List.mem_range.1 hk, rfl⟩

/-- an entry of the fill is kept without a purge -/
theorem fill_step {w : World} {n : Nat} (hb : w.branches = [filled n]) (hn : n < 1025) :
    ∃ w', w.step (fillOp n) = some w' ∧ w'.branches = [filled (n + 1)] ∧ w'.destroyed = w.destroyed := by
  have hloop := purgeInternalWithDefferedFreeLoop_of_le (show n ≤ 1025 - 1 by omega) 0
    ((List.range n).map (⟨·, 1⟩)).reverse
  have hswap := swapBack_length ((List.range n).map (⟨·, 1⟩)) ⟨n, 1⟩
  rw [List.length_map, List.length_range] at hswap
  simp [World.step, fillOp, World.quarantine, hb, Branch.rejects, filled, Branch.install, Branch.new,
    overshootConfig, Branch.purgeInternalWithDefferedFree, hloop, Branch.pushSlot, hswap, List.range_succ]

theorem fill_reachable : ∀ n ≤ 1025, ∃ w, Reachable (World.initial (fun _ => 0) [(false, 0)] false)
    (.configure 0 0 overshootConfig :: (List.range n).map fillOp) w ∧ w.branches = [filled n] ∧ w.destroyed = []
  | 0, _ => ⟨_, Reachable.nil.snoc (o := .configure 0 0 overshootConfig) ⟨by decide, by decide⟩ rfl, rfl, rfl⟩
  | n + 1, hn => by
    obtain ⟨w, hrun, hb, hd⟩ := fill_reachable n (by omega)
    obtain ⟨w', hstep, hb', hd'⟩ := fill_step hb (by omega)
    refine ⟨w', ?_, hb', hd'.trans hd⟩
    rw [List.range_succ, List.map_append, ← List.cons_append]
    refine hrun.snoc ⟨⟨by simp [hb], by simp [hd]⟩, Nat.one_pos, ?_⟩ hstep
    simp only [hb, List.getElem?_cons_zero, Option.mem_def, Option.some.injEq, forall_eq']
    exact fun s hs => Nat.ne_of_lt (mem_filled_slots hs).1

theorem sumUsable_of_unit {l : List QuarantineSlot} (h : ∀ s ∈ l, s.usableSize = 1) : sumUsable l = l.length := by
  induction l with
  | nil => rfl
  | cons s l ih =>
    rw [sumUsable_cons, h s (List.mem_cons_self _ _), ih fun s hs => h s (List.mem_cons_of_mem _ hs),
      List.length_cons, Nat.add_comm]

/-- **The shared branch overshoots its capacity.** A shared branch of 1025 bytes is filled with 1025 one-byte
entries, with its capacity fixed, and then takes an entry of 1025 bytes: the purge stops at `kMaxFreeTimesPerPurge`
victims, one byte stays, and the call returns with 1026 bytes held. -/
theorem shared_capacity_overshoot :
    ∃ w w' b', Reachable (World.initial (fun _ => 0) [(false, 0)] false)
        (.configure 0 0 overshootConfig :: (List.range 1025).map fillOp) w ∧
      w.Allowed (.quarantine 0 ⟨1025, 1025⟩ false 1025) ∧
      w.step (.quarantine 0 ⟨1025, 1025⟩ false 1025) = some w' ∧ w'.branches[0]? = some b' ∧
      b'.branchCapacityInBytes = 1025 ∧ b'.branchSizeInBytes = 1026 := by
  obtain ⟨w, hrun, hb, hd⟩ := fill_reachable 1025 le_rfl
  have hw := reachable_inv (Inv.initial _ _ _) hrun
  have hb₀ : w.branches[0]? = some (filled 1025) := by simp [hb]
  obtain ⟨freed, rest, hsplit, -, hpurge, hq⟩ :=
    @quarantine_retained w hw 0 0 (filled 1025) hb₀ rfl ⟨1025, 1025⟩ false rfl le_rfl 1025
  obtain ⟨-, hlen, hle⟩ := hpurge rfl
  have hunit : ∀ s ∈ rest, s.usableSize = 1 := fun s hs =>
    (mem_filled_slots (by rw [← List.mem_reverse, hsplit]; exact List.mem_append_right _ hs)).2
  have htotal : freed.length + rest.length = 1025 := by
    simpa only [List.length_reverse, List.length_append, filled_slots_length] using (congrArg List.length hsplit).symm
  -- the purge took at most 1024 of the 1025 one-byte slots, and had to stop there
  have hrest : rest.length = 1 := by
    rw [sumUsable_of_unit hunit] at hle
    simp only [kMaxFreeTimesPerPurge, filled_branchCapacityInBytes] at hlen hle
    omega
  refine ⟨w, _, _, hrun, ⟨⟨by simp [hb], by simp [hd]⟩, by decide, ?_⟩, hq, retain_getElem? hb₀ _ _, rfl, ?_⟩
  · simp only [hb₀, Option.mem_def, Option.some.injEq, forall_eq']
    exact fun s hs => Nat.ne_of_lt (mem_filled_slots hs).1
  · show sumUsable rest + 1025 = 1026
    rw [sumUsable_of_unit hunit, hrest]

end PartitionAlloc.SchedulerLoopQuarantine
