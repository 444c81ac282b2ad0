/-
Where the calls read `root_`, and what `Purge()` and `Configure()` leave (`scheduler_loop_quarantine.cc`).

`root_` has no initializer and only `Configure` sets it. `PurgeInternal` ends with `root_->size_in_bytes_.fetch_sub` and
`root_->count_.fetch_sub` whatever it freed, so `Purge()`, and the destructor that calls it unless
`leak_on_destruction_` is set, read `root_` of a branch that was never configured. `Quarantine` reads it only past
the fast reject, where the quarantine is on, which only `Configure` turns on; `Configure` reads it only to purge a
branch it had enabled before.

- `step_eq_none_iff`, `unset_root_reads`: from every reachable world, an allowed call does not return exactly when
  `Configure`'s first `PA_CHECK`s fail, or when it is `Purge()` or a purging destructor on a branch whose `root_` no
  `Configure` set;
- `destroy_unconfigured`: the destructor of a fresh branch of either kind reads its unset `root_`;
- `Drained`, `Inv.drained_of_drain`: a purge to 0 frees every entry once, on the branch's account, and lowers its
  root's counters by their number and bytes;
- `purge_configure_drain`: from every reachable world, `Purge()` on a configured branch, and `Configure()` on a
  branch whose quarantine was on (its first `PA_CHECK`s passing), return with the branch empty after such a purge;
- `purge_unconfigured`: `Purge()` on a fresh branch does not return.
-/
import PartitionAlloc.SchedulerLoopQuarantine.Runs

namespace PartitionAlloc.SchedulerLoopQuarantine

namespace World

/-- the call reads `root_` of a branch that no `Configure` set: `Purge()`, or the destructor of a branch that does not
leak -/
def ReadsUnsetRoot (w : World) : Op → Prop
  | .purge i => ∃ b ∈ w.branches[i]?, b.root = none
  | .destroy i => ∃ b ∈ w.branches[i]?, b.leakOnDestruction = false ∧ b.root = none
  | _ => False

/-- `Configure`'s first `PA_CHECK`s fail: the branch is paused, or belongs to another allocator root -/
def FailsConfigureCheck (w : World) : Op → Prop
  | .configure i r _ => ∃ b ∈ w.branches[i]?, b.pauseQuarantine ≠ 0 ∨ b.allocatorRoot ≠ (w.roots r).allocatorRoot
  | _ => False

/-! ## The calls that return -/

variable {w : World} {i : Nat} {b : Branch}

theorem purge_of_root (hw : w.Inv) (hb : w.branches[i]? = some b) {r : Nat} (hr : b.root = some r) :
    w.purge i = some (w.drain i r b b.slots.reverse []) :=
  purgeInternal_zero hw hb hr

theorem configure_of_checks (hw : w.Inv) (hb : w.branches[i]? = some b) {r : Nat}
    (hchk : ¬(b.pauseQuarantine ≠ 0 ∨ b.allocatorRoot ≠ (w.roots r).allocatorRoot))
    (config : SchedulerLoopQuarantineConfig) :
    w.configure i r config =
      if b.enableQuarantine then
        b.root.map fun r₀ => (w.drain i r₀ b b.slots.reverse []).setBranch i ((b.keep []).install r config)
      else some (w.setBranch i (b.install r config)) := by
  have hsb := hw.sound b (List.getElem?_mem hb)
  have hi : i < w.branches.length := (List.getElem?_eq_some_iff.1 hb).1
  unfold World.configure
  simp only [hb, Option.bind_eq_bind, Option.some_bind, if_neg hchk]
  by_cases hen : b.enableQuarantine = true
  · obtain ⟨r₀, hr₀⟩ := Option.ne_none_iff_exists'.1 (hsb.rooted hen)
    simp [hen, hr₀, purgeInternal_zero hw hb hr₀, List.getElem?_set_self hi]
  · simp [hen, hb]

theorem quarantine_isSome (hw : w.Inv) (hb : w.branches[i]? = some b) (slot : QuarantineSlot) (directMapped : Bool)
    (rand : Nat) : (w.quarantine i slot directMapped rand).isSome := by
  cases hrej : b.rejects directMapped
  · have hen : b.enableQuarantine = true := by simp_all [Branch.rejects]
    obtain ⟨r, hr⟩ := Option.ne_none_iff_exists'.1 ((hw.sound b (List.getElem?_mem hb)).rooted hen)
    by_cases hcap : b.branchCapacityInBytes < slot.usableSize
    · simp [World.quarantine, hb, hrej, hr, hcap]
    · obtain ⟨freed, rest, -, -, -, heq⟩ := quarantine_retained hw hb hr hrej (Nat.not_lt.1 hcap) rand
      simp [heq]
  · simp [World.quarantine, hb, hrej]

/-- **Where a call stops.** From a world with the invariant, an allowed call does not return exactly when
`Configure`'s first `PA_CHECK`s fail, or when it reads the unset `root_` of a branch in `Purge()` or its destructor -/
theorem step_eq_none_iff (hw : w.Inv) {o : Op} (ho : w.Allowed o) :
    w.step o = none ↔ w.FailsConfigureCheck o ∨ w.ReadsUnsetRoot o := by
  cases o with
  | configure i r config =>
    obtain ⟨b, hb⟩ := Live.getElem? ho
    simp only [FailsConfigureCheck, ReadsUnsetRoot, hb, Option.mem_def, Option.some.injEq, exists_eq_left',
      or_false, step]
    by_cases hchk : b.pauseQuarantine ≠ 0 ∨ b.allocatorRoot ≠ (w.roots r).allocatorRoot
    · simp [World.configure, hb, hchk]
    · rw [configure_of_checks hw hb hchk config, iff_false_intro hchk, iff_false]
      have hsb := hw.sound b (List.getElem?_mem hb)
      split_ifs with hen
      · obtain ⟨r₀, hr₀⟩ := Option.ne_none_iff_exists'.1 (hsb.rooted hen)
        simp [hr₀]
      · simp
  | quarantine i slot directMapped rand =>
    obtain ⟨b, hb⟩ := Live.getElem? ho.1
    simpa [FailsConfigureCheck, ReadsUnsetRoot, step, Option.isSome_iff_ne_none] using
      quarantine_isSome hw hb slot directMapped rand
  | purge i =>
    obtain ⟨b, hb⟩ := Live.getElem? ho
    simp only [FailsConfigureCheck, ReadsUnsetRoot, hb, Option.mem_def, Option.some.injEq, exists_eq_left',
      false_or, step]
    cases hr : b.root with
    | none => simp [World.purge, World.purgeInternal, hb, hr]
    | some r => simp [purge_of_root hw hb hr]
  | setCapacityInBytes i c =>
    obtain ⟨b, hb⟩ := Live.getElem? ho
    simp [FailsConfigureCheck, ReadsUnsetRoot, step, World.setCapacityInBytes, hb]
  | destroy i =>
    obtain ⟨b, hb⟩ := Live.getElem? ho
    simp only [FailsConfigureCheck, ReadsUnsetRoot, hb, Option.mem_def, Option.some.injEq, exists_eq_left',
      false_or, step]
    cases hleak : b.leakOnDestruction
    · cases hr : b.root with
      | none => simp [World.destroy, World.purge, World.purgeInternal, hb, hr, hleak]
      | some r => simp [World.destroy, purge_of_root hw hb hr, hb, hleak]
    · simp [World.destroy, hb, hleak]
  | pause i =>
    obtain ⟨b, hb⟩ := Live.getElem? ho
    simp [FailsConfigureCheck, ReadsUnsetRoot, step, World.pause, hb]
  | resume i =>
    obtain ⟨b, hb⟩ := Live.getElem? ho.1
    simp [FailsConfigureCheck, ReadsUnsetRoot, step, World.resume, hb]

/-! ## What a purge to 0 leaves -/

/-- what a purge to 0 of branch `i` (`b`, rooted at `r`) leaves in `w'`: the branch holds nothing, each entry it
held went to `FreeNoHooksImmediate` once, on its account, root `r` lost exactly their number and bytes, and the other
roots and branches are as they were -/
structure Drained (w : World) (i r : Nat) (b : Branch) (w' : World) : Prop where
  empty : ∃ b', w'.branches[i]? = some b' ∧ b'.slots = [] ∧ b'.branchSizeInBytes = 0
  effects : w'.effects = w.effects ++ (frees b.slots.reverse).map (i, ·)
  once : (b.slots.map (·.slotStart)).Nodup
  count : (w'.roots r).count + b.slots.length = (w.roots r).count
  sizeInBytes : (w'.roots r).sizeInBytes + sumUsable b.slots = (w.roots r).sizeInBytes
  otherRoots : ∀ r', r' ≠ r → w'.roots r' = w.roots r'
  otherBranches : ∀ j, j ≠ i → w'.branches[j]? = w.branches[j]?

theorem Inv.drained_of_drain (hw : w.Inv) (hb : w.branches[i]? = some b) {r : Nat} (hr : b.root = some r) :
    Drained w i r b (w.drain i r b b.slots.reverse []) := by
  have hsb := hw.sound b (List.getElem?_mem hb)
  have hi : i < w.branches.length := (List.getElem?_eq_some_iff.1 hb).1
  have hcount := w.le_tally hb hr fun b => b.slots.length
  have hbytes := w.le_tally hb hr (·.branchSizeInBytes)
  rw [← hw.count] at hcount
  rw [← hw.sizeInBytes, hsb.size_eq] at hbytes
  refine ⟨⟨b.keep [], by simp [List.getElem?_set_self hi], rfl, rfl⟩, rfl, hsb.nodup, ?_, ?_,
    fun r' hr' => by simp [Function.update_noteq hr'], fun j hj => by simp [List.getElem?_set_ne hj.symm]⟩
  · simp only [drain_roots, Function.update_same, Root.subFreed, List.length_reverse]; omega
  · simp only [drain_roots, Function.update_same, Root.subFreed, sumUsable_reverse]; omega

/-- installing the settings keeps what the purge left -/
theorem Drained.setBranch {w' : World} {r : Nat} (h : Drained w i r b w') {c d : Branch}
    (hc : w'.branches[i]? = some c) (hslots : d.slots = c.slots) (hsize : d.branchSizeInBytes = c.branchSizeInBytes) :
    Drained w i r b (w'.setBranch i d) := by
  have hi : i < w'.branches.length := (List.getElem?_eq_some_iff.1 hc).1
  obtain ⟨b', hb', hnil, hzero⟩ := h.empty
  rw [hc, Option.some.injEq] at hb'
  subst hb'
  exact ⟨⟨d, by simp [List.getElem?_set_self hi], hslots.trans hnil, hsize.trans hzero⟩, h.effects, h.once, h.count,
    h.sizeInBytes, h.otherRoots, fun j hj => by simpa [List.getElem?_set_ne hj.symm] using h.otherBranches j hj⟩

end World

/-- **Where `root_` is read unset.** From every reachable world, an allowed call fails to return exactly when
`Configure`'s first `PA_CHECK`s fail, or when it is `Purge()`, or the destructor of a branch that does not leak, on a
branch whose `root_` no `Configure` has set. `Quarantine`, `SetCapacityInBytes`, `ScopedQuarantineExclusion`, and
`Configure` past its first checks always return. -/
theorem unset_root_reads {allocatorRootOf : Nat → Nat} {branches : List (Bool × Nat)} {brpEnabled : Bool}
    {ops : List Op} {w : World} (hrun : Reachable (World.initial allocatorRootOf branches brpEnabled) ops w) {o : Op}
    (ho : w.Allowed o) : w.step o = none ↔ w.FailsConfigureCheck o ∨ w.ReadsUnsetRoot o :=
  World.step_eq_none_iff (World.reachable_inv (World.Inv.initial _ _ _) hrun) ho

theorem unset_root_reads_fresh :
    (World.initial (fun _ => 0) [(false, 0)] true).Allowed (.destroy 0) ∧
      ((World.initial (fun _ => 0) [(false, 0)] true).step (.destroy 0) = none ↔
        (World.initial (fun _ => 0) [(false, 0)] true).FailsConfigureCheck (.destroy 0) ∨
        (World.initial (fun _ => 0) [(false, 0)] true).ReadsUnsetRoot (.destroy 0)) :=
  ⟨⟨by decide, by decide⟩, unset_root_reads .nil ⟨by decide, by decide⟩⟩

/-- a thread-bound branch (0) and a shared one (1), neither configured -/
def freshPair : World := World.initial (fun _ => 0) [(true, 0), (false, 0)] true

/-- a branch of either kind, destroyed before any `Configure`: its destructor purges, and the purge reads the unset
`root_` -/
theorem destroy_unconfigured :
    freshPair.Allowed (.destroy 0) ∧ freshPair.ReadsUnsetRoot (.destroy 0) ∧ freshPair.step (.destroy 0) = none ∧
      freshPair.Allowed (.destroy 1) ∧ freshPair.ReadsUnsetRoot (.destroy 1) ∧ freshPair.step (.destroy 1) = none :=
  ⟨⟨by decide, List.not_mem_nil 0⟩, ⟨_, rfl, rfl, rfl⟩, rfl, ⟨by decide, List.not_mem_nil 1⟩, ⟨_, rfl, rfl, rfl⟩, rfl⟩

/-- **`Purge()` and `Configure()` drain the branch.** From every reachable world (every quarantined entry has a
positive usable size), `Purge()` on a branch that `Configure` set up returns with the branch empty after a purge to 0:
`slots_` empty, `branch_size_in_bytes_` 0, each entry held before passed to `FreeNoHooksImmediate` exactly once, and
the root's `count_` and `size_in_bytes_` lowered by exactly their number and bytes. So does `Configure()` on a branch
whose quarantine was on, once its first `PA_CHECK`s pass: its `PA_CHECK(slots_.empty())` holds. -/
theorem purge_configure_drain {allocatorRootOf : Nat → Nat} {branches : List (Bool × Nat)} {brpEnabled : Bool}
    {ops : List Op} {w : World} (hrun : Reachable (World.initial allocatorRootOf branches brpEnabled) ops w) {i r : Nat}
    {b : Branch} (hb : w.branches[i]? = some b) (hr : b.root = some r) :
    (∃ w', w.purge i = some w' ∧ World.Drained w i r b w') ∧
    ∀ r' config, b.enableQuarantine = true → b.pauseQuarantine = 0 →
      b.allocatorRoot = (w.roots r').allocatorRoot →
      ∃ w', w.configure i r' config = some w' ∧ World.Drained w i r b w' := by
  have hw := World.reachable_inv (World.Inv.initial _ _ _) hrun
  refine ⟨⟨_, World.purge_of_root hw hb hr, hw.drained_of_drain hb hr⟩, fun r' config hen hpause hroot => ?_⟩
  have hchk : ¬(b.pauseQuarantine ≠ 0 ∨ b.allocatorRoot ≠ (w.roots r').allocatorRoot) := by simp [hpause, hroot]
  have hi : i < w.branches.length := (List.getElem?_eq_some_iff.1 hb).1
  rw [World.configure_of_checks hw hb hchk config, if_pos hen, hr]
  exact ⟨_, rfl, (hw.drained_of_drain hb hr).setBranch (c := b.keep []) (by simp [List.getElem?_set_self hi]) rfl rfl⟩

theorem purge_configure_drain_sample :
    ∃ w b, Reachable (World.initial (fun _ => 0) [(false, 0)] true) (sampleOps.take 2) w ∧ w.branches[0]? = some b ∧
      b.slots = [⟨16, 4⟩] ∧ b.root = some 0 ∧
      (∃ w', w.purge 0 = some w' ∧ World.Drained w 0 0 b w') ∧
      ∀ r' config, b.enableQuarantine = true → b.pauseQuarantine = 0 →
        b.allocatorRoot = (w.roots r').allocatorRoot →
        ∃ w', w.configure 0 r' config = some w' ∧ World.Drained w 0 0 b w' := by
  have h₀ : Reachable (World.initial (fun _ => 0) [(false, 0)] true) [] _ := .nil
  have h₁ := h₀.snoc (o := .configure 0 0 sampleConfig) ⟨by decide, by decide⟩ rfl
  have h₂ := h₁.snoc (o := .quarantine 0 ⟨16, 4⟩ false 0) ⟨⟨by decide, by decide⟩, by decide, by decide⟩ rfl
  exact ⟨_, _, h₂, rfl, rfl, rfl, purge_configure_drain h₂ rfl rfl⟩

/-- `Purge()` on a fresh branch of either kind reads its unset `root_` -/
theorem purge_unconfigured :
    freshPair.Allowed (.purge 0) ∧ freshPair.branches[0]? = some (Branch.new true 0) ∧ freshPair.purge 0 = none ∧
      freshPair.Allowed (.purge 1) ∧ freshPair.branches[1]? = some (Branch.new false 0) ∧ freshPair.purge 1 = none :=
  ⟨⟨by decide, List.not_mem_nil 0⟩, rfl, rfl, ⟨by decide, List.not_mem_nil 1⟩, rfl, rfl⟩

end PartitionAlloc.SchedulerLoopQuarantine
