/-
The partitions behind the allocator shim (`allocator_shim_default_dispatch_to_partition_alloc.cc`): `Allocator()`, which
every allocation entry point calls for the root it allocates from, and `ConfigurePartitions()`, which moves the traffic
of each `g_roots[alloc_token]` to the root of `new_main_allocators[alloc_token]`, under every interleaving of allocating
threads with the thread that configures.

Model:
- a root is named by where it lives: `main t` is the root `MainPartitionConstructor::New` builds in the
  `instance_buffer_` of `g_roots[t]`, `configured i` the root of `new_main_allocators[i]`; `none` is `nullptr`.
- `g_roots[t].Get()` is one step: `instance_`, or the root `New` builds, which is then stored (the double-checked
  locking under it is `LeakySingleton`); `Replace` is one store.
- an allocation entry point is two steps of its thread: `Allocator(alloc_token)`, then the allocation from the root it
  returned, which sees that root's `BucketDistribution` at that moment. Roots start in `kNeutral`. A token past
  `kMaxAllocToken` fails `Allocator()`'s `DCHECK` and, with alloc tokens, indexes past `g_roots`: the step is `none`.
- `ConfigurePartitions(distribution)` runs on one thread, a step per statement of its loop body; reading
  `new_main_allocators[alloc_token]` past its two entries, and a failed `PA_CHECK`, end the run (`none`).
  `configureCalls` counts its calls; no code reads it. `PartitionOptions` and `PurgeFlags` are not modelled.
- `EnablePartitionAllocMemoryReclaimer()` and `InitializeDefaultAllocatorPartitionRoot()` run alone, in one step; their
  `DCHECK`s are not evaluated.
- `kMaxAllocToken.value()` and `SHIM_SUPPORTS_ALLOC_TOKEN` are the fields of `Build`.

- `Inv.step`, `reachable_inv`: every interleaving keeps each `g_roots[t]` null, its own root or
  `new_main_allocators[t]`'s, and during the first `ConfigurePartitions` call the roots of the iterations to come
  unused;
- `configure_partitions_cutover`: so `ConfigurePartitions` returns at most once, and with one call no `Allocator()`
  returns a root after `PurgeMemory` ran on it; once the call has returned the configuration is finalized, every
  `g_roots[t]` holds `new_main_allocators[t]`'s root, `OriginalAllocator(t)` is the root it replaced, which was
  purged, and `kMaxAllocToken` is at most 1. The cut-off is for `Allocator()` calls: an allocation whose
  `Allocator()` call came before the `Replace` still allocates from the original root after it was purged (an
  example after the theorem);
- `bucket_distribution_consistent`: with one call, every allocation was served by a root whose bucket distribution has
  not changed since, because the switch comes before `Replace`; a second call switches a root that already serves
  before its `PA_CHECK` stops the process (an example after the theorem).
-/
import Mathlib.Logic.Function.Basic
import Mathlib.Data.List.Basic

namespace PartitionAlloc.Shim

/-- `BucketDistribution` -/
inductive BucketDistribution where
  | neutral
  | denser
  deriving DecidableEq, Repr

/-- a `PartitionRoot`, by where it lives -/
inductive RootRef where
  /-- the root `MainPartitionConstructor::New` builds in `g_roots[t]`'s `instance_buffer_` -/
  | main (t : Nat)
  /-- the root of `new_main_allocators[i]` -/
  | configured (i : Nat)
  deriving DecidableEq, Repr

/-- the roots of `new_main_allocators[2]` -/
def newMainAllocators : List RootRef := [.configured 0, .configured 1]

/-- the build: `kMaxAllocToken.value()` and `SHIM_SUPPORTS_ALLOC_TOKEN` -/
structure Build where
  kMaxAllocToken : Nat
  supportsAllocToken : Bool
  deriving DecidableEq, Repr

/-- the entry of `g_roots` that `Allocator(alloc_token)` reads -/
def Build.slot (b : Build) (token : Nat) : Nat := if b.supportsAllocToken then token else 0

namespace Partitions

/-- an allocating thread -/
inductive Pc where
  | idle
  /-- `Allocator(token)` returned `root` -/
  | loaded (token : Nat) (root : RootRef)
  deriving DecidableEq

/-- where the thread in `ConfigurePartitions(distribution)` is, in the iteration for `alloc_token = t` -/
inductive ConfigurePc where
  | idle
  /-- before `current_root = g_roots[t].Get()` -/
  | get (distribution : BucketDistribution) (t : Nat)
  /-- before `new_root` is read and switched, and `g_original_roots[t] = current_root` -/
  | switch (distribution : BucketDistribution) (t : Nat) (currentRoot : RootRef)
  /-- before `g_roots[t].Replace(new_root)` -/
  | replace (distribution : BucketDistribution) (t : Nat) (currentRoot newRoot : RootRef)
  /-- before `current_root->PurgeMemory(...)` -/
  | purge (distribution : BucketDistribution) (t : Nat) (currentRoot : RootRef)
  /-- before `PA_CHECK(!g_roots_finalized.exchange(true))` -/
  | finalize
  deriving DecidableEq

/-- what the log records -/
inductive Event where
  /-- `Allocator(token)` returns `root` to `thread` -/
  | allocatorReturned (thread token : Nat) (root : RootRef)
  /-- `root` serves an allocation of `thread`, in this bucket distribution -/
  | alloc (thread token : Nat) (root : RootRef) (distribution : BucketDistribution)
  /-- `root->PurgeMemory(...)` -/
  | purgeMemory (root : RootRef)
  /-- `MemoryReclaimer::Instance()->RegisterPartition(root)` -/
  | registerPartition (root : RootRef)
  /-- `ConfigurePartitions` returns -/
  | configurePartitionsReturned
  deriving DecidableEq

/-- the shim's globals, the threads and the log -/
structure Shared where
  /-- `g_roots[t].instance_` -/
  roots : Nat → Option RootRef
  /-- `g_original_roots[t]` -/
  originalRoots : Nat → Option RootRef
  /-- `g_roots_finalized` -/
  rootsFinalized : Bool
  /-- each root's bucket distribution -/
  distribution : RootRef → BucketDistribution
  threads : Nat → Pc
  configurer : ConfigurePc
  configureCalls : Nat
  log : List Event

/-- what a thread does next -/
inductive Action where
  /-- an allocation entry point of `thread` calls `Allocator(token)` -/
  | allocator (thread token : Nat)
  /-- and allocates from the root it got -/
  | alloc (thread : Nat)
  /-- `ConfigurePartitions(distribution)` is called -/
  | configurePartitions (distribution : BucketDistribution)
  /-- the next statement of `ConfigurePartitions` -/
  | configureNext
  | enablePartitionAllocMemoryReclaimer
  | initializeDefaultAllocatorPartitionRoot
  deriving DecidableEq

namespace Shared

/-- zero-initialised globals, roots in the default distribution, and no call in progress -/
def initial : Shared := ⟨fun _ => none, fun _ => none, false, fun _ => .neutral, fun _ => .idle, .idle, 0, []⟩

/-- `g_roots[t].Get()`: `instance_`, or the root `MainPartitionConstructor::New` builds, which is stored -/
def getRoot (s : Shared) (t : Nat) : Shared × RootRef :=
  match s.roots t with
  | some root => (s, root)
  | none => ({ s with roots := Function.update s.roots t (some (.main t)) }, .main t)

/-- `Allocator(alloc_token)` on `thread` -/
def allocator (b : Build) (s : Shared) (thread token : Nat) : Option Shared :=
  match s.threads thread with
  | .idle =>
    if token ≤ b.kMaxAllocToken then
      let (s', root) := s.getRoot (b.slot token)
      some { s' with
        threads := Function.update s'.threads thread (.loaded token root)
        log := s'.log ++ [.allocatorReturned thread token root] }
    else none
  | .loaded _ _ => none

/-- the allocation from the root `Allocator()` returned, in that root's bucket distribution -/
def alloc (s : Shared) (thread : Nat) : Option Shared :=
  match s.threads thread with
  | .loaded token root =>
    some { s with
      threads := Function.update s.threads thread .idle
      log := s.log ++ [.alloc thread token root (s.distribution root)] }
  | .idle => none

/-- `ConfigurePartitions(distribution)` is called -/
def configurePartitions (s : Shared) (distribution : BucketDistribution) : Option Shared :=
  match s.configurer with
  | .idle => some { s with configurer := .get distribution 0, configureCalls := s.configureCalls + 1 }
  | _ => none

/-- the `switch (distribution)`: `kDenser` calls `new_root->SwitchToDenserBucketDistribution()` -/
def switchDistribution (distribution : BucketDistribution) (d : RootRef → BucketDistribution) (newRoot : RootRef) :
    RootRef → BucketDistribution :=
  match distribution with
  | .neutral => d
  | .denser => Function.update d newRoot .denser

/-- the next statement of `ConfigurePartitions`: the loop over `alloc_token`, then the `PA_CHECK` -/
def configureNext (b : Build) (s : Shared) : Option Shared :=
  match s.configurer with
  | .idle => none
  | .get distribution t =>
    let (s', currentRoot) := s.getRoot t
    some { s' with configurer := .switch distribution t currentRoot }
  | .switch distribution t currentRoot => do
    let newRoot ← newMainAllocators[t]?
    pure { s with
      distribution := switchDistribution distribution s.distribution newRoot
      originalRoots := Function.update s.originalRoots t (some currentRoot)
      configurer := .replace distribution t currentRoot newRoot }
  | .replace distribution t currentRoot newRoot =>
    some { s with
      roots := Function.update s.roots t (some newRoot)
      configurer := .purge distribution t currentRoot }
  | .purge distribution t currentRoot =>
    some { s with
      log := s.log ++ [.purgeMemory currentRoot]
      configurer := if t < b.kMaxAllocToken then .get distribution (t + 1) else .finalize }
  | .finalize =>
    if s.rootsFinalized then none
    else some { s with rootsFinalized := true, configurer := .idle, log := s.log ++ [.configurePartitionsReturned] }

/-- `for (alloc_token = 0; alloc_token <= kMaxAllocToken.value(); alloc_token++)` over
`Allocator(AllocToken(alloc_token))`, logging `f` of each root -/
def forEachAllocator (b : Build) (f : RootRef → List Event) (s : Shared) : Shared :=
  (List.range (b.kMaxAllocToken + 1)).foldl
    (fun s token => let (s', root) := s.getRoot (b.slot token); { s' with log := s'.log ++ f root }) s

/-- `EnablePartitionAllocMemoryReclaimer()`: registers each root with the memory reclaimer -/
def enablePartitionAllocMemoryReclaimer (b : Build) (s : Shared) : Shared :=
  s.forEachAllocator b fun root => [.registerPartition root]

/-- `InitializeDefaultAllocatorPartitionRoot()`: builds each root -/
def initializeDefaultAllocatorPartitionRoot (b : Build) (s : Shared) : Shared :=
  s.forEachAllocator b fun _ => []

/-- one step of one thread -/
def step (b : Build) (s : Shared) : Action → Option Shared
  | .allocator thread token => s.allocator b thread token
  | .alloc thread => s.alloc thread
  | .configurePartitions distribution => s.configurePartitions distribution
  | .configureNext => s.configureNext b
  | .enablePartitionAllocMemoryReclaimer => some (s.enablePartitionAllocMemoryReclaimer b)
  | .initializeDefaultAllocatorPartitionRoot => some (s.initializeDefaultAllocatorPartitionRoot b)

end Shared

/-- the states an interleaving of `acts` leads to -/
inductive Reachable (b : Build) (s₀ : Shared) : List Action → Shared → Prop
  | nil : Reachable b s₀ [] s₀
  | snoc {acts : List Action} {s s' : Shared} {a : Action} : Reachable b s₀ acts s → s.step b a = some s' →
      Reachable b s₀ (acts ++ [a]) s'

/-! ## `Get()` and the log -/

namespace Shared

variable {s : Shared}

/-- the root `g_roots[t].Get()` returns -/
def rootOf (s : Shared) (t : Nat) : RootRef := (s.roots t).getD (.main t)

theorem getRoot_eq (s : Shared) (t : Nat) :
    s.getRoot t = ({ s with roots := Function.update s.roots t (some (s.rootOf t)) }, s.rootOf t) := by
  unfold getRoot rootOf
  split <;> rename_i h <;> simp only [h, Option.getD_some, Option.getD_none]
  rw [← h, Function.update_eq_self]

theorem rootOf_configured {t i : Nat} (h : s.rootOf t = .configured i) : s.roots t = some (.configured i) := by
  unfold rootOf at h
  cases hr : s.roots t <;> simp_all

end Shared

/-- no `Allocator()` call returns a root after `PurgeMemory` ran on it -/
def CutOff (log : List Event) : Prop :=
  ∀ (i j : Nat) r thread token, i < j → log[i]? = some (Event.purgeMemory r) →
    log[j]? ≠ some (Event.allocatorReturned thread token r)

theorem CutOff.append_quiet {log es : List Event} (h : CutOff log)
    (hes : ∀ thread token r, Event.allocatorReturned thread token r ∉ es) : CutOff (log ++ es) := by
  intro i j r thread token hij hi hj
  by_cases hlt : j < log.length
  · rw [List.getElem?_append_left (by omega)] at hi
    rw [List.getElem?_append_left hlt] at hj
    exact h i j r thread token hij hi hj
  · rw [List.getElem?_append_right (by omega)] at hj
    exact hes thread token r (List.getElem?_mem hj)

theorem CutOff.append_allocatorReturned {log : List Event} {thread token : Nat} {r : RootRef} (h : CutOff log)
    (hr : Event.purgeMemory r ∉ log) : CutOff (log ++ [.allocatorReturned thread token r]) := by
  intro i j r' thread' token' hij hi hj
  rcases Nat.lt_trichotomy j log.length with hlt | rfl | hgt
  · rw [List.getElem?_append_left (by omega)] at hi
    rw [List.getElem?_append_left hlt] at hj
    exact h i j r' thread' token' hij hi hj
  · rw [List.getElem?_append_left hij] at hi
    rw [List.getElem?_concat_length, Option.some.injEq, Event.allocatorReturned.injEq] at hj
    exact hr (hj.2.2 ▸ List.getElem?_mem hi)
  · rw [List.getElem?_eq_none (by simp; omega)] at hj
    cases hj

/-! ## What every interleaving keeps -/

namespace Shared

/-- `g_roots[t]` is null, or holds its own root or `new_main_allocators[t]`'s -/
def SlotOk (s : Shared) (t : Nat) : Prop :=
  s.roots t = none ∨ s.roots t = some (.main t) ∨ s.roots t = some (.configured t)

/-- the root of `new_main_allocators[i]` has not been handed out -/
def Fresh (s : Shared) (i : Nat) : Prop :=
  s.roots i ≠ some (.configured i) ∧ (∀ thread token, s.threads thread ≠ .loaded token (.configured i)) ∧
    ∀ thread token d, Event.alloc thread token (.configured i) d ∉ s.log

/-- the iteration for `alloc_token = t` is over: `g_roots[t]` holds `new_main_allocators[t]`'s root, and the root it
replaced is `g_original_roots[t]` and was purged -/
def Done (s : Shared) (t : Nat) : Prop :=
  s.roots t = some (.configured t) ∧ s.originalRoots t = some (.main t) ∧ Event.purgeMemory (.main t) ∈ s.log

/-- inside the first call, with the iterations before `t` over and the roots of `new_main_allocators` from `f` on
unused -/
def Midway (s : Shared) (t f : Nat) : Prop :=
  s.configureCalls = 1 ∧ s.rootsFinalized = false ∧ (∀ u < t, s.Done u) ∧ ∀ i, f ≤ i → s.Fresh i

/-- where the first `ConfigurePartitions` call stands -/
def ConfigureOk (b : Build) (s : Shared) : ConfigurePc → Prop
  | .idle => s.configureCalls = 0 ∧ s.rootsFinalized = false ∧ (∀ i, s.Fresh i) ∨
      s.configureCalls = 1 ∧ s.rootsFinalized = true ∧ b.kMaxAllocToken ≤ 1 ∧ ∀ t ≤ b.kMaxAllocToken, s.Done t
  | .get _ t => s.Midway t t
  | .switch _ t currentRoot => s.Midway t t ∧ currentRoot = .main t
  | .replace _ t currentRoot newRoot => s.Midway t (t + 1) ∧ t ≤ 1 ∧ currentRoot = .main t ∧
      newRoot = .configured t ∧ s.originalRoots t = some (.main t)
  | .purge _ t currentRoot => s.Midway t (t + 1) ∧ t ≤ 1 ∧ currentRoot = .main t ∧
      s.roots t = some (.configured t) ∧ s.originalRoots t = some (.main t)
  | .finalize => s.configureCalls = 1 ∧ s.rootsFinalized = false ∧ b.kMaxAllocToken ≤ 1 ∧
      ∀ t ≤ b.kMaxAllocToken, s.Done t

/-- the invariant of every interleaving -/
structure Inv (b : Build) (s : Shared) : Prop where
  slots : ∀ t, s.SlotOk t
  newRoot : ∀ d t currentRoot newRoot, s.configurer = .replace d t currentRoot newRoot → newRoot = .configured t
  finalized : s.rootsFinalized = true ↔ Event.configurePartitionsReturned ∈ s.log
  returned_once : s.log.count .configurePartitionsReturned ≤ 1
  purged : s.configureCalls ≤ 1 → ∀ r, Event.purgeMemory r ∈ s.log →
    ∃ t, r = .main t ∧ s.roots t = some (.configured t)
  cutOff : s.configureCalls ≤ 1 → CutOff s.log
  distribution : s.configureCalls ≤ 1 → ∀ thread token root d, Event.alloc thread token root d ∈ s.log →
    s.distribution root = d
  configurer : s.configureCalls ≤ 1 → s.ConfigureOk b s.configurer

variable {b : Build} {s s' : Shared}

theorem SlotOk.eq_of_some {t : Nat} {r : RootRef} (hs : s.SlotOk t) (h : s.roots t = some r) :
    r = .main t ∨ r = .configured t := by
  rcases hs with h' | h' | h' <;> rw [h'] at h <;> simp_all

/-- a root that `g_roots[t]` holds and that is not `main t` is `new_main_allocators[t]`'s -/
theorem Inv.eq_slot (hs : s.Inv b) {t : Nat} {r : RootRef} (h : s.roots t = some r) :
    (∃ u, r = .main u) → r = .main t := by
  rintro ⟨u, rfl⟩
  exact ((hs.slots t).eq_of_some h).resolve_right (by simp)

/-- the configuring thread's facts survive a step that keeps its fields, only fills null entries of `g_roots`, only
appends to the log and keeps the unused roots unused -/
theorem Midway.frame {t f : Nat} (h : s.Midway t f) (hcalls : s'.configureCalls = s.configureCalls)
    (hfin : s'.rootsFinalized = s.rootsFinalized) (horig : s'.originalRoots = s.originalRoots)
    (hroots : ∀ u r, s.roots u = some r → s'.roots u = some r) (hlog : ∀ e ∈ s.log, e ∈ s'.log)
    (hfresh : ∀ i, s.Fresh i → s'.Fresh i) : s'.Midway t f :=
  ⟨hcalls.trans h.1, hfin.trans h.2.1,
    fun u hu => ⟨hroots _ _ (h.2.2.1 u hu).1, horig ▸ (h.2.2.1 u hu).2.1, hlog _ (h.2.2.1 u hu).2.2⟩,
    fun i hi => hfresh i (h.2.2.2 i hi)⟩

theorem ConfigureOk.frame {pc : ConfigurePc} (h : s.ConfigureOk b pc) (hcalls : s'.configureCalls = s.configureCalls)
    (hfin : s'.rootsFinalized = s.rootsFinalized) (horig : s'.originalRoots = s.originalRoots)
    (hroots : ∀ u r, s.roots u = some r → s'.roots u = some r) (hlog : ∀ e ∈ s.log, e ∈ s'.log)
    (hfresh : ∀ i, s.Fresh i → s'.Fresh i) : s'.ConfigureOk b pc := by
  have hdone : ∀ t, s.Done t → s'.Done t := fun t h => ⟨hroots _ _ h.1, horig ▸ h.2.1, hlog _ h.2.2⟩
  have hmid := fun {t f : Nat} (h : s.Midway t f) => h.frame hcalls hfin horig hroots hlog hfresh
  cases pc with
  | idle =>
    rcases h with ⟨h₁, h₂, h₃⟩ | ⟨h₁, h₂, h₃, h₄⟩
    · exact .inl ⟨hcalls.trans h₁, hfin.trans h₂, fun i => hfresh i (h₃ i)⟩
    · exact .inr ⟨hcalls.trans h₁, hfin.trans h₂, h₃, fun t ht => hdone t (h₄ t ht)⟩
  | get => exact hmid h
  | switch => exact ⟨hmid h.1, h.2⟩
  | replace => exact ⟨hmid h.1, h.2.1, h.2.2.1, h.2.2.2.1, horig ▸ h.2.2.2.2⟩
  | purge => exact ⟨hmid h.1, h.2.1, h.2.2.1, hroots _ _ h.2.2.2.1, horig ▸ h.2.2.2.2⟩
  | finalize => exact ⟨hcalls.trans h.1, hfin.trans h.2.1, h.2.2.1, fun t ht => hdone t (h.2.2.2 t ht)⟩

theorem getRoot_roots_self (s : Shared) (t : Nat) : (s.getRoot t).1.roots t = some (s.getRoot t).2 := by
  rw [getRoot_eq]
  exact Function.update_same _ _ _

theorem getRoot_roots_of_some {t u : Nat} {r : RootRef} (h : s.roots u = some r) :
    (s.getRoot t).1.roots u = some r := by
  rw [getRoot_eq]
  by_cases hu : u = t
  · subst hu
    simp [rootOf, h]
  · simp [Function.update_noteq hu, h]

/-- `Get()` keeps the invariant -/
theorem Inv.getRoot (hs : s.Inv b) (t : Nat) : (s.getRoot t).1.Inv b := by
  have hfill : ∀ u r, s.roots u = some r → (s.getRoot t).1.roots u = some r := fun _ _ => getRoot_roots_of_some
  rw [getRoot_eq] at hfill ⊢
  have hfresh : ∀ i, s.Fresh i →
      Fresh { s with roots := Function.update s.roots t (some (s.rootOf t)) } i := fun i ⟨h₁, h₂, h₃⟩ =>
    ⟨fun h => h₁ (by
      dsimp only at h
      by_cases hi : i = t
      · subst hi
        rw [Function.update_same, Option.some.injEq] at h
        exact rootOf_configured h
      · rwa [Function.update_noteq hi] at h), h₂, h₃⟩
  refine ⟨fun u => ?_, hs.newRoot, hs.finalized, hs.returned_once,
    fun hc r hr => (hs.purged hc r hr).imp fun u h => ⟨h.1, hfill _ _ h.2⟩, hs.cutOff, hs.distribution,
    fun hc => (hs.configurer hc).frame rfl rfl rfl hfill (fun _ h => h) hfresh⟩
  by_cases hu : u = t
  · subst hu
    dsimp only [SlotOk]
    rw [Function.update_same]
    rcases hs.slots u with h | h | h <;> simp [rootOf, h]
  · simpa only [SlotOk, Function.update_noteq hu] using hs.slots u

/-- `Allocator()` returns a root of `g_roots` to an idle thread -/
theorem Inv.load (hs : s.Inv b) {slot thread token : Nat} {r : RootRef} (hr : s.roots slot = some r) :
    ({ s with
      threads := Function.update s.threads thread (.loaded token r)
      log := s.log ++ [.allocatorReturned thread token r] } : Shared).Inv b := by
  have hfresh : ∀ i, s.Fresh i → Fresh { s with
      threads := Function.update s.threads thread (.loaded token r)
      log := s.log ++ [.allocatorReturned thread token r] } i := fun i ⟨h₁, h₂, h₃⟩ => by
    refine ⟨h₁, fun thread' token' h => ?_, by simpa using h₃⟩
    dsimp only at h
    by_cases ht : thread' = thread
    · subst ht
      rw [Function.update_same, Pc.loaded.injEq] at h
      obtain ⟨rfl, rfl⟩ := h
      rcases (hs.slots slot).eq_of_some hr with h | h
      · cases h
      · cases h
        exact h₁ hr
    · rw [Function.update_noteq ht] at h
      exact h₂ thread' token' h
  refine ⟨hs.slots, hs.newRoot, by rw [hs.finalized]; simp, by simpa using hs.returned_once,
    fun hc r' hr' => hs.purged hc r' (by simpa using hr'), fun hc => (hs.cutOff hc).append_allocatorReturned ?_,
    fun hc _ _ _ _ h => hs.distribution hc _ _ _ _ (by simpa using h),
    fun hc => (hs.configurer hc).frame rfl rfl rfl (fun _ _ h => h) (fun _ h => by simp [h]) hfresh⟩
  intro hp
  obtain ⟨u, rfl, hu⟩ := hs.purged hc r hp
  cases hs.eq_slot hr ⟨u, rfl⟩
  rw [hr] at hu
  cases hu

theorem Inv.allocator (hs : s.Inv b) {thread token : Nat} (h : s.allocator b thread token = some s') : s'.Inv b := by
  unfold Shared.allocator at h
  split at h
  · split at h
    · have h₁ := hs.getRoot (b.slot token)
      have h₂ := getRoot_roots_self s (b.slot token)
      generalize s.getRoot (b.slot token) = p at h h₁ h₂
      obtain ⟨s₁, r⟩ := p
      cases h
      exact h₁.load h₂
    · cases h
  · cases h

theorem Inv.alloc (hs : s.Inv b) {thread : Nat} (h : s.alloc thread = some s') : s'.Inv b := by
  unfold Shared.alloc at h
  split at h
  next token root hth =>
    cases h
    have hfresh : ∀ i, s.Fresh i → Fresh { s with
        threads := Function.update s.threads thread .idle
        log := s.log ++ [.alloc thread token root (s.distribution root)] } i := fun i ⟨h₁, h₂, h₃⟩ => by
      refine ⟨h₁, fun thread' token' h => ?_, fun thread' token' d h => ?_⟩
      · dsimp only at h
        by_cases ht : thread' = thread
        · subst ht
          rw [Function.update_same] at h
          cases h
        · rw [Function.update_noteq ht] at h
          exact h₂ thread' token' h
      · rcases List.mem_append.1 h with h | h
        · exact h₃ _ _ _ h
        · simp only [List.mem_singleton, Event.alloc.injEq] at h
          obtain ⟨rfl, rfl, rfl, -⟩ := h
          exact h₂ _ _ hth
    refine ⟨hs.slots, hs.newRoot, by rw [hs.finalized]; simp, by simpa using hs.returned_once,
      fun hc r' hr' => hs.purged hc r' (by simpa using hr'), fun hc => (hs.cutOff hc).append_quiet (by simp),
      fun hc thread' token' root' d h => ?_,
      fun hc => (hs.configurer hc).frame rfl rfl rfl (fun _ _ h => h) (fun _ h => by simp [h]) hfresh⟩
    rcases List.mem_append.1 h with h | h
    · exact hs.distribution hc _ _ _ _ h
    · simp only [List.mem_singleton, Event.alloc.injEq] at h
      obtain ⟨-, -, rfl, rfl⟩ := h
      rfl
  next => cases h

theorem Inv.configurePartitions (hs : s.Inv b) {d : BucketDistribution} (h : s.configurePartitions d = some s') :
    s'.Inv b := by
  unfold Shared.configurePartitions at h
  split at h
  next hidle =>
    cases h
    refine ⟨hs.slots, fun _ _ _ _ h => (by cases h), hs.finalized, hs.returned_once,
      fun hc => hs.purged (Nat.le_of_succ_le hc), fun hc => hs.cutOff (Nat.le_of_succ_le hc),
      fun hc => hs.distribution (Nat.le_of_succ_le hc), fun hc => ?_⟩
    have h0 : s.configureCalls = 0 := Nat.eq_zero_of_le_zero (Nat.le_of_succ_le_succ hc)
    have hok := hs.configurer (by omega)
    rw [hidle] at hok
    obtain ⟨-, hfin, hfresh⟩ | ⟨h1, -⟩ := hok
    · exact ⟨by simp [h0], hfin, fun u hu => absurd hu (Nat.not_lt_zero u), fun i _ => hfresh i⟩
    · omega
  next => cases h

/-- the configuring thread moves on, the rest unchanged -/
theorem Inv.setConfigurer (hs : s.Inv b) {pc : ConfigurePc}
    (hnew : ∀ d t currentRoot newRoot, pc = .replace d t currentRoot newRoot → newRoot = .configured t)
    (h : s.configureCalls ≤ 1 → s.ConfigureOk b pc) : ({ s with configurer := pc } : Shared).Inv b :=
  ⟨hs.slots, hnew, hs.finalized, hs.returned_once, hs.purged, hs.cutOff, hs.distribution, h⟩

/-- `current_root = g_roots[t].Get()`: the root `g_roots[t]` had is its own -/
theorem Inv.configureGet (hs : s.Inv b) {d : BucketDistribution} {t : Nat} (hpc : s.configurer = .get d t) :
    ({ (s.getRoot t).1 with configurer := .switch d t (s.getRoot t).2 } : Shared).Inv b := by
  refine (hs.getRoot t).setConfigurer (fun _ _ _ _ h => by cases h) fun hc => ⟨?_, ?_⟩
  · have hok := (hs.getRoot t).configurer hc
    rw [getRoot_eq] at hok ⊢
    simpa only [hpc] using hok
  · rw [getRoot_eq] at hc ⊢
    have hok := hs.configurer hc
    rw [hpc] at hok
    rcases hs.slots t with h | h | h
    · simp [rootOf, h]
    · simp [rootOf, h]
    · exact absurd h (hok.2.2.2 t le_rfl).1

theorem newMainAllocators_getElem? {t : Nat} {newRoot : RootRef} (h : newMainAllocators[t]? = some newRoot) :
    t ≤ 1 ∧ newRoot = .configured t := by
  rcases t with _ | _ | t <;> simp_all [newMainAllocators]

theorem switchDistribution_of_ne {distribution : BucketDistribution} {d : RootRef → BucketDistribution}
    {newRoot r : RootRef} (h : r ≠ newRoot) : switchDistribution distribution d newRoot r = d r := by
  cases distribution
  · rfl
  · exact Function.update_noteq h _ _

/-- the distribution of `new_main_allocators[t]`'s root is switched while it is still unused -/
theorem Inv.configureSwitch (hs : s.Inv b) {d : BucketDistribution} {t : Nat} {currentRoot newRoot : RootRef}
    (hpc : s.configurer = .switch d t currentRoot) (hnew : newMainAllocators[t]? = some newRoot) :
    ({ s with
      distribution := switchDistribution d s.distribution newRoot
      originalRoots := Function.update s.originalRoots t (some currentRoot)
      configurer := .replace d t currentRoot newRoot } : Shared).Inv b := by
  obtain ⟨ht, rfl⟩ := newMainAllocators_getElem? hnew
  have hok : s.configureCalls ≤ 1 → s.Midway t t ∧ currentRoot = .main t := fun hc => by
    simpa only [ConfigureOk, hpc] using hs.configurer hc
  refine ⟨hs.slots, fun _ _ _ _ h => (by cases h; rfl), hs.finalized, hs.returned_once, hs.purged, hs.cutOff,
    fun hc thread token root d' h => ?_, fun hc => ?_⟩
  · have hne : root ≠ .configured t := by
      rintro rfl
      exact ((hok hc).1.2.2.2 t le_rfl).2.2 _ _ _ h
    exact (switchDistribution_of_ne hne).trans (hs.distribution hc _ _ _ _ h)
  · obtain ⟨⟨h₁, h₂, h₃, h₄⟩, rfl⟩ := hok hc
    refine ⟨⟨h₁, h₂, fun u hu => ⟨(h₃ u hu).1, ?_, (h₃ u hu).2.2⟩, fun i hi => h₄ i (by omega)⟩, ht, rfl, rfl,
      Function.update_same _ _ _⟩
    exact (Function.update_noteq (by omega) _ _).trans (h₃ u hu).2.1

/-- `g_roots[t].Replace(new_root)` -/
theorem Inv.configureReplace (hs : s.Inv b) {d : BucketDistribution} {t : Nat} {currentRoot newRoot : RootRef}
    (hpc : s.configurer = .replace d t currentRoot newRoot) :
    ({ s with
      roots := Function.update s.roots t (some newRoot)
      configurer := .purge d t currentRoot } : Shared).Inv b := by
  obtain rfl := hs.newRoot _ _ _ _ hpc
  have hok : s.configureCalls ≤ 1 → s.Midway t (t + 1) ∧ t ≤ 1 ∧ currentRoot = .main t ∧
      s.originalRoots t = some (.main t) := fun hc => by
    simpa only [ConfigureOk, hpc, true_and] using hs.configurer hc
  have hfill : ∀ u r, s.roots u = some r → r ≠ .main t → Function.update s.roots t (some (.configured t)) u = some r :=
    fun u r h hr => by
      by_cases hu : u = t
      · subst hu
        rcases (hs.slots u).eq_of_some h with rfl | rfl
        · exact absurd rfl hr
        · exact Function.update_same _ _ _
      · rw [Function.update_noteq hu, h]
  refine ⟨fun u => ?_, fun _ _ _ _ h => (by cases h), hs.finalized, hs.returned_once, fun hc r hr => ?_, hs.cutOff,
    hs.distribution, fun hc => ?_⟩
  · by_cases hu : u = t
    · subst hu
      exact .inr (.inr (Function.update_same _ _ _))
    · simpa only [SlotOk, Function.update_noteq hu] using hs.slots u
  · obtain ⟨u, rfl, hu⟩ := hs.purged hc r hr
    exact ⟨u, rfl, hfill u _ hu (by simp)⟩
  · obtain ⟨⟨h₁, h₂, h₃, h₄⟩, ht, rfl, horig⟩ := hok hc
    refine ⟨⟨h₁, h₂, fun u hu => ⟨?_, (h₃ u hu).2⟩, fun i hi => ⟨?_, (h₄ i hi).2⟩⟩, ht, rfl,
      Function.update_same _ _ _, horig⟩
    · exact (Function.update_noteq (by omega) _ _).trans (h₃ u hu).1
    · exact fun h => (h₄ i hi).1 ((Function.update_noteq (by omega) _ _).symm.trans h)

/-- `current_root->PurgeMemory(...)`, then the next iteration or the `PA_CHECK` -/
theorem Inv.configurePurge (hs : s.Inv b) {d : BucketDistribution} {t : Nat} {currentRoot : RootRef}
    (hpc : s.configurer = .purge d t currentRoot) :
    ({ s with
      log := s.log ++ [.purgeMemory currentRoot]
      configurer := if t < b.kMaxAllocToken then .get d (t + 1) else .finalize } : Shared).Inv b := by
  have hok : s.configureCalls ≤ 1 → s.Midway t (t + 1) ∧ t ≤ 1 ∧ currentRoot = .main t ∧
      s.roots t = some (.configured t) ∧ s.originalRoots t = some (.main t) := fun hc => by
    simpa only [ConfigureOk, hpc] using hs.configurer hc
  refine ⟨hs.slots, fun _ _ _ _ h => (by split at h <;> cases h), by rw [hs.finalized]; simp,
    by simpa using hs.returned_once, fun hc r hr => ?_, fun hc => (hs.cutOff hc).append_quiet (by simp),
    fun hc _ _ _ _ h => hs.distribution hc _ _ _ _ (by simpa using h), fun hc => ?_⟩
  · rcases List.mem_append.1 hr with hr | hr
    · exact hs.purged hc r hr
    · obtain ⟨-, -, rfl, hroot, -⟩ := hok hc
      simp only [List.mem_singleton, Event.purgeMemory.injEq] at hr
      exact ⟨t, hr, hroot⟩
  · obtain ⟨⟨h₁, h₂, h₃, h₄⟩, ht, rfl, hroot, horig⟩ := hok hc
    have hdone : ∀ u ≤ t, Done { s with log := s.log ++ [.purgeMemory (.main t)] } u := fun u hu => by
      rcases Nat.lt_or_eq_of_le hu with hu | rfl
      · exact ⟨(h₃ u hu).1, (h₃ u hu).2.1, List.mem_append_left _ (h₃ u hu).2.2⟩
      · exact ⟨hroot, horig, by simp⟩
    split
    · exact ⟨h₁, h₂, fun u hu => hdone u (by omega),
        fun i hi => ⟨(h₄ i hi).1, (h₄ i hi).2.1, by simpa using (h₄ i hi).2.2⟩⟩
    · exact ⟨h₁, h₂, by omega, fun u hu => hdone u (by omega)⟩

/-- `PA_CHECK(!g_roots_finalized.exchange(true))` passes and `ConfigurePartitions` returns -/
theorem Inv.configureFinalize (hs : s.Inv b) (hpc : s.configurer = .finalize) (hfin : s.rootsFinalized = false) :
    ({ s with
      rootsFinalized := true
      configurer := .idle
      log := s.log ++ [.configurePartitionsReturned] } : Shared).Inv b := by
  have hnot : Event.configurePartitionsReturned ∉ s.log := fun h => by simp [hs.finalized.2 h] at hfin
  refine ⟨hs.slots, fun _ _ _ _ h => (by cases h), by simp, by simp [List.count_eq_zero_of_not_mem hnot],
    fun hc r hr => hs.purged hc r (by simpa using hr), fun hc => (hs.cutOff hc).append_quiet (by simp),
    fun hc _ _ _ _ h => hs.distribution hc _ _ _ _ (by simpa using h), fun hc => ?_⟩
  have hok := hs.configurer hc
  rw [hpc] at hok
  obtain ⟨h₁, -, h₃, h₄⟩ := hok
  exact .inr ⟨h₁, rfl, h₃, fun u hu => ⟨(h₄ u hu).1, (h₄ u hu).2.1, List.mem_append_left _ (h₄ u hu).2.2⟩⟩

theorem Inv.configureNext (hs : s.Inv b) (h : s.configureNext b = some s') : s'.Inv b := by
  unfold Shared.configureNext at h
  split at h
  · cases h
  next d t hpc =>
    have h₁ := hs.configureGet hpc
    generalize s.getRoot t = p at h h₁
    cases h
    exact h₁
  next d t currentRoot hpc =>
    cases hnew : newMainAllocators[t]? with
    | none => simp [hnew] at h
    | some newRoot =>
      simp only [hnew, Option.bind_eq_bind, Option.some_bind, Option.pure_def, Option.some.injEq] at h
      exact h ▸ hs.configureSwitch hpc hnew
  next d t currentRoot newRoot hpc =>
    cases h
    exact hs.configureReplace hpc
  next d t currentRoot hpc =>
    cases h
    exact hs.configurePurge hpc
  next hpc =>
    split at h
    · cases h
    next hfin =>
      cases h
      exact hs.configureFinalize hpc (by simpa using hfin)

/-- the log grows by memory-reclaimer registrations -/
theorem Inv.register (hs : s.Inv b) {es : List Event} (hes : ∀ e ∈ es, ∃ r, e = .registerPartition r) :
    ({ s with log := s.log ++ es } : Shared).Inv b := by
  have hquiet : ∀ e ∈ es, (∀ thread token r, e ≠ .allocatorReturned thread token r) ∧
      (∀ thread token r d, e ≠ .alloc thread token r d) ∧ (∀ r, e ≠ .purgeMemory r) ∧
      e ≠ .configurePartitionsReturned := fun e he => by
    obtain ⟨r, rfl⟩ := hes e he
    simp
  have hconf : Event.configurePartitionsReturned ∉ es := fun h => (hquiet _ h).2.2.2 rfl
  refine ⟨hs.slots, hs.newRoot, by rw [hs.finalized]; simp [hconf],
    by simpa [List.count_eq_zero_of_not_mem hconf] using hs.returned_once,
    fun hc r hr => hs.purged hc r ((List.mem_append.1 hr).resolve_right fun h => (hquiet _ h).2.2.1 r rfl),
    fun hc => (hs.cutOff hc).append_quiet fun thread token r h => (hquiet _ h).1 thread token r rfl,
    fun hc thread token root d h =>
      hs.distribution hc _ _ _ _ ((List.mem_append.1 h).resolve_right fun h => (hquiet _ h).2.1 _ _ _ _ rfl),
    fun hc => (hs.configurer hc).frame rfl rfl rfl (fun _ _ h => h) (fun _ h => List.mem_append_left _ h) ?_⟩
  exact fun i ⟨h₁, h₂, h₃⟩ => ⟨h₁, h₂, fun thread token d h =>
    ((List.mem_append.1 h).elim (h₃ _ _ _)) fun h => (hquiet _ h).2.1 _ _ _ _ rfl⟩

theorem Inv.forEachAllocator (hs : s.Inv b) {f : RootRef → List Event}
    (hf : ∀ root, ∀ e ∈ f root, ∃ r, e = .registerPartition r) : (s.forEachAllocator b f).Inv b := by
  unfold Shared.forEachAllocator
  induction List.range (b.kMaxAllocToken + 1) generalizing s with
  | nil => exact hs
  | cons token tokens ih =>
    refine ih ?_
    dsimp only
    have h₁ := hs.getRoot (b.slot token)
    generalize s.getRoot (b.slot token) = p at h₁ ⊢
    obtain ⟨s₁, r⟩ := p
    exact h₁.register (hf r)

theorem Inv.step (hs : s.Inv b) {a : Action} (h : s.step b a = some s') : s'.Inv b := by
  cases a with
  | allocator thread token => exact hs.allocator h
  | alloc thread => exact hs.alloc h
  | configurePartitions d => exact hs.configurePartitions h
  | configureNext => exact hs.configureNext h
  | enablePartitionAllocMemoryReclaimer =>
    cases h
    exact hs.forEachAllocator fun root e he => ⟨root, List.mem_singleton.1 he⟩
  | initializeDefaultAllocatorPartitionRoot =>
    cases h
    exact hs.forEachAllocator fun _ _ he => absurd he (List.not_mem_nil _)

theorem Inv.initial (b : Build) : Shared.initial.Inv b where
  slots _ := .inl rfl
  newRoot _ _ _ _ h := by cases h
  finalized := by simp [Shared.initial]
  returned_once := by simp [Shared.initial]
  purged _ _ h := by cases h
  cutOff _ _ _ _ _ _ _ h := by simp [Shared.initial] at h
  distribution _ _ _ _ _ h := by cases h
  configurer _ := .inl ⟨rfl, rfl, fun _ =>
    ⟨by simp [Shared.initial], by simp [Shared.initial], by simp [Shared.initial]⟩⟩

end Shared

theorem reachable_inv {b : Build} {acts : List Action} {s : Shared} (h : Reachable b Shared.initial acts s) :
    s.Inv b := by
  induction h with
  | nil => exact Shared.Inv.initial b
  | snoc _ hstep ih => exact ih.step hstep

/-- once `ConfigurePartitions` has returned, its first call has done every iteration -/
theorem Shared.ConfigureOk.finished {b : Build} {s : Shared} {pc : ConfigurePc} (h : s.ConfigureOk b pc)
    (hfin : s.rootsFinalized = true) : b.kMaxAllocToken ≤ 1 ∧ ∀ t ≤ b.kMaxAllocToken, s.Done t := by
  cases pc with
  | idle =>
    rcases h with ⟨-, h, -⟩ | ⟨-, -, h₃, h₄⟩
    · simp [h] at hfin
    · exact ⟨h₃, h₄⟩
  | get | finalize => simp [h.2.1] at hfin
  | switch | replace | purge => simp [h.1.2.1] at hfin

/-! ## The runs -/

/-- **`ConfigurePartitions` moves the traffic once.** In every interleaving of allocating threads with the thread
that configures, `ConfigurePartitions` returns at most once. When it is called once, no `Allocator()` call returns a
root after `PurgeMemory` ran on it, and once the call has returned the configuration is finalized, `kMaxAllocToken`
is at most 1 (the loop reads `new_main_allocators[alloc_token]`), and every `g_roots[t]` holds
`new_main_allocators[t]`'s root while `OriginalAllocator(t)` is the root `g_roots[t]` built, which was purged. -/
theorem configure_partitions_cutover {b : Build} {acts : List Action} {s : Shared}
    (h : Reachable b Shared.initial acts s) :
    s.log.count .configurePartitionsReturned ≤ 1 ∧
    (s.configureCalls ≤ 1 → CutOff s.log ∧
      (Event.configurePartitionsReturned ∈ s.log → s.rootsFinalized = true ∧ b.kMaxAllocToken ≤ 1 ∧
        ∀ t ≤ b.kMaxAllocToken, s.roots t = some (.configured t) ∧ s.originalRoots t = some (.main t) ∧
          Event.purgeMemory (.main t) ∈ s.log)) := by
  have hs := reachable_inv h
  refine ⟨hs.returned_once, fun hc => ⟨hs.cutOff hc, fun hret => ?_⟩⟩
  have hfin := hs.finalized.2 hret
  exact ⟨hfin, (hs.configurer hc).finished hfin⟩

/-- an allocation from `g_roots[0]`'s root, `ConfigurePartitions(kDenser)` over two tokens, then an allocation from
the new root -/
def denserActs : List Action :=
  [.allocator 0 0, .alloc 0, .configurePartitions .denser] ++ List.replicate 9 .configureNext ++
    [.allocator 1 0, .alloc 1]

theorem denserActs_run : ∃ s, Reachable ⟨1, true⟩ Shared.initial denserActs s ∧ s.configureCalls = 1 ∧
    s.log = [.allocatorReturned 0 0 (.main 0), .alloc 0 0 (.main 0) .neutral, .purgeMemory (.main 0),
      .purgeMemory (.main 1), .configurePartitionsReturned, .allocatorReturned 1 0 (.configured 0),
      .alloc 1 0 (.configured 0) .denser] := by
  have h₀ : Reachable ⟨1, true⟩ Shared.initial [] _ := .nil
  have h₁ := h₀.snoc (a := .allocator 0 0) rfl
  have h₂ := h₁.snoc (a := .alloc 0) rfl
  have h₃ := h₂.snoc (a := .configurePartitions .denser) rfl
  have h₄ := h₃.snoc (a := .configureNext) rfl
  have h₅ := h₄.snoc (a := .configureNext) rfl
  have h₆ := h₅.snoc (a := .configureNext) rfl
  have h₇ := h₆.snoc (a := .configureNext) rfl
  have h₈ := h₇.snoc (a := .configureNext) rfl
  have h₉ := h₈.snoc (a := .configureNext) rfl
  have h₁₀ := h₉.snoc (a := .configureNext) rfl
  have h₁₁ := h₁₀.snoc (a := .configureNext) rfl
  have h₁₂ := h₁₁.snoc (a := .configureNext) rfl
  have h₁₃ := h₁₂.snoc (a := .allocator 1 0) rfl
  exact ⟨_, h₁₃.snoc (a := .alloc 1) rfl, rfl, rfl⟩

theorem configure_partitions_cutover_denser :
    ∃ s, Reachable ⟨1, true⟩ Shared.initial denserActs s ∧ s.configureCalls ≤ 1 ∧
      Event.configurePartitionsReturned ∈ s.log ∧
      s.log.count .configurePartitionsReturned ≤ 1 ∧
      (s.configureCalls ≤ 1 → CutOff s.log ∧
        (Event.configurePartitionsReturned ∈ s.log → s.rootsFinalized = true ∧ (1 : Nat) ≤ 1 ∧
          ∀ t ≤ 1, s.roots t = some (.configured t) ∧ s.originalRoots t = some (.main t) ∧
            Event.purgeMemory (.main t) ∈ s.log)) := by
  obtain ⟨s, h, hc, hlog⟩ := denserActs_run
  exact ⟨s, h, hc.le, by rw [hlog]; decide, configure_partitions_cutover h⟩

/-- thread 0 gets `g_roots[0]`'s root, `ConfigurePartitions(kNeutral)` runs, then thread 0 allocates -/
def inflightActs : List Action :=
  [.allocator 0 0, .configurePartitions .neutral, .configureNext, .configureNext, .configureNext, .configureNext,
    .alloc 0]

/- An allocation whose `Allocator()` call came before the `Replace` allocates from the original root after
`PurgeMemory` ran on it: the cut-off is for `Allocator()` calls, not for allocations in flight. -/
example :
    ∃ s, Reachable ⟨0, true⟩ Shared.initial inflightActs s ∧
      s.log = [.allocatorReturned 0 0 (.main 0), .purgeMemory (.main 0), .alloc 0 0 (.main 0) .neutral] := by
  have h₀ : Reachable ⟨0, true⟩ Shared.initial [] _ := .nil
  have h₁ := h₀.snoc (a := .allocator 0 0) rfl
  have h₂ := h₁.snoc (a := .configurePartitions .neutral) rfl
  have h₃ := h₂.snoc (a := .configureNext) rfl
  have h₄ := h₃.snoc (a := .configureNext) rfl
  have h₅ := h₄.snoc (a := .configureNext) rfl
  have h₆ := h₅.snoc (a := .configureNext) rfl
  exact ⟨_, h₆.snoc (a := .alloc 0) rfl, rfl⟩

/-- **The bucket distribution of an allocation's root never changes.** In every interleaving with one
`ConfigurePartitions` call, every allocation was served by a root whose bucket distribution is still the one it
had then: `new_main_allocators[t]`'s root is switched before `Replace` hands it out. -/
theorem bucket_distribution_consistent {b : Build} {acts : List Action} {s : Shared}
    (h : Reachable b Shared.initial acts s) (hcalls : s.configureCalls ≤ 1) :
    ∀ thread token root d, Event.alloc thread token root d ∈ s.log → s.distribution root = d :=
  (reachable_inv h).distribution hcalls

theorem bucket_distribution_consistent_denser :
    ∃ s, Reachable ⟨1, true⟩ Shared.initial denserActs s ∧ s.configureCalls ≤ 1 ∧
      Event.alloc 0 0 (.main 0) .neutral ∈ s.log ∧ Event.alloc 1 0 (.configured 0) .denser ∈ s.log ∧
      ∀ thread token root d, Event.alloc thread token root d ∈ s.log → s.distribution root = d := by
  obtain ⟨s, h, hc, hlog⟩ := denserActs_run
  exact ⟨s, h, hc.le, by rw [hlog]; decide, by rw [hlog]; decide, bucket_distribution_consistent h hc.le⟩

/-- `ConfigurePartitions(kNeutral)` runs, thread 0 allocates from the new root, and `ConfigurePartitions(kDenser)`
is called again -/
def twiceActs : List Action :=
  [.configurePartitions .neutral] ++ List.replicate 5 .configureNext ++
    [.allocator 0 0, .alloc 0, .configurePartitions .denser, .configureNext, .configureNext]

/- A second call switches the distribution of a root that has served allocations, before its
`PA_CHECK(!g_roots_finalized.exchange(true))` stops the process. -/
example :
    ∃ s, Reachable ⟨0, true⟩ Shared.initial twiceActs s ∧ s.configureCalls = 2 ∧ s.rootsFinalized = true ∧
      Event.alloc 0 0 (.configured 0) .neutral ∈ s.log ∧ s.distribution (.configured 0) = .denser := by
  have h₀ : Reachable ⟨0, true⟩ Shared.initial [] _ := .nil
  have h₁ := h₀.snoc (a := .configurePartitions .neutral) rfl
  have h₂ := h₁.snoc (a := .configureNext) rfl
  have h₃ := h₂.snoc (a := .configureNext) rfl
  have h₄ := h₃.snoc (a := .configureNext) rfl
  have h₅ := h₄.snoc (a := .configureNext) rfl
  have h₆ := h₅.snoc (a := .configureNext) rfl
  have h₇ := h₆.snoc (a := .allocator 0 0) rfl
  have h₈ := h₇.snoc (a := .alloc 0) rfl
  have h₉ := h₈.snoc (a := .configurePartitions .denser) rfl
  have h₁₀ := h₉.snoc (a := .configureNext) rfl
  exact ⟨_, h₁₀.snoc (a := .configureNext) rfl, rfl, rfl, by decide, rfl⟩

end Partitions

end PartitionAlloc.Shim
