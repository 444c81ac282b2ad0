/-
`AddressPoolManager`'s calls through pool handles (`address_pool_manager.cc`), and runs of all its calls on the whole
registry.

`GetPool(handle)` reads the slot `pools_[handle - 1]`; `Alloc(handle, length)` is `FindChunk(length)` and
`Free(handle, ptr, length)` is `FreeChunk(ptr, length)` of the pool found there. A `Manager` is the registry with, per
handle, the chunks `Alloc` handed out and `Free` has not taken back (ghost state, as `PoolSys.live` is for one pool).

- `getPool_add`, `getPool_remove`, `alloc_eq_some`, `free_eq_some`: what each call does to the pool each handle finds;
  `Alloc` and `Free` through one handle leave every other handle's pool as it was.
- `Manager.Inv.step`, `Manager.reachable_inv`: every call of a run keeps the registry's length, the pool invariant of
  `Runs` for each registered pool with its handle's chunks, and no chunk for a handle without a pool.
- `manager_run_invariant`: so after every call of every run from an empty registry each registered pool keeps that
  invariant, and when the registered pools cover disjoint ranges no two live chunks of the manager overlap, whether
  they come from one pool or from two.

Model:
- a handle outside `[1, kNumPools]` makes `GetPool` read outside `pools_`, and an empty slot is a null `Pool*` that
  `Alloc` and `Free` dereference: both are `none` (the `DCHECK`s are not evaluated).
- `Pool`'s lock is left out: calls are sequential.
- `Manager.Allowed` is the caller's side: `Add` of a range that does not start at 0, requests bounded as in `Runs`,
  and `Free` of a chunk the same handle handed out, with the same rounded size. `Remove` and `ResetForTesting` drop
  the chunks of the pools they destroy.
-/
import PartitionAlloc.AddressPoolManager.Registry
import PartitionAlloc.AddressPoolManager.Runs

namespace PartitionAlloc.AddressPoolManager

/-! ## The calls through a handle -/

/-- `AddressPoolManager::GetPool(handle)`: the pool of slot `handle - 1`; `none` outside `pools_` and for an empty
slot -/
def getPool (pools : List (Option Pool)) (handle : Nat) : Option Pool :=
  if 0 < handle then pools[handle - 1]?.join else none

/-- `AddressPoolManager::Alloc(handle, length)`: the registry after the call and the address returned -/
def alloc (pools : List (Option Pool)) (handle length : Nat) : Option (List (Option Pool) × Nat) :=
  (getPool pools handle).map fun pool =>
    (pools.set (handle - 1) (some (pool.findChunk length).1), (pool.findChunk length).2)

/-- `AddressPoolManager::Free(handle, ptr, length)` -/
def free (pools : List (Option Pool)) (handle ptr length : Nat) : Option (List (Option Pool)) :=
  (getPool pools handle).map fun pool => pools.set (handle - 1) (some (pool.freeChunk ptr length))

/-- the addresses a pool covers: `total_bits_` super pages from `address_begin_` -/
def Pool.bounds (p : Pool) : Nat × Nat := (p.addressBegin, p.addressBegin + p.totalBits * kSuperPageSize)

@[simp] theorem findChunk_bounds (p : Pool) (r : Nat) : (p.findChunk r).1.bounds = p.bounds := by
  simp [Pool.bounds]

@[simp] theorem freeChunk_bounds (p : Pool) (a s : Nat) : (p.freeChunk a s).bounds = p.bounds := rfl

section GetPool

variable {pools pools' : List (Option Pool)} {handle : Nat}

theorem getPool_eq_some {p : Pool} : getPool pools handle = some p ↔ 0 < handle ∧ pools[handle - 1]? = some (some p) := by
  unfold getPool
  by_cases h0 : 0 < handle
  · rw [if_pos h0, Option.join_eq_some]
    exact ⟨fun h => ⟨h0, h⟩, fun h => h.2⟩
  · rw [if_neg h0]
    exact ⟨nofun, fun h => absurd h.1 h0⟩

/-- a handle that finds a pool names a slot of `pools_` -/
theorem getPool_lt {p : Pool} (h : getPool pools handle = some p) : 0 < handle ∧ handle - 1 < pools.length := by
  obtain ⟨h0, hs⟩ := getPool_eq_some.1 h
  refine ⟨h0, Nat.lt_of_not_le fun hle => ?_⟩
  rw [List.getElem?_eq_none_iff.2 hle] at hs
  cases hs

/-- writing slot `handle - 1` changes what `GetPool` finds for `handle` only -/
theorem getPool_set (h0 : 0 < handle) (hlt : handle - 1 < pools.length) (x : Option Pool) (h' : Nat) :
    getPool (pools.set (handle - 1) x) h' = if h' = handle then x else getPool pools h' := by
  by_cases he : h' = handle
  · subst he
    simp [getPool, h0, List.getElem?_set_self hlt]
  · rw [if_neg he]
    unfold getPool
    by_cases hp : 0 < h'
    · rw [if_pos hp, if_pos hp, List.getElem?_set_ne (by omega)]
    · rw [if_neg hp, if_neg hp]

@[simp] theorem getPool_replicate (n h : Nat) : getPool (List.replicate n none) h = none := by
  unfold getPool
  split_ifs
  · rw [List.getElem?_replicate]
    split_ifs <;> rfl
  · rfl

theorem getPool_resetForTesting (h : Nat) : getPool (resetForTesting pools) h = none := by
  rw [resetForTesting_eq, getPool_replicate]

/-- `Add` either finds no empty slot and changes nothing, or builds a pool for a handle that had none and leaves
every other handle's pool as it was -/
theorem getPool_add {kMaxBits : Nat} {ptr length : UInt64} (hadd : add kMaxBits pools ptr length = some (pools', handle)) :
    (handle = 0 ∧ pools' = pools) ∨
    ∃ p, Pool.create kMaxBits ptr length = some p ∧ getPool pools handle = none ∧
      ∀ h', getPool pools' h' = if h' = handle then some p else getPool pools h' := by
  rcases add_spec hadd with ⟨rfl, rfl, -⟩ | ⟨pre, post, p, rfl, -, hp, rfl, rfl⟩
  · exact Or.inl ⟨rfl, rfl⟩
  · have hset : pre ++ some p :: post = (pre ++ none :: post).set (pre.length + 1 - 1) (some p) := by simp
    refine Or.inr ⟨p, hp, ?_, fun h' => ?_⟩
    · rw [getPool, if_pos (Nat.succ_pos _), Nat.add_sub_cancel, getElem?_append_cons_length]
      rfl
    rw [hset]
    exact getPool_set (Nat.succ_pos _) (by simp) _ h'

theorem remove_length (h : remove pools handle = some pools') : pools'.length = pools.length := by
  unfold remove at h
  split_ifs at h
  cases h
  exact List.length_set _ _ _

/-- `Remove` empties the slot of its handle and no other -/
theorem getPool_remove (h : remove pools handle = some pools') (h' : Nat) :
    getPool pools' h' = if h' = handle then none else getPool pools h' := by
  unfold remove at h
  split_ifs at h with hr
  cases h
  exact getPool_set hr.1 (by omega) none h'

/-- `Alloc` is `FindChunk` on the pool of its handle, and leaves every other handle's pool as it was -/
theorem alloc_eq_some {length a : Nat} (h : alloc pools handle length = some (pools', a)) :
    ∃ p, getPool pools handle = some p ∧ a = (p.findChunk length).2 ∧ pools'.length = pools.length ∧
      ∀ h', getPool pools' h' = if h' = handle then some (p.findChunk length).1 else getPool pools h' := by
  obtain ⟨p, hp, heq⟩ := Option.map_eq_some'.1 h
  cases heq
  obtain ⟨h0, hlt⟩ := getPool_lt hp
  exact ⟨p, hp, rfl, List.length_set _ _ _, getPool_set h0 hlt _⟩

/-- `Free` is `FreeChunk` on the pool of its handle, and leaves every other handle's pool as it was -/
theorem free_eq_some {ptr length : Nat} (h : free pools handle ptr length = some pools') :
    ∃ p, getPool pools handle = some p ∧ pools'.length = pools.length ∧
      ∀ h', getPool pools' h' = if h' = handle then some (p.freeChunk ptr length) else getPool pools h' := by
  obtain ⟨p, hp, rfl⟩ := Option.map_eq_some'.1 h
  obtain ⟨h0, hlt⟩ := getPool_lt hp
  exact ⟨p, hp, List.length_set _ _ _, getPool_set h0 hlt _⟩

end GetPool

/-! ## Runs of the manager -/

/-- the registry and, per handle, the chunks `Alloc` handed out and `Free` has not taken back (ghost) -/
structure Manager where
  pools : List (Option Pool)
  live : Nat → List Chunk

/-- the calls of a run -/
inductive Op
  | add (ptr length : UInt64)
  | remove (handle : Nat)
  | alloc (handle length : Nat)
  | free (handle : Nat) (chunk : Chunk) (length : Nat)
  | resetForTesting
deriving DecidableEq

/-- the calls that serve requests from the registered pools and register or destroy none -/
def Op.serves : Op → Bool
  | .alloc _ _ | .free _ _ _ => true
  | .add _ _ | .remove _ | .resetForTesting => false

namespace Manager

/-- an empty registry of `kNumPools` slots -/
def initial (kNumPools : Nat) : Manager := ⟨List.replicate kNumPools none, fun _ => []⟩

/-- one call: a non-zero address `Alloc` returns joins its handle's chunks, `Free` takes its chunk back, and
`Remove` and `ResetForTesting` drop the chunks of the pools they destroy -/
def step (kMaxBits : Nat) (m : Manager) : Op → Option Manager
  | .add ptr length => (add kMaxBits m.pools ptr length).map fun r => ⟨r.1, m.live⟩
  | .remove handle => (remove m.pools handle).map fun pools => ⟨pools, Function.update m.live handle []⟩
  | .alloc handle length => (alloc m.pools handle length).map fun r =>
      ⟨r.1, Function.update m.live handle (if r.2 = 0 then m.live handle else m.live handle ++ [⟨r.2, length⟩])⟩
  | .free handle c length => (free m.pools handle c.address length).map fun pools =>
      ⟨pools, Function.update m.live handle ((m.live handle).erase c)⟩
  | .resetForTesting => some ⟨resetForTesting m.pools, fun _ => []⟩

/-- the caller's side of the contract -/
def Allowed (m : Manager) : Op → Prop
  | .add ptr _ => ptr ≠ 0
  | .alloc _ length => 0 < length ∧ length ≤ 2 ^ 64 - kSuperPageSize
  | .free handle c length =>
    c ∈ m.live handle ∧ bitsAlign length kSuperPageSize = bitsAlign c.requestedSize kSuperPageSize
  | .remove _ | .resetForTesting => True

/-- the managers a run of allowed calls reaches from `m₀`, with the calls made -/
inductive Reachable (kMaxBits : Nat) (m₀ : Manager) : List Op → Manager → Prop
  | nil : Reachable kMaxBits m₀ [] m₀
  | snoc {ops : List Op} {m m' : Manager} {o : Op} : Reachable kMaxBits m₀ ops m → m.Allowed o →
      m.step kMaxBits o = some m' → Reachable kMaxBits m₀ (ops ++ [o]) m'

theorem Reachable.append {kMaxBits : Nat} {m₀ m₁ m : Manager} {ops₁ ops : List Op}
    (h₁ : Reachable kMaxBits m₀ ops₁ m₁) (h : Reachable kMaxBits m₁ ops m) : Reachable kMaxBits m₀ (ops₁ ++ ops) m := by
  induction h with
  | nil => simpa using h₁
  | snoc _ ho hstep ih => simpa [List.append_assoc] using ih.snoc ho hstep

/-- what holds after every call: the registry keeps its slots, each registered pool with its handle's chunks keeps
the pool invariant, and a handle without a pool holds no chunk -/
structure Inv (kNumPools : Nat) (m : Manager) : Prop where
  length : m.pools.length = kNumPools
  pool : ∀ handle p, getPool m.pools handle = some p → PoolSys.Inv ⟨p, m.live handle⟩
  empty : ∀ handle, getPool m.pools handle = none → m.live handle = []

section Step

variable {kMaxBits kNumPools : Nat} {m m' : Manager}

theorem Inv.initial (kNumPools : Nat) : (Manager.initial kNumPools).Inv kNumPools :=
  ⟨List.length_replicate _ _, fun _ p hp => by simp [Manager.initial] at hp, fun _ _ => rfl⟩

theorem Inv.add (hm : m.Inv kNumPools) {ptr length : UInt64} (hptr : ptr ≠ 0)
    (h : m.step kMaxBits (.add ptr length) = some m') : m'.Inv kNumPools := by
  obtain ⟨⟨pools', handle⟩, hadd, rfl⟩ := Option.map_eq_some'.1 h
  rcases getPool_add hadd with ⟨-, rfl⟩ | ⟨q, hq, hnone, hget⟩
  · exact hm
  refine ⟨(add_length hadd).trans hm.length, fun h' p hp => ?_, fun h' hp => ?_⟩ <;> rw [hget] at hp
  · by_cases he : h' = handle
    · rw [if_pos he, Option.some.injEq] at hp
      subst he hp
      rw [hm.empty _ hnone]
      exact inv_create hptr hq
    · rw [if_neg he] at hp
      exact hm.pool h' p hp
  · by_cases he : h' = handle
    · rw [if_pos he] at hp
      cases hp
    · rw [if_neg he] at hp
      exact hm.empty h' hp

theorem Inv.remove (hm : m.Inv kNumPools) {handle : Nat} (h : m.step kMaxBits (.remove handle) = some m') :
    m'.Inv kNumPools := by
  obtain ⟨pools', hrem, rfl⟩ := Option.map_eq_some'.1 h
  refine ⟨(remove_length hrem).trans hm.length, fun h' p hp => ?_, fun h' hp => ?_⟩ <;>
    rw [getPool_remove hrem] at hp <;> dsimp only <;> by_cases he : h' = handle
  · rw [if_pos he] at hp
    cases hp
  · rw [if_neg he] at hp
    rw [Function.update_noteq he]
    exact hm.pool h' p hp
  · rw [he, Function.update_same]
  · rw [if_neg he] at hp
    rw [Function.update_noteq he]
    exact hm.empty h' hp

theorem Inv.alloc (hm : m.Inv kNumPools) {handle r : Nat} (hr0 : 0 < r) (hr : r ≤ 2 ^ 64 - kSuperPageSize)
    (h : m.step kMaxBits (.alloc handle r) = some m') : m'.Inv kNumPools := by
  obtain ⟨⟨pools', a⟩, halloc, rfl⟩ := Option.map_eq_some'.1 h
  obtain ⟨p, hp, rfl, hlen, hget⟩ := alloc_eq_some halloc
  have hfind := inv_find (hm.pool handle p hp) hr0 hr
  simp only [PoolSys.find] at hfind
  generalize p.findChunk r = q at hfind hget ⊢
  obtain ⟨p', a⟩ := q
  refine ⟨hlen.trans hm.length, fun h' q hq => ?_, fun h' hq => ?_⟩ <;> rw [hget] at hq <;> dsimp only <;>
    by_cases he : h' = handle
  · rw [if_pos he, Option.some.injEq] at hq
    subst he hq
    rwa [Function.update_same]
  · rw [if_neg he] at hq
    rw [Function.update_noteq he]
    exact hm.pool h' q hq
  · rw [if_pos he] at hq
    cases hq
  · rw [if_neg he] at hq
    rw [Function.update_noteq he]
    exact hm.empty h' hq

theorem Inv.free (hm : m.Inv kNumPools) {handle size : Nat} {c : Chunk} (hc : c ∈ m.live handle)
    (hsize : bitsAlign size kSuperPageSize = bitsAlign c.requestedSize kSuperPageSize)
    (h : m.step kMaxBits (.free handle c size) = some m') : m'.Inv kNumPools := by
  obtain ⟨pools', hfree, rfl⟩ := Option.map_eq_some'.1 h
  obtain ⟨p, hp, hlen, hget⟩ := free_eq_some hfree
  refine ⟨hlen.trans hm.length, fun h' q hq => ?_, fun h' hq => ?_⟩ <;> rw [hget] at hq <;> dsimp only <;>
    by_cases he : h' = handle
  · rw [if_pos he, Option.some.injEq] at hq
    subst he hq
    rw [Function.update_same]
    exact inv_free (hm.pool h' p hp) hc hsize
  · rw [if_neg he] at hq
    rw [Function.update_noteq he]
    exact hm.pool h' q hq
  · rw [if_pos he] at hq
    cases hq
  · rw [if_neg he] at hq
    rw [Function.update_noteq he]
    exact hm.empty h' hq

theorem Inv.resetForTesting (hm : m.Inv kNumPools) (h : m.step kMaxBits .resetForTesting = some m') :
    m'.Inv kNumPools := by
  cases h
  refine ⟨?_, fun h' p hp => ?_, fun _ _ => rfl⟩
  · rw [resetForTesting_eq, List.length_replicate, hm.length]
  · rw [getPool_resetForTesting] at hp
    cases hp

/-- every allowed call keeps the invariant -/
theorem Inv.step (hm : m.Inv kNumPools) {o : Op} (ho : m.Allowed o) (h : m.step kMaxBits o = some m') :
    m'.Inv kNumPools := by
  cases o with
  | add ptr length => exact hm.add ho h
  | remove handle => exact hm.remove h
  | alloc handle r => exact hm.alloc ho.1 ho.2 h
  | free handle c size => exact hm.free ho.1 ho.2 h
  | resetForTesting => exact hm.resetForTesting h

theorem reachable_inv {m₀ : Manager} {ops : List Op} (h₀ : m₀.Inv kNumPools) (h : Reachable kMaxBits m₀ ops m) :
    m.Inv kNumPools := by
  induction h with
  | nil => exact h₀
  | snoc _ ho hstep ih => exact ih.step ho hstep

end Step

/-! ## Chunks across pools -/

/-- the registered pools cover disjoint address ranges -/
def RangesDisjoint (pools : List (Option Pool)) : Prop :=
  ∀ h₁ h₂ p₁ p₂, h₁ ≠ h₂ → getPool pools h₁ = some p₁ → getPool pools h₂ = some p₂ →
    p₁.bounds.2 ≤ p₂.bounds.1 ∨ p₂.bounds.2 ≤ p₁.bounds.1

section Apart

variable {kNumPools : Nat} {m : Manager}

/-- a live chunk lies inside the pool of its handle -/
theorem Inv.live_inside (hm : m.Inv kNumPools) {handle : Nat} {c : Chunk} (hc : c ∈ m.live handle) :
    ∃ p, getPool m.pools handle = some p ∧ p.bounds.1 ≤ c.address ∧
      c.address + c.bits * kSuperPageSize ≤ p.bounds.2 := by
  cases hp : getPool m.pools handle with
  | none =>
    rw [hm.empty handle hp] at hc
    cases hc
  | some p =>
    obtain ⟨hca, hin, -⟩ := (hm.pool handle p hp).placed c hc
    dsimp only at hca hin
    refine ⟨p, rfl, ?_, ?_⟩ <;> simp only [Pool.bounds, hca, kSuperPageSize_eq] <;> omega

/-- with disjoint pools, two live chunks of the manager are apart, whether of one handle or of two -/
theorem Inv.apart (hm : m.Inv kNumPools) (hd : RangesDisjoint m.pools) {h₁ h₂ : Nat} {c₁ c₂ : Chunk}
    (hc₁ : c₁ ∈ m.live h₁) (hc₂ : c₂ ∈ m.live h₂) (hne : h₁ ≠ h₂ ∨ c₁ ≠ c₂) : c₁.Apart c₂ := by
  obtain ⟨p₁, hp₁, hb₁, he₁⟩ := hm.live_inside hc₁
  obtain ⟨p₂, hp₂, hb₂, he₂⟩ := hm.live_inside hc₂
  by_cases hh : h₁ = h₂
  · subst hh
    exact (hm.pool h₁ p₁ hp₁).apart.forall (fun _ _ h => Or.symm h) hc₁ hc₂ (hne.resolve_left (· rfl))
  · unfold Chunk.Apart
    rcases hd h₁ h₂ p₁ p₂ hh hp₁ hp₂ with h | h <;> omega

end Apart

/-! ## Serving requests keeps the pools in place -/

section Serving

variable {kMaxBits : Nat}

/-- `Alloc` and `Free` move no pool: every handle finds a pool covering the same addresses as before, or none as
before -/
theorem step_bounds {m m' : Manager} {o : Op} (ho : o.serves) (h : m.step kMaxBits o = some m') (handle : Nat) :
    (getPool m'.pools handle).map Pool.bounds = (getPool m.pools handle).map Pool.bounds := by
  cases o with
  | alloc h₀ r =>
    obtain ⟨⟨pools', a⟩, halloc, rfl⟩ := Option.map_eq_some'.1 h
    obtain ⟨p, hp, -, -, hget⟩ := alloc_eq_some halloc
    rw [hget]
    by_cases he : handle = h₀
    · rw [if_pos he, he, hp, Option.map_some', Option.map_some', findChunk_bounds]
    · rw [if_neg he]
  | free h₀ c size =>
    obtain ⟨pools', hfree, rfl⟩ := Option.map_eq_some'.1 h
    obtain ⟨p, hp, -, hget⟩ := free_eq_some hfree
    rw [hget]
    by_cases he : handle = h₀
    · rw [if_pos he, he, hp, Option.map_some', Option.map_some', freeChunk_bounds]
    · rw [if_neg he]
  | add | remove | resetForTesting => cases ho

theorem Reachable.serving_bounds {m₀ m : Manager} {ops : List Op} (h : Reachable kMaxBits m₀ ops m)
    (hs : ∀ o ∈ ops, o.serves) (handle : Nat) :
    (getPool m.pools handle).map Pool.bounds = (getPool m₀.pools handle).map Pool.bounds := by
  induction h with
  | nil => rfl
  | snoc _ _ hstep ih =>
    rw [step_bounds (hs _ (List.mem_append_right _ (List.mem_singleton_self _))) hstep,
      ih fun o ho => hs o (List.mem_append_left _ ho)]

end Serving

end Manager

/-! ## The run theorem -/

/-- **The manager over every run.** After every call of every run of `Add`, `Remove`, `Alloc`, `Free` and
`ResetForTesting` from an empty registry of `kNumPools` slots: the registry keeps its `kNumPools` slots; each
registered pool, with the chunks its handle handed out, keeps the invariant of `Runs` (its set bits are those of the
chunks, which lie inside it and are apart); a handle with no pool holds no chunk; and when the registered pools cover
disjoint ranges, no two live chunks of the manager share an address, whether they come from one pool or two. -/
theorem manager_run_invariant {kMaxBits kNumPools : Nat} {ops : List Op} {m : Manager}
    (h : Manager.Reachable kMaxBits (Manager.initial kNumPools) ops m) :
    m.pools.length = kNumPools ∧
    (∀ handle p, getPool m.pools handle = some p → PoolSys.Inv ⟨p, m.live handle⟩) ∧
    (∀ handle, getPool m.pools handle = none → m.live handle = []) ∧
    (Manager.RangesDisjoint m.pools → ∀ h₁ h₂ c₁ c₂, c₁ ∈ m.live h₁ → c₂ ∈ m.live h₂ → (h₁ ≠ h₂ ∨ c₁ ≠ c₂) →
      c₁.Apart c₂) := by
  have hm := Manager.reachable_inv (Manager.Inv.initial kNumPools) h
  exact ⟨hm.length, hm.pool, hm.empty, fun hd _ _ _ _ hc₁ hc₂ hne => hm.apart hd hc₁ hc₂ hne⟩

/-- two pools of four super pages, a super page apart; one chunk from each, then the first chunk freed -/
def twoPoolOps : List Op :=
  [.add 0x100000000000 0x800000, .add 0x100000a00000 0x800000, .alloc 1 0x200000, .alloc 2 0x300000,
    .free 1 ⟨0x100000000000, 0x200000⟩ 0x200000]

theorem twoPoolOps_reachable : ∃ m, Manager.Reachable 8192 (Manager.initial 2) twoPoolOps m := by
  have h₀ : Manager.Reachable 8192 (Manager.initial 2) [] _ := .nil
  have h₁ := h₀.snoc (o := .add 0x100000000000 0x800000) (show (0x100000000000 : UInt64) ≠ 0 by decide) rfl
  have h₂ := h₁.snoc (o := .add 0x100000a00000 0x800000) (show (0x100000a00000 : UInt64) ≠ 0 by decide) rfl
  have h₃ := h₂.snoc (o := .alloc 1 0x200000) ⟨by decide, by decide⟩ rfl
  have h₄ := h₃.snoc (o := .alloc 2 0x300000) ⟨by decide, by decide⟩ rfl
  exact ⟨_, h₄.snoc (o := .free 1 ⟨0x100000000000, 0x200000⟩ 0x200000) ⟨List.mem_singleton_self _, rfl⟩ rfl⟩

theorem manager_run_invariant_twoPools :
    ∃ m, Manager.Reachable 8192 (Manager.initial 2) twoPoolOps m ∧
    (m.pools.length = 2 ∧
    (∀ handle p, getPool m.pools handle = some p → PoolSys.Inv ⟨p, m.live handle⟩) ∧
    (∀ handle, getPool m.pools handle = none → m.live handle = []) ∧
    (Manager.RangesDisjoint m.pools → ∀ h₁ h₂ c₁ c₂, c₁ ∈ m.live h₁ → c₂ ∈ m.live h₂ → (h₁ ≠ h₂ ∨ c₁ ≠ c₂) →
      c₁.Apart c₂)) := by
  obtain ⟨m, h⟩ := twoPoolOps_reachable
  exact ⟨m, h, manager_run_invariant h⟩

end PartitionAlloc.AddressPoolManager
