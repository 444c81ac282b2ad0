/-
`PartitionAddressSpace::Init()` followed by the requests its two pools serve (`partition_address_space.cc` over
`address_pool_manager.cc`).

`Init()` is two calls of `AddressPoolManager::Add`, so a registry after `Init()` is one that a run of the manager
reaches (`init_reachable`). From an empty registry the only pools are the direct-map pool at the base and the
normal-bucket pool right after it (`init_pool_bounds`); `Alloc` and `Free` move no pool (`Manager.step_bounds`).

- `init_serves_inside_reservation`: when the reservation has room for the pools (the condition of
  `Reservation`), then after `Init()` on an empty registry and any run of `Alloc` and `Free` calls, every live chunk
  of the direct-map pool lies in its `kDirectMapPoolSize` bytes from the base, every live chunk of the normal-bucket
  pool in the `kNormalBucketPoolSize` bytes after them, every live chunk inside the reservation and under no other
  handle, and no two live chunks overlap.
-/
import PartitionAlloc.PartitionAddressSpace.Reservation
import PartitionAlloc.AddressPoolManager.Manager

namespace PartitionAlloc.PartitionAddressSpace

open AddressPoolManager

section Init

variable {c : Constants} {kMaxBits reserved : Nat} {space : AddressSpace}

/-- `Init()` is two `Add` calls of the manager -/
theorem init_reachable {pools pools' : List (Option Pool)} (hinit : init c kMaxBits reserved pools = some (space, pools'))
    (live : Nat → List Chunk) (h₁ : UInt64.ofNat (bitsAlign reserved c.kReservedAddressSpaceAlignment) ≠ 0)
    (h₂ : UInt64.ofNat ((bitsAlign reserved c.kReservedAddressSpaceAlignment + c.kDirectMapPoolSize) % 2 ^ 64) ≠ 0) :
    Manager.Reachable kMaxBits ⟨pools, live⟩
      [.add (UInt64.ofNat (bitsAlign reserved c.kReservedAddressSpaceAlignment)) (UInt64.ofNat c.kDirectMapPoolSize),
        .add (UInt64.ofNat ((bitsAlign reserved c.kReservedAddressSpaceAlignment + c.kDirectMapPoolSize) % 2 ^ 64))
          (UInt64.ofNat c.kNormalBucketPoolSize)]
      ⟨pools', live⟩ := by
  obtain ⟨-, -, -, pools₁, hadd₁, hadd₂⟩ := init_spec hinit
  generalize UInt64.ofNat (bitsAlign reserved c.kReservedAddressSpaceAlignment) = ptr₁ at h₁ hadd₁ ⊢
  generalize UInt64.ofNat ((bitsAlign reserved c.kReservedAddressSpaceAlignment + c.kDirectMapPoolSize) % 2 ^ 64) =
    ptr₂ at h₂ hadd₂ ⊢
  exact (Manager.Reachable.nil.snoc (o := .add ptr₁ _) h₁ (by rw [Manager.step, hadd₁]; rfl)).snoc (o := .add ptr₂ _)
    h₂ (by rw [Manager.step, hadd₂]; rfl)

/-- from an empty registry, the pools `Init()` registers: the direct-map pool at the base, for its handle, and the
normal-bucket pool right after it, for its handle -/
theorem init_getPool {kNumPools : Nat} {pools : List (Option Pool)}
    (hinit : init c kMaxBits reserved (List.replicate kNumPools none) = some (space, pools)) {handle : Nat} {p : Pool}
    (hp : getPool pools handle = some p) :
    (handle = space.directMapPool ∧ Pool.create kMaxBits (UInt64.ofNat (bitsAlign reserved c.kReservedAddressSpaceAlignment))
        (UInt64.ofNat c.kDirectMapPoolSize) = some p) ∨
    (handle = space.normalBucketPool ∧ Pool.create kMaxBits
        (UInt64.ofNat ((bitsAlign reserved c.kReservedAddressSpaceAlignment + c.kDirectMapPoolSize) % 2 ^ 64))
        (UInt64.ofNat c.kNormalBucketPoolSize) = some p) := by
  obtain ⟨-, -, -, pools₁, hadd₁, hadd₂⟩ := init_spec hinit
  have hfirst : ∀ h' q, getPool pools₁ h' = some q → h' = space.directMapPool ∧ Pool.create kMaxBits
      (UInt64.ofNat (bitsAlign reserved c.kReservedAddressSpaceAlignment)) (UInt64.ofNat c.kDirectMapPoolSize) =
        some q := by
    intro h' q hq
    rcases getPool_add hadd₁ with ⟨-, rfl⟩ | ⟨p₁, hp₁, -, hget⟩
    · rw [getPool_replicate] at hq
      cases hq
    · rw [hget, getPool_replicate] at hq
      by_cases he : h' = space.directMapPool
      · rw [if_pos he, Option.some.injEq] at hq
        exact ⟨he, hq ▸ hp₁⟩
      · rw [if_neg he] at hq
        cases hq
  rcases getPool_add hadd₂ with ⟨-, rfl⟩ | ⟨p₂, hp₂, -, hget⟩
  · exact Or.inl (hfirst handle p hp)
  · rw [hget] at hp
    by_cases he : handle = space.normalBucketPool
    · rw [if_pos he, Option.some.injEq] at hp
      exact Or.inr ⟨he, hp ▸ hp₂⟩
    · rw [if_neg he] at hp
      exact Or.inl (hfirst handle p hp)

/-- once a handle finds a pool, the two handles `Init()` stored differ -/
theorem init_handles_ne {kNumPools : Nat} {pools : List (Option Pool)}
    (hinit : init c kMaxBits reserved (List.replicate kNumPools none) = some (space, pools)) {handle : Nat} {p : Pool}
    (hp : getPool pools handle = some p) : space.directMapPool ≠ space.normalBucketPool := by
  obtain ⟨-, -, -, pools₁, hadd₁, hadd₂⟩ := init_spec hinit
  rcases getPool_add hadd₁ with ⟨hdm, rfl⟩ | ⟨p₁, -, -, hget₁⟩ <;>
    rcases getPool_add hadd₂ with ⟨hnb, rfl⟩ | ⟨p₂, -, hnone, hget₂⟩
  · rw [getPool_replicate] at hp
    cases hp
  · have hnb := (getPool_lt ((hget₂ _).trans (if_pos rfl))).1
    omega
  · have hdm := (getPool_lt ((hget₁ _).trans (if_pos rfl))).1
    omega
  · intro he
    rw [← he, hget₁, if_pos rfl] at hnone
    cases hnone

/-- where those pools lie, when the pools end below `2 ^ 64` -/
theorem init_pool_bounds {kNumPools : Nat} {pools : List (Option Pool)}
    (hinit : init c kMaxBits reserved (List.replicate kNumPools none) = some (space, pools))
    (hfits : bitsAlign reserved c.kReservedAddressSpaceAlignment + c.kDesiredAddressSpaceSize < 2 ^ 64)
    {handle : Nat} {p : Pool} (hp : getPool pools handle = some p) :
    (handle = space.directMapPool ∧ p.bounds.1 = bitsAlign reserved c.kReservedAddressSpaceAlignment ∧
      p.bounds.2 ≤ bitsAlign reserved c.kReservedAddressSpaceAlignment + c.kDirectMapPoolSize) ∨
    (handle = space.normalBucketPool ∧
      p.bounds.1 = bitsAlign reserved c.kReservedAddressSpaceAlignment + c.kDirectMapPoolSize ∧
      p.bounds.2 ≤ bitsAlign reserved c.kReservedAddressSpaceAlignment + c.kDesiredAddressSpaceSize) := by
  simp only [Constants.kDesiredAddressSpaceSize] at hfits ⊢
  rcases init_getPool hinit hp with ⟨he, hcreate⟩ | ⟨he, hcreate⟩ <;> obtain ⟨hbegin, hbits⟩ := Pool.create_range hcreate
  · rw [UInt64.toNat_ofNat_of_lt (show _ < 2 ^ 64 by omega)] at hbegin hbits
    exact Or.inl ⟨he, hbegin, by simp only [Pool.bounds]; omega⟩
  · rw [Nat.mod_eq_of_lt (by omega), UInt64.toNat_ofNat_of_lt (show _ < 2 ^ 64 by omega)] at hbegin
    rw [UInt64.toNat_ofNat_of_lt (show _ < 2 ^ 64 by omega)] at hbits
    exact Or.inr ⟨he, hbegin, by simp only [Pool.bounds]; omega⟩

/-- after `Init()` on an empty registry and a run of `Alloc` and `Free` calls, the two handles differ and a handle's
pool still lies where `Init()` put it -/
theorem served_pool_bounds {kNumPools : Nat} {pools : List (Option Pool)}
    (hinit : init c kMaxBits reserved (List.replicate kNumPools none) = some (space, pools))
    (hdes : bitsAlign reserved c.kReservedAddressSpaceAlignment + c.kDesiredAddressSpaceSize < 2 ^ 64)
    {ops : List Op} {m : Manager} (hrun : Manager.Reachable kMaxBits ⟨pools, fun _ => []⟩ ops m)
    (hserve : ∀ o ∈ ops, o.serves) {handle : Nat} {p : Pool} (hp : getPool m.pools handle = some p) :
    space.directMapPool ≠ space.normalBucketPool ∧
    ((handle = space.directMapPool ∧ p.bounds.1 = bitsAlign reserved c.kReservedAddressSpaceAlignment ∧
      p.bounds.2 ≤ bitsAlign reserved c.kReservedAddressSpaceAlignment + c.kDirectMapPoolSize) ∨
    (handle = space.normalBucketPool ∧
      p.bounds.1 = bitsAlign reserved c.kReservedAddressSpaceAlignment + c.kDirectMapPoolSize ∧
      p.bounds.2 ≤ bitsAlign reserved c.kReservedAddressSpaceAlignment + c.kDesiredAddressSpaceSize)) := by
  have hb := hrun.serving_bounds hserve handle
  rw [hp, Option.map_some'] at hb
  obtain ⟨q, hq, hqb⟩ := Option.map_eq_some'.1 hb.symm
  rw [← hqb]
  exact ⟨init_handles_ne hinit hq, init_pool_bounds hinit hdes hq⟩

end Init

/-- **`Init()`, then serving requests.** When the reservation is at least the pools' size plus the alignment less a
page, then for every page-aligned start whose reservation ends below `2 ^ 64`: after `Init()` on an empty registry and
any run of `Alloc` and `Free` calls, every live chunk of the direct-map pool lies in the `kDirectMapPoolSize` bytes
from the base, every live chunk of the normal-bucket pool in the `kNormalBucketPoolSize` bytes after them, every live
chunk lies inside the reservation and no other handle holds one, and no two live chunks share an address. -/
theorem init_serves_inside_reservation (c : Constants) {pageSize : Nat} (hpage : ∃ j, pageSize = 2 ^ j)
    (hfit : c.kDesiredAddressSpaceSize + c.kReservedAddressSpaceAlignment ≤ c.kReservedAddressSpaceSize + pageSize)
    {reserved : Nat} (haligned : reserved % pageSize = 0) (hend : reserved + c.kReservedAddressSpaceSize < 2 ^ 64)
    {kMaxBits kNumPools : Nat} {space : AddressSpace} {pools : List (Option Pool)}
    (hinit : init c kMaxBits reserved (List.replicate kNumPools none) = some (space, pools))
    {ops : List Op} {m : Manager} (hrun : Manager.Reachable kMaxBits ⟨pools, fun _ => []⟩ ops m)
    (hserve : ∀ o ∈ ops, o.serves) :
    (∀ chunk ∈ m.live space.directMapPool, space.reservedBaseAddress ≤ chunk.address ∧
      chunk.address + chunk.bits * kSuperPageSize ≤ space.reservedBaseAddress + c.kDirectMapPoolSize) ∧
    (∀ chunk ∈ m.live space.normalBucketPool, space.reservedBaseAddress + c.kDirectMapPoolSize ≤ chunk.address ∧
      chunk.address + chunk.bits * kSuperPageSize ≤ space.reservedBaseAddress + c.kDesiredAddressSpaceSize) ∧
    (∀ handle, ∀ chunk ∈ m.live handle, (handle = space.directMapPool ∨ handle = space.normalBucketPool) ∧
      reserved ≤ chunk.address ∧ chunk.address + chunk.bits * kSuperPageSize ≤ reserved + c.kReservedAddressSpaceSize) ∧
    (∀ h₁ h₂ c₁ c₂, c₁ ∈ m.live h₁ → c₂ ∈ m.live h₂ → (h₁ ≠ h₂ ∨ c₁ ≠ c₂) → c₁.Apart c₂) := by
  obtain ⟨hr0, -, hbase, -⟩ := init_spec hinit
  obtain ⟨-, hle, -⟩ := bitsAlign_bounds c.alignment_pos (align_no_wrap c hend.le)
  have hfits := base_add_desired_le c hpage hfit haligned hend.le
  have hdes : bitsAlign reserved c.kReservedAddressSpaceAlignment + c.kDesiredAddressSpaceSize < 2 ^ 64 := by
    omega
  have hdm : c.kDirectMapPoolSize ≤ c.kDesiredAddressSpaceSize := Nat.le_add_right _ _
  have hne : ∀ n, 0 < n → n < 2 ^ 64 → UInt64.ofNat n ≠ 0 := fun n h0 hn h =>
    absurd (congrArg UInt64.toNat h) (by rw [UInt64.toNat_ofNat_of_lt hn]; exact Nat.pos_iff_ne_zero.1 h0)
  have hm : m.Inv kNumPools :=
    Manager.reachable_inv (Manager.Inv.initial kNumPools)
      ((init_reachable hinit _ (hne _ (by omega) (by omega)) (hne _ (by omega) (by omega))).append hrun)
  have hplace := fun handle p (hp : getPool m.pools handle = some p) =>
    served_pool_bounds hinit hdes hrun hserve hp
  /- the two pools' ranges are disjoint, so chunks of different handles are apart -/
  have hdisj : Manager.RangesDisjoint m.pools := by
    intro h₁ h₂ p₁ p₂ hh hp₁ hp₂
    rcases (hplace _ _ hp₁).2 with ⟨he₁, hlo₁, hhi₁⟩ | ⟨he₁, hlo₁, hhi₁⟩ <;>
      rcases (hplace _ _ hp₂).2 with ⟨he₂, hlo₂, hhi₂⟩ | ⟨he₂, hlo₂, hhi₂⟩
    · exact absurd (he₁.trans he₂.symm) hh
    · exact Or.inl (by omega)
    · exact Or.inr (by omega)
    · exact absurd (he₁.trans he₂.symm) hh
  rw [hbase]
  refine ⟨fun chunk hchunk => ?_, fun chunk hchunk => ?_, fun handle chunk hchunk => ?_,
    fun _ _ _ _ hc₁ hc₂ hne => hm.apart hdisj hc₁ hc₂ hne⟩ <;>
    obtain ⟨p, hp, hlo, hhi⟩ := hm.live_inside hchunk <;>
    obtain ⟨hne, ⟨he, h₁, h₂⟩ | ⟨he, h₁, h₂⟩⟩ := hplace _ _ hp
  · exact ⟨by omega, by omega⟩
  · exact absurd he hne
  · exact absurd he.symm hne
  · exact ⟨by omega, by omega⟩
  · exact ⟨Or.inl he, by omega, by omega⟩
  · exact ⟨Or.inr he, by omega, by omega⟩

/-- `Init()` of the 16 GiB layout from a reservation one page past a 32 GiB boundary: the base is the next boundary,
with the direct-map pool there and the normal-bucket pool 16 GiB later -/
def wideSpace : AddressSpace := ⟨0x7f0000001000, 0x7f0800000000, 1, 2⟩

def widePools : List (Option Pool) :=
  [some ⟨8192, 0x7f0800000000, fun _ => false, 0⟩, some ⟨8192, 0x7f0c00000000, fun _ => false, 0⟩]

/-- one chunk from each pool, a second from the direct-map pool, then the first one freed -/
def wideOps : List Op :=
  [.alloc 1 0x200000, .alloc 2 0x400000, .alloc 1 0x300000, .free 1 ⟨0x7f0800000000, 0x200000⟩ 0x200000]

theorem wideOps_reachable : ∃ m, Manager.Reachable 8192 ⟨widePools, fun _ => []⟩ wideOps m := by
  have h₀ : Manager.Reachable 8192 ⟨widePools, fun _ => []⟩ [] _ := .nil
  have h₁ := h₀.snoc (o := .alloc 1 0x200000) ⟨by decide, by decide⟩ rfl
  have h₂ := h₁.snoc (o := .alloc 2 0x400000) ⟨by decide, by decide⟩ rfl
  have h₃ := h₂.snoc (o := .alloc 1 0x300000) ⟨by decide, by decide⟩ rfl
  exact ⟨_, h₃.snoc (o := .free 1 ⟨0x7f0800000000, 0x200000⟩ 0x200000) ⟨List.mem_cons_self _ _, rfl⟩ rfl⟩

theorem init_serves_inside_reservation_wide :
    ∃ m, init wideConstants 8192 0x7f0000001000 (List.replicate 2 none) = some (wideSpace, widePools) ∧
    Manager.Reachable 8192 ⟨widePools, fun _ => []⟩ wideOps m ∧ (∀ o ∈ wideOps, o.serves) ∧
    (∃ j, 4096 = 2 ^ j) ∧
    wideConstants.kDesiredAddressSpaceSize + wideConstants.kReservedAddressSpaceAlignment ≤
      wideConstants.kReservedAddressSpaceSize + 4096 ∧
    0x7f0000001000 % 4096 = 0 ∧ 0x7f0000001000 + wideConstants.kReservedAddressSpaceSize < 2 ^ 64 ∧
    ((∀ chunk ∈ m.live wideSpace.directMapPool, wideSpace.reservedBaseAddress ≤ chunk.address ∧
      chunk.address + chunk.bits * kSuperPageSize ≤ wideSpace.reservedBaseAddress + wideConstants.kDirectMapPoolSize) ∧
    (∀ chunk ∈ m.live wideSpace.normalBucketPool, wideSpace.reservedBaseAddress + wideConstants.kDirectMapPoolSize ≤
      chunk.address ∧ chunk.address + chunk.bits * kSuperPageSize ≤
        wideSpace.reservedBaseAddress + wideConstants.kDesiredAddressSpaceSize) ∧
    (∀ handle, ∀ chunk ∈ m.live handle, (handle = wideSpace.directMapPool ∨ handle = wideSpace.normalBucketPool) ∧
      0x7f0000001000 ≤ chunk.address ∧
      chunk.address + chunk.bits * kSuperPageSize ≤ 0x7f0000001000 + wideConstants.kReservedAddressSpaceSize) ∧
    (∀ h₁ h₂ c₁ c₂, c₁ ∈ m.live h₁ → c₂ ∈ m.live h₂ → (h₁ ≠ h₂ ∨ c₁ ≠ c₂) → c₁.Apart c₂)) := by
  obtain ⟨m, hrun⟩ := wideOps_reachable
  have hinit : init wideConstants 8192 0x7f0000001000 (List.replicate 2 none) = some (wideSpace, widePools) := rfl
  exact ⟨m, hinit, hrun, by decide, ⟨12, rfl⟩, by decide, by decide, by decide,
    init_serves_inside_reservation wideConstants ⟨12, rfl⟩ (by decide) (by decide) (by decide) hinit hrun (by decide)⟩

end PartitionAlloc.PartitionAddressSpace
