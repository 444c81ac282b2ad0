/-
The reservation of the address space (`partition_address_space.cc`, the version with a direct-map pool and a
normal-bucket pool).

`Init()` reserves `kReservedAddressSpaceSize` bytes, rounds the start up to `kReservedAddressSpaceAlignment` and
registers the direct-map pool and then the normal-bucket pool back to back from that base. The file's
`static_assert`s put the pools' total size `kDesiredAddressSpaceSize` between half the alignment and the alignment,
and the reservation above the alignment. From a start one page past an alignment boundary the rounding skips the
alignment less one page, so the pools fit for every page-aligned start exactly when
`kDesiredAddressSpaceSize + kReservedAddressSpaceAlignment <= kReservedAddressSpaceSize + page`, which the asserts do
not ask for.

Model:
- `uintptr_t` and `size_t` values are `Nat`, with `% 2 ^ 64` on the sums that can wrap; `bits::Align` is `bitsAlign`.
- the constants come from this version's `partition_address_space.h`, which is not among the sources (the header
  there is a later one): `Constants` carries them with the file's `static_assert`s, and
  `kReservedAddressSpaceOffsetMask` is `kReservedAddressSpaceAlignment - 1`, as the later header builds its masks.
- `SystemAllocPages` is the argument `reserved`, the address the OS returns (0 when it fails); pages are a power of
  two `pageSize` of bytes.
- a `CHECK` failing is `none`; `init` does not evaluate the `DCHECK`s, and `layoutDChecks` says whether those on
  addresses hold. `DCHECK(!reserved_address_start_)` is about earlier calls and is left out.
-/
import PartitionAlloc.AddressPoolManager.Registry

namespace PartitionAlloc.PartitionAddressSpace

open AddressPoolManager

/-! ## The constants -/

/-- the constants `Init()` reads, with the file's `static_assert`s: `kReservedAddressSpaceAlignment` is a power of
two, at least `kDesiredAddressSpaceSize` and less than twice it, and below `kReservedAddressSpaceSize` -/
structure Constants where
  kDirectMapPoolSize : Nat
  kNormalBucketPoolSize : Nat
  kReservedAddressSpaceAlignment : Nat
  kReservedAddressSpaceSize : Nat
  alignment_pow : ∃ k, kReservedAddressSpaceAlignment = 2 ^ k
  desired_le : kDirectMapPoolSize + kNormalBucketPoolSize ≤ kReservedAddressSpaceAlignment
  half_lt : kReservedAddressSpaceAlignment / 2 < kDirectMapPoolSize + kNormalBucketPoolSize
  alignment_lt : kReservedAddressSpaceAlignment < kReservedAddressSpaceSize

namespace Constants

def kDesiredAddressSpaceSize (c : Constants) : Nat := c.kDirectMapPoolSize + c.kNormalBucketPoolSize

def kReservedAddressSpaceOffsetMask (c : Constants) : Nat := c.kReservedAddressSpaceAlignment - 1

theorem alignment_pos (c : Constants) : 0 < c.kReservedAddressSpaceAlignment := by
  obtain ⟨k, hk⟩ := c.alignment_pow
  exact hk ▸ Nat.two_pow_pos k

end Constants

/-! ## Init -/

/-- the statics of `PartitionAddressSpace` -/
structure AddressSpace where
  reservedAddressStart : Nat
  reservedBaseAddress : Nat
  directMapPool : Nat
  normalBucketPool : Nat
  deriving DecidableEq, Repr

/-- the statics' initial values: `reserved_base_address_` holds the offset mask -/
def AddressSpace.initial (c : Constants) : AddressSpace := ⟨0, c.kReservedAddressSpaceOffsetMask, 0, 0⟩

/-- `Init()` on the registry `pools`, the OS having reserved the range from `reserved`; `none` when a `CHECK` stops
the process -/
def init (c : Constants) (kMaxBits reserved : Nat) (pools : List (Option Pool)) :
    Option (AddressSpace × List (Option Pool)) :=
  if reserved = 0 then none else do
    let reservedBaseAddress := bitsAlign reserved c.kReservedAddressSpaceAlignment
    let current := reservedBaseAddress
    let (pools, directMapPool) ← add kMaxBits pools (UInt64.ofNat current) (UInt64.ofNat c.kDirectMapPoolSize)
    let current := (current + c.kDirectMapPoolSize) % 2 ^ 64
    let (pools, normalBucketPool) ← add kMaxBits pools (UInt64.ofNat current) (UInt64.ofNat c.kNormalBucketPoolSize)
    pure (⟨reserved, reservedBaseAddress, directMapPool, normalBucketPool⟩, pools)

/-- `UninitForTesting()`: the statics back to their initial values and the registry emptied (`FreePages` is left
out) -/
def uninitForTesting (c : Constants) (pools : List (Option Pool)) : AddressSpace × List (Option Pool) :=
  (AddressSpace.initial c, resetForTesting pools)

/-- the `DCHECK`s of `Init()` on addresses, in its `uintptr_t` arithmetic: `DCHECK_GE(reserved_base_address_,
reserved_address_start_)`, `DCHECK(!(reserved_base_address_ & kReservedAddressSpaceOffsetMask))`,
`DCHECK_LE(current, reserved_address_end)` and `DCHECK_EQ(current, reserved_base_address_ +
kDesiredAddressSpaceSize)` -/
def layoutDChecks (c : Constants) (reserved : Nat) : Bool :=
  let reservedAddressEnd := (reserved + c.kReservedAddressSpaceSize) % 2 ^ 64
  let reservedBaseAddress := bitsAlign reserved c.kReservedAddressSpaceAlignment
  let current := ((reservedBaseAddress + c.kDirectMapPoolSize) % 2 ^ 64 + c.kNormalBucketPoolSize) % 2 ^ 64
  decide (reserved ≤ reservedBaseAddress) && reservedBaseAddress &&& c.kReservedAddressSpaceOffsetMask == 0 &&
    decide (current ≤ reservedAddressEnd) && current == (reservedBaseAddress + c.kDesiredAddressSpaceSize) % 2 ^ 64

section Init

variable {c : Constants} {kMaxBits reserved : Nat} {pools pools' : List (Option Pool)} {space : AddressSpace}

/-- a call that returns: the start was not 0, the base is `bits::Align` of it, and the two `Add` calls -/
theorem init_spec (hinit : init c kMaxBits reserved pools = some (space, pools')) :
    reserved ≠ 0 ∧ space.reservedAddressStart = reserved ∧
    space.reservedBaseAddress = bitsAlign reserved c.kReservedAddressSpaceAlignment ∧
    ∃ pools₁, add kMaxBits pools (UInt64.ofNat (bitsAlign reserved c.kReservedAddressSpaceAlignment))
        (UInt64.ofNat c.kDirectMapPoolSize) = some (pools₁, space.directMapPool) ∧
      add kMaxBits pools₁
        (UInt64.ofNat ((bitsAlign reserved c.kReservedAddressSpaceAlignment + c.kDirectMapPoolSize) % 2 ^ 64))
        (UInt64.ofNat c.kNormalBucketPoolSize) = some (pools', space.normalBucketPool) := by
  by_cases h0 : reserved = 0
  · simp [init, h0] at hinit
  · rw [init, if_neg h0] at hinit
    obtain ⟨⟨pools₁, dm⟩, h₁, hinit⟩ := Option.bind_eq_some.1 hinit
    obtain ⟨⟨pools₂, nb⟩, h₂, heq⟩ := Option.bind_eq_some.1 hinit
    cases heq
    exact ⟨h0, rfl, rfl, pools₁, h₁, h₂⟩

/-- a slot that `Init()` fills holds one of the two pools it builds: the direct-map pool at the base or the
normal-bucket pool right after it -/
theorem init_fills (hinit : init c kMaxBits reserved pools = some (space, pools')) {j : Nat} {p : Pool}
    (hj : pools[j]? = some none) (hj' : pools'[j]? = some (some p)) :
    Pool.create kMaxBits (UInt64.ofNat (bitsAlign reserved c.kReservedAddressSpaceAlignment))
        (UInt64.ofNat c.kDirectMapPoolSize) = some p ∨
      Pool.create kMaxBits
        (UInt64.ofNat ((bitsAlign reserved c.kReservedAddressSpaceAlignment + c.kDirectMapPoolSize) % 2 ^ 64))
        (UInt64.ofNat c.kNormalBucketPoolSize) = some p := by
  obtain ⟨-, -, -, pools₁, h₁, h₂⟩ := init_spec hinit
  rcases add_empty_slot h₁ hj with hj₁ | ⟨q, hq, hj₁⟩
  · rcases add_empty_slot h₂ hj₁ with hj₂ | ⟨q, hq, hj₂⟩
    · simp [hj₂] at hj'
    · rw [hj₂, Option.some.injEq, Option.some.injEq] at hj'
      exact Or.inr (hj' ▸ hq)
  · rw [add_keeps_pool h₂ hj₁, Option.some.injEq, Option.some.injEq] at hj'
    exact Or.inl (hj' ▸ hq)

end Init

/-! ## Where the pools land -/

section Align

variable {x a : Nat}

theorem bitsAlign_of_lt (h : x + a - 1 < 2 ^ 64) : bitsAlign x a = (x + a - 1) / a * a := by
  rw [bitsAlign, Nat.mod_eq_of_lt h]

/-- without wrap, `bits::Align` rounds up: a multiple of `a`, at least `x` and below `x + a` -/
theorem bitsAlign_bounds (ha : 0 < a) (h : x + a - 1 < 2 ^ 64) :
    bitsAlign x a % a = 0 ∧ x ≤ bitsAlign x a ∧ bitsAlign x a < x + a := by
  rw [bitsAlign_of_lt h]
  have hdiv := Nat.mod_add_div' (x + a - 1) a
  have hmod := Nat.mod_lt (x + a - 1) ha
  exact ⟨Nat.mul_mod_left _ _, by omega, by omega⟩

/-- when `g` divides both the start and the alignment, the rounding skips at most `a - g` bytes -/
theorem bitsAlign_add_le (ha : 0 < a) (h : x + a - 1 < 2 ^ 64) {g : Nat} (hgx : g ∣ x) (hga : g ∣ a) :
    bitsAlign x a + g ≤ x + a := by
  obtain ⟨hmod, hle, hlt⟩ := bitsAlign_bounds ha h
  obtain ⟨u, hu⟩ := Nat.dvd_sub' (hga.trans (Nat.dvd_of_mod_eq_zero hmod)) hgx
  obtain ⟨v, hv⟩ := hga
  have huv : u < v := Nat.lt_of_mul_lt_mul_left (a := g) (by omega)
  have : g * (u + 1) ≤ g * v := Nat.mul_le_mul_left g huv
  rw [Nat.mul_succ] at this
  omega

end Align

section Layout

variable (c : Constants) {pageSize reserved : Nat}

/-- with the reservation inside the address space, the rounding in `Init()` does not wrap -/
theorem align_no_wrap (hwrap : reserved + c.kReservedAddressSpaceSize ≤ 2 ^ 64) :
    reserved + c.kReservedAddressSpaceAlignment - 1 < 2 ^ 64 := by
  have := c.alignment_lt
  omega

/-- the pools fit in the reservation for a page-aligned start when
`kDesiredAddressSpaceSize + kReservedAddressSpaceAlignment <= kReservedAddressSpaceSize + pageSize` -/
theorem base_add_desired_le (hpage : ∃ j, pageSize = 2 ^ j)
    (hfit : c.kDesiredAddressSpaceSize + c.kReservedAddressSpaceAlignment ≤ c.kReservedAddressSpaceSize + pageSize)
    (haligned : reserved % pageSize = 0) (hwrap : reserved + c.kReservedAddressSpaceSize ≤ 2 ^ 64) :
    bitsAlign reserved c.kReservedAddressSpaceAlignment + c.kDesiredAddressSpaceSize ≤
      reserved + c.kReservedAddressSpaceSize := by
  obtain ⟨j, rfl⟩ := hpage
  obtain ⟨k, hk⟩ := c.alignment_pow
  have ha := c.alignment_pos
  have hnw := align_no_wrap c hwrap
  have hx : 2 ^ j ∣ reserved := Nat.dvd_of_mod_eq_zero haligned
  have hD := c.desired_le
  have hR := c.alignment_lt
  rcases le_total j k with hjk | hkj
  · have := bitsAlign_add_le ha hnw hx (hk ▸ Nat.pow_dvd_pow 2 hjk)
    simp only [Constants.kDesiredAddressSpaceSize] at hfit ⊢
    omega
  · have := bitsAlign_add_le ha hnw ((hk ▸ Nat.pow_dvd_pow 2 hkj).trans hx) (dvd_refl _)
    simp only [Constants.kDesiredAddressSpaceSize]
    omega

/-- under the same condition, and with the reservation's end below `2 ^ 64`, every `DCHECK` of `Init()` on addresses
holds -/
theorem layoutDChecks_of_fit (hpage : ∃ j, pageSize = 2 ^ j)
    (hfit : c.kDesiredAddressSpaceSize + c.kReservedAddressSpaceAlignment ≤ c.kReservedAddressSpaceSize + pageSize)
    (haligned : reserved % pageSize = 0) (hend : reserved + c.kReservedAddressSpaceSize < 2 ^ 64) :
    layoutDChecks c reserved = true := by
  obtain ⟨k, hk⟩ := c.alignment_pow
  obtain ⟨hmod, hle, -⟩ := bitsAlign_bounds c.alignment_pos (align_no_wrap c hend.le)
  have hfits := base_add_desired_le c hpage hfit haligned hend.le
  simp only [Constants.kDesiredAddressSpaceSize] at hfits
  have h₁ : bitsAlign reserved c.kReservedAddressSpaceAlignment + c.kDirectMapPoolSize < 2 ^ 64 := by omega
  have h₂ : bitsAlign reserved c.kReservedAddressSpaceAlignment + c.kDirectMapPoolSize + c.kNormalBucketPoolSize <
      2 ^ 64 := by omega
  have hmask : bitsAlign reserved c.kReservedAddressSpaceAlignment &&& c.kReservedAddressSpaceOffsetMask = 0 := by
    rw [Constants.kReservedAddressSpaceOffsetMask, hk, Nat.and_pow_two_sub_one_eq_mod, ← hk, hmod]
  simp only [layoutDChecks, Nat.mod_eq_of_lt h₁, Nat.mod_eq_of_lt h₂, Nat.mod_eq_of_lt hend, hmask,
    Constants.kDesiredAddressSpaceSize, ← Nat.add_assoc, Bool.and_eq_true, decide_eq_true_eq, beq_self_eq_true,
    and_true]
  exact ⟨hle, by omega⟩

/-- the rounding lands on a power-of-two boundary: a start one page past a boundary is rounded up to the next one -/
theorem bitsAlign_page (hpage : 0 < pageSize) (hlt : pageSize ≤ c.kReservedAddressSpaceAlignment)
    (hwrap : pageSize + c.kReservedAddressSpaceSize ≤ 2 ^ 64) :
    bitsAlign pageSize c.kReservedAddressSpaceAlignment = c.kReservedAddressSpaceAlignment := by
  have ha := c.alignment_pos
  obtain ⟨hmod, hle, hlt'⟩ := bitsAlign_bounds ha (align_no_wrap c hwrap)
  obtain ⟨q, hq⟩ := Nat.dvd_of_mod_eq_zero hmod
  rcases q with _ | _ | q
  · omega
  · rw [hq, Nat.mul_one]
  · have : c.kReservedAddressSpaceAlignment * 2 ≤ c.kReservedAddressSpaceAlignment * (q + 1 + 1) :=
      Nat.mul_le_mul_left _ (by omega)
    omega

/-- the condition is exact: when the reservation falls short of it, the start one page in puts the end of the
normal-bucket pool past the end of the reservation -/
theorem pools_overrun_of_short (hpage : 0 < pageSize) (hlt : pageSize ≤ c.kReservedAddressSpaceAlignment)
    (hshort : c.kReservedAddressSpaceSize + pageSize < c.kDesiredAddressSpaceSize + c.kReservedAddressSpaceAlignment)
    (hwrap : pageSize + c.kReservedAddressSpaceSize ≤ 2 ^ 64) :
    pageSize + c.kReservedAddressSpaceSize <
      bitsAlign pageSize c.kReservedAddressSpaceAlignment + c.kDesiredAddressSpaceSize := by
  rw [bitsAlign_page c hpage hlt hwrap]
  omega

end Layout

/-! ## The reservation holds the pools -/

/-- when the reservation is at least the pools' size plus the alignment less a page, then for every page-aligned start
whose reservation ends below `2 ^ 64`: the base is on an alignment boundary inside the reservation and the pools end
inside it, every `DCHECK` of `Init()` on addresses holds, and every pool that `Init()` registers lies inside the
reservation. The condition cannot be weakened: for any constants that fall short of it, with the page no larger
than the alignment, the start one page in puts the end of the normal-bucket pool past the end of the reservation. -/
theorem init_pools_in_reservation (c : Constants) {pageSize : Nat} (hpage : ∃ j, pageSize = 2 ^ j)
    (hfit : c.kDesiredAddressSpaceSize + c.kReservedAddressSpaceAlignment ≤ c.kReservedAddressSpaceSize + pageSize)
    {reserved : Nat} (haligned : reserved % pageSize = 0) (hend : reserved + c.kReservedAddressSpaceSize < 2 ^ 64) :
    (bitsAlign reserved c.kReservedAddressSpaceAlignment % c.kReservedAddressSpaceAlignment = 0 ∧
    reserved ≤ bitsAlign reserved c.kReservedAddressSpaceAlignment ∧
    bitsAlign reserved c.kReservedAddressSpaceAlignment + c.kDesiredAddressSpaceSize ≤
      reserved + c.kReservedAddressSpaceSize ∧
    layoutDChecks c reserved = true ∧
    ∀ kMaxBits (pools pools' : List (Option Pool)) space, init c kMaxBits reserved pools = some (space, pools') →
      space.reservedBaseAddress = bitsAlign reserved c.kReservedAddressSpaceAlignment ∧
      ∀ (j : Nat) (p : Pool), pools[j]? = some none → pools'[j]? = some (some p) →
        reserved ≤ p.addressBegin ∧
          p.addressBegin + p.totalBits * kSuperPageSize ≤ reserved + c.kReservedAddressSpaceSize) ∧
    ∀ c' : Constants, pageSize ≤ c'.kReservedAddressSpaceAlignment →
      c'.kReservedAddressSpaceSize + pageSize < c'.kDesiredAddressSpaceSize + c'.kReservedAddressSpaceAlignment →
      pageSize + c'.kReservedAddressSpaceSize ≤ 2 ^ 64 →
      pageSize + c'.kReservedAddressSpaceSize <
        bitsAlign pageSize c'.kReservedAddressSpaceAlignment + c'.kDesiredAddressSpaceSize := by
  obtain ⟨hmod, hle, -⟩ := bitsAlign_bounds c.alignment_pos (align_no_wrap c hend.le)
  have hfits := base_add_desired_le c hpage hfit haligned hend.le
  have hpos : 0 < pageSize := by obtain ⟨j, rfl⟩ := hpage; exact Nat.two_pow_pos j
  refine ⟨⟨hmod, hle, hfits, layoutDChecks_of_fit c hpage hfit haligned hend,
    fun kMaxBits pools pools' space hinit => ⟨(init_spec hinit).2.2.1, fun j p hj hj' => ?_⟩⟩,
    fun c' hlt hshort hwrap => pools_overrun_of_short c' hpos hlt hshort hwrap⟩
  simp only [Constants.kDesiredAddressSpaceSize] at hfits
  rcases init_fills hinit hj hj' with hp | hp
  · obtain ⟨hbegin, hbits⟩ := Pool.create_range hp
    rw [UInt64.toNat_ofNat_of_lt (show _ < 2 ^ 64 by omega)] at hbegin
    rw [UInt64.toNat_ofNat_of_lt (show _ < 2 ^ 64 by omega)] at hbits
    omega
  · obtain ⟨hbegin, hbits⟩ := Pool.create_range hp
    rw [Nat.mod_eq_of_lt (by omega), UInt64.toNat_ofNat_of_lt (show _ < 2 ^ 64 by omega)] at hbegin
    rw [UInt64.toNat_ofNat_of_lt (show _ < 2 ^ 64 by omega)] at hbits
    omega

/-- 16 GiB pools in a 64 GiB reservation aligned at 32 GiB -/
def wideConstants : Constants := ⟨2 ^ 34, 2 ^ 34, 2 ^ 35, 2 ^ 36, ⟨35, rfl⟩, by decide, by decide, by decide⟩

theorem init_pools_in_reservation_wide :
    (∃ j, 4096 = 2 ^ j) ∧
    wideConstants.kDesiredAddressSpaceSize + wideConstants.kReservedAddressSpaceAlignment ≤
      wideConstants.kReservedAddressSpaceSize + 4096 ∧
    0x7f0000001000 % 4096 = 0 ∧ 0x7f0000001000 + wideConstants.kReservedAddressSpaceSize < 2 ^ 64 ∧
    ((bitsAlign 0x7f0000001000 wideConstants.kReservedAddressSpaceAlignment %
        wideConstants.kReservedAddressSpaceAlignment = 0 ∧
    0x7f0000001000 ≤ bitsAlign 0x7f0000001000 wideConstants.kReservedAddressSpaceAlignment ∧
    bitsAlign 0x7f0000001000 wideConstants.kReservedAddressSpaceAlignment + wideConstants.kDesiredAddressSpaceSize ≤
      0x7f0000001000 + wideConstants.kReservedAddressSpaceSize ∧
    layoutDChecks wideConstants 0x7f0000001000 = true ∧
    ∀ kMaxBits (pools pools' : List (Option Pool)) space,
      init wideConstants kMaxBits 0x7f0000001000 pools = some (space, pools') →
      space.reservedBaseAddress = bitsAlign 0x7f0000001000 wideConstants.kReservedAddressSpaceAlignment ∧
      ∀ (j : Nat) (p : Pool), pools[j]? = some none → pools'[j]? = some (some p) →
        0x7f0000001000 ≤ p.addressBegin ∧
          p.addressBegin + p.totalBits * kSuperPageSize ≤
            0x7f0000001000 + wideConstants.kReservedAddressSpaceSize) ∧
    ∀ c' : Constants, 4096 ≤ c'.kReservedAddressSpaceAlignment →
      c'.kReservedAddressSpaceSize + 4096 < c'.kDesiredAddressSpaceSize + c'.kReservedAddressSpaceAlignment →
      4096 + c'.kReservedAddressSpaceSize ≤ 2 ^ 64 →
      4096 + c'.kReservedAddressSpaceSize <
        bitsAlign 4096 c'.kReservedAddressSpaceAlignment + c'.kDesiredAddressSpaceSize) :=
  ⟨⟨12, rfl⟩, by decide, by decide, by decide,
    init_pools_in_reservation wideConstants ⟨12, rfl⟩ (by decide) (by decide) (by decide)⟩

/-- 512 MiB pools and a 1 GiB alignment, with a reservation one page larger than the alignment: the file's
`static_assert`s hold -/
def tightConstants : Constants := ⟨2 ^ 29, 2 ^ 29, 2 ^ 30, 2 ^ 30 + 4096, ⟨30, rfl⟩, by decide, by decide, by decide⟩

theorem init_overruns_reservation :
    4096 % 4096 = 0 ∧ 4096 + tightConstants.kReservedAddressSpaceSize ≤ 2 ^ 64 ∧
    4096 + tightConstants.kReservedAddressSpaceSize <
      bitsAlign 4096 tightConstants.kReservedAddressSpaceAlignment + tightConstants.kDesiredAddressSpaceSize ∧
    layoutDChecks tightConstants 4096 = false ∧
    (init tightConstants 256 4096 [none, none]).map
        (fun r => r.2.map (Option.map fun p => (p.addressBegin, p.addressBegin + p.totalBits * kSuperPageSize))) =
      some [some (0x40000000, 0x60000000), some (0x60000000, 0x80000000)] ∧
    (2 ^ 64 - 2 ^ 36) % 4096 = 0 ∧ 2 ^ 64 - 2 ^ 36 + wideConstants.kReservedAddressSpaceSize ≤ 2 ^ 64 ∧
    layoutDChecks wideConstants (2 ^ 64 - 2 ^ 36) = false :=
  ⟨rfl, by decide, by decide, rfl, rfl, rfl, by decide, rfl⟩

end PartitionAlloc.PartitionAddressSpace
