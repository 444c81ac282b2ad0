/-
The pool map of the GigaCage (`partition_address_space.h`): which pool an address belongs to.

Each pool's size is a power of two and the pool is aligned at its size, so `IsIn*Pool(address)` clears the address's
offset bits with the pool's base mask and compares what is left with the pool's base. Before `Init()` every base
holds the pool's offset mask, whose low bits are all set, so no masked address can equal it and every test fails.
`GetPoolAndOffset` tests the pools in order and returns the handle of the first that holds the address and the
offset from its base; `IsManagedByPartitionAlloc` is the disjunction of the same tests.

Model:
- `uintptr_t` values are `BitVec 64`; pool sizes are `Nat`, cast into the masks as the code casts them.
- `kPoolMaxSize` and `kGiB` come from `partition_alloc_constants.h`, which is not among the sources; `PoolMaxSize`
  carries `kPoolMaxSize` together with what this header asserts of it.
- `BUILDFLAG(USE_BACKUP_REF_PTR)` is the Bool `useBackupRefPtr`.
- `PA_DCHECK`s are not evaluated (release build); `PA_NOTREACHED()` ends `GetPoolAndOffset` with `none`.
- `pool_handle` values are `Nat`; `padding_` is left out.
-/
import Mathlib.Data.Nat.Count

namespace PartitionAlloc.PartitionAddressSpace

/-! ## Pool sizes and masks -/

/-- `kGiB` (`partition_alloc_constants.h`, not among the sources) -/
def kGiB : Nat := 2 ^ 30

/-- `kPoolMaxSize` (`partition_alloc_constants.h`, not among the sources) as `2 ^ shift`, with what the header
asserts of it: `kNonBRPPoolSize` and `kBRPPoolSize`, both `kPoolMaxSize`, are powers of two, and
`kConfigurablePoolSize <= kPoolMaxSize`. A power of two in `size_t` is below `2 ^ 64` -/
structure PoolMaxSize where
  shift : Nat
  configurable_le : 32 ≤ shift
  lt_word : shift < 64

def PoolMaxSize.kPoolMaxSize (m : PoolMaxSize) : Nat := 2 ^ m.shift

def kNonBRPPoolSize (m : PoolMaxSize) : Nat := m.kPoolMaxSize

def kBRPPoolSize (m : PoolMaxSize) : Nat := m.kPoolMaxSize

def kConfigurablePoolSize : Nat := 4 * kGiB

/-- `static_cast<uintptr_t>(size) - 1`: the offset bits of a pool of `size` bytes -/
def offsetMask (size : Nat) : BitVec 64 := BitVec.ofNat 64 size - 1

/-- `~offsetMask`: the bits that name a pool of `size` bytes -/
def baseMask (size : Nat) : BitVec 64 := ~~~offsetMask size

def kNonBRPPoolOffsetMask (m : PoolMaxSize) : BitVec 64 := offsetMask (kNonBRPPoolSize m)

def kNonBRPPoolBaseMask (m : PoolMaxSize) : BitVec 64 := baseMask (kNonBRPPoolSize m)

def kBRPPoolOffsetMask (m : PoolMaxSize) : BitVec 64 := offsetMask (kBRPPoolSize m)

def kBRPPoolBaseMask (m : PoolMaxSize) : BitVec 64 := baseMask (kBRPPoolSize m)

def kConfigurablePoolOffsetMask : BitVec 64 := offsetMask kConfigurablePoolSize

def kConfigurablePoolBaseMask : BitVec 64 := baseMask kConfigurablePoolSize

/-! ## The setup and the membership tests -/

/-- `GigaCageSetup`: the pools' bases and handles -/
structure GigaCageSetup where
  nonBRPPoolBaseAddress : BitVec 64
  brpPoolBaseAddress : BitVec 64
  configurablePoolBaseAddress : BitVec 64
  nonBRPPool : Nat
  brpPool : Nat
  configurablePool : Nat
  deriving DecidableEq, Repr

/-- the default member initializers: every base is its pool's offset mask, every handle `0` -/
def GigaCageSetup.initial (m : PoolMaxSize) : GigaCageSetup :=
  ⟨kNonBRPPoolOffsetMask m, kBRPPoolOffsetMask m, kConfigurablePoolOffsetMask, 0, 0, 0⟩

/-- the test the `IsIn*Pool` functions share: `(address & baseMask) == base` -/
def isInPool (baseMask base address : BitVec 64) : Bool := (address &&& baseMask) == base

def isInNonBRPPool (m : PoolMaxSize) (setup : GigaCageSetup) (address : BitVec 64) : Bool :=
  isInPool (kNonBRPPoolBaseMask m) setup.nonBRPPoolBaseAddress address

def isInBRPPool (m : PoolMaxSize) (setup : GigaCageSetup) (address : BitVec 64) : Bool :=
  isInPool (kBRPPoolBaseMask m) setup.brpPoolBaseAddress address

def isInConfigurablePool (setup : GigaCageSetup) (address : BitVec 64) : Bool :=
  isInPool kConfigurablePoolBaseMask setup.configurablePoolBaseAddress address

/-- `IsManagedByPartitionAlloc(address)`; the BRP pool is tested only under `USE_BACKUP_REF_PTR` -/
def isManagedByPartitionAlloc (useBackupRefPtr : Bool) (m : PoolMaxSize) (setup : GigaCageSetup)
    (address : BitVec 64) : Bool :=
  isInNonBRPPool m setup address || (useBackupRefPtr && isInBRPPool m setup address) ||
    isInConfigurablePool setup address

/-- `GetPoolAndOffset(address)`: the handle of the first pool, in the code's order, whose test holds, and
`address - base` for that pool's base -/
def getPoolAndOffset (useBackupRefPtr : Bool) (m : PoolMaxSize) (setup : GigaCageSetup) (address : BitVec 64) :
    Option (Nat × BitVec 64) :=
  if isInNonBRPPool m setup address then some (setup.nonBRPPool, address - setup.nonBRPPoolBaseAddress)
  else if useBackupRefPtr && isInBRPPool m setup address then
    some (setup.brpPool, address - setup.brpPoolBaseAddress)
  else if isInConfigurablePool setup address then
    some (setup.configurablePool, address - setup.configurablePoolBaseAddress)
  else none

/-! ## The pools as one family -/

/-- the three pools of the setup -/
inductive PoolId
  | nonBRP
  | brp
  | configurable
  deriving DecidableEq, Repr

namespace PoolId

def size (m : PoolMaxSize) : PoolId → Nat
  | nonBRP => kNonBRPPoolSize m
  | brp => kBRPPoolSize m
  | configurable => kConfigurablePoolSize

def base (setup : GigaCageSetup) : PoolId → BitVec 64
  | nonBRP => setup.nonBRPPoolBaseAddress
  | brp => setup.brpPoolBaseAddress
  | configurable => setup.configurablePoolBaseAddress

def handle (setup : GigaCageSetup) : PoolId → Nat
  | nonBRP => setup.nonBRPPool
  | brp => setup.brpPool
  | configurable => setup.configurablePool

/-- the pool's membership test, as the code names it -/
def isIn (m : PoolMaxSize) (setup : GigaCageSetup) : PoolId → BitVec 64 → Bool
  | nonBRP => isInNonBRPPool m setup
  | brp => isInBRPPool m setup
  | configurable => isInConfigurablePool setup

/-- what a pool's test is meant to decide: the pool is initialized (its base is not the sentinel, the offset
mask) and the address lies in `[base, base + size)` -/
def Contains (m : PoolMaxSize) (setup : GigaCageSetup) (p : PoolId) (a : BitVec 64) : Prop :=
  p.base setup ≠ offsetMask (p.size m) ∧ (p.base setup).toNat ≤ a.toNat ∧
    a.toNat < (p.base setup).toNat + p.size m

instance (m : PoolMaxSize) (setup : GigaCageSetup) (p : PoolId) (a : BitVec 64) :
    Decidable (p.Contains m setup a) :=
  inferInstanceAs (Decidable (_ ∧ _ ∧ _))

/-- a base the setup may hold: the pool's sentinel, or a non-zero multiple of the pool's size -/
def BaseAdmissible (m : PoolMaxSize) (setup : GigaCageSetup) (p : PoolId) : Prop :=
  p.base setup = offsetMask (p.size m) ∨ (p.base setup ≠ 0 ∧ (p.base setup).toNat % p.size m = 0)

instance (m : PoolMaxSize) (setup : GigaCageSetup) (p : PoolId) : Decidable (p.BaseAdmissible m setup) :=
  inferInstanceAs (Decidable (_ ∨ _))

/-- the exponent of the pool's size -/
def shift (m : PoolMaxSize) : PoolId → Nat
  | nonBRP => m.shift
  | brp => m.shift
  | configurable => 32

theorem size_eq (m : PoolMaxSize) (p : PoolId) : p.size m = 2 ^ p.shift m := by
  cases p <;> rfl

theorem shift_pos (m : PoolMaxSize) (p : PoolId) : 0 < p.shift m := by
  have := m.configurable_le
  cases p <;> (simp only [shift]; omega)

theorem shift_lt (m : PoolMaxSize) (p : PoolId) : p.shift m < 64 := by
  have := m.lt_word
  cases p <;> (simp only [shift]; omega)

theorem isIn_eq (m : PoolMaxSize) (setup : GigaCageSetup) (p : PoolId) (a : BitVec 64) :
    p.isIn m setup a = isInPool (baseMask (p.size m)) (p.base setup) a := by
  cases p <;> rfl

end PoolId

namespace GigaCageSetup

/-- every pool's base is one the setup may hold -/
def Admissible (m : PoolMaxSize) (setup : GigaCageSetup) : Prop := ∀ p : PoolId, p.BaseAdmissible m setup

/-- no address lies in two initialized pools -/
def PoolsDisjoint (m : PoolMaxSize) (setup : GigaCageSetup) : Prop :=
  ∀ p q : PoolId, ∀ a, p.Contains m setup a → q.Contains m setup a → p = q

end GigaCageSetup

/-! ## The mask law -/

section Mask

variable {k : Nat}

theorem offsetMask_two_pow (hk : k < 64) : offsetMask (2 ^ k) = BitVec.ofNat 64 (2 ^ k - 1) := by
  have hlt : 2 ^ k < 2 ^ 64 := Nat.pow_lt_pow_right (by decide) hk
  have hone : 1 ≤ 2 ^ k := Nat.one_le_two_pow
  apply BitVec.eq_of_toNat_eq
  simp only [offsetMask, BitVec.toNat_sub, BitVec.toNat_ofNat]
  rw [Nat.mod_eq_of_lt hlt, Nat.mod_eq_of_lt (by omega : 2 ^ k - 1 < 2 ^ 64)]
  show (2 ^ 64 - 1 + 2 ^ k) % 2 ^ 64 = 2 ^ k - 1
  rw [show 2 ^ 64 - 1 + 2 ^ k = 2 ^ k - 1 + 2 ^ 64 by omega, Nat.add_mod_right, Nat.mod_eq_of_lt (by omega)]

theorem toNat_offsetMask (hk : k < 64) : (offsetMask (2 ^ k)).toNat = 2 ^ k - 1 := by
  have hlt : 2 ^ k < 2 ^ 64 := Nat.pow_lt_pow_right (by decide) hk
  rw [offsetMask_two_pow hk, BitVec.toNat_ofNat, Nat.mod_eq_of_lt (by omega)]

/-- the base mask clears the low `k` bits -/
theorem and_baseMask (hk : k < 64) (a : BitVec 64) : a &&& baseMask (2 ^ k) = a >>> k <<< k := by
  apply BitVec.eq_of_getLsbD_eq
  intro i
  simp only [baseMask, offsetMask_two_pow hk, BitVec.getLsbD_and, BitVec.getLsbD_not, BitVec.getLsbD_ofNat,
    Nat.testBit_two_pow_sub_one, BitVec.getLsbD_shiftLeft, BitVec.getLsbD_ushiftRight, i.isLt, decide_True,
    Bool.true_and]
  by_cases h : (i : Nat) < k
  · simp [h]
  · simp [h, Nat.add_sub_cancel' (Nat.le_of_not_lt h)]

/-- the masked address is the address rounded down to a multiple of the pool size -/
theorem toNat_and_baseMask (hk : k < 64) (a : BitVec 64) :
    (a &&& baseMask (2 ^ k)).toNat = a.toNat - a.toNat % 2 ^ k := by
  rw [and_baseMask hk, BitVec.toNat_shiftLeft, BitVec.toNat_ushiftRight, Nat.shiftLeft_eq,
    Nat.shiftRight_eq_div_pow]
  have hdiv := Nat.mod_add_div' a.toNat (2 ^ k)
  have ha := a.isLt
  rw [Nat.mod_eq_of_lt (by omega)]
  omega

/-- the sentinel is never a multiple of the pool size, so it differs from every multiple -/
theorem offsetMask_ne_of_mod (h0 : 0 < k) (hk : k < 64) {base : BitVec 64} (hb : base.toNat % 2 ^ k = 0) :
    base ≠ offsetMask (2 ^ k) := by
  intro h
  have h2 : 2 ≤ 2 ^ k := Nat.le_self_pow (Nat.pos_iff_ne_zero.1 h0) 2
  rw [h, toNat_offsetMask hk, Nat.mod_eq_of_lt (by omega)] at hb
  omega

theorem isInPool_sentinel (h0 : 0 < k) (hk : k < 64) (a : BitVec 64) :
    isInPool (baseMask (2 ^ k)) (offsetMask (2 ^ k)) a = false := by
  have hmod : (a &&& baseMask (2 ^ k)).toNat % 2 ^ k = 0 := by
    rw [toNat_and_baseMask hk]
    exact Nat.sub_mod_eq_zero_of_mod_eq (Nat.mod_mod _ _).symm
  simpa [isInPool] using offsetMask_ne_of_mod h0 hk hmod

theorem isInPool_iff (hk : k < 64) {base : BitVec 64} (hb : base.toNat % 2 ^ k = 0) (a : BitVec 64) :
    isInPool (baseMask (2 ^ k)) base a = true ↔ base.toNat ≤ a.toNat ∧ a.toNat < base.toNat + 2 ^ k := by
  have hmod := Nat.mod_lt a.toNat (Nat.two_pow_pos k)
  have hle := Nat.mod_le a.toNat (2 ^ k)
  simp only [isInPool, beq_iff_eq, BitVec.toNat_eq, toNat_and_baseMask hk]
  constructor
  · omega
  · rintro ⟨hlo, hhi⟩
    obtain ⟨d, hd⟩ : ∃ d, a.toNat = d + base.toNat := ⟨a.toNat - base.toNat, by omega⟩
    have hrem : a.toNat % 2 ^ k = d := by
      rw [hd, Nat.add_mod, hb, Nat.add_zero, Nat.mod_mod, Nat.mod_eq_of_lt (by omega)]
    omega

end Mask

/-! ## Membership -/

namespace PoolId

variable {m : PoolMaxSize} {setup : GigaCageSetup}

/-- on an admissible base, a pool's test decides exactly that the pool is initialized and holds the address -/
theorem isIn_iff {p : PoolId} (hadm : p.BaseAdmissible m setup) (a : BitVec 64) :
    p.isIn m setup a = true ↔ p.Contains m setup a := by
  have h0 := p.shift_pos m
  have hk := p.shift_lt m
  rw [isIn_eq, Contains, size_eq]
  rw [BaseAdmissible, size_eq] at hadm
  rcases hadm with hs | ⟨-, hb⟩
  · simp [hs, isInPool_sentinel h0 hk]
  · rw [isInPool_iff hk hb, and_iff_right (offsetMask_ne_of_mod h0 hk hb)]

theorem isIn_eq_decide (hadm : setup.Admissible m) (p : PoolId) (a : BitVec 64) :
    p.isIn m setup a = decide (p.Contains m setup a) :=
  Bool.eq_iff_iff.2 ((isIn_iff (hadm p) a).trans decide_eq_true_iff.symm)

/-- under disjoint pools, a pool that holds the address makes every other pool's test fail -/
theorem isIn_eq_of_contains (hadm : setup.Admissible m) (hdisj : setup.PoolsDisjoint m) {p : PoolId}
    {a : BitVec 64} (hp : p.Contains m setup a) (q : PoolId) : q.isIn m setup a = decide (q = p) := by
  rw [isIn_eq_decide hadm]
  exact decide_eq_decide.2 ⟨fun hq => hdisj q p a hq hp, fun h => h ▸ hp⟩

theorem toNat_sub_base {p : PoolId} {a : BitVec 64} (hp : p.Contains m setup a) :
    (a - p.base setup).toNat = a.toNat - (p.base setup).toNat :=
  BitVec.toNat_sub_of_le (BitVec.le_def.2 hp.2.1)

end PoolId

/-! ## Before Init -/

namespace GigaCageSetup

variable {m : PoolMaxSize}

theorem initial_admissible (m : PoolMaxSize) : (initial m).Admissible m := fun p => by
  cases p <;> exact Or.inl rfl

theorem not_contains_initial (p : PoolId) (a : BitVec 64) : ¬ p.Contains m (initial m) a := fun h =>
  h.1 (by cases p <;> rfl)

theorem isIn_initial (p : PoolId) (a : BitVec 64) : p.isIn m (initial m) a = false :=
  Bool.eq_false_iff.2 fun h => not_contains_initial p a ((PoolId.isIn_iff (initial_admissible m p) a).1 h)

theorem isManagedByPartitionAlloc_initial (useBackupRefPtr : Bool) (a : BitVec 64) :
    isManagedByPartitionAlloc useBackupRefPtr m (initial m) a = false := by
  have h₁ : isInNonBRPPool m (initial m) a = false := isIn_initial .nonBRP a
  have h₂ : isInBRPPool m (initial m) a = false := isIn_initial .brp a
  have h₃ : isInConfigurablePool (initial m) a = false := isIn_initial .configurable a
  simp [isManagedByPartitionAlloc, h₁, h₂, h₃]

end GigaCageSetup

/-! ## GetPoolAndOffset -/

section Lookup

variable {useBackupRefPtr : Bool} {m : PoolMaxSize} {setup : GigaCageSetup} {a : BitVec 64}

/-- a managed address lies in a pool that the build tests -/
theorem exists_contains_of_managed (hadm : setup.Admissible m)
    (h : isManagedByPartitionAlloc useBackupRefPtr m setup a = true) :
    ∃ p : PoolId, p.Contains m setup a ∧ (p = .brp → useBackupRefPtr = true) := by
  simp only [isManagedByPartitionAlloc, Bool.or_eq_true, Bool.and_eq_true] at h
  rcases h with (h | ⟨hf, h⟩) | h
  · exact ⟨.nonBRP, (PoolId.isIn_iff (hadm .nonBRP) a).1 h, nofun⟩
  · exact ⟨.brp, (PoolId.isIn_iff (hadm .brp) a).1 h, fun _ => hf⟩
  · exact ⟨.configurable, (PoolId.isIn_iff (hadm .configurable) a).1 h, nofun⟩

/-- with disjoint pools, the lookup finds the one pool holding the address, whatever the order of the tests -/
theorem getPoolAndOffset_of_contains (hadm : setup.Admissible m) (hdisj : setup.PoolsDisjoint m) {p : PoolId}
    (hp : p.Contains m setup a) (hf : p = .brp → useBackupRefPtr = true) :
    getPoolAndOffset useBackupRefPtr m setup a = some (p.handle setup, a - p.base setup) := by
  have h₁ : isInNonBRPPool m setup a = decide (PoolId.nonBRP = p) := PoolId.isIn_eq_of_contains hadm hdisj hp .nonBRP
  have h₂ : isInBRPPool m setup a = decide (PoolId.brp = p) := PoolId.isIn_eq_of_contains hadm hdisj hp .brp
  have h₃ : isInConfigurablePool setup a = decide (PoolId.configurable = p) :=
    PoolId.isIn_eq_of_contains hadm hdisj hp .configurable
  cases p
  case nonBRP => simp [getPoolAndOffset, h₁, PoolId.handle, PoolId.base]
  case brp => simp [getPoolAndOffset, h₁, h₂, hf rfl, PoolId.handle, PoolId.base]
  case configurable => simp [getPoolAndOffset, h₁, h₂, h₃, PoolId.handle, PoolId.base]

end Lookup

/-! ## The classification -/

/-- on every setup whose bases are sentinels or multiples of the pool sizes, each pool test decides its pool's
range; before Init nothing is managed; and with disjoint pools a managed address is found in its one pool, at an
offset below the pool's size -/
theorem pool_membership (useBackupRefPtr : Bool) (m : PoolMaxSize) (setup : GigaCageSetup)
    (hadm : setup.Admissible m) :
    (∀ a, isInNonBRPPool m setup a = true ↔ PoolId.nonBRP.Contains m setup a) ∧
    (∀ a, isInBRPPool m setup a = true ↔ PoolId.brp.Contains m setup a) ∧
    (∀ a, isInConfigurablePool setup a = true ↔ PoolId.configurable.Contains m setup a) ∧
    (∀ a, isInNonBRPPool m (.initial m) a = false ∧ isInBRPPool m (.initial m) a = false ∧
      isInConfigurablePool (.initial m) a = false ∧
      isManagedByPartitionAlloc useBackupRefPtr m (.initial m) a = false) ∧
    (setup.PoolsDisjoint m → ∀ a, isManagedByPartitionAlloc useBackupRefPtr m setup a = true →
      ∃ p : PoolId, p.Contains m setup a ∧ (∀ q : PoolId, q.Contains m setup a → q = p) ∧
        getPoolAndOffset useBackupRefPtr m setup a = some (p.handle setup, a - p.base setup) ∧
        (a - p.base setup).toNat = a.toNat - (p.base setup).toNat ∧ (a - p.base setup).toNat < p.size m) := by
  refine ⟨PoolId.isIn_iff (hadm .nonBRP), PoolId.isIn_iff (hadm .brp), PoolId.isIn_iff (hadm .configurable),
    fun a => ⟨GigaCageSetup.isIn_initial .nonBRP a, GigaCageSetup.isIn_initial .brp a,
      GigaCageSetup.isIn_initial .configurable a, GigaCageSetup.isManagedByPartitionAlloc_initial _ a⟩,
    fun hdisj a ha => ?_⟩
  obtain ⟨p, hp, hf⟩ := exists_contains_of_managed hadm ha
  have hoff := PoolId.toNat_sub_base hp
  exact ⟨p, hp, fun q hq => hdisj q p a hq hp, getPoolAndOffset_of_contains hadm hdisj hp hf, hoff,
    by rw [hoff]; exact Nat.sub_lt_left_of_lt_add hp.2.1 hp.2.2⟩

/-- 16 GiB pools -/
def kPoolMaxSize16GiB : PoolMaxSize := ⟨34, by decide, by decide⟩

/-- the non-BRP pool at 16 GiB, the BRP pool at 32 GiB and the configurable pool at 64 GiB -/
def placedSetup : GigaCageSetup := ⟨0x400000000, 0x800000000, 0x1000000000, 1, 2, 3⟩

theorem placedSetup_admissible : placedSetup.Admissible kPoolMaxSize16GiB := fun p => by
  cases p <;> decide

theorem pool_membership_placed :
    placedSetup.Admissible kPoolMaxSize16GiB ∧
    (∀ a, isInNonBRPPool kPoolMaxSize16GiB placedSetup a = true ↔
      PoolId.nonBRP.Contains kPoolMaxSize16GiB placedSetup a) ∧
    (∀ a, isInBRPPool kPoolMaxSize16GiB placedSetup a = true ↔ PoolId.brp.Contains kPoolMaxSize16GiB placedSetup a) ∧
    (∀ a, isInConfigurablePool placedSetup a = true ↔ PoolId.configurable.Contains kPoolMaxSize16GiB placedSetup a) ∧
    (∀ a, isInNonBRPPool kPoolMaxSize16GiB (.initial kPoolMaxSize16GiB) a = false ∧
      isInBRPPool kPoolMaxSize16GiB (.initial kPoolMaxSize16GiB) a = false ∧
      isInConfigurablePool (.initial kPoolMaxSize16GiB) a = false ∧
      isManagedByPartitionAlloc true kPoolMaxSize16GiB (.initial kPoolMaxSize16GiB) a = false) ∧
    (placedSetup.PoolsDisjoint kPoolMaxSize16GiB → ∀ a,
      isManagedByPartitionAlloc true kPoolMaxSize16GiB placedSetup a = true →
      ∃ p : PoolId, p.Contains kPoolMaxSize16GiB placedSetup a ∧
        (∀ q : PoolId, q.Contains kPoolMaxSize16GiB placedSetup a → q = p) ∧
        getPoolAndOffset true kPoolMaxSize16GiB placedSetup a = some (p.handle placedSetup, a - p.base placedSetup) ∧
        (a - p.base placedSetup).toNat = a.toNat - (p.base placedSetup).toNat ∧
        (a - p.base placedSetup).toNat < p.size kPoolMaxSize16GiB) :=
  ⟨placedSetup_admissible, pool_membership true kPoolMaxSize16GiB placedSetup placedSetup_admissible⟩

end PartitionAlloc.PartitionAddressSpace
