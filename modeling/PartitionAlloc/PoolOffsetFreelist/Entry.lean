/-
The pool-offset freelist entry `PoolOffsetFreelistEntry` (`pool_offset_freelist.h`).

A free slot starts with an entry. `next_` is the next free slot as an offset into the pool (`0` is `nullptr`), with
the pointer's memory-tag bits kept; `shadow_` is `~next_` in builds with shadow entries. `GetNextInternal` decodes
`next_` against the pool of the entry itself and refuses the result unless `IsWellFormed`: no pool-base bit in
`next_`, a matching shadow, one super page for both entries (not checked for the thread cache), and the result past
the super page's metadata partition page.

Model:
- pointers and `uintptr_t` are `BitVec 64`; `nullptr` is `0`.
- what the freelist reads from headers that are not among the sources is a field of `Platform`, with the facts
  about it that the code relies on as fields too: `kPtrTagMask`, `PartitionPageShift()`, the
  `PA_CONFIG(HAS_FREELIST_SHADOW_ENTRY)` and `PA_DCHECK_IS_ON` build flags, and the pools.
- `GetPoolInfo` is `GetPoolAndOffset` (`partition_address_space.h`) returning the pool's base mask as well: the
  first pool with `(address & base_mask) == base`; an address in no pool is its `PA_NOTREACHED()`.
- a call that does not return ends in a `Crash`: `FreelistCorruptionDetected(slot_size)` or `PA_NOTREACHED()`.
- memory is a function from an entry's address to its two words, so a walk down the list may read any contents.
-/
import PartitionAlloc.AddressPoolManager.Pool

namespace PartitionAlloc.PoolOffsetFreelist

open AddressPoolManager (kSuperPageSize)

/-! ## Super pages and pools -/

/-- `kSuperPageOffsetMask`: the offset of an address in its 2 MiB super page -/
def kSuperPageOffsetMask : BitVec 64 := BitVec.ofNat 64 (kSuperPageSize - 1)

def kSuperPageBaseMask : BitVec 64 := ~~~kSuperPageOffsetMask

/-- `(a & kSuperPageBaseMask) == (b & kSuperPageBaseMask)` -/
def SameSuperPage (a b : BitVec 64) : Prop := a &&& kSuperPageBaseMask = b &&& kSuperPageBaseMask

instance (a b : BitVec 64) : Decidable (SameSuperPage a b) := inferInstanceAs (Decidable (_ = _))

/-- a pool of the address space as `IsIn*Pool` tests it: its base address and base mask -/
structure PoolRange where
  base : BitVec 64
  baseMask : BitVec 64
deriving DecidableEq

/-- `(address & base_mask) == base` -/
def PoolRange.Contains (P : PoolRange) (address : BitVec 64) : Prop := address &&& P.baseMask = P.base

instance (P : PoolRange) (address : BitVec 64) : Decidable (P.Contains address) :=
  inferInstanceAs (Decidable (_ = _))

/-- the build and the address space the freelist runs in. The last four fields are the layout's facts: a pool's base
is aligned to its size; its base mask leaves out the tag bits (the pool masks are cut by `kMemTagUnmask`) and every
bit of a super-page offset (a pool is made of whole super pages); and no address lies in two pools. -/
structure Platform where
  kPtrTagMask : BitVec 64
  partitionPageShift : Nat
  hasFreelistShadowEntry : Bool
  dcheckIsOn : Bool
  pools : List PoolRange
  base_aligned : ∀ P ∈ pools, P.base &&& ~~~P.baseMask = 0
  mask_untagged : ∀ P ∈ pools, P.baseMask &&& kPtrTagMask = 0
  mask_super_page : ∀ P ∈ pools, P.baseMask &&& kSuperPageOffsetMask = 0
  disjoint : pools.Pairwise fun P Q => ∀ a, P.Contains a → ¬ Q.Contains a

/-- `PartitionAddressSpace::PoolInfo`; its `handle` is not read by the freelist -/
structure PoolInfo where
  base : BitVec 64
  baseMask : BitVec 64
  offset : BitVec 64

/-! ## The entry -/

/-- the two words of an entry -/
structure Entry where
  next : BitVec 64
  shadow : BitVec 64
deriving DecidableEq

/-- how a call ends that does not return -/
inductive Crash
  | freelistCorruptionDetected (slotSize : Nat)
  | notReached
deriving DecidableEq

def kNullptrOffset : BitVec 64 := 0

/-- `IsEncodedNextPtrZero()` -/
def Entry.isEncodedNextPtrZero (e : Entry) : Bool := e.next == kNullptrOffset

/-- `DecodeFromOffset(tagged_offset, pool_info)` -/
def decodeFromOffset (taggedOffset : BitVec 64) (poolInfo : PoolInfo) : BitVec 64 := poolInfo.base ||| taggedOffset

/-- `EmplaceAndInitNull(slot_start)`: the words of `PoolOffsetFreelistEntry(nullptr)` -/
def emplaceAndInitNull : Entry := ⟨kNullptrOffset, ~~~kNullptrOffset⟩

namespace Platform

variable (pf : Platform)

/-- `PartitionPageSize()`, `1 << PartitionPageShift()` -/
def partitionPageSize : Nat := 2 ^ pf.partitionPageShift

/-- `SlotStartPtr2Addr(ptr)`, that is `UntagPtr(ptr)`: the address with its tag bits cleared -/
def slotStartPtr2Addr (ptr : BitVec 64) : BitVec 64 := ptr &&& ~~~pf.kPtrTagMask

/-- `(address & kSuperPageOffsetMask) >= PartitionPageSize()`: not in the super page's metadata partition page -/
def NotInMetadata (address : BitVec 64) : Prop := pf.partitionPageSize ≤ (address &&& kSuperPageOffsetMask).toNat

instance (address : BitVec 64) : Decidable (pf.NotInMetadata address) := inferInstanceAs (Decidable (_ ≤ _))

/-- `GetPoolInfo(address)` -/
def getPoolInfo (address : BitVec 64) : Except Crash PoolInfo :=
  match pf.pools.find? fun P => decide (P.Contains address) with
  | some P => .ok ⟨P.base, P.baseMask, address - P.base⟩
  | none => .error .notReached

/-- `EncodeToOffset(ptr)`; its `PA_DCHECK` is not evaluated -/
def encodeToOffset (ptr : BitVec 64) : Except Crash (BitVec 64) :=
  if ptr = 0 then .ok kNullptrOffset
  else do
    let poolInfo ← pf.getPoolInfo ptr
    pure (ptr &&& (pf.kPtrTagMask ||| ~~~poolInfo.baseMask))

/-- `IsWellFormed<for_thread_cache>(pool_info, here, next)`, where `e` holds the words of `here` -/
def isWellFormed (forThreadCache : Bool) (poolInfo : PoolInfo) (here : BitVec 64) (e : Entry)
    (next : BitVec 64) : Bool :=
  let hereAddress := pf.slotStartPtr2Addr here
  let nextAddress := pf.slotStartPtr2Addr next
  let noBitInPoolBaseMask := e.next &&& poolInfo.baseMask == 0
  let notInMetadata := decide (pf.NotInMetadata nextAddress)
  let shadowPtrOk := if pf.hasFreelistShadowEntry then ~~~e.next == e.shadow else true
  if forThreadCache then noBitInPoolBaseMask && shadowPtrOk && notInMetadata
  else
    let sameSuperPage := decide (SameSuperPage hereAddress nextAddress)
    noBitInPoolBaseMask && shadowPtrOk && sameSuperPage && notInMetadata

/-- `GetNextInternal<crash_on_corruption, for_thread_cache>(slot_size)` on the entry at `here` holding `e`: the next
entry (`0` is `nullptr`) -/
def getNextInternal (crashOnCorruption forThreadCache : Bool) (slotSize : Nat) (here : BitVec 64) (e : Entry) :
    Except Crash (BitVec 64) :=
  if e.isEncodedNextPtrZero then .ok 0
  else do
    let poolInfo ← pf.getPoolInfo here
    let ret := decodeFromOffset e.next poolInfo
    if !pf.isWellFormed forThreadCache poolInfo here e ret then
      if crashOnCorruption then throw (.freelistCorruptionDetected slotSize) else pure 0
    else pure ret

/-- `GetNext(slot_size)` -/
def getNext (slotSize : Nat) (here : BitVec 64) (e : Entry) : Except Crash (BitVec 64) :=
  pf.getNextInternal true false slotSize here e

/-- `GetNextForThreadCache<crash_on_corruption>(slot_size)` -/
def getNextForThreadCache (crashOnCorruption : Bool) (slotSize : Nat) (here : BitVec 64) (e : Entry) :
    Except Crash (BitVec 64) :=
  pf.getNextInternal crashOnCorruption true slotSize here e

/-- `SetNext(entry)` on the entry at `here` holding `e`: the entry's new words. With `PA_DCHECK_IS_ON`, a non-null
`entry` in another super page is a corruption. -/
def setNext (here entry : BitVec 64) (e : Entry) : Except Crash Entry :=
  if pf.dcheckIsOn ∧ entry ≠ 0 ∧ ¬ SameSuperPage (pf.slotStartPtr2Addr here) (pf.slotStartPtr2Addr entry) then
    .error (.freelistCorruptionDetected 0)
  else do
    let next ← pf.encodeToOffset entry
    pure ⟨next, if pf.hasFreelistShadowEntry then ~~~next else e.shadow⟩

/-- `EmplaceAndInitForThreadCache(slot_start, next)`: the words the constructor `PoolOffsetFreelistEntry(next)`
writes -/
def emplaceAndInitForThreadCache (next : BitVec 64) : Except Crash Entry := do
  let n ← pf.encodeToOffset next
  pure ⟨n, ~~~n⟩

/-- `ClearForAllocation()` on the entry at `here`: the zeroed words, and the slot's untagged address -/
def clearForAllocation (here : BitVec 64) : Entry × BitVec 64 := (⟨0, 0⟩, pf.slotStartPtr2Addr here)

/-- the loop of `CheckFreeList` (`GetNext`) and `CheckFreeListForThreadCache` (`GetNextForThreadCache`), over any
`crash_on_corruption` and memory `mem`: the entry after `n` passes from `entry`; the loop stops at `nullptr` -/
def followNext (crashOnCorruption forThreadCache : Bool) (slotSize : Nat) (mem : BitVec 64 → Entry) :
    Nat → BitVec 64 → Except Crash (BitVec 64)
  | 0, entry => .ok entry
  | n + 1, entry =>
    if entry = 0 then .ok 0
    else (pf.getNextInternal crashOnCorruption forThreadCache slotSize entry (mem entry)).bind
      (followNext crashOnCorruption forThreadCache slotSize mem n)

section
variable {c t : Bool} {slotSize : Nat} {mem : BitVec 64 → Entry}

theorem followNext_succ_null (n : Nat) : pf.followNext c t slotSize mem (n + 1) 0 = .ok 0 := by
  simp [followNext]

theorem followNext_succ {entry : BitVec 64} (h : entry ≠ 0) (n : Nat) :
    pf.followNext c t slotSize mem (n + 1) entry =
      (pf.getNextInternal c t slotSize entry (mem entry)).bind (pf.followNext c t slotSize mem n) := by
  rw [followNext, if_neg h]

end

/-! ## What one call does -/

/-- pools that share no address: `find?` meets no pool holding `a` before `P` -/
theorem find?_contains {l : List PoolRange} (hd : l.Pairwise fun P Q => ∀ a, P.Contains a → ¬ Q.Contains a)
    {P : PoolRange} (hP : P ∈ l) {a : BitVec 64} (ha : P.Contains a) :
    l.find? (fun Q => decide (Q.Contains a)) = some P := by
  induction l with
  | nil => cases hP
  | cons Q l ih =>
    rw [List.pairwise_cons] at hd
    rcases List.mem_cons.1 hP with rfl | hP
    · simp [ha]
    · have hQ : ¬ Q.Contains a := fun hQ => hd.1 P hP a hQ ha
      simp [hQ, ih hd.2 hP]

/-- an address in a pool: `GetPoolInfo` returns that pool -/
theorem getPoolInfo_of_contains {P : PoolRange} (hP : P ∈ pf.pools) {a : BitVec 64} (ha : P.Contains a) :
    pf.getPoolInfo a = .ok ⟨P.base, P.baseMask, a - P.base⟩ := by
  simp [getPoolInfo, find?_contains pf.disjoint hP ha]

theorem isWellFormed_eq_true {t : Bool} {poolInfo : PoolInfo} {here next : BitVec 64} {e : Entry} :
    pf.isWellFormed t poolInfo here e next = true ↔
      e.next &&& poolInfo.baseMask = 0 ∧ (pf.hasFreelistShadowEntry = true → ~~~e.next = e.shadow) ∧
      (t = false → SameSuperPage (pf.slotStartPtr2Addr here) (pf.slotStartPtr2Addr next)) ∧
      pf.NotInMetadata (pf.slotStartPtr2Addr next) := by
  cases t <;> cases h : pf.hasFreelistShadowEntry <;> simp [isWellFormed, h, and_assoc]

theorem getNextInternal_of_next_zero {e : Entry} (h : e.next = 0) (c t : Bool) (slotSize : Nat)
    (here : BitVec 64) : pf.getNextInternal c t slotSize here e = .ok 0 := by
  simp [getNextInternal, Entry.isEncodedNextPtrZero, h, kNullptrOffset]

/-- `EncodeToOffset` of a non-null address in pool `P`: the address with `P`'s base bits cleared, tag bits kept -/
theorem encodeToOffset_of_contains {P : PoolRange} (hP : P ∈ pf.pools) {ptr : BitVec 64} (hptr : P.Contains ptr)
    (h0 : ptr ≠ 0) : pf.encodeToOffset ptr = .ok (ptr &&& (pf.kPtrTagMask ||| ~~~P.baseMask)) := by
  rw [encodeToOffset, if_neg h0, getPoolInfo_of_contains pf hP hptr]
  rfl

/-- `GetNextInternal` on an entry in pool `P`: `nullptr` for a zero `next_`, else `P`'s base OR `next_` when well
formed, else a corruption -/
theorem getNextInternal_of_contains {P : PoolRange} (hP : P ∈ pf.pools) {here : BitVec 64} (hh : P.Contains here)
    (c t : Bool) (slotSize : Nat) (e : Entry) :
    pf.getNextInternal c t slotSize here e =
      if e.next = 0 then .ok 0
      else if pf.isWellFormed t ⟨P.base, P.baseMask, here - P.base⟩ here e (P.base ||| e.next) then
        .ok (P.base ||| e.next)
      else if c then .error (.freelistCorruptionDetected slotSize) else .ok 0 := by
  by_cases h0 : e.next = 0
  · simp [getNextInternal_of_next_zero pf h0, h0]
  · simp only [getNextInternal, Entry.isEncodedNextPtrZero, kNullptrOffset, beq_iff_eq, h0, if_false,
      getPoolInfo_of_contains pf hP hh, decodeFromOffset, bind, Except.bind]
    cases pf.isWellFormed t ⟨P.base, P.baseMask, here - P.base⟩ here e (P.base ||| e.next) <;> cases c <;> rfl

end Platform

end PartitionAlloc.PoolOffsetFreelist
