/-
The super-page bitmap allocator `AddressPoolManager::Pool` (`address_pool_manager.cc`).

A pool covers `total_bits_` super pages from `address_begin_`; bit `i` of `alloc_bitset_` is set while super page `i`
is handed out. `bit_hint_` is a lower bound for the first clear bit. `FindChunk` is first fit from `bit_hint_`: the
outer `while (true)` loop tries the window `[beg_bit, beg_bit + need_bits)`, and the inner `for` loop scans the bits
not checked yet, moves `beg_bit` past every set bit it meets and pushes `bit_hint_` over a set bit it stands on.
`FreeChunk` clears a run of bits and lowers the hint.

Model:
- `uintptr_t` and `size_t` values are `Nat`; the two places where `size_t` arithmetic can wrap keep their
  `% 2 ^ 64`: the rounding `bits::Align(requested_size, kSuperPageSize)` and the returned address.
- the bitset is a function `Nat → Bool`; `std::bitset<kMaxBits>` only enters through the constructor's check.
- the outer loop carries a fuel argument; `FindChunk` gives it `total_bits_ + 1` passes, which
  `findChunkLoop_fuel` shows is never exhausted.
- `DCHECK`s are not evaluated (release build), with one exception: `Pool.create` takes the constructor's
  `DCHECK_LT(address_begin_, address_end_)` as the constructor's input contract, a range `[ptr, ptr + length)` that
  does not wrap around the address space. A release build does not check it, and a pool that wraps would hand out
  chunks past `2 ^ 64`, outside its range; the results on chunks (`Runs`) are for pools built within the contract.
-/
import Mathlib.Data.Nat.Count

namespace PartitionAlloc.AddressPoolManager

/-! ## Constants -/

/-- `kSuperPageShift` (`partition_alloc_constants.h`, not among the sources): super pages are 2 MiB -/
def kSuperPageShift : Nat := 21

def kSuperPageSize : Nat := 2 ^ kSuperPageShift

theorem kSuperPageSize_pos : 0 < kSuperPageSize := Nat.two_pow_pos _

/-- `bits::Align(size, alignment)` for a power-of-two `alignment`, in `size_t` arithmetic:
`(size + alignment - 1) & ~(alignment - 1)`; the mask rounds the wrapped sum down to a multiple of `alignment` -/
def bitsAlign (size alignment : Nat) : Nat := (size + alignment - 1) % 2 ^ 64 / alignment * alignment

/-! ## The pool -/

/-- `AddressPoolManager::Pool` (`address_end_` exists only for `DCHECK`s and is left out) -/
structure Pool where
  totalBits : Nat
  addressBegin : Nat
  allocBitset : Nat → Bool
  bitHint : Nat

/-- the bitset with bits `[beg, end)` set to `v`: the effect of the `set`/`reset` loops over a bit range -/
def setRange (bits : Nat → Bool) (beg «end» : Nat) (v : Bool) : Nat → Bool :=
  fun i => if beg ≤ i ∧ i < «end» then v else bits i

@[simp] theorem setRange_apply (bits : Nat → Bool) (beg «end» i : Nat) (v : Bool) :
    setRange bits beg «end» v i = if beg ≤ i ∧ i < «end» then v else bits i := rfl

/-- `Pool::Pool(ptr, length)`; `none` when one of its `CHECK`s fails. The last test is the contract that
`DCHECK_LT(address_begin_, address_end_)` states, with `address_end_ = ptr + length` in `uintptr_t`; a release build
does not check it -/
def Pool.create (kMaxBits : Nat) (ptr length : UInt64) : Option Pool :=
  if length.toNat / kSuperPageSize ≤ kMaxBits ∧ ptr.toNat % kSuperPageSize = 0 ∧
      length.toNat % kSuperPageSize = 0 ∧ ptr.toNat < (ptr.toNat + length.toNat) % 2 ^ 64 then
    some ⟨length.toNat / kSuperPageSize, ptr.toNat, fun _ => false, 0⟩
  else none

/-! ## FindChunk -/

/-- the state of `FindChunk`'s inner loop: `beg_bit`, `found` and `bit_hint_` -/
structure Scan where
  begBit : Nat
  found : Bool
  bitHint : Nat

/-- `for (; curr_bit < end_bit; ++curr_bit)`, run over the `n` bits from `currBit`: a set bit moves `beg_bit` past
it, clears `found`, and pushes `bit_hint_` over it when the hint stands on it -/
def scanBits (bits : Nat → Bool) : (n currBit : Nat) → Scan → Scan
  | 0, _, sc => sc
  | n + 1, currBit, sc =>
    scanBits bits n (currBit + 1)
      (if bits currBit then
        ⟨currBit + 1, false, if sc.bitHint = currBit then sc.bitHint + 1 else sc.bitHint⟩
      else sc)

/-- the `while (true)` loop of `FindChunk` from `beg_bit`, `curr_bit` and `bit_hint_`, for at most `fuel` passes:
`bit_hint_` at exit, and the first bit of the free window found (`none`: no free chunk, `return 0`) -/
def findChunkLoop (bits : Nat → Bool) (totalBits needBits : Nat) :
    (fuel begBit currBit bitHint : Nat) → Nat × Option Nat
  | 0, _, _, bitHint => (bitHint, none)
  | fuel + 1, begBit, currBit, bitHint =>
    if totalBits < begBit + needBits then (bitHint, none)
    else
      let sc := scanBits bits (begBit + needBits - currBit) currBit ⟨begBit, true, bitHint⟩
      if sc.found then (sc.bitHint, some sc.begBit)
      else findChunkLoop bits totalBits needBits fuel sc.begBit (max currBit (begBit + needBits)) sc.bitHint

/-- `need_bits`: the request rounded up to super pages, `bits::Align(requested_size, kSuperPageSize) >>
kSuperPageShift` -/
def needBits (requestedSize : Nat) : Nat := bitsAlign requestedSize kSuperPageSize / kSuperPageSize

/-- the end of `FindChunk` once its loop exits: for a window found at `begBit`, set its bits, move the hint past
it when the hint stood at its start, and return its address; otherwise return 0 -/
def Pool.claimWindow (p : Pool) (need : Nat) : Nat × Option Nat → Pool × Nat
  | (bitHint, none) => ({ p with bitHint := bitHint }, 0)
  | (bitHint, some begBit) =>
    ({ p with
        allocBitset := setRange p.allocBitset begBit (begBit + need) true
        bitHint := if bitHint = begBit then begBit + need else bitHint },
      (p.addressBegin + begBit * kSuperPageSize) % 2 ^ 64)

/-- `Pool::FindChunk(requested_size)`: the pool after the call and the address returned (`0`: no free chunk) -/
def Pool.findChunk (p : Pool) (requestedSize : Nat) : Pool × Nat :=
  p.claimWindow (needBits requestedSize)
    (findChunkLoop p.allocBitset p.totalBits (needBits requestedSize) (p.totalBits + 1) p.bitHint p.bitHint p.bitHint)

/-! ## FreeChunk -/

/-- `Pool::FreeChunk(address, free_size)`; callers pass `address ≥ address_begin_` (its `DCHECK_LE`) -/
def Pool.freeChunk (p : Pool) (address freeSize : Nat) : Pool :=
  let begBit := (address - p.addressBegin) / kSuperPageSize
  { p with
    allocBitset := setRange p.allocBitset begBit (begBit + bitsAlign freeSize kSuperPageSize / kSuperPageSize) false
    bitHint := min p.bitHint begBit }

/-- the spec's first scenario: a 4-super-page pool at `0x1000_0000_0000` -/
example : (Pool.create 8192 0x100000000000 0x800000).map (fun p => (p.findChunk (2 ^ 21)).2) =
    some 0x100000000000 := by decide

end PartitionAlloc.AddressPoolManager
