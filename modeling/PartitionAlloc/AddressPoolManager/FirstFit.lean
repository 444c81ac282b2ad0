/-
`FindChunk` is first fit, and where its rounding wraps (`address_pool_manager.cc`).

The outer loop never skips a free window: a pass that moves `beg_bit` moves it just past a set bit of the window it
scanned, so every start it skips has that bit in its own window; and the hint starts the search above set bits only.
With `total_bits_ + 1` passes the loop always exits through one of its `return`s.

`need_bits` is `bits::Align(requested_size, kSuperPageSize) >> kSuperPageShift`. Within `kSuperPageSize - 1` of
`SIZE_MAX` the sum in `Align` wraps and `need_bits` is 0, so `FindChunk` returns `address_begin_ + bit_hint_ *
kSuperPageSize` and sets no bit.

- `scanBits_begBit_cases`: a pass leaves `beg_bit` where it was or just past a set bit it scanned;
- `findChunkLoop_first_fit`: the loop returns the least free window, or none when there is none;
- `needBits_of_lt`: without wrap, `need_bits` is the request in super pages rounded up;
- `findChunk_first_fit`: for a pool with the hint invariant, not wrapping past `2 ^ 64`, and a request of at least one
  byte that does not wrap, `FindChunk` returns the address of the least free window and sets exactly its bits, and
  returns 0, changing nothing, exactly when there is none;
- `findChunk_reserves`: for every request that does not wrap, a non-zero address has the request's super pages
  newly set from its bit, inside the pool;
- `findChunk_huge_request`, `findChunk_wraps`: requests that wrap return a non-zero address and set no bit.
-/
import PartitionAlloc.AddressPoolManager.FindChunk

namespace PartitionAlloc.AddressPoolManager

variable {bits : Nat → Bool}

/-! ## Free windows -/

/-- the `need` bits from `b` are inside the pool and clear -/
def Feasible (bits : Nat → Bool) (totalBits need b : Nat) : Prop :=
  b + need ≤ totalBits ∧ ∀ i, b ≤ i → i < b + need → bits i = false

instance (bits : Nat → Bool) (totalBits need b : Nat) : Decidable (Feasible bits totalBits need b) :=
  decidable_of_iff (b + need ≤ totalBits ∧ ∀ k < need, bits (b + k) = false)
    ⟨fun ⟨h1, h2⟩ => ⟨h1, fun i hi1 hi2 => by simpa [Nat.add_sub_cancel' hi1] using h2 (i - b) (by omega)⟩,
      fun ⟨h1, h2⟩ => ⟨h1, fun k hk => h2 (b + k) (Nat.le_add_right b k) (by omega)⟩⟩

/-- `b` is the least free window -/
def FirstFit (bits : Nat → Bool) (totalBits need b : Nat) : Prop :=
  Feasible bits totalBits need b ∧ ∀ b' < b, ¬Feasible bits totalBits need b'

/-- the least free window is unique -/
theorem FirstFit.unique {totalBits need b b' : Nat} (h : FirstFit bits totalBits need b)
    (h' : FirstFit bits totalBits need b') : b = b' :=
  le_antisymm (Nat.not_lt.1 fun hlt => h.2 b' hlt h'.1) (Nat.not_lt.1 fun hlt => h'.2 b hlt h.1)

/-- a window that holds a set bit is not free -/
theorem not_feasible_of_set {totalBits need b j : Nat} (hj1 : b ≤ j) (hj2 : j < b + need) (hj : bits j = true) :
    ¬Feasible bits totalBits need b :=
  fun h => by simp [h.2 j hj1 hj2] at hj

/-! ## The loop skips no free window -/

/-- a pass leaves `beg_bit` where it was, or just past a set bit it scanned -/
theorem scanBits_begBit_cases (n c : Nat) (sc : Scan) :
    (scanBits bits n c sc).begBit = sc.begBit ∨
      ∃ j, c ≤ j ∧ j < c + n ∧ bits j = true ∧ (scanBits bits n c sc).begBit = j + 1 := by
  induction n generalizing c sc with
  | zero => exact .inl rfl
  | succ n ih =>
    rw [scanBits_succ]
    by_cases hb : bits c
    · simp only [hb, if_true]
      rcases ih (c + 1) ⟨c + 1, false, if sc.bitHint = c then sc.bitHint + 1 else sc.bitHint⟩ with h | ⟨j, h1, h2, h3, h4⟩
      · exact .inr ⟨c, le_rfl, by omega, hb, h⟩
      · exact .inr ⟨j, by omega, by omega, h3, h4⟩
    · simp only [hb, Bool.false_eq_true, if_false]
      rcases ih (c + 1) sc with h | ⟨j, h1, h2, h3, h4⟩
      · exact .inl h
      · exact .inr ⟨j, by omega, by omega, h3, h4⟩

/-- **First fit of the outer loop.** From the loop invariant, with no free window starting below `beg_bit` and fuel
left for every pass, a window the loop returns is preceded by no free one, and when it returns none there is no free
window at all. -/
theorem findChunkLoop_first_fit {totalBits need fuel beg curr hint : Nat} (h : LoopInv bits totalBits beg curr hint)
    (hbelow : ∀ b < beg, ¬Feasible bits totalBits need b) (hfuel : totalBits - curr < fuel) :
    (∀ b, (findChunkLoop bits totalBits need fuel beg curr hint).2 = some b →
      ∀ b' < b, ¬Feasible bits totalBits need b') ∧
    ((findChunkLoop bits totalBits need fuel beg curr hint).2 = none → ∀ b, ¬Feasible bits totalBits need b) := by
  induction fuel generalizing beg curr hint with
  | zero => omega
  | succ fuel ih =>
    simp only [findChunkLoop]
    split_ifs with htot hfound
    · -- no window fits past `beg_bit`
      refine ⟨by simp, fun _ b hb => ?_⟩
      rcases Nat.lt_or_ge b beg with hlt | hge
      · exact hbelow b hlt hb
      · exact absurd hb.1 (by omega)
    · -- the window at `beg_bit` is free
      rw [(scanBits_eq_of_found hfound).1]
      exact ⟨fun b hb => by cases hb; exact hbelow, by simp⟩
    · -- the next pass starts past the last set bit met
      have hscan := lt_of_scanBits_not_found rfl (Bool.not_eq_true _ ▸ hfound)
      refine ih (h.next (by omega)) (fun b hb hfeas => ?_) (by omega)
      rcases Nat.lt_or_ge b beg with hlt | hge
      · exact hbelow b hlt hfeas
      · rcases scanBits_begBit_cases (beg + need - curr) curr ⟨beg, true, hint⟩ with hsame | ⟨j, hj1, hj2, hj, hbeg⟩
        · exact absurd hb (by rw [hsame]; exact Nat.not_lt.2 hge)
        · exact not_feasible_of_set (by omega) (by omega) hj hfeas

/-! ## One call -/

/-- without wrap, `need_bits` is the request in super pages, rounded up -/
theorem needBits_of_lt {r : Nat} (h : r + kSuperPageSize - 1 < 2 ^ 64) :
    needBits r = (r + kSuperPageSize - 1) / kSuperPageSize := by
  rw [needBits, bitsAlign, Nat.mod_eq_of_lt h, Nat.mul_div_cancel _ kSuperPageSize_pos]

/-- from the hint invariant, no free window of at least one bit starts below the hint -/
theorem Pool.HintInv.none_below {p : Pool} (hp : p.HintInv) {need : Nat} (hneed : 0 < need) :
    ∀ b < p.bitHint, ¬Feasible p.allocBitset p.totalBits need b :=
  fun b hb => not_feasible_of_set le_rfl (by omega) (hp.below_hint b hb)

/-- the pools the constructor builds end below `2 ^ 64` (its `DCHECK_LT(address_begin_, address_end_)`) and start
with the hint invariant -/
theorem Pool.create_spec {kMaxBits : Nat} {ptr length : UInt64} {p : Pool} (h : Pool.create kMaxBits ptr length = some p) :
    p.addressBegin + p.totalBits * kSuperPageSize < 2 ^ 64 ∧ p.HintInv := by
  unfold Pool.create at h
  split_ifs at h with hc
  cases h
  have hptr : ptr.toNat < 2 ^ 64 := ptr.toNat_lt_size
  have hlen : length.toNat < 2 ^ 64 := length.toNat_lt_size
  have hSP : kSuperPageSize = 2097152 := rfl
  refine ⟨?_, ⟨Nat.zero_le _, fun i hi => absurd hi (Nat.not_lt_zero i)⟩⟩
  simp only [hSP] at hc ⊢
  omega

/-- the loop of a call, with its fuel -/
theorem findChunk_eq (p : Pool) (r : Nat) : p.findChunk r = p.claimWindow (needBits r)
    (findChunkLoop p.allocBitset p.totalBits (needBits r) (p.totalBits + 1) p.bitHint p.bitHint p.bitHint) := rfl

/-- **`FindChunk` is first fit.** For a pool with the hint invariant whose super pages end below `2 ^ 64` and whose
`address_begin_` is not 0, and a request of at least one byte that does not wrap in `bits::Align`: the loop exits
within its fuel (more passes change nothing); `need_bits` is the request in super pages, rounded up; when a free
window exists, `FindChunk` returns the address of the least one and sets exactly its bits; and it returns 0, leaving
the bitset as it was, exactly when there is none. -/
theorem findChunk_first_fit (p : Pool) (r : Nat) (hp : p.HintInv) (hbegin : p.addressBegin ≠ 0)
    (hend : p.addressBegin + p.totalBits * kSuperPageSize < 2 ^ 64) (hr : 0 < r)
    (hwrap : r + kSuperPageSize - 1 < 2 ^ 64) :
    (∀ k, findChunkLoop p.allocBitset p.totalBits (needBits r) (p.totalBits + 1 + k) p.bitHint p.bitHint p.bitHint =
      findChunkLoop p.allocBitset p.totalBits (needBits r) (p.totalBits + 1) p.bitHint p.bitHint p.bitHint) ∧
    needBits r = (r + kSuperPageSize - 1) / kSuperPageSize ∧
    (∀ b, FirstFit p.allocBitset p.totalBits (needBits r) b →
      (p.findChunk r).2 = p.addressBegin + b * kSuperPageSize ∧
      (p.findChunk r).1.allocBitset = setRange p.allocBitset b (b + needBits r) true) ∧
    ((p.findChunk r).2 = 0 ↔ ∀ b, ¬Feasible p.allocBitset p.totalBits (needBits r) b) ∧
    ((p.findChunk r).2 = 0 → (p.findChunk r).1.allocBitset = p.allocBitset) := by
  have hneed : 0 < needBits r := by
    rw [needBits_of_lt hwrap]
    exact Nat.div_pos (by omega) kSuperPageSize_pos
  have hfit := @findChunkLoop_first_fit p.allocBitset p.totalBits (needBits r) (p.totalBits + 1) p.bitHint p.bitHint
    p.bitHint (LoopInv.start hp.1 hp.2) (hp.none_below hneed) (by omega)
  have hsound := (@findChunkLoop_sound p.allocBitset p.totalBits (needBits r) (p.totalBits + 1) p.bitHint p.bitHint
    p.bitHint (LoopInv.start hp.1 hp.2)).2
  refine ⟨fun k => findChunkLoop_fuel k (by omega), needBits_of_lt hwrap, ?_⟩
  rw [findChunk_eq]
  generalize findChunkLoop p.allocBitset p.totalBits (needBits r) (p.totalBits + 1) p.bitHint p.bitHint
    p.bitHint = res at hfit hsound
  rcases res with ⟨hint, _ | b₀⟩
  · -- no window: every start is taken
    have hnone := hfit.2 rfl
    exact ⟨fun b hb => absurd hb.1 (hnone b), ⟨fun _ => hnone, fun _ => rfl⟩, fun _ => rfl⟩
  · -- the window found is the least free one
    obtain ⟨hin, hclear⟩ := hsound b₀ rfl
    have hfirst : FirstFit p.allocBitset p.totalBits (needBits r) b₀ := ⟨⟨hin, hclear⟩, hfit.1 b₀ rfl⟩
    have haddr : p.addressBegin + b₀ * kSuperPageSize < 2 ^ 64 :=
      lt_of_le_of_lt (Nat.add_le_add_left (Nat.mul_le_mul_right _ (by omega)) _) hend
    have hret : (p.claimWindow (needBits r) (hint, some b₀)).2 = p.addressBegin + b₀ * kSuperPageSize :=
      Nat.mod_eq_of_lt haddr
    refine ⟨fun b hb => ?_, ⟨fun h0 => absurd (hret ▸ h0) (by omega), fun h => absurd hfirst.1 (h b₀)⟩,
      fun h0 => absurd (hret ▸ h0) (by omega)⟩
    obtain rfl := hb.unique hfirst
    exact ⟨hret, rfl⟩

/-- a fresh pool of 4 super pages at `0x1000_0000_0000`, asked for one super page -/
theorem findChunk_first_fit_fresh :
    ∃ p, Pool.create 8192 0x100000000000 0x800000 = some p ∧ p.HintInv ∧ p.addressBegin ≠ 0 ∧
      p.addressBegin + p.totalBits * kSuperPageSize < 2 ^ 64 ∧ 0 < kSuperPageSize ∧
      kSuperPageSize + kSuperPageSize - 1 < 2 ^ 64 ∧
      (∀ k, findChunkLoop p.allocBitset p.totalBits (needBits kSuperPageSize) (p.totalBits + 1 + k) p.bitHint
          p.bitHint p.bitHint =
        findChunkLoop p.allocBitset p.totalBits (needBits kSuperPageSize) (p.totalBits + 1) p.bitHint p.bitHint
          p.bitHint) ∧
      needBits kSuperPageSize = (kSuperPageSize + kSuperPageSize - 1) / kSuperPageSize ∧
      (∀ b, FirstFit p.allocBitset p.totalBits (needBits kSuperPageSize) b →
        (p.findChunk kSuperPageSize).2 = p.addressBegin + b * kSuperPageSize ∧
        (p.findChunk kSuperPageSize).1.allocBitset =
          setRange p.allocBitset b (b + needBits kSuperPageSize) true) ∧
      ((p.findChunk kSuperPageSize).2 = 0 ↔ ∀ b, ¬Feasible p.allocBitset p.totalBits (needBits kSuperPageSize) b) ∧
      ((p.findChunk kSuperPageSize).2 = 0 → (p.findChunk kSuperPageSize).1.allocBitset = p.allocBitset) := by
  obtain ⟨hend, hp⟩ := @Pool.create_spec 8192 0x100000000000 0x800000 _ rfl
  exact ⟨_, rfl, hp, by decide, hend, kSuperPageSize_pos, by decide,
    findChunk_first_fit _ kSuperPageSize hp (by decide) hend kSuperPageSize_pos (by decide)⟩

/-! ## Requests near `SIZE_MAX` -/

theorem setRange_empty (bits : Nat → Bool) (b : Nat) (v : Bool) : setRange bits b (b + 0) v = bits :=
  funext fun i => by rw [setRange_apply, if_neg (by omega)]

/-- within `kSuperPageSize - 1` of `2 ^ 64` the rounding wraps and `need_bits` is 0 -/
theorem needBits_eq_zero_of_wrap {r : Nat} (hlo : 2 ^ 64 - kSuperPageSize < r) (hhi : r < 2 ^ 64) : needBits r = 0 := by
  have hSP : kSuperPageSize = 2097152 := rfl
  rw [needBits, bitsAlign, hSP]
  rw [hSP] at hlo
  omega

/-- a request of no super page returns the hint's address and sets no bit -/
theorem findChunk_of_needBits_zero (p : Pool) {r : Nat} (hp : p.HintInv) (h : needBits r = 0) :
    (p.findChunk r).1.allocBitset = p.allocBitset ∧
      (p.findChunk r).2 = (p.addressBegin + p.bitHint * kSuperPageSize) % 2 ^ 64 := by
  have hloop : findChunkLoop p.allocBitset p.totalBits 0 (p.totalBits + 1) p.bitHint p.bitHint p.bitHint =
      (p.bitHint, some p.bitHint) := by
    simp [findChunkLoop, show ¬p.totalBits < p.bitHint from Nat.not_lt.2 hp.hint_le]
  rw [findChunk_eq, h, hloop]
  exact ⟨setRange_empty _ _ _, rfl⟩

/-- **What a non-zero address reserves.** For a pool with the hint invariant that ends below `2 ^ 64`, and a request
that does not wrap in `bits::Align`, a non-zero address is `address_begin_ + b * kSuperPageSize` for a bit `b` whose
`need_bits` bits (the request in super pages, rounded up) were clear and are now set, no other bit changing, and the
request ends inside the pool. -/
theorem findChunk_reserves (p : Pool) (r : Nat) (hp : p.HintInv)
    (hend : p.addressBegin + p.totalBits * kSuperPageSize < 2 ^ 64) (hwrap : r + kSuperPageSize - 1 < 2 ^ 64)
    (hnz : (p.findChunk r).2 ≠ 0) :
    ∃ b, (p.findChunk r).2 = p.addressBegin + b * kSuperPageSize ∧
      (∀ i, b ≤ i → i < b + needBits r → p.allocBitset i = false) ∧
      (p.findChunk r).1.allocBitset = setRange p.allocBitset b (b + needBits r) true ∧
      needBits r = (r + kSuperPageSize - 1) / kSuperPageSize ∧
      (p.findChunk r).2 + r ≤ p.addressBegin + p.totalBits * kSuperPageSize := by
  have hSP : kSuperPageSize = 2097152 := rfl
  rcases (findChunk_spec p r hp).2 with ⟨-, h0⟩ | ⟨b, hin, hclear, hset, haddr⟩
  · exact absurd h0 hnz
  · have hneed := needBits_of_lt hwrap
    rw [hSP] at hneed hend haddr ⊢
    rw [Nat.mod_eq_of_lt (by omega)] at haddr
    refine ⟨b, haddr, hclear, hset, hneed, ?_⟩
    omega

theorem findChunk_reserves_fresh :
    ∃ p, Pool.create 8192 0x100000000000 0x800000 = some p ∧ p.HintInv ∧
      p.addressBegin + p.totalBits * kSuperPageSize < 2 ^ 64 ∧ 3 * kSuperPageSize + kSuperPageSize - 1 < 2 ^ 64 ∧
      (p.findChunk (3 * kSuperPageSize)).2 ≠ 0 ∧
      ∃ b, (p.findChunk (3 * kSuperPageSize)).2 = p.addressBegin + b * kSuperPageSize ∧
        (∀ i, b ≤ i → i < b + needBits (3 * kSuperPageSize) → p.allocBitset i = false) ∧
        (p.findChunk (3 * kSuperPageSize)).1.allocBitset =
          setRange p.allocBitset b (b + needBits (3 * kSuperPageSize)) true ∧
        needBits (3 * kSuperPageSize) = (3 * kSuperPageSize + kSuperPageSize - 1) / kSuperPageSize ∧
        (p.findChunk (3 * kSuperPageSize)).2 + 3 * kSuperPageSize ≤
          p.addressBegin + p.totalBits * kSuperPageSize := by
  obtain ⟨hend, hp⟩ := @Pool.create_spec 8192 0x100000000000 0x800000 _ rfl
  exact ⟨_, rfl, hp, hend, by decide, by decide,
    findChunk_reserves _ (3 * kSuperPageSize) hp hend (by decide) (by decide)⟩

/-- a request within `kSuperPageSize - 1` of `SIZE_MAX` on a fresh pool of 4 super pages: `FindChunk` returns the
pool's first address, sets no bit, and the next request of one super page gets the same address -/
theorem findChunk_wraps :
    ∃ p, Pool.create 8192 0x100000000000 0x800000 = some p ∧
      needBits (2 ^ 64 - kSuperPageSize + 1) = 0 ∧
      (p.findChunk (2 ^ 64 - kSuperPageSize + 1)).2 = 0x100000000000 ∧
      (p.findChunk (2 ^ 64 - kSuperPageSize + 1)).1.allocBitset = p.allocBitset ∧
      0x100000000000 + (2 ^ 64 - kSuperPageSize + 1) > p.addressBegin + p.totalBits * kSuperPageSize ∧
      ((p.findChunk (2 ^ 64 - kSuperPageSize + 1)).1.findChunk kSuperPageSize).2 = 0x100000000000 := by
  obtain ⟨-, hp⟩ := @Pool.create_spec 8192 0x100000000000 0x800000 _ rfl
  have hzero := needBits_eq_zero_of_wrap (r := 2 ^ 64 - kSuperPageSize + 1) (by decide) (by decide)
  obtain ⟨hbits, hret⟩ := findChunk_of_needBits_zero _ hp hzero
  exact ⟨_, rfl, hzero, hret, hbits, by decide, rfl⟩

/-- after one super page was handed out, a request of `SIZE_MAX` bytes, which no pool of 4 super pages can hold,
returns the address of the next super page and sets no bit -/
theorem findChunk_huge_request :
    ∃ p, Pool.create 8192 0x100000000000 0x800000 = some p ∧
      (p.findChunk kSuperPageSize).1.HintInv ∧
      (∀ b, ¬Feasible (p.findChunk kSuperPageSize).1.allocBitset (p.findChunk kSuperPageSize).1.totalBits
        ((2 ^ 64 - 1 + kSuperPageSize - 1) / kSuperPageSize) b) ∧
      ((p.findChunk kSuperPageSize).1.findChunk (2 ^ 64 - 1)).2 = 0x100000200000 ∧
      ((p.findChunk kSuperPageSize).1.findChunk (2 ^ 64 - 1)).1.allocBitset =
        (p.findChunk kSuperPageSize).1.allocBitset := by
  obtain ⟨-, hp⟩ := @Pool.create_spec 8192 0x100000000000 0x800000 _ rfl
  have hp₁ := (findChunk_spec _ kSuperPageSize hp).1
  have hzero := needBits_eq_zero_of_wrap (r := 2 ^ 64 - 1) (by decide) (by decide)
  obtain ⟨hbits, hret⟩ := findChunk_of_needBits_zero _ hp₁ hzero
  exact ⟨_, rfl, hp₁, fun b hb => absurd (le_trans (Nat.le_add_left _ b) hb.1)
    (by simp only [findChunk_totalBits]; decide), hret.trans rfl, hbits⟩

end PartitionAlloc.AddressPoolManager
