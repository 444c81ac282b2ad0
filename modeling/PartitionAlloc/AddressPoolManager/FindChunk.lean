/-
What one call of `FindChunk` and `FreeChunk` does, proved once from the loops of `Pool`.

- `scanBits_*`: the inner loop. It leaves `found` set only over a window of clear bits, and then changes nothing
  (`scanBits_eq_of_found`); every bit from the `beg_bit` it leaves to the end of the window is clear
  (`scanBits_clear_from`); it keeps `bit_hint_` below the scanned bits and every bit under it set
  (`scanBits_hint`).
- `findChunkLoop_fuel`: `total_bits_ + 1` passes of the outer loop are never exhausted; more fuel gives the same
  result, so the model is the unbounded `while (true)` loop.
- `findChunkLoop_sound`: the loop invariant `LoopInv` (bits `[beg_bit, curr_bit)` clear, bits under `bit_hint_`
  set) carries through every pass; a window the loop returns lies in the pool and is all clear.
- `findChunk_spec`, `freeChunk_*`: the pool-level effect, from a pool whose hint invariant `HintInv` holds.
-/
import PartitionAlloc.AddressPoolManager.Pool

namespace PartitionAlloc.AddressPoolManager

variable {bits : Nat → Bool}

/-! ## The inner loop -/

@[simp] theorem scanBits_zero (c : Nat) (sc : Scan) : scanBits bits 0 c sc = sc := rfl

theorem scanBits_succ (n c : Nat) (sc : Scan) :
    scanBits bits (n + 1) c sc =
      scanBits bits n (c + 1)
        (if bits c then ⟨c + 1, false, if sc.bitHint = c then sc.bitHint + 1 else sc.bitHint⟩ else sc) := rfl

theorem scanBits_not_found {n c : Nat} {sc : Scan} (h : sc.found = false) :
    (scanBits bits n c sc).found = false := by
  induction n generalizing c sc with
  | zero => exact h
  | succ n ih => rw [scanBits_succ]; split_ifs <;> exact ih (by simp [h])

/-- a pass that keeps `found` met no set bit: it changed nothing, and the window was clear -/
theorem scanBits_eq_of_found {n c : Nat} {sc : Scan} (h : (scanBits bits n c sc).found = true) :
    scanBits bits n c sc = sc ∧ ∀ i, c ≤ i → i < c + n → bits i = false := by
  induction n generalizing c sc with
  | zero => exact ⟨rfl, fun i h1 h2 => by omega⟩
  | succ n ih =>
    rw [scanBits_succ] at h ⊢
    by_cases hb : bits c
    · simp only [hb, if_true] at h
      exact absurd (scanBits_not_found rfl) (by simpa using h)
    · simp only [hb, Bool.false_eq_true, if_false] at h ⊢
      obtain ⟨h1, h2⟩ := ih h
      refine ⟨h1, fun i hi1 hi2 => ?_⟩
      rcases Nat.eq_or_lt_of_le hi1 with rfl | hi1
      · simpa using hb
      · exact h2 i hi1 (by omega)

/-- bits from the `beg_bit` a pass leaves up to the end of its window are clear -/
theorem scanBits_clear_from {n c : Nat} {sc : Scan}
    (h : ∀ i, sc.begBit ≤ i → i < c → bits i = false) :
    ∀ i, (scanBits bits n c sc).begBit ≤ i → i < c + n → bits i = false := by
  induction n generalizing c sc with
  | zero => exact h
  | succ n ih =>
    rw [scanBits_succ]
    refine fun i hi1 hi2 => ih (fun j hj1 hj2 => ?_) i hi1 (by omega)
    by_cases hb : bits c
    · simp only [hb, if_true] at hj1; omega
    · simp only [hb, Bool.false_eq_true, if_false] at hj1
      rcases Nat.lt_or_ge j c with hj | hj
      · exact h j hj1 hj
      · simpa [show j = c by omega] using hb

theorem scanBits_begBit_le {n c : Nat} {sc : Scan} (h : sc.begBit ≤ c) :
    sc.begBit ≤ (scanBits bits n c sc).begBit ∧ (scanBits bits n c sc).begBit ≤ c + n := by
  induction n generalizing c sc with
  | zero => exact ⟨le_rfl, by simpa using h⟩
  | succ n ih =>
    rw [scanBits_succ]
    by_cases hb : bits c
    · simp only [hb, if_true]
      have := @ih (c + 1) ⟨c + 1, false, if sc.bitHint = c then sc.bitHint + 1 else sc.bitHint⟩ le_rfl
      dsimp only at this
      exact ⟨by omega, by omega⟩
    · simp only [hb, Bool.false_eq_true, if_false]
      have := @ih (c + 1) sc (by omega)
      exact ⟨this.1, by omega⟩

/-- the hint stays below the scanned bits, over set bits only -/
theorem scanBits_hint {n c : Nat} {sc : Scan} (hle : sc.bitHint ≤ c)
    (hset : ∀ i < sc.bitHint, bits i = true) :
    (scanBits bits n c sc).bitHint ≤ c + n ∧ ∀ i < (scanBits bits n c sc).bitHint, bits i = true := by
  induction n generalizing c sc with
  | zero => exact ⟨by simpa using hle, hset⟩
  | succ n ih =>
    rw [scanBits_succ]
    by_cases hb : bits c
    · simp only [hb, if_true]
      refine (@ih (c + 1) ⟨c + 1, false, if sc.bitHint = c then sc.bitHint + 1 else sc.bitHint⟩
        ?_ fun i hi => ?_).imp (by omega) id
      · dsimp only; split_ifs <;> omega
      · dsimp only at hi
        split_ifs at hi
        · rcases Nat.lt_or_ge i sc.bitHint with h | h
          · exact hset i h
          · rw [show i = c by omega]; exact hb
        · exact hset i hi
    · simp only [hb, Bool.false_eq_true, if_false]
      exact (ih (by omega) hset).imp (by omega) id

/-! ## The outer loop -/

/-- a pass that ends without `found` scanned at least one bit, so `curr_bit` moves forward -/
theorem lt_of_scanBits_not_found {n c : Nat} {sc : Scan} (hsc : sc.found = true)
    (h : (scanBits bits n c sc).found = false) : 0 < n := by
  rcases Nat.eq_zero_or_pos n with rfl | hn
  · simp [hsc] at h
  · exact hn

/-- **The fuel is never exhausted.** Once the fuel exceeds `total_bits_ - curr_bit`, more fuel changes nothing:
every pass that does not return moves `curr_bit` to a larger `end_bit ≤ total_bits_`. -/
theorem findChunkLoop_fuel {totalBits need fuel : Nat} (k : Nat) {beg curr hint : Nat}
    (hfuel : totalBits - curr < fuel) :
    findChunkLoop bits totalBits need (fuel + k) beg curr hint =
      findChunkLoop bits totalBits need fuel beg curr hint := by
  induction fuel generalizing beg curr hint with
  | zero => omega
  | succ fuel ih =>
    rw [Nat.add_right_comm]
    simp only [findChunkLoop]
    split_ifs with htot hfound
    · rfl
    · rfl
    · have := lt_of_scanBits_not_found rfl (Bool.not_eq_true _ ▸ hfound)
      exact ih (by omega)

/-- the invariant of `FindChunk`'s outer loop at the top of each pass -/
structure LoopInv (bits : Nat → Bool) (totalBits beg curr hint : Nat) : Prop where
  beg_le : beg ≤ curr
  curr_le : curr ≤ totalBits
  clear : ∀ i, beg ≤ i → i < curr → bits i = false
  hint_le : hint ≤ curr
  below_hint : ∀ i < hint, bits i = true

theorem LoopInv.start {totalBits hint : Nat} (hle : hint ≤ totalBits) (hset : ∀ i < hint, bits i = true) :
    LoopInv bits totalBits hint hint hint :=
  ⟨le_rfl, hle, fun i h1 h2 => by omega, le_rfl, hset⟩

/-- one pass that does not return keeps the invariant -/
theorem LoopInv.next {totalBits need beg curr hint : Nat} (h : LoopInv bits totalBits beg curr hint)
    (htot : beg + need ≤ totalBits) :
    let sc := scanBits bits (beg + need - curr) curr ⟨beg, true, hint⟩
    LoopInv bits totalBits sc.begBit (max curr (beg + need)) sc.bitHint := by
  intro sc
  have hb := @scanBits_begBit_le bits (beg + need - curr) curr ⟨beg, true, hint⟩ h.beg_le
  have hh := @scanBits_hint bits (beg + need - curr) curr ⟨beg, true, hint⟩ h.hint_le h.below_hint
  have hc := @scanBits_clear_from bits (beg + need - curr) curr ⟨beg, true, hint⟩ h.clear
  have hmax : curr + (beg + need - curr) = max curr (beg + need) := by omega
  rw [hmax] at hb hh hc
  exact ⟨hb.2, by have := h.curr_le; omega, hc, hh.1, hh.2⟩

/-- **Soundness of the outer loop.** From the invariant, the loop exits with the hint invariant, and a window it
returns lies in the pool and is all clear. -/
theorem findChunkLoop_sound {totalBits need fuel beg curr hint : Nat}
    (h : LoopInv bits totalBits beg curr hint) :
    ((findChunkLoop bits totalBits need fuel beg curr hint).1 ≤ totalBits ∧
      ∀ i < (findChunkLoop bits totalBits need fuel beg curr hint).1, bits i = true) ∧
    ∀ b, (findChunkLoop bits totalBits need fuel beg curr hint).2 = some b →
      b + need ≤ totalBits ∧ ∀ i, b ≤ i → i < b + need → bits i = false := by
  induction fuel generalizing beg curr hint with
  | zero => exact ⟨⟨h.hint_le.trans h.curr_le, h.below_hint⟩, by simp [findChunkLoop]⟩
  | succ fuel ih =>
    simp only [findChunkLoop]
    split_ifs with htot hfound
    · exact ⟨⟨h.hint_le.trans h.curr_le, h.below_hint⟩, by simp⟩
    · obtain ⟨heq, hclear⟩ := scanBits_eq_of_found hfound
      rw [heq]
      dsimp only
      refine ⟨⟨h.hint_le.trans h.curr_le, h.below_hint⟩, fun b hb => ?_⟩
      cases hb
      refine ⟨by omega, fun i hi1 hi2 => ?_⟩
      rcases Nat.lt_or_ge i curr with hi | hi
      · exact h.clear i hi1 hi
      · exact hclear i hi (by omega)
    · exact ih (h.next (by omega))

/-! ## One call -/

/-- the hint invariant of a pool: no bit below `bit_hint_` is clear -/
structure Pool.HintInv (p : Pool) : Prop where
  hint_le : p.bitHint ≤ p.totalBits
  below_hint : ∀ i < p.bitHint, p.allocBitset i = true

@[simp] theorem claimWindow_totalBits (p : Pool) (need : Nat) (res : Nat × Option Nat) :
    (p.claimWindow need res).1.totalBits = p.totalBits := by
  rcases res with ⟨_, _ | _⟩ <;> rfl

@[simp] theorem claimWindow_addressBegin (p : Pool) (need : Nat) (res : Nat × Option Nat) :
    (p.claimWindow need res).1.addressBegin = p.addressBegin := by
  rcases res with ⟨_, _ | _⟩ <;> rfl

@[simp] theorem findChunk_totalBits (p : Pool) (r : Nat) : (p.findChunk r).1.totalBits = p.totalBits :=
  claimWindow_totalBits _ _ _

@[simp] theorem findChunk_addressBegin (p : Pool) (r : Nat) :
    (p.findChunk r).1.addressBegin = p.addressBegin :=
  claimWindow_addressBegin _ _ _

/-- **One `FindChunk` call.** From the hint invariant it keeps the hint invariant, and either returns 0 with the
bitset unchanged, or sets a window `[b, b + need_bits)` of clear bits inside the pool and returns its address. -/
theorem findChunk_spec (p : Pool) (r : Nat) (hp : p.HintInv) :
    (p.findChunk r).1.HintInv ∧
      (((p.findChunk r).1.allocBitset = p.allocBitset ∧ (p.findChunk r).2 = 0) ∨
        ∃ b, b + needBits r ≤ p.totalBits ∧ (∀ i, b ≤ i → i < b + needBits r → p.allocBitset i = false) ∧
          (p.findChunk r).1.allocBitset = setRange p.allocBitset b (b + needBits r) true ∧
          (p.findChunk r).2 = (p.addressBegin + b * kSuperPageSize) % 2 ^ 64) := by
  have hs := @findChunkLoop_sound p.allocBitset p.totalBits (needBits r) (p.totalBits + 1) p.bitHint p.bitHint
    p.bitHint (LoopInv.start hp.1 hp.2)
  rw [Pool.findChunk]
  generalize findChunkLoop p.allocBitset p.totalBits (needBits r) (p.totalBits + 1) p.bitHint p.bitHint
    p.bitHint = res at hs
  rcases res with ⟨hint, _ | b⟩
  · exact ⟨⟨hs.1.1, hs.1.2⟩, Or.inl ⟨rfl, rfl⟩⟩
  · obtain ⟨hin, hclear⟩ := hs.2 b rfl
    obtain ⟨hle, hset⟩ := hs.1
    dsimp only at hle hset
    refine ⟨⟨?_, fun i hi => ?_⟩, Or.inr ⟨b, hin, hclear, rfl, rfl⟩⟩
    · dsimp only [Pool.claimWindow]
      split_ifs <;> omega
    · dsimp only [Pool.claimWindow] at hi ⊢
      rw [setRange_apply]
      by_cases hw : b ≤ i ∧ i < b + needBits r
      · rw [if_pos hw]
      · rw [if_neg hw]
        split_ifs at hi
        · exact hset i (by omega)
        · exact hset i hi

@[simp] theorem freeChunk_totalBits (p : Pool) (a s : Nat) : (p.freeChunk a s).totalBits = p.totalBits := rfl

@[simp] theorem freeChunk_addressBegin (p : Pool) (a s : Nat) :
    (p.freeChunk a s).addressBegin = p.addressBegin := rfl

/-- `FreeChunk` clears `need_bits` bits from the address's bit -/
theorem freeChunk_allocBitset (p : Pool) (a s : Nat) :
    (p.freeChunk a s).allocBitset = setRange p.allocBitset ((a - p.addressBegin) / kSuperPageSize)
      ((a - p.addressBegin) / kSuperPageSize + needBits s) false := rfl

/-- `FreeChunk` keeps the hint invariant: it only lowers the hint -/
theorem freeChunk_hintInv (p : Pool) (a s : Nat) (hp : p.HintInv) : (p.freeChunk a s).HintInv := by
  refine ⟨le_trans (min_le_left _ _) hp.1, fun i hi => ?_⟩
  simp only [Pool.freeChunk, lt_min_iff] at hi ⊢
  simp only [setRange_apply, show ¬ ((a - p.addressBegin) / kSuperPageSize ≤ i) by omega, false_and, if_false]
  exact hp.2 i hi.1

end PartitionAlloc.AddressPoolManager
