/-
Runs of one pool: any sequence of `FindChunk` and `FreeChunk` calls from its construction, where each `FreeChunk`
hands back exactly one live chunk with the same rounded size.

A run is a `PoolSys`: the pool with the chunks it has handed out and not taken back (ghost state, what the callers
hold). `Reachable` is the set of systems such runs reach; `PoolSys.Inv` is its invariant.
- `inv_create`, `inv_find`, `inv_free`: construction establishes the invariant and each call keeps it.
- `pool_run_invariant`: after every call, no bit under `bit_hint_` is clear and `bit_hint_ <= total_bits_`; the set
  bits are exactly the bits of the live chunks, so their number is the sum of `ceil(r / kSuperPageSize)` over the
  live chunks; every live chunk lies inside the pool and no two overlap; a non-zero `FindChunk` result overlaps no
  live chunk.
-/
import PartitionAlloc.AddressPoolManager.FindChunk

namespace PartitionAlloc.AddressPoolManager

theorem kSuperPageSize_eq : kSuperPageSize = 2097152 := rfl

/-! ## Counting set bits -/

/-- the part of `[b, e)` below `n + 1` -/
theorem width_succ (b e n : Nat) :
    min (n + 1) e - min (n + 1) b = min n e - min n b + if b ≤ n ∧ n < e then 1 else 0 := by
  rcases Nat.lt_or_ge n b with hb | hb
  · -- `n` below the range
    rw [Nat.min_eq_left (hb : n + 1 ≤ b), Nat.min_eq_left hb.le, if_neg (by omega)]
    omega
  have hb' : b ≤ n + 1 := by omega
  rcases Nat.lt_or_ge n e with he | he
  · -- inside it
    rw [Nat.min_eq_left (he : n + 1 ≤ e), Nat.min_eq_left he.le, Nat.min_eq_right hb', Nat.min_eq_right hb,
      if_pos ⟨hb, he⟩]
    omega
  · -- above it
    rw [Nat.min_eq_right (by omega : e ≤ n + 1), Nat.min_eq_right he, Nat.min_eq_right hb', Nat.min_eq_right hb,
      if_neg (by omega)]
    rfl

/-- setting clear bits `[b, e)` adds the width of the part below `n` to the count of set bits below `n` -/
theorem count_setRange_true {bits : Nat → Bool} {b e : Nat} (hclear : ∀ i, b ≤ i → i < e → bits i = false)
    (n : Nat) : Nat.count (fun i => setRange bits b e true i = true) n =
      Nat.count (fun i => bits i = true) n + (min n e - min n b) := by
  induction n with
  | zero => simp
  | succ n ih =>
    rw [Nat.count_succ, Nat.count_succ, ih, width_succ]
    by_cases h : b ≤ n ∧ n < e
    · simp only [setRange_apply, if_pos h, hclear n h.1 h.2, if_true, Bool.false_eq_true, if_false]
      omega
    · simp only [setRange_apply, if_neg h]
      omega

/-- clearing set bits `[b, e)` removes the width of the part below `n` from the count of set bits below `n` -/
theorem count_setRange_false {bits : Nat → Bool} {b e : Nat} (hset : ∀ i, b ≤ i → i < e → bits i = true)
    (n : Nat) : Nat.count (fun i => setRange bits b e false i = true) n + (min n e - min n b) =
      Nat.count (fun i => bits i = true) n := by
  induction n with
  | zero => simp
  | succ n ih =>
    rw [Nat.count_succ, Nat.count_succ, ← ih, width_succ]
    by_cases h : b ≤ n ∧ n < e
    · simp only [setRange_apply, if_pos h, hset n h.1 h.2, if_true, Bool.false_eq_true, if_false]
      omega
    · simp only [setRange_apply, if_neg h]
      omega

/-! ## Chunks and runs -/

/-- a chunk handed out by `FindChunk`: the address returned and the size requested -/
structure Chunk where
  address : Nat
  requestedSize : Nat
deriving DecidableEq

/-- the super pages of a chunk, `ceil(requested_size / kSuperPageSize)` -/
def Chunk.bits (c : Chunk) : Nat := (c.requestedSize + kSuperPageSize - 1) / kSuperPageSize

/-- the first bit of a chunk of the pool starting at `addressBegin` -/
def Chunk.firstBit (addressBegin : Nat) (c : Chunk) : Nat := (c.address - addressBegin) / kSuperPageSize

/-- bit `i` of the pool starting at `addressBegin` is one of the chunk's -/
def Chunk.Covers (addressBegin : Nat) (c : Chunk) (i : Nat) : Prop :=
  c.firstBit addressBegin ≤ i ∧ i < c.firstBit addressBegin + c.bits

/-- two chunks share no address -/
def Chunk.Apart (c d : Chunk) : Prop :=
  c.address + c.bits * kSuperPageSize ≤ d.address ∨ d.address + d.bits * kSuperPageSize ≤ c.address

/-- a pool and the chunks its callers hold (ghost) -/
structure PoolSys where
  pool : Pool
  live : List Chunk

/-- the system after `FindChunk(r)` returned `q`: a non-zero address becomes a live chunk -/
def PoolSys.afterFind (s : PoolSys) (r : Nat) (q : Pool × Nat) : PoolSys :=
  ⟨q.1, if q.2 = 0 then s.live else s.live ++ [⟨q.2, r⟩]⟩

/-- `FindChunk(r)` -/
def PoolSys.find (s : PoolSys) (r : Nat) : PoolSys := s.afterFind r (s.pool.findChunk r)

/-- `FreeChunk(c.address, size)` handing back the live chunk `c` -/
def PoolSys.free (s : PoolSys) (c : Chunk) (size : Nat) : PoolSys :=
  ⟨s.pool.freeChunk c.address size, s.live.erase c⟩

/-- the systems reached by runs from a pool's construction at a non-null address, with requests in
`(0, SIZE_MAX - kSuperPageSize + 1]` and frees of live chunks with the same rounded size -/
inductive Reachable (kMaxBits : Nat) : PoolSys → Prop
  | create {ptr length : UInt64} {p : Pool} : ptr ≠ 0 → Pool.create kMaxBits ptr length = some p →
      Reachable kMaxBits ⟨p, []⟩
  | find {s : PoolSys} {r : Nat} : Reachable kMaxBits s → 0 < r → r ≤ 2 ^ 64 - kSuperPageSize →
      Reachable kMaxBits (s.find r)
  | free {s : PoolSys} {c : Chunk} {size : Nat} : Reachable kMaxBits s → c ∈ s.live →
      bitsAlign size kSuperPageSize = bitsAlign c.requestedSize kSuperPageSize → Reachable kMaxBits (s.free c size)

/-! ## The invariant -/

/-- what holds after every call of a run -/
structure PoolSys.Inv (s : PoolSys) : Prop where
  begin_pos : 0 < s.pool.addressBegin
  no_wrap : s.pool.addressBegin + s.pool.totalBits * kSuperPageSize < 2 ^ 64
  hint : s.pool.HintInv
  covers : ∀ i, s.pool.allocBitset i = true ↔ ∃ c ∈ s.live, c.Covers s.pool.addressBegin i
  count : Nat.count (fun i => s.pool.allocBitset i = true) s.pool.totalBits = (s.live.map Chunk.bits).sum
  placed : ∀ c ∈ s.live, c.address = s.pool.addressBegin + c.firstBit s.pool.addressBegin * kSuperPageSize ∧
    c.firstBit s.pool.addressBegin + c.bits ≤ s.pool.totalBits ∧ 0 < c.bits ∧ needBits c.requestedSize = c.bits
  apart : s.live.Pairwise Chunk.Apart

/-- within the size bound of a run, `need_bits` is `ceil(r / kSuperPageSize)`, and positive for `r > 0` -/
theorem needBits_of_le {r : Nat} (hr : r ≤ 2 ^ 64 - kSuperPageSize) :
    needBits r = (r + kSuperPageSize - 1) / kSuperPageSize := by
  rw [needBits, bitsAlign, Nat.mod_eq_of_lt (by rw [kSuperPageSize_eq] at hr ⊢; omega),
    Nat.mul_div_cancel _ kSuperPageSize_pos]

/-- two placed chunks without a common bit share no address -/
theorem apart_of_disjoint {a : Nat} {c d : Chunk} (hc0 : 0 < c.bits) (hd0 : 0 < d.bits)
    (hc : c.address = a + c.firstBit a * kSuperPageSize) (hd : d.address = a + d.firstBit a * kSuperPageSize)
    (h : ∀ i, c.Covers a i → ¬ d.Covers a i) : c.Apart d := by
  have := h (max (c.firstBit a) (d.firstBit a))
  unfold Chunk.Apart Chunk.Covers at *
  rw [kSuperPageSize_eq] at hc hd ⊢
  omega

/-- two placed chunks that share no address have no common bit -/
theorem not_covers_of_apart {a i : Nat} {c d : Chunk} (h : c.Apart d)
    (hc : c.address = a + c.firstBit a * kSuperPageSize) (hd : d.address = a + d.firstBit a * kSuperPageSize)
    (hci : c.Covers a i) : ¬ d.Covers a i := by
  unfold Chunk.Apart Chunk.Covers at *
  rw [kSuperPageSize_eq] at hc hd h
  omega

theorem not_apart_self {c : Chunk} (h : 0 < c.bits) : ¬ c.Apart c := by
  unfold Chunk.Apart; rw [kSuperPageSize_eq]; omega

theorem inv_create {kMaxBits : Nat} {ptr length : UInt64} {p : Pool} (hptr : ptr ≠ 0)
    (h : Pool.create kMaxBits ptr length = some p) : PoolSys.Inv ⟨p, []⟩ := by
  unfold Pool.create at h
  split_ifs at h with hc
  cases h
  have hp : ptr.toNat ≠ 0 := fun h0 => hptr (UInt64.eq_of_toBitVec_eq (BitVec.eq_of_toNat_eq h0))
  have hl := length.toNat_lt_size
  have hb : length.toNat / kSuperPageSize * kSuperPageSize ≤ length.toNat := Nat.div_mul_le_self _ _
  refine ⟨Nat.pos_of_ne_zero hp, ?_, ⟨Nat.zero_le _, fun i hi => absurd hi (Nat.not_lt_zero _)⟩, ?_, ?_,
    by simp, List.Pairwise.nil⟩
  · have := hc.2.2.2; have := ptr.toNat_lt_size
    simp only [UInt64.size] at *
    omega
  · simp
  · simp [Nat.count_eq_card_filter_range]

theorem inv_find {s : PoolSys} {r : Nat} (hs : s.Inv) (hr0 : 0 < r) (hr : r ≤ 2 ^ 64 - kSuperPageSize) :
    (s.find r).Inv := by
  have hspec := findChunk_spec s.pool r hs.hint
  have htot := findChunk_totalBits s.pool r
  have hbeg := findChunk_addressBegin s.pool r
  rw [PoolSys.find]
  generalize s.pool.findChunk r = q at hspec htot hbeg
  obtain ⟨p', a⟩ := q
  dsimp only at hspec htot hbeg
  obtain ⟨hhint, ⟨hbits, rfl⟩ | ⟨b, hin, hclear, hbits, haddr⟩⟩ := hspec
  · simp only [PoolSys.afterFind, if_true]
    refine ⟨?_, ?_, hhint, ?_, ?_, ?_, hs.apart⟩ <;> simp only [hbeg, htot, hbits]
    exacts [hs.begin_pos, hs.no_wrap, hs.covers, hs.count, hs.placed]
  · have hneed := needBits_of_le hr
    have hpos : 0 < needBits r := by rw [hneed, kSuperPageSize_eq]; omega
    have haddr' : a = s.pool.addressBegin + b * kSuperPageSize := by
      rw [haddr, Nat.mod_eq_of_lt]
      have := hs.no_wrap
      rw [kSuperPageSize_eq] at this ⊢
      omega
    have ha0 : a ≠ 0 := by rw [haddr']; have := hs.begin_pos; omega
    have hfirst : Chunk.firstBit s.pool.addressBegin ⟨a, r⟩ = b := by
      simp only [Chunk.firstBit, haddr', Nat.add_sub_cancel_left, Nat.mul_div_cancel _ kSuperPageSize_pos]
    have hcov : ∀ i, Chunk.Covers s.pool.addressBegin ⟨a, r⟩ i ↔ b ≤ i ∧ i < b + needBits r := by
      intro i; rw [Chunk.Covers, hfirst, Chunk.bits, hneed]
    simp only [PoolSys.afterFind, ha0, if_false]
    refine ⟨?_, ?_, hhint, fun i => ?_, ?_, ?_, ?_⟩ <;> simp only [hbeg, htot, hbits]
    · exact hs.begin_pos
    · exact hs.no_wrap
    · simp only [setRange_apply, List.mem_append, List.mem_singleton]
      constructor
      · intro hi
        split_ifs at hi with hw
        · exact ⟨_, Or.inr rfl, (hcov i).2 hw⟩
        · obtain ⟨c, hc, hci⟩ := (hs.covers i).1 hi
          exact ⟨c, Or.inl hc, hci⟩
      · rintro ⟨c, hc | rfl, hci⟩
        · have hi := (hs.covers i).2 ⟨c, hc, hci⟩
          split_ifs <;> simp [hi]
        · simp [(hcov i).1 hci]
    · rw [count_setRange_true hclear, List.map_append, List.sum_append, hs.count]
      simp only [List.map_singleton, List.sum_singleton, Chunk.bits, ← hneed]
      omega
    · intro c hc
      rcases List.mem_append.1 hc with hc | hc
      · exact hs.placed c hc
      · rw [List.mem_singleton.1 hc, hfirst]
        exact ⟨haddr', by rw [Chunk.bits, ← hneed]; exact hin, by rw [Chunk.bits, ← hneed]; exact hpos,
          by rw [Chunk.bits, ← hneed]⟩
    · refine List.pairwise_append.2 ⟨hs.apart, List.pairwise_singleton _ _, fun c hc d hd => ?_⟩
      rw [List.mem_singleton.1 hd]
      obtain ⟨hca, -, hc0, -⟩ := hs.placed c hc
      refine apart_of_disjoint hc0 (by rw [Chunk.bits, ← hneed]; exact hpos) hca
        (by rw [hfirst]; exact haddr') fun i hci hdi => ?_
      have := (hs.covers i).2 ⟨c, hc, hci⟩
      rw [hcov] at hdi
      simp [hclear i hdi.1 hdi.2] at this

theorem inv_free {s : PoolSys} {c : Chunk} {size : Nat} (hs : s.Inv) (hc : c ∈ s.live)
    (hsize : bitsAlign size kSuperPageSize = bitsAlign c.requestedSize kSuperPageSize) : (s.free c size).Inv := by
  obtain ⟨hca, hcin, hc0, hcneed⟩ := hs.placed c hc
  have hnodup : s.live.Nodup := by
    refine hs.apart.imp_of_mem fun {a b} ha _ h => ?_
    rintro rfl
    exact not_apart_self (hs.placed a ha).2.2.1 h
  have happart := hs.apart.forall (fun _ _ h => Or.symm h)
  have hbits : (s.pool.freeChunk c.address size).allocBitset =
      setRange s.pool.allocBitset (c.firstBit s.pool.addressBegin) (c.firstBit s.pool.addressBegin + c.bits)
        false := by
    rw [freeChunk_allocBitset, ← hcneed, needBits, hsize]; rfl
  have hhint := freeChunk_hintInv s.pool c.address size hs.hint
  have htot := freeChunk_totalBits s.pool c.address size
  have hbeg := freeChunk_addressBegin s.pool c.address size
  rw [PoolSys.free]
  generalize s.pool.freeChunk c.address size = p' at hbits hhint htot hbeg
  refine ⟨?_, ?_, hhint, fun i => ?_, ?_, fun d hd => ?_, hs.apart.sublist (List.erase_sublist _ _)⟩ <;>
    simp only [hbeg, htot, hbits]
  · exact hs.begin_pos
  · exact hs.no_wrap
  · simp only [setRange_apply, hnodup.mem_erase_iff]
    by_cases hw : c.firstBit s.pool.addressBegin ≤ i ∧ i < c.firstBit s.pool.addressBegin + c.bits
    · simp only [if_pos hw, Bool.false_eq_true, false_iff, not_exists, not_and]
      exact fun d ⟨hdc, hd⟩ hdi => not_covers_of_apart (happart hc hd (Ne.symm hdc)) hca (hs.placed d hd).1 hw hdi
    · rw [if_neg hw, hs.covers i]
      exact ⟨fun ⟨d, hd, hdi⟩ => ⟨d, ⟨fun h => hw (h ▸ hdi), hd⟩, hdi⟩, fun ⟨d, ⟨_, hd⟩, hdi⟩ => ⟨d, hd, hdi⟩⟩
  · have hset : ∀ i, c.firstBit s.pool.addressBegin ≤ i → i < c.firstBit s.pool.addressBegin + c.bits →
        s.pool.allocBitset i = true := fun i h1 h2 => (hs.covers i).2 ⟨c, hc, h1, h2⟩
    have hsum := ((List.perm_cons_erase hc).map Chunk.bits).sum_eq
    have hcount := count_setRange_false hset s.pool.totalBits
    rw [hs.count, hsum, List.map_cons, List.sum_cons] at hcount
    omega
  · exact hs.placed d (List.mem_of_mem_erase hd)

theorem reachable_inv {kMaxBits : Nat} {s : PoolSys} (h : Reachable kMaxBits s) : s.Inv := by
  induction h with
  | create hptr hp => exact inv_create hptr hp
  | find _ hr0 hr ih => exact inv_find ih hr0 hr
  | free _ hc hsize ih => exact inv_free ih hc hsize

/-! ## The run theorem -/

/-- **The pool over every run.** After every call of every run from construction: (i) no bit below `bit_hint_`
is clear and `bit_hint_ <= total_bits_`; (ii) the set bits are exactly the bits of the live chunks, and their number
is the sum of `ceil(r / kSuperPageSize)` over the live chunks; (iii) every live chunk lies inside
`[address_begin_, address_begin_ + total_bits_ * kSuperPageSize)` and no two overlap. A non-zero `FindChunk`
result overlaps no live chunk. -/
theorem pool_run_invariant {kMaxBits : Nat} {s : PoolSys} (h : Reachable kMaxBits s) :
    (s.pool.bitHint ≤ s.pool.totalBits ∧ ∀ i < s.pool.bitHint, s.pool.allocBitset i = true) ∧
    (∀ i, s.pool.allocBitset i = true ↔ ∃ c ∈ s.live, c.Covers s.pool.addressBegin i) ∧
    Nat.count (fun i => s.pool.allocBitset i = true) s.pool.totalBits = (s.live.map Chunk.bits).sum ∧
    (∀ c ∈ s.live, s.pool.addressBegin ≤ c.address ∧
      c.address + c.bits * kSuperPageSize ≤ s.pool.addressBegin + s.pool.totalBits * kSuperPageSize) ∧
    s.live.Pairwise Chunk.Apart ∧
    ∀ r, 0 < r → r ≤ 2 ^ 64 - kSuperPageSize → (s.pool.findChunk r).2 ≠ 0 →
      ∀ c ∈ s.live, c.Apart ⟨(s.pool.findChunk r).2, r⟩ := by
  have hs := reachable_inv h
  refine ⟨⟨hs.hint.hint_le, hs.hint.below_hint⟩, hs.covers, hs.count, fun c hc => ?_, hs.apart,
    fun r hr0 hr ha c hc => ?_⟩
  · obtain ⟨hca, hin, -⟩ := hs.placed c hc
    rw [hca, kSuperPageSize_eq]
    constructor <;> omega
  · have hlive : (s.find r).live = s.live ++ [⟨(s.pool.findChunk r).2, r⟩] := by
      simp only [PoolSys.find, PoolSys.afterFind, ha, if_false]
    have := (inv_find hs hr0 hr).apart
    rw [hlive] at this
    exact (List.pairwise_append.1 this).2.2 c hc _ (List.mem_singleton_self _)

/-- the spec's first scenario: a pool of four super pages at `0x1000_0000_0000` -/
def scenarioPool : PoolSys := ⟨⟨4, 0x100000000000, fun _ => false, 0⟩, []⟩

theorem pool_run_invariant_scenario :
    Reachable 8192 (scenarioPool.find 0x200000) ∧
    ((scenarioPool.find 0x200000).pool.bitHint ≤ (scenarioPool.find 0x200000).pool.totalBits ∧ ∀ i < (scenarioPool.find 0x200000).pool.bitHint, (scenarioPool.find 0x200000).pool.allocBitset i = true) ∧
    (∀ i, (scenarioPool.find 0x200000).pool.allocBitset i = true ↔ ∃ c ∈ (scenarioPool.find 0x200000).live, c.Covers (scenarioPool.find 0x200000).pool.addressBegin i) ∧
    Nat.count (fun i => (scenarioPool.find 0x200000).pool.allocBitset i = true) (scenarioPool.find 0x200000).pool.totalBits = ((scenarioPool.find 0x200000).live.map Chunk.bits).sum ∧
    (∀ c ∈ (scenarioPool.find 0x200000).live, (scenarioPool.find 0x200000).pool.addressBegin ≤ c.address ∧
      c.address + c.bits * kSuperPageSize ≤ (scenarioPool.find 0x200000).pool.addressBegin + (scenarioPool.find 0x200000).pool.totalBits * kSuperPageSize) ∧
    (scenarioPool.find 0x200000).live.Pairwise Chunk.Apart ∧
    ∀ r, 0 < r → r ≤ 2 ^ 64 - kSuperPageSize → ((scenarioPool.find 0x200000).pool.findChunk r).2 ≠ 0 →
      ∀ c ∈ (scenarioPool.find 0x200000).live, c.Apart ⟨((scenarioPool.find 0x200000).pool.findChunk r).2, r⟩ :=
  have h : Reachable 8192 (scenarioPool.find 0x200000) :=
    .find (.create (by decide : (0x100000000000 : UInt64) ≠ 0)
      (rfl : Pool.create 8192 0x100000000000 0x800000 = some scenarioPool.pool)) (by decide) (by decide)
  ⟨h, pool_run_invariant h⟩

end PartitionAlloc.AddressPoolManager
