/-
What the freelist checks catch, and where `CheckFreeList` stops (`pool_offset_freelist.h`).

`GetNextInternal` returns `nullptr` for a zero `next_` before it looks at the shadow (memory that was discarded reads
as zero). So a flip of bit `k` of `next_` is caught by the shadow, except on a link whose `next_` is `2 ^ k`: the flip
makes it zero, and the list silently ends there.

`CheckFreeList` and `CheckFreeListForThreadCache` loop `for (entry = this; entry; entry = entry->GetNext(...))` with no
bound. A walk that comes back to an entry it has visited passes the same checks every time round, so the loop never
exits; and a walk that never exits comes back to some entry, since there are finitely many addresses.

- `getNext_bit_flip`: with shadow entries, flipping bit `k < 64` of `next_` in an entry whose `shadow_` is `~next_`
  makes `GetNext` report a corruption, or return `nullptr` when `next_` was `2 ^ k`;
- `flip_to_null`: such a link, written by `SetNext` in the tagged platform;
- `followNext_add`: a walk of `m + n` passes is a walk of `m` passes, then `n` more from where it stands;
- `check_free_list_loops_iff`: the loop runs forever exactly when the walk returns to an entry it has visited;
- `check_free_list_self_loop`: the entry that `SetNext(this)` (a double free) writes passes every check, and both
  loops stay on it forever.
-/
import Mathlib.Data.Fintype.Card
import PartitionAlloc.PoolOffsetFreelist.Chain

namespace PartitionAlloc.PoolOffsetFreelist

/-! ## A flipped bit -/

section Flip

variable {a : BitVec 64} {k : Nat}

theorem xor_twoPow_eq_zero_iff : a ^^^ BitVec.twoPow 64 k = 0 ↔ a = BitVec.twoPow 64 k := by
  constructor
  · intro h
    calc a = (a ^^^ BitVec.twoPow 64 k) ^^^ BitVec.twoPow 64 k := by rw [BitVec.xor_assoc, BitVec.xor_self,
            BitVec.xor_zero]
      _ = BitVec.twoPow 64 k := by rw [h]; exact BitVec.zero_xor
  · rintro rfl
    exact BitVec.xor_self

theorem xor_twoPow_ne_self (hk : k < 64) : a ^^^ BitVec.twoPow 64 k ≠ a := by
  intro h
  have h' := congrArg (BitVec.getLsbD · k) h
  simp [BitVec.getLsbD_twoPow, hk] at h'

end Flip

namespace Platform

variable (pf : Platform)

/-- **A flipped bit of the link.** With shadow entries, take an entry of a pool whose `shadow_` is `~next_`, and flip
bit `k < 64` of its `next_`, leaving `shadow_`. `GetNext` then reports the corruption, unless `next_` was `2 ^ k`:
the flip makes it the null offset, and `GetNext` returns `nullptr` without checking the shadow. It never returns a
pointer. -/
theorem getNext_bit_flip (hshadow : pf.hasFreelistShadowEntry = true) {P : PoolRange} (hP : P ∈ pf.pools)
    {here : BitVec 64} (hh : P.Contains here) (e : Entry) (he : e.shadow = ~~~e.next) {k : Nat} (hk : k < 64)
    (slotSize : Nat) :
    pf.getNext slotSize here ⟨e.next ^^^ BitVec.twoPow 64 k, e.shadow⟩ =
      if e.next = BitVec.twoPow 64 k then .ok 0 else .error (.freelistCorruptionDetected slotSize) := by
  rw [getNext, pf.getNextInternal_of_contains hP hh]
  dsimp only
  by_cases hnull : e.next = BitVec.twoPow 64 k
  · rw [if_pos (xor_twoPow_eq_zero_iff.2 hnull), if_pos hnull]
  · have hbad : pf.isWellFormed false ⟨P.base, P.baseMask, here - P.base⟩ here
        ⟨e.next ^^^ BitVec.twoPow 64 k, e.shadow⟩ (P.base ||| (e.next ^^^ BitVec.twoPow 64 k)) = false := by
      rw [← Bool.not_eq_true, pf.isWellFormed_eq_true]
      rintro ⟨-, hsh, -⟩
      have hnot := hsh hshadow
      dsimp only at hnot
      rw [he] at hnot
      exact xor_twoPow_ne_self hk (by simpa [BitVec.not_not] using congrArg (~~~·) hnot)
    rw [if_neg (mt xor_twoPow_eq_zero_iff.1 hnull), hbad, if_neg (by simp), if_pos rfl, if_neg hnull]

end Platform

/-- in the tagged platform, an entry at `0x400_0000_4000` linked by `SetNext` to the slot at `0x400_0000_8000` of its
super page: its `next_` is the offset `2 ^ 15`, and flipping bit 15 ends the list there without a report -/
theorem flip_to_null :
    ∃ e, taggedPlatform.setNext 0x0000040000004000 0x0000040000008000 ⟨0, 0⟩ = .ok e ∧
      e.next = BitVec.twoPow 64 15 ∧ e.shadow = ~~~e.next ∧
      taggedPlatform.getNext 64 0x0000040000004000 e = .ok 0x0000040000008000 ∧
      taggedPlatform.getNext 64 0x0000040000004000 ⟨e.next ^^^ BitVec.twoPow 64 15, e.shadow⟩ = .ok 0 :=
  ⟨_, rfl, rfl, rfl, rfl, rfl⟩

theorem getNext_bit_flip_tagged :
    taggedPlatform.hasFreelistShadowEntry = true ∧ taggedPool ∈ taggedPlatform.pools ∧
      taggedPool.Contains 0x0000040000004000 ∧ (⟨0x8000, ~~~0x8000⟩ : Entry).shadow = ~~~(⟨0x8000, ~~~0x8000⟩ : Entry).next ∧
      3 < 64 ∧
      taggedPlatform.getNext 64 0x0000040000004000 ⟨(0x8000 : BitVec 64) ^^^ BitVec.twoPow 64 3, ~~~0x8000⟩ =
        if (0x8000 : BitVec 64) = BitVec.twoPow 64 3 then .ok 0 else .error (.freelistCorruptionDetected 64) :=
  ⟨rfl, by decide, by decide, rfl, by decide,
    @Platform.getNext_bit_flip taggedPlatform rfl taggedPool (by decide) 0x0000040000004000 (by decide)
      ⟨0x8000, ~~~0x8000⟩ rfl 3 (by decide) 64⟩

/-! ## Where the loop of `CheckFreeList` stops -/

namespace Platform

variable (pf : Platform) {c t : Bool} {slotSize : Nat} {mem : BitVec 64 → Entry}

theorem followNext_null (n : Nat) : pf.followNext c t slotSize mem n 0 = .ok 0 := by
  cases n with
  | zero => rfl
  | succ n => exact pf.followNext_succ_null n

/-- a walk of `m + n` passes: `m` passes, then `n` more from where they stand -/
theorem followNext_add (m n : Nat) (h : BitVec 64) :
    pf.followNext c t slotSize mem (m + n) h = (pf.followNext c t slotSize mem m h).bind
      (pf.followNext c t slotSize mem n) := by
  induction m generalizing h with
  | zero => rw [Nat.zero_add]; rfl
  | succ m ih =>
    by_cases h0 : h = 0
    · subst h0
      rw [Nat.succ_add, pf.followNext_succ_null, pf.followNext_succ_null]
      exact (pf.followNext_null n).symm
    · rw [Nat.succ_add, pf.followNext_succ h0, pf.followNext_succ h0]
      cases pf.getNextInternal c t slotSize h (mem h) with
      | error e => rfl
      | ok y => exact ih y

/-- the loop has not exited after `n` passes: it stands on a non-null entry -/
def Running (c t : Bool) (slotSize : Nat) (mem : BitVec 64 → Entry) (h : BitVec 64) (n : Nat) : Prop :=
  ∃ y, y ≠ 0 ∧ pf.followNext c t slotSize mem n h = .ok y

/-- a loop still running later was running before -/
theorem Running.of_le {h : BitVec 64} {n m : Nat} (hr : pf.Running c t slotSize mem h m) (hnm : n ≤ m) :
    pf.Running c t slotSize mem h n := by
  obtain ⟨k, rfl⟩ := Nat.exists_eq_add_of_le hnm
  obtain ⟨x, hx, hrun⟩ := hr
  rw [followNext_add] at hrun
  cases hn : pf.followNext c t slotSize mem n h with
  | error e => rw [hn] at hrun; cases hrun
  | ok y =>
    refine ⟨y, fun hy => ?_, hn⟩
    rw [hn, hy, Except.bind, pf.followNext_null] at hrun
    exact hx (Except.ok.inj hrun).symm

/-- a walk that comes back to a non-null entry after `p` passes keeps coming back to it -/
theorem followNext_cycle {x : BitVec 64} {p : Nat} (hp : pf.followNext c t slotSize mem p x = .ok x) (k : Nat) :
    pf.followNext c t slotSize mem (k * p) x = .ok x := by
  induction k with
  | zero => rw [Nat.zero_mul]; rfl
  | succ k ih => rw [Nat.succ_mul, followNext_add, ih]; exact hp

/-- **`CheckFreeList` terminates except on cycles.** For every contents of memory, the loop of `CheckFreeList`
(`GetNext`) or `CheckFreeListForThreadCache` (`GetNextForThreadCache<true>`) from `h` never exits exactly when the
walk stands on the same non-null entry after `i` and after `j > i` passes. -/
theorem check_free_list_loops_iff (h : BitVec 64) :
    (∀ n, pf.Running c t slotSize mem h n) ↔
      ∃ i j x, i < j ∧ x ≠ 0 ∧ pf.followNext c t slotSize mem i h = .ok x ∧
        pf.followNext c t slotSize mem j h = .ok x := by
  constructor
  · intro hrun
    choose y hy hval using hrun
    obtain ⟨i, j, hij, heq⟩ := Finite.exists_ne_map_eq_of_infinite fun n => (y n).toFin
    have hsame : y i = y j := BitVec.eq_of_toFin_eq heq
    rcases Nat.lt_or_gt_of_ne hij with hlt | hlt
    · exact ⟨i, j, _, hlt, hy i, hval i, hsame ▸ hval j⟩
    · exact ⟨j, i, _, hlt, hy j, hval j, hsame.symm ▸ hval i⟩
  · rintro ⟨i, j, x, hij, hx, hi, hj⟩ n
    have hp : pf.followNext c t slotSize mem (j - i) x = .ok x := by
      rw [show j = i + (j - i) by omega, followNext_add, hi] at hj
      exact hj
    have hle : n ≤ i + n * (j - i) := by
      have := Nat.le_mul_of_pos_right n (show 0 < j - i by omega)
      omega
    refine Running.of_le pf ⟨x, hx, ?_⟩ hle
    rw [followNext_add, hi]
    exact pf.followNext_cycle hp n

end Platform

/-- the entry at `0x400_0000_4000` of the tagged platform after `SetNext(this)`, as a double free leaves it: every
pass of `CheckFreeList` and of `CheckFreeListForThreadCache` from it returns to it -/
theorem check_free_list_self_loop :
    taggedPlatform.setNext 0x0000040000004000 0x0000040000004000 ⟨0, 0⟩ = .ok ⟨0x4000, ~~~0x4000⟩ ∧
    ∀ n, taggedPlatform.followNext true false 64 (fun _ => ⟨0x4000, ~~~0x4000⟩) n 0x0000040000004000 =
        .ok 0x0000040000004000 ∧
      taggedPlatform.followNext true true 64 (fun _ => ⟨0x4000, ~~~0x4000⟩) n 0x0000040000004000 =
        .ok 0x0000040000004000 := by
  refine ⟨rfl, fun n => ?_⟩
  induction n with
  | zero => exact ⟨rfl, rfl⟩
  | succ n ih =>
    rw [taggedPlatform.followNext_succ (by decide), taggedPlatform.followNext_succ (by decide)]
    exact ⟨ih.1, ih.2⟩

end PartitionAlloc.PoolOffsetFreelist
