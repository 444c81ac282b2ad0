/-
What the pool-offset encoding guarantees, whatever the words of the entries hold.

- `or_encode`, `encode_and_mask`, `encode_ne_zero`: bit identities of `EncodeToOffset` and `DecodeFromOffset` for an
  address in a pool, tag bits included.
- `getNextInternal_confined`: one call of `GetNextInternal` from an entry of a pool ends in a reported corruption, in
  `nullptr`, or in an entry of the same pool past the super page's metadata, and in the same super page unless for
  the thread cache. `followNext_confined` carries such a step property down a walk of any length.
- `freelist_chain_confined`: following `GetNext` from an entry in a pool, any number of times and through any memory,
  only reaches `nullptr`, a reported corruption, or entries of its super page past the metadata; following
  `GetNextForThreadCache`, only entries of its pool past the metadata.
- `freelist_round_trip`: `SetNext(next)` or the constructor, then `GetNext`, returns `next` with its tag bits for
  every `next` of the same super page past the metadata; `GetNextForThreadCache` does so for every `next` of the
  pool past the metadata; `EncodeToOffset` maps no such `next` to the null offset; and after `SetNext(nullptr)`,
  `EmplaceAndInitNull` or `ClearForAllocation` the entry decodes to `nullptr`.
- `free_list_walk`: slots whose entries link each one to the next, as `SetNext` and the constructors write them, are
  walked back in order by `GetNextForThreadCache`, and by `GetNext` within a super page, with no corruption reported:
  the loops of `CheckFreeList` stop after one pass per slot.
-/
import PartitionAlloc.PoolOffsetFreelist.Entry

namespace PartitionAlloc.PoolOffsetFreelist

/-! ## Bits of the encoding -/

section Bits

variable {a b m x tag spom : BitVec 64}

/-- a base mask without tag bits reads the same bits from a tagged address and from its untagged address -/
theorem untag_and_mask (hm : m &&& tag = 0) : (a &&& ~~~tag) &&& m = a &&& m := by
  apply BitVec.eq_of_getLsbD_eq; intro i
  have h1 := congrArg (BitVec.getLsbD · i) hm
  simp only [BitVec.getLsbD_and, BitVec.getLsbD_not, BitVec.getLsbD_zero,
    BitVec.ofNat_eq_ofNat, i.isLt, decide_True, Bool.true_and] at h1 ⊢
  revert h1; cases a.getLsbD i <;> cases m.getLsbD i <;> cases tag.getLsbD i <;> decide

/-- an aligned base OR an offset without base bits lies in the pool -/
theorem or_and_mask (hb : b &&& ~~~m = 0) (hx : x &&& m = 0) : (b ||| x) &&& m = b := by
  apply BitVec.eq_of_getLsbD_eq; intro i
  have h1 := congrArg (BitVec.getLsbD · i) hb
  have h2 := congrArg (BitVec.getLsbD · i) hx
  simp only [BitVec.getLsbD_and, BitVec.getLsbD_or, BitVec.getLsbD_not, BitVec.getLsbD_zero,
    BitVec.ofNat_eq_ofNat, i.isLt, decide_True, Bool.true_and] at h1 h2 ⊢
  revert h1 h2; cases b.getLsbD i <;> cases m.getLsbD i <;> cases x.getLsbD i <;> decide

/-- the tagged offset has no base-mask bit -/
theorem encode_and_mask (hm : m &&& tag = 0) : (a &&& (tag ||| ~~~m)) &&& m = 0 := by
  apply BitVec.eq_of_getLsbD_eq; intro i
  have h1 := congrArg (BitVec.getLsbD · i) hm
  simp only [BitVec.getLsbD_and, BitVec.getLsbD_or, BitVec.getLsbD_not, BitVec.getLsbD_zero,
    BitVec.ofNat_eq_ofNat, i.isLt, decide_True, Bool.true_and] at h1 ⊢
  revert h1; cases a.getLsbD i <;> cases m.getLsbD i <;> cases tag.getLsbD i <;> decide

/-- decoding the tagged offset of an address of the pool gives the address back, tag bits included -/
theorem or_encode (hb : b &&& ~~~m = 0) (hm : m &&& tag = 0) (ha : (a &&& ~~~tag) &&& m = b) :
    b ||| (a &&& (tag ||| ~~~m)) = a := by
  apply BitVec.eq_of_getLsbD_eq; intro i
  have h1 := congrArg (BitVec.getLsbD · i) hb
  have h2 := congrArg (BitVec.getLsbD · i) hm
  have h3 := congrArg (BitVec.getLsbD · i) ha
  simp only [BitVec.getLsbD_and, BitVec.getLsbD_or, BitVec.getLsbD_not, BitVec.getLsbD_zero,
    BitVec.ofNat_eq_ofNat, i.isLt, decide_True, Bool.true_and] at h1 h2 h3 ⊢
  revert h1 h2 h3
  cases a.getLsbD i <;> cases b.getLsbD i <;> cases m.getLsbD i <;> cases tag.getLsbD i <;> decide

/-- a non-zero offset in the super page keeps the tagged offset non-zero -/
theorem encode_ne_zero (hs : m &&& spom = 0) (ha : (a &&& ~~~tag) &&& spom ≠ 0) : a &&& (tag ||| ~~~m) ≠ 0 := by
  refine fun h => ha (BitVec.eq_of_getLsbD_eq fun i => ?_)
  have h1 := congrArg (BitVec.getLsbD · i) hs
  have h2 := congrArg (BitVec.getLsbD · i) h
  simp only [BitVec.getLsbD_and, BitVec.getLsbD_or, BitVec.getLsbD_not, BitVec.getLsbD_zero,
    BitVec.ofNat_eq_ofNat, i.isLt, decide_True, Bool.true_and] at h1 h2 ⊢
  revert h1 h2
  cases a.getLsbD i <;> cases m.getLsbD i <;> cases tag.getLsbD i <;> cases spom.getLsbD i <;> decide

end Bits

/-! ## Walks down the list -/

/-- what a walk may end in: a reported corruption, `nullptr`, or an entry with `Ok` -/
def Confined (Ok : BitVec 64 → Prop) (slotSize : Nat) : Except Crash (BitVec 64) → Prop
  | .error c => c = .freelistCorruptionDetected slotSize
  | .ok q => q = 0 ∨ Ok q

theorem Confined.mono {Ok Ok' : BitVec 64 → Prop} (h : ∀ q, Ok q → Ok' q) {slotSize : Nat} :
    ∀ {r}, Confined Ok slotSize r → Confined Ok' slotSize r
  | .error _, hr => hr
  | .ok _, hr => hr.imp_right (h _)

namespace Platform

variable (pf : Platform)

/-- **One step.** From an entry of pool `P`, `GetNextInternal` ends in a corruption, in `nullptr`, or in an entry of
`P` past the metadata, in the same super page unless for the thread cache. -/
theorem getNextInternal_confined {P : PoolRange} (hP : P ∈ pf.pools) {here : BitVec 64} (hh : P.Contains here)
    (c t : Bool) (slotSize : Nat) (e : Entry) :
    Confined (fun q => P.Contains q ∧ pf.NotInMetadata (pf.slotStartPtr2Addr q) ∧
        (t = false → SameSuperPage (pf.slotStartPtr2Addr here) (pf.slotStartPtr2Addr q))) slotSize
      (pf.getNextInternal c t slotSize here e) := by
  rw [pf.getNextInternal_of_contains hP hh]
  split_ifs with h0 hw hc
  · exact Or.inl rfl
  · obtain ⟨hmask, -, hsp, hmeta⟩ := pf.isWellFormed_eq_true.1 hw
    exact Or.inr ⟨or_and_mask (pf.base_aligned P hP) hmask, hmeta, hsp⟩
  · rfl
  · exact Or.inl rfl

/-- **Whole walks.** A step property of `GetNextInternal` from every non-null entry with `Inv`, whose entries with
`Ok` have `Inv` again, holds of every entry a walk of one or more passes reaches. -/
theorem followNext_confined {c t : Bool} {slotSize : Nat} {mem : BitVec 64 → Entry} (Inv Ok : BitVec 64 → Prop)
    (hok : ∀ q, Ok q → Inv q)
    (hstep : ∀ p, Inv p → p ≠ 0 → Confined Ok slotSize (pf.getNextInternal c t slotSize p (mem p))) :
    ∀ n p, Inv p → Confined Ok slotSize (pf.followNext c t slotSize mem (n + 1) p) := by
  intro n
  induction n with
  | zero =>
    intro p hp
    by_cases h0 : p = 0
    · rw [h0, followNext_succ_null]; exact Or.inl rfl
    · rw [followNext_succ pf h0]
      have := hstep p hp h0
      generalize pf.getNextInternal c t slotSize p (mem p) = r at this ⊢
      cases r <;> exact this
  | succ n ih =>
    intro p hp
    by_cases h0 : p = 0
    · rw [h0, followNext_succ_null]; exact Or.inl rfl
    · rw [followNext_succ pf h0]
      have := hstep p hp h0
      generalize pf.getNextInternal c t slotSize p (mem p) = r at this ⊢
      cases r with
      | error => exact this
      | ok q =>
        rcases this with rfl | hq
        · show Confined Ok slotSize (pf.followNext c t slotSize mem (n + 1) 0)
          rw [followNext_succ_null]; exact Or.inl rfl
        · exact ih q (hok q hq)

end Platform

/-! ## The round trip -/

namespace Platform

variable (pf : Platform)

/-- an address past the metadata is not null -/
theorem ne_zero_of_notInMetadata {a : BitVec 64} (h : pf.NotInMetadata (pf.slotStartPtr2Addr a)) : a ≠ 0 := by
  rintro rfl
  have : 0 < pf.partitionPageSize := Nat.two_pow_pos _
  simp [NotInMetadata, slotStartPtr2Addr] at h
  omega

/-- `EncodeToOffset` of an address of pool `P` past the metadata: its tagged offset, which is not the null offset -/
theorem encodeToOffset_of_notInMetadata {P : PoolRange} (hP : P ∈ pf.pools) {next : BitVec 64}
    (hnext : P.Contains (pf.slotStartPtr2Addr next)) (hmeta : pf.NotInMetadata (pf.slotStartPtr2Addr next)) :
    pf.encodeToOffset next = .ok (next &&& (pf.kPtrTagMask ||| ~~~P.baseMask)) ∧
      next &&& (pf.kPtrTagMask ||| ~~~P.baseMask) ≠ kNullptrOffset := by
  have hin : P.Contains next := (untag_and_mask (pf.mask_untagged P hP)).symm.trans hnext
  refine ⟨pf.encodeToOffset_of_contains hP hin (pf.ne_zero_of_notInMetadata hmeta),
    encode_ne_zero (pf.mask_super_page P hP) fun h0 => ?_⟩
  have : 0 < pf.partitionPageSize := Nat.two_pow_pos _
  rw [NotInMetadata, slotStartPtr2Addr, h0] at hmeta
  simp at hmeta
  omega

/-- **Decoding an encoded link.** An entry of pool `P` whose `next_` is the tagged offset of an address `next` of `P`
past the metadata, with a matching shadow, decodes to `next`, tag bits included, unless the super pages differ
outside the thread cache. -/
theorem getNextInternal_of_encoded {P : PoolRange} (hP : P ∈ pf.pools) {here next : BitVec 64}
    (hh : P.Contains here) (hnext : P.Contains (pf.slotStartPtr2Addr next))
    (hmeta : pf.NotInMetadata (pf.slotStartPtr2Addr next)) {t : Bool}
    (hsp : t = false → SameSuperPage (pf.slotStartPtr2Addr here) (pf.slotStartPtr2Addr next)) {e : Entry}
    (he : e.next = next &&& (pf.kPtrTagMask ||| ~~~P.baseMask))
    (hs : pf.hasFreelistShadowEntry = true → ~~~e.next = e.shadow) (c : Bool) (slotSize : Nat) :
    pf.getNextInternal c t slotSize here e = .ok next := by
  have hne : e.next ≠ 0 := he ▸ (pf.encodeToOffset_of_notInMetadata hP hnext hmeta).2
  have hdec : P.base ||| e.next = next := he ▸ or_encode (pf.base_aligned P hP) (pf.mask_untagged P hP) hnext
  have hmask : e.next &&& P.baseMask = 0 := he ▸ encode_and_mask (pf.mask_untagged P hP)
  have hwf : pf.isWellFormed t ⟨P.base, P.baseMask, here - P.base⟩ here e next = true :=
    pf.isWellFormed_eq_true.2 ⟨hmask, hs, hsp, hmeta⟩
  rw [pf.getNextInternal_of_contains hP hh, hdec, if_neg hne, if_pos hwf]

/-- `SetNext(entry)` with `entry` in the entry's super page or null: `next_` is `EncodeToOffset(entry)` -/
theorem setNext_of_encodeToOffset {here entry x : BitVec 64} (e : Entry)
    (hsp : entry = 0 ∨ SameSuperPage (pf.slotStartPtr2Addr here) (pf.slotStartPtr2Addr entry))
    (hx : pf.encodeToOffset entry = .ok x) :
    pf.setNext here entry e = .ok ⟨x, if pf.hasFreelistShadowEntry then ~~~x else e.shadow⟩ := by
  rw [setNext, if_neg fun h => hsp.elim h.2.1 h.2.2, hx]
  rfl

theorem encodeToOffset_null : pf.encodeToOffset 0 = .ok kNullptrOffset := by
  rw [encodeToOffset, if_pos rfl]

end Platform

/-! ## A tagged platform -/

/-- a 16 GiB pool at `0x400_0000_0000`, its base mask cut to the low 56 bits -/
def taggedPool : PoolRange := ⟨0x0000040000000000, 0x00fffffc00000000⟩

/-- memory tags in bits 56 to 59, 16 KiB partition pages, shadow entries and `DCHECK`s on -/
def taggedPlatform : Platform where
  kPtrTagMask := 0x0f00000000000000
  partitionPageShift := 14
  hasFreelistShadowEntry := true
  dcheckIsOn := true
  pools := [taggedPool]
  base_aligned := by decide
  mask_untagged := by decide
  mask_super_page := by decide
  disjoint := List.pairwise_singleton _ _

/-- **Chain confinement.** Take an entry `h` of pool `P` and any memory. Every entry that `GetNext` reaches from `h`
in one or more passes is `nullptr`, a reported corruption, or an entry of `P` in `h`'s super page past the metadata.
Every entry that `GetNextForThreadCache` reaches is `nullptr`, a reported corruption, or an entry of `P` past the
metadata. Both hold for either `crash_on_corruption`. -/
theorem freelist_chain_confined (pf : Platform) {P : PoolRange} (hP : P ∈ pf.pools) {h : BitVec 64}
    (hh : P.Contains h) (c : Bool) (slotSize : Nat) (mem : BitVec 64 → Entry) (n : Nat) :
    Confined (fun q => SameSuperPage (pf.slotStartPtr2Addr h) (pf.slotStartPtr2Addr q) ∧
        pf.NotInMetadata (pf.slotStartPtr2Addr q) ∧ P.Contains q) slotSize
      (pf.followNext c false slotSize mem (n + 1) h) ∧
    Confined (fun q => P.Contains q ∧ pf.NotInMetadata (pf.slotStartPtr2Addr q)) slotSize
      (pf.followNext c true slotSize mem (n + 1) h) := by
  constructor
  · refine pf.followNext_confined (fun p => P.Contains p ∧ SameSuperPage (pf.slotStartPtr2Addr h)
      (pf.slotStartPtr2Addr p)) _ (fun q hq => ⟨hq.2.2, hq.1⟩) (fun p hp _ => ?_) n h ⟨hh, rfl⟩
    exact (pf.getNextInternal_confined hP hp.1 c false slotSize (mem p)).mono
      fun q ⟨hq, hmeta, hsp⟩ => ⟨hp.2.trans (hsp rfl), hmeta, hq⟩
  · refine pf.followNext_confined P.Contains _ (fun q hq => hq.1) (fun p hp _ => ?_) n h hh
    exact (pf.getNextInternal_confined hP hp c true slotSize (mem p)).mono fun q hq => ⟨hq.1, hq.2.1⟩


/-- the confinement from an entry of the tagged pool, through memory whose every word is garbage -/
theorem freelist_chain_confined_tagged :
    taggedPool ∈ taggedPlatform.pools ∧ taggedPool.Contains 0x0a00040000204000 ∧
    Confined (fun q => SameSuperPage (taggedPlatform.slotStartPtr2Addr 0x0a00040000204000)
        (taggedPlatform.slotStartPtr2Addr q) ∧ taggedPlatform.NotInMetadata (taggedPlatform.slotStartPtr2Addr q) ∧
        taggedPool.Contains q) 64
      (taggedPlatform.followNext true false 64 (fun _ => ⟨0x1234, 0⟩) 3 0x0a00040000204000) ∧
    Confined (fun q => taggedPool.Contains q ∧ taggedPlatform.NotInMetadata (taggedPlatform.slotStartPtr2Addr q)) 64
      (taggedPlatform.followNext true true 64 (fun _ => ⟨0x1234, 0⟩) 3 0x0a00040000204000) :=
  ⟨by decide, by decide, freelist_chain_confined taggedPlatform (by decide) (by decide) true 64 _ 2⟩

/-- **Round trip.** Take an entry `here` of pool `P` and an address `next` of `P` past the metadata, with any tag
bits. When `next` lies in `here`'s super page, `SetNext(next)` or the constructor, then `GetNext`, returns `next` and
reports no corruption. `GetNextForThreadCache` returns `next` from the constructed entry whatever its super page.
`EncodeToOffset(next)` is not the null offset. After `SetNext(nullptr)`, `EmplaceAndInitNull` or
`ClearForAllocation`, `GetNext` returns `nullptr`. -/
theorem freelist_round_trip (pf : Platform) {P : PoolRange} (hP : P ∈ pf.pools) {here next : BitVec 64}
    (hh : P.Contains here) (hnext : P.Contains (pf.slotStartPtr2Addr next))
    (hmeta : pf.NotInMetadata (pf.slotStartPtr2Addr next)) (c : Bool) (slotSize : Nat) (e : Entry) :
    (SameSuperPage (pf.slotStartPtr2Addr here) (pf.slotStartPtr2Addr next) →
      (∃ e', pf.setNext here next e = .ok e' ∧ pf.getNext slotSize here e' = .ok next) ∧
      ∃ e', pf.emplaceAndInitForThreadCache next = .ok e' ∧ pf.getNext slotSize here e' = .ok next) ∧
    (∃ e', pf.emplaceAndInitForThreadCache next = .ok e' ∧
      pf.getNextForThreadCache c slotSize here e' = .ok next) ∧
    (∃ x, pf.encodeToOffset next = .ok x ∧ x ≠ kNullptrOffset) ∧
    (∃ e', pf.setNext here 0 e = .ok e' ∧ pf.getNext slotSize here e' = .ok 0) ∧
    pf.getNext slotSize here emplaceAndInitNull = .ok 0 ∧
    pf.getNext slotSize here (pf.clearForAllocation here).1 = .ok 0 := by
  obtain ⟨henc, hne⟩ := pf.encodeToOffset_of_notInMetadata hP hnext hmeta
  have hemp : pf.emplaceAndInitForThreadCache next =
      .ok ⟨next &&& (pf.kPtrTagMask ||| ~~~P.baseMask), ~~~(next &&& (pf.kPtrTagMask ||| ~~~P.baseMask))⟩ := by
    rw [Platform.emplaceAndInitForThreadCache, henc]; rfl
  refine ⟨fun hsp => ⟨⟨_, pf.setNext_of_encodeToOffset e (.inr hsp) henc, ?_⟩, ⟨_, hemp, ?_⟩⟩, ⟨_, hemp, ?_⟩,
    ⟨_, henc, hne⟩, ⟨_, pf.setNext_of_encodeToOffset e (.inl rfl) pf.encodeToOffset_null, ?_⟩, ?_, ?_⟩
  · exact pf.getNextInternal_of_encoded hP hh hnext hmeta (fun _ => hsp) rfl (fun h => by simp [h]) _ _
  · exact pf.getNextInternal_of_encoded hP hh hnext hmeta (fun _ => hsp) rfl (fun _ => rfl) _ _
  · exact pf.getNextInternal_of_encoded hP hh hnext hmeta (fun h => by cases h) rfl (fun _ => rfl) _ _
  all_goals exact pf.getNextInternal_of_next_zero rfl _ _ _ _


/-- the round trip from an entry of the tagged pool to a slot of the same super page with another tag -/
theorem freelist_round_trip_tagged :
    taggedPool ∈ taggedPlatform.pools ∧ taggedPool.Contains 0x0a00040000204000 ∧
    taggedPool.Contains (taggedPlatform.slotStartPtr2Addr 0x0300040000208000) ∧
    taggedPlatform.NotInMetadata (taggedPlatform.slotStartPtr2Addr 0x0300040000208000) ∧
    (SameSuperPage (taggedPlatform.slotStartPtr2Addr 0x0a00040000204000)
        (taggedPlatform.slotStartPtr2Addr 0x0300040000208000) →
      (∃ e', taggedPlatform.setNext 0x0a00040000204000 0x0300040000208000 ⟨0, 0⟩ = .ok e' ∧
        taggedPlatform.getNext 64 0x0a00040000204000 e' = .ok 0x0300040000208000) ∧
      ∃ e', taggedPlatform.emplaceAndInitForThreadCache 0x0300040000208000 = .ok e' ∧
        taggedPlatform.getNext 64 0x0a00040000204000 e' = .ok 0x0300040000208000) ∧
    (∃ e', taggedPlatform.emplaceAndInitForThreadCache 0x0300040000208000 = .ok e' ∧
      taggedPlatform.getNextForThreadCache true 64 0x0a00040000204000 e' = .ok 0x0300040000208000) ∧
    (∃ x, taggedPlatform.encodeToOffset 0x0300040000208000 = .ok x ∧ x ≠ kNullptrOffset) ∧
    (∃ e', taggedPlatform.setNext 0x0a00040000204000 0 ⟨0, 0⟩ = .ok e' ∧
      taggedPlatform.getNext 64 0x0a00040000204000 e' = .ok 0) ∧
    taggedPlatform.getNext 64 0x0a00040000204000 emplaceAndInitNull = .ok 0 ∧
    taggedPlatform.getNext 64 0x0a00040000204000 (taggedPlatform.clearForAllocation 0x0a00040000204000).1 = .ok 0 :=
  ⟨by decide, by decide, by decide, by decide,
    @freelist_round_trip taggedPlatform taggedPool (by decide) 0x0a00040000204000 0x0300040000208000 (by decide)
      (by decide) (by decide) true 64 ⟨0, 0⟩⟩

/-- the tag bits `0x03` of the target survive the offset, and the tag `0x0a` of the entry does not leak into it -/
example : taggedPlatform.encodeToOffset 0x0300040000208000 = .ok 0x0300000000208000 := rfl


/-! ## Free lists -/

namespace Platform

variable (pf : Platform)

/-- the words of an entry link it to `next`: `next_` is `EncodeToOffset(next)` and, in builds with shadow entries,
`shadow_` its inverse. `SetNext(next)` and `EmplaceAndInitForThreadCache(_, next)` write such words, and
`EmplaceAndInitNull` for `nullptr`. -/
def Links (next : BitVec 64) (e : Entry) : Prop :=
  pf.encodeToOffset next = .ok e.next ∧ (pf.hasFreelistShadowEntry = true → ~~~e.next = e.shadow)

/-- a free list in memory: the entry of each slot links it to the next slot, and the last one to `nullptr` -/
def Chain (mem : BitVec 64 → Entry) : List (BitVec 64) → Prop
  | [] => True
  | s :: rest => pf.Links (rest.headD 0) (mem s) ∧ Chain mem rest

theorem setNext_links {here next : BitVec 64} {e e' : Entry} (h : pf.setNext here next e = .ok e') :
    pf.Links next e' := by
  unfold setNext at h
  by_cases hd : pf.dcheckIsOn ∧ next ≠ 0 ∧ ¬ SameSuperPage (pf.slotStartPtr2Addr here) (pf.slotStartPtr2Addr next)
  · rw [if_pos hd] at h
    cases h
  rw [if_neg hd] at h
  cases hx : pf.encodeToOffset next with
  | error => rw [hx] at h; cases h
  | ok x =>
    rw [hx] at h
    cases h
    exact ⟨hx, fun hs => by simp [hs]⟩

theorem emplaceAndInitForThreadCache_links {next : BitVec 64} {e : Entry}
    (h : pf.emplaceAndInitForThreadCache next = .ok e) : pf.Links next e := by
  unfold emplaceAndInitForThreadCache at h
  cases hx : pf.encodeToOffset next with
  | error => rw [hx] at h; cases h
  | ok x =>
    rw [hx] at h
    cases h
    exact ⟨hx, fun _ => rfl⟩

theorem emplaceAndInitNull_links : pf.Links 0 emplaceAndInitNull := ⟨pf.encodeToOffset_null, fun _ => rfl⟩

/-- one pass from a linked entry of pool `P`: the next slot, or `nullptr` after the last one -/
theorem getNextInternal_of_links {P : PoolRange} (hP : P ∈ pf.pools) {here next : BitVec 64} (hh : P.Contains here)
    {e : Entry} (hl : pf.Links next e) {t : Bool}
    (hnext : next = 0 ∨ P.Contains (pf.slotStartPtr2Addr next) ∧ pf.NotInMetadata (pf.slotStartPtr2Addr next) ∧
      (t = false → SameSuperPage (pf.slotStartPtr2Addr here) (pf.slotStartPtr2Addr next)))
    (c : Bool) (slotSize : Nat) : pf.getNextInternal c t slotSize here e = .ok next := by
  rcases hnext with rfl | ⟨hin, hmeta, hsp⟩
  · have hx := hl.1
    rw [pf.encodeToOffset_null, Except.ok.injEq] at hx
    exact pf.getNextInternal_of_next_zero hx.symm c t slotSize here
  · have hx := hl.1
    rw [(pf.encodeToOffset_of_notInMetadata hP hin hmeta).1, Except.ok.injEq] at hx
    exact pf.getNextInternal_of_encoded hP hh hin hmeta hsp hx.symm hl.2 c slotSize

/-- the walk down a linked list of slots of pool `P` past the metadata, all in the super page of `a` unless for the
thread cache: after `k` passes it stands on slot `k`, and on `nullptr` once past the last -/
theorem followNext_chain {P : PoolRange} (hP : P ∈ pf.pools) {c t : Bool} {slotSize : Nat} {mem : BitVec 64 → Entry}
    {a : BitVec 64} : ∀ {l : List (BitVec 64)}, pf.Chain mem l →
    (∀ s ∈ l, P.Contains (pf.slotStartPtr2Addr s) ∧ pf.NotInMetadata (pf.slotStartPtr2Addr s) ∧
      (t = false → SameSuperPage a (pf.slotStartPtr2Addr s))) →
    ∀ k, pf.followNext c t slotSize mem k (l.headD 0) = .ok (l.getD k 0)
  | [], _, _, 0 => rfl
  | [], _, _, k + 1 => pf.followNext_succ_null k
  | _ :: _, _, _, 0 => rfl
  | s :: rest, hchain, hslots, k + 1 => by
    obtain ⟨hin, hmeta, hsp⟩ := hslots s (List.mem_cons_self s rest)
    have hnext : rest.headD 0 = 0 ∨ P.Contains (pf.slotStartPtr2Addr (rest.headD 0)) ∧
        pf.NotInMetadata (pf.slotStartPtr2Addr (rest.headD 0)) ∧
        (t = false → SameSuperPage (pf.slotStartPtr2Addr s) (pf.slotStartPtr2Addr (rest.headD 0))) := by
      cases rest with
      | nil => exact Or.inl rfl
      | cons s' rest =>
        obtain ⟨hin', hmeta', hsp'⟩ := hslots s' (List.mem_cons_of_mem s (List.mem_cons_self s' rest))
        exact Or.inr ⟨hin', hmeta', fun ht => (hsp ht).symm.trans (hsp' ht)⟩
    rw [List.headD_cons, pf.followNext_succ (pf.ne_zero_of_notInMetadata hmeta),
      pf.getNextInternal_of_links hP ((untag_and_mask (pf.mask_untagged P hP)).symm.trans hin) hchain.1 hnext]
    exact followNext_chain hP hchain.2 (fun s' hs' => hslots s' (List.mem_cons_of_mem s hs')) k

end Platform

/-- **Free lists walk back.** Take slots of pool `P` past the metadata whose entries, in any memory, link each slot to
the next and the last one to `nullptr`, as `SetNext`, `EmplaceAndInitForThreadCache` and `EmplaceAndInitNull` write
them. Following `GetNextForThreadCache` from the first slot, for either `crash_on_corruption`, stands after `k` passes
on the `k`-th slot, then on `nullptr`, and reports no corruption; when the slots share the first one's super page,
so does following `GetNext`. No slot is `nullptr`, so the loops of `CheckFreeListForThreadCache` and `CheckFreeList`
stop after exactly one pass per slot. -/
theorem free_list_walk (pf : Platform) {P : PoolRange} (hP : P ∈ pf.pools) {mem : BitVec 64 → Entry}
    {l : List (BitVec 64)} (hchain : pf.Chain mem l)
    (hslots : ∀ s ∈ l, P.Contains (pf.slotStartPtr2Addr s) ∧ pf.NotInMetadata (pf.slotStartPtr2Addr s))
    (c : Bool) (slotSize : Nat) :
    (∀ k, pf.followNext c true slotSize mem k (l.headD 0) = .ok (l.getD k 0)) ∧
    ((∀ s ∈ l, SameSuperPage (pf.slotStartPtr2Addr (l.headD 0)) (pf.slotStartPtr2Addr s)) →
      ∀ k, pf.followNext c false slotSize mem k (l.headD 0) = .ok (l.getD k 0)) ∧
    ∀ s ∈ l, s ≠ 0 :=
  ⟨pf.followNext_chain hP (a := 0) hchain fun s hs => ⟨(hslots s hs).1, (hslots s hs).2, nofun⟩,
    fun hsp => pf.followNext_chain hP hchain fun s hs => ⟨(hslots s hs).1, (hslots s hs).2, fun _ => hsp s hs⟩,
    fun s hs => pf.ne_zero_of_notInMetadata (hslots s hs).2⟩

/-- two slots of one super page of the tagged pool, with different tags -/
def taggedSlots : List (BitVec 64) := [0x0a00040000204000, 0x0300040000208000]

/-- the first slot's entry linked to the second, the second's to `nullptr` -/
def taggedMem (a : BitVec 64) : Entry :=
  if a = 0x0a00040000204000 then ⟨0x0300000000208000, ~~~0x0300000000208000⟩ else emplaceAndInitNull

theorem free_list_walk_tagged :
    taggedPool ∈ taggedPlatform.pools ∧ taggedPlatform.Chain taggedMem taggedSlots ∧
    (∀ s ∈ taggedSlots, taggedPool.Contains (taggedPlatform.slotStartPtr2Addr s) ∧
      taggedPlatform.NotInMetadata (taggedPlatform.slotStartPtr2Addr s)) ∧
    ((∀ k, taggedPlatform.followNext true true 64 taggedMem k (taggedSlots.headD 0) = .ok (taggedSlots.getD k 0)) ∧
    ((∀ s ∈ taggedSlots, SameSuperPage (taggedPlatform.slotStartPtr2Addr (taggedSlots.headD 0))
        (taggedPlatform.slotStartPtr2Addr s)) →
      ∀ k, taggedPlatform.followNext true false 64 taggedMem k (taggedSlots.headD 0) = .ok (taggedSlots.getD k 0)) ∧
    ∀ s ∈ taggedSlots, s ≠ 0) :=
  have hchain : taggedPlatform.Chain taggedMem taggedSlots := ⟨⟨rfl, fun _ => rfl⟩, ⟨rfl, fun _ => rfl⟩, trivial⟩
  have hslots : ∀ s ∈ taggedSlots, taggedPool.Contains (taggedPlatform.slotStartPtr2Addr s) ∧
      taggedPlatform.NotInMetadata (taggedPlatform.slotStartPtr2Addr s) := by
    simp only [taggedSlots, List.forall_mem_cons]
    exact ⟨⟨by decide, by decide⟩, ⟨by decide, by decide⟩, fun _ h => absurd h (List.not_mem_nil _)⟩
  ⟨by decide, hchain, hslots, free_list_walk taggedPlatform (P := taggedPool) (by decide) hchain hslots true 64⟩

end PartitionAlloc.PoolOffsetFreelist
