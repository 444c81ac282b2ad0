/-
The pool registry of `AddressPoolManager` (`address_pool_manager.cc`).

`pools_` holds up to `kNumPools` pools and a `pool_handle` is a slot's index plus one, so that 0 names no pool. `Add`
builds the pool in the first empty slot and returns that slot's handle, or 0 when every slot is taken; `Remove`
empties the slot of a handle and `ResetForTesting` empties all of them.

Model:
- `pools_` is a list of `Option Pool`; its length is `kNumPools` (`address_pool_manager.h`, not among the sources).
- the pool constructor is `Pool.create`; one of its checks failing is `none`, the process stopping.
- `NOTREACHED()` and the `DCHECK`s are not evaluated (release build): `Add` with no empty slot returns 0, and
  `Remove` of a handle outside `[1, kNumPools]` indexes outside `pools_`, which is `none`.
-/
import PartitionAlloc.AddressPoolManager.Pool

namespace PartitionAlloc.AddressPoolManager

/-- the `for` loop of `Add` from slot `i` on: the pool goes to the first empty slot, whose handle is its index
plus one -/
def addFrom (kMaxBits : Nat) (ptr length : UInt64) : List (Option Pool) → Nat → Option (List (Option Pool) × Nat)
  | [], _ => some ([], 0)
  | none :: rest, i => (Pool.create kMaxBits ptr length).map fun pool => (some pool :: rest, i + 1)
  | some p :: rest, i => (addFrom kMaxBits ptr length rest (i + 1)).map fun r => (some p :: r.1, r.2)

/-- `AddressPoolManager::Add(ptr, length)`: the registry after the call and the handle it returns -/
def add (kMaxBits : Nat) (pools : List (Option Pool)) (ptr length : UInt64) : Option (List (Option Pool) × Nat) :=
  addFrom kMaxBits ptr length pools 0

/-- `AddressPoolManager::Remove(handle)` -/
def remove (pools : List (Option Pool)) (handle : Nat) : Option (List (Option Pool)) :=
  if 0 < handle ∧ handle ≤ pools.length then some (pools.set (handle - 1) none) else none

/-- `AddressPoolManager::ResetForTesting()` -/
def resetForTesting (pools : List (Option Pool)) : List (Option Pool) := pools.map fun _ => none

/-! ## Add -/

section Add

variable {kMaxBits : Nat} {ptr length : UInt64}

/-- one call of `Add`: either every slot is taken and nothing changes, or the first empty slot receives the pool
the constructor built and its handle is returned -/
theorem addFrom_spec {pools pools' : List (Option Pool)} {i h : Nat}
    (hadd : addFrom kMaxBits ptr length pools i = some (pools', h)) :
    (h = 0 ∧ pools' = pools ∧ ∀ x ∈ pools, x.isSome) ∨
    ∃ pre post p, pools = pre ++ none :: post ∧ (∀ x ∈ pre, x.isSome) ∧ Pool.create kMaxBits ptr length = some p ∧
      pools' = pre ++ some p :: post ∧ h = i + pre.length + 1 := by
  induction pools generalizing i pools' h with
  | nil =>
    cases hadd
    exact Or.inl ⟨rfl, rfl, nofun⟩
  | cons x rest ih =>
    cases x with
    | none =>
      obtain ⟨p, hp, hpools⟩ := Option.map_eq_some'.1 hadd
      cases hpools
      exact Or.inr ⟨[], rest, p, rfl, nofun, hp, rfl, rfl⟩
    | some q =>
      obtain ⟨⟨r₁, r₂⟩, hr, hpools⟩ := Option.map_eq_some'.1 hadd
      cases hpools
      rcases ih hr with ⟨rfl, rfl, hall⟩ | ⟨pre, post, p, rfl, hpre, hp, rfl, rfl⟩
      · exact Or.inl ⟨rfl, rfl, by simpa using hall⟩
      · refine Or.inr ⟨some q :: pre, post, p, rfl, by simpa using hpre, hp, rfl, ?_⟩
        simp only [List.length_cons]
        omega

theorem add_spec {pools pools' : List (Option Pool)} {h : Nat} (hadd : add kMaxBits pools ptr length = some (pools', h)) :
    (h = 0 ∧ pools' = pools ∧ ∀ x ∈ pools, x.isSome) ∨
    ∃ pre post p, pools = pre ++ none :: post ∧ (∀ x ∈ pre, x.isSome) ∧ Pool.create kMaxBits ptr length = some p ∧
      pools' = pre ++ some p :: post ∧ h = pre.length + 1 := by
  simpa using addFrom_spec hadd

/-- on a registry whose first empty slot follows `pre`, `Add` builds the pool and puts it there, returning the
slot's handle -/
theorem addFrom_split (pre post : List (Option Pool)) (hpre : ∀ x ∈ pre, x.isSome) (i : Nat) :
    addFrom kMaxBits ptr length (pre ++ none :: post) i =
      (Pool.create kMaxBits ptr length).map fun p => (pre ++ some p :: post, i + pre.length + 1) := by
  induction pre generalizing i with
  | nil => rfl
  | cons x pre ih =>
    obtain ⟨q, rfl⟩ := Option.isSome_iff_exists.1 (hpre x (List.mem_cons_self x pre))
    rw [List.cons_append, addFrom, ih (fun y hy => hpre y (List.mem_cons_of_mem _ hy)) (i + 1), Option.map_map]
    congr 1
    funext p
    simp only [Function.comp_apply, List.length_cons, List.cons_append, Prod.mk.injEq, true_and]
    omega

/-- the handle `Add` returns on such a registry -/
theorem add_split {pre post pools' : List (Option Pool)} {h : Nat} (hpre : ∀ x ∈ pre, x.isSome)
    (hadd : add kMaxBits (pre ++ none :: post) ptr length = some (pools', h)) :
    ∃ p, Pool.create kMaxBits ptr length = some p ∧ pools' = pre ++ some p :: post ∧ h = pre.length + 1 := by
  rw [add, addFrom_split pre post hpre, Option.map_eq_some'] at hadd
  obtain ⟨p, hp, heq⟩ := hadd
  cases heq
  exact ⟨p, hp, rfl, by omega⟩

theorem add_length {pools pools' : List (Option Pool)} {h : Nat} (hadd : add kMaxBits pools ptr length = some (pools', h)) :
    pools'.length = pools.length := by
  rcases add_spec hadd with ⟨-, rfl, -⟩ | ⟨pre, post, p, rfl, -, -, rfl, -⟩ <;> simp

@[simp] theorem getElem?_append_cons_length (pre post : List (Option Pool)) (x : Option Pool) :
    (pre ++ x :: post)[pre.length]? = some x := by
  rw [List.getElem?_append_right le_rfl, Nat.sub_self, List.getElem?_cons_zero]

/-- the slots of `pre ++ x :: post` other than slot `pre.length` do not depend on `x` -/
theorem getElem?_append_cons_of_ne {pre post : List (Option Pool)} (x y : Option Pool) {j : Nat}
    (hj : j ≠ pre.length) : (pre ++ x :: post)[j]? = (pre ++ y :: post)[j]? := by
  rcases Nat.lt_or_gt_of_ne hj with hlt | hgt
  · rw [List.getElem?_append_left hlt, List.getElem?_append_left hlt]
  · rw [List.getElem?_append_right hgt.le, List.getElem?_append_right hgt.le]
    obtain ⟨k, hk⟩ : ∃ k, j - pre.length = k + 1 := ⟨j - pre.length - 1, by omega⟩
    rw [hk, List.getElem?_cons_succ, List.getElem?_cons_succ]

/-- `Add` never touches a slot that holds a pool -/
theorem add_keeps_pool {pools pools' : List (Option Pool)} {h j : Nat} {q : Pool}
    (hadd : add kMaxBits pools ptr length = some (pools', h)) (hj : pools[j]? = some (some q)) :
    pools'[j]? = some (some q) := by
  rcases add_spec hadd with ⟨-, rfl, -⟩ | ⟨pre, post, p, rfl, -, -, rfl, -⟩
  · exact hj
  · by_cases hjp : j = pre.length
    · subst hjp
      simp only [getElem?_append_cons_length, Option.some.injEq, reduceCtorEq] at hj
    · rwa [getElem?_append_cons_of_ne _ none hjp]

/-- an empty slot is still empty after `Add`, or holds the pool the constructor built from `ptr` and `length` -/
theorem add_empty_slot {pools pools' : List (Option Pool)} {h j : Nat}
    (hadd : add kMaxBits pools ptr length = some (pools', h)) (hj : pools[j]? = some none) :
    pools'[j]? = some none ∨ ∃ p, Pool.create kMaxBits ptr length = some p ∧ pools'[j]? = some (some p) := by
  rcases add_spec hadd with ⟨-, rfl, -⟩ | ⟨pre, post, p, rfl, -, hp, rfl, -⟩
  · exact Or.inl hj
  · by_cases hjp : j = pre.length
    · subst hjp
      exact Or.inr ⟨p, hp, getElem?_append_cons_length _ _ _⟩
    · rw [getElem?_append_cons_of_ne _ none hjp]
      exact Or.inl hj

/-- `Remove` of the handle `Add` returned gives the registry back -/
theorem remove_add {pools pools' : List (Option Pool)} {h : Nat} (hadd : add kMaxBits pools ptr length = some (pools', h))
    (h0 : h ≠ 0) : remove pools' h = some pools := by
  rcases add_spec hadd with ⟨rfl, -, -⟩ | ⟨pre, post, p, rfl, -, -, rfl, rfl⟩
  · exact absurd rfl h0
  · simp [remove]

end Add

theorem resetForTesting_eq (pools : List (Option Pool)) : resetForTesting pools = List.replicate pools.length none :=
  List.map_const' pools none

/-- the pool the constructor builds starts at `ptr` and covers `length` rounded down to super pages -/
theorem Pool.create_range {kMaxBits : Nat} {ptr length : UInt64} {p : Pool}
    (h : Pool.create kMaxBits ptr length = some p) :
    p.addressBegin = ptr.toNat ∧ p.totalBits * kSuperPageSize ≤ length.toNat := by
  unfold Pool.create at h
  split_ifs at h
  cases h
  exact ⟨rfl, Nat.div_mul_le_self _ _⟩

end PartitionAlloc.AddressPoolManager
