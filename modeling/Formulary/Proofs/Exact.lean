import Mathlib.Algebra.Order.Floor.Ring
import Mathlib.Data.Rat.Floor
import Mathlib.Tactic.Linarith
import Formulary.Proofs.Scopes

/-!
# Sums in exact arithmetic

On exact numbers a sum has one term for each of the values lower limit, lower limit plus one, and
so on up to the upper limit, unless they are too many. The loop that counts them and the values
themselves are told apart here: the values are a list of their own, and the loop goes through it.
-/

namespace Formulary

/-- What the built-in functions are on exact numbers. -/
class ExactFunctions where
  apply : Function → List ℚ → ℚ

instance [ExactFunctions] : Quantity ℚ where
  ofNat n := n
  half := 1 / 2
  floor x := ⌊x⌋
  exceeds x y := decide (y < x)
  toNat x := ⌊x⌋.toNat
  apply := ExactFunctions.apply

namespace Evaluation

/-- A loop adds up the values of its terms, taken one after the other. -/
theorem addTerms_eq {α : Type} [AddMonoid α] (term : Nat → Evaluation α α) (count first : Nat)
    (total : α) :
    addTerms term count first total =
      (List.range' first count).mapM term >>= fun values => pure (total + values.sum) := by
  induction count generalizing first total with
  | zero => simp [addTerms]
  | succ count ih =>
    rw [addTerms, List.range'_succ, List.mapM_cons, bind_assoc]
    refine bind_congr fun value => ?_
    simp [ih, add_assoc]

theorem total_eq [ExactFunctions] (count : Nat) (term : Nat → Evaluation ℚ ℚ) :
    total count term = (List.range count).mapM term >>= fun values => pure values.sum := by
  have hzero : Quantity.ofNat 0 = (0 : ℚ) := Nat.cast_zero
  have hloop := addTerms_eq term count 0 0
  rw [total, hzero, List.range_eq_range']
  simpa using hloop

end Evaluation

namespace Expression

/-- The values of an index between two limits. -/
def indexValues (lower upper : ℚ) : List ℚ :=
  (List.range (⌊upper - lower⌋ + 1).toNat).map fun i : Nat => lower + i

theorem length_indexValues (lower upper : ℚ) :
    (indexValues lower upper).length = (⌊upper - lower⌋ + 1).toNat := by
  rw [indexValues, List.length_map, List.length_range]

theorem mem_indexValues {lower upper x : ℚ} :
    x ∈ indexValues lower upper ↔ ∃ n : Nat, x = lower + n ∧ x ≤ upper := by
  have hlast : ∀ n : Nat, n < (⌊upper - lower⌋ + 1).toNat ↔ lower + n ≤ upper := by
    intro n
    rw [Int.lt_toNat, Int.lt_add_one_iff, Int.le_floor, Int.cast_natCast, le_sub_iff_add_le']
  simp only [indexValues, List.mem_map, List.mem_range, hlast]
  constructor
  · rintro ⟨n, hle, rfl⟩
    exact ⟨n, rfl, hle⟩
  · rintro ⟨n, rfl, hle⟩
    exact ⟨n, hle, rfl⟩

/-- Between one half and three. -/
example : indexValues (1 / 2) 3 = [1 / 2, 3 / 2, 5 / 2] := by decide +kernel

theorem indexValues_ascending (lower upper : ℚ) :
    (indexValues lower upper).Pairwise (· < ·) := by
  refine List.pairwise_lt_range.map _ fun i j hlt => ?_
  have hcast : (i : ℚ) < j := Nat.cast_lt.2 hlt
  linarith

theorem indexValues_eq_nil {lower upper : ℚ} (h : upper < lower) :
    indexValues lower upper = [] := by
  refine List.eq_nil_iff_forall_not_mem.2 fun x hx => ?_
  obtain ⟨n, rfl, hle⟩ := mem_indexValues.1 hx
  have hpos : (0 : ℚ) ≤ n := Nat.cast_nonneg n
  linarith

section Sum

variable [ExactFunctions]

/-- The number of terms is the number of values, unless it is too large. -/
theorem termCount_eq (index : String) (lower upper : ℚ) :
    termCount index lower upper =
      if maxTerms < (indexValues lower upper).length then .error (.sumTooLong index)
      else .ok (indexValues lower upper).length := by
  have hfloor : Quantity.floor (upper + Quantity.ofNat 1 - lower) =
      ((⌊upper - lower⌋ + 1 : ℤ) : ℚ) := by
    have hsteps : upper + ((1 : Nat) : ℚ) - lower = upper - lower + 1 := by
      push_cast
      ring
    have hshift := Int.floor_add_one (upper - lower)
    change ((⌊upper + ((1 : Nat) : ℚ) - lower⌋ : ℤ) : ℚ) = _
    rw [hsteps, hshift]
  -- The count is whole, so both comparisons with it are comparisons of integers.
  have hexceeds : ∀ (count : ℤ) (n : Nat),
      (Quantity.exceeds (count : ℚ) (Quantity.ofNat n) = true ↔ n < count.toNat) := by
    intro count n
    have hcast : ((n : ℚ) < (count : ℚ)) ↔ (n : ℤ) < count := by
      rw [← Int.cast_natCast, Int.cast_lt]
    exact decide_eq_true_iff.trans (hcast.trans Int.lt_toNat.symm)
  have htoNat : ∀ count : ℤ, Quantity.toNat (count : ℚ) = count.toNat :=
    fun count => congrArg Int.toNat (Int.floor_intCast count)
  rw [length_indexValues, termCount, hfloor]
  simp only [hexceeds, htoNat]
  split
  · rfl
  · split
    · rfl
    · next hzero =>
      have hnone : (⌊upper - lower⌋ + 1).toNat = 0 := by omega
      rw [hnone]

open Evaluation

/-- A sum reads both of its limits and then runs its body once for each value of its index. -/
theorem evaluate_sum_eq (externals : List (Callable ℚ)) (index : String) (lower upper : Bound ℚ)
    (body : Expression ℚ) :
    (Expression.sum index lower upper body).evaluate externals = do
      let lo ← reading (limit · lower)
      let hi ← reading (limit · upper)
      if 2 ^ 24 < (indexValues lo hi).length then throw (.sumTooLong index)
      else
        let values ← (indexValues lo hi).mapM fun x => binding index x (body.evaluate externals)
        return values.sum := by
  rw [evaluate]
  refine bind_congr fun lo => bind_congr fun hi => ?_
  rw [termCount_eq]
  have hmax : maxTerms = 2 ^ 24 := rfl
  rw [hmax]
  split
  · rfl
  · have hcount : (reading fun _ => .ok (indexValues lo hi).length : Evaluation ℚ Nat) =
        pure (indexValues lo hi).length := rfl
    rw [hcount, pure_bind, total_eq, length_indexValues, indexValues, List.mapM_map]
    rfl

theorem evaluate_sum_value (externals : List (Callable ℚ)) (index : String)
    (lower upper : Bound ℚ) (body : Expression ℚ) (scope : Scope ℚ) :
    ((Expression.sum index lower upper body).evaluate externals scope).1 = do
      let lo ← limit scope lower
      let hi ← limit scope upper
      if 2 ^ 24 < (indexValues lo hi).length then .error (.sumTooLong index)
      else
        let values ← (indexValues lo hi).mapM fun x =>
          (body.evaluate externals ((index, x) :: scope)).1
        return values.sum := by
  rw [evaluate_sum_eq, (Restores.reading _).bind_value]
  refine bind_congr fun lo => ?_
  rw [(Restores.reading _).bind_value]
  refine bind_congr fun hi => ?_
  split
  · rfl
  · have hterm : ∀ x, (binding index x (body.evaluate externals)).Restores :=
      fun x => (restores_evaluate externals body).binding index x
    rw [(Restores.mapM hterm _).bind_value, Restores.mapM_value hterm]
    rfl

/-- The values of the index are the lower limit and what whole steps lead to from there up to the
upper limit, each once and in ascending order; there are none where the limits are reversed. A sum
reads its limits outside and runs its body once for each of these values, so it is the sum of the
body at them, or the first error of the body. Where the values are too many, the body is not run
at all. -/
theorem evaluate_sum (externals : List (Callable ℚ)) (index : String) (lower upper : Bound ℚ)
    (body : Expression ℚ) :
    (∀ lo hi : ℚ, (indexValues lo hi).Pairwise (· < ·) ∧
      (∀ x, x ∈ indexValues lo hi ↔ ∃ n : Nat, x = lo + n ∧ x ≤ hi) ∧
      (hi < lo → indexValues lo hi = [])) ∧
    ((Expression.sum index lower upper body).evaluate externals = do
      let lo ← reading (limit · lower)
      let hi ← reading (limit · upper)
      if 2 ^ 24 < (indexValues lo hi).length then throw (.sumTooLong index)
      else
        let values ← (indexValues lo hi).mapM fun x => binding index x (body.evaluate externals)
        return values.sum) ∧
    ∀ scope, ((Expression.sum index lower upper body).evaluate externals scope).1 = do
      let lo ← limit scope lower
      let hi ← limit scope upper
      if 2 ^ 24 < (indexValues lo hi).length then .error (.sumTooLong index)
      else
        let values ← (indexValues lo hi).mapM fun x =>
          (body.evaluate externals ((index, x) :: scope)).1
        return values.sum :=
  ⟨fun lo hi => ⟨indexValues_ascending lo hi, fun _ => mem_indexValues, indexValues_eq_nil⟩,
    evaluate_sum_eq externals index lower upper body,
    evaluate_sum_value externals index lower upper body⟩

end Sum

end Expression

end Formulary
