import Mathlib.Analysis.SpecialFunctions.Integrals.Basic
import Formulary.Proofs.Exact

/-!
# Riemann sums in exact arithmetic

On exact numbers the samples of a line add up in closed form, wherever in its partition each of
them is taken. Taken in the middle, they give the integral of the line; taken at the left edge,
they miss half of what the line rises over one partition, times the length of the range.
-/

namespace Formulary

namespace Expression

open Evaluation

/-- What the samples of a line add up to: its integral, and what the slope makes of their place in
the partitions. -/
theorem sum_samples (c₀ c₁ start width offset : ℚ) (partitions : Nat) :
    ((List.range partitions).map fun i : Nat =>
        width * (c₀ + c₁ * (start + (i + offset) * width))).sum =
      partitions * width * (c₀ + c₁ * (start + partitions * width / 2)) +
        c₁ * partitions * width * width * (offset - 1 / 2) := by
  induction partitions with
  | zero => simp
  | succ n ih =>
    rw [List.range_succ, List.map_append, List.sum_append, ih, List.map_singleton,
      List.sum_singleton]
    push_cast
    ring

/-- The integral of a line, in whichever direction the range runs. -/
theorem integral_line (c₀ c₁ start width : ℚ) (partitions : Nat) :
    ∫ x in (start : ℝ)..(start + partitions * width), ((c₀ : ℝ) + c₁ * x) =
      ((partitions * width * (c₀ + c₁ * (start + partitions * width / 2)) : ℚ) : ℝ) := by
  have hconst : IntervalIntegrable (fun _ : ℝ => (c₀ : ℝ)) MeasureTheory.volume start
      (start + partitions * width) := intervalIntegrable_const
  have hlinear : IntervalIntegrable (fun x : ℝ => (c₁ : ℝ) * x) MeasureTheory.volume start
      (start + partitions * width) := (continuous_const.mul continuous_id).intervalIntegrable _ _
  rw [intervalIntegral.integral_add hconst hlinear, intervalIntegral.integral_const,
    intervalIntegral.integral_const_mul, integral_id, smul_eq_mul]
  push_cast
  ring

section Line

variable [ExactFunctions]

/-- An integral adds up the samples of its body, each times the width of a partition. -/
theorem evaluate_integral_value (externals : List (Callable ℚ)) (name : String)
    (start width : ℚ) (partitions : Nat) (rule : IntegralRule) (body : Expression ℚ)
    (scope : Scope ℚ) :
    ((Expression.integral name start width partitions rule body).evaluate externals scope).1 = do
      let values ← (List.range partitions).mapM fun i : Nat => do
        let value ←
          (body.evaluate externals ((name, start + (i + sampleOffset rule) * width) :: scope)).1
        return width * value
      return values.sum := by
  have hbody : ∀ i : Nat, (binding name (start + (i + sampleOffset rule) * width)
      (body.evaluate externals)).Restores :=
    fun i => Restores.binding (restores_evaluate externals body) name _
  have hterm : ∀ i : Nat, Restores (do
      return width * (← binding name (start + (i + sampleOffset rule) * width)
        (body.evaluate externals)) : Evaluation ℚ ℚ) :=
    fun i => (hbody i).bind fun _ => .pure _
  rw [evaluate, total_eq]
  refine ((Restores.mapM hterm _).bind_value _ scope).trans ?_
  rw [Restores.mapM_value hterm]
  simp only [(hbody _).bind_value]
  rfl

/-- Where the body is a line in the integration variable, its samples are those of the line. -/
theorem evaluate_integral_line {externals : List (Callable ℚ)} {name : String}
    {body : Expression ℚ} {scope : Scope ℚ} {c₀ c₁ : ℚ}
    (h : ∀ x, (body.evaluate externals ((name, x) :: scope)).1 = .ok (c₀ + c₁ * x))
    (start width : ℚ) (partitions : Nat) (rule : IntegralRule) :
    ((Expression.integral name start width partitions rule body).evaluate externals scope).1 =
      .ok (partitions * width * (c₀ + c₁ * (start + partitions * width / 2)) +
        c₁ * partitions * width * width * (sampleOffset rule - 1 / 2)) := by
  have hsamples : ((List.range partitions).mapM fun i : Nat => do
      let value ←
        (body.evaluate externals ((name, start + (i + sampleOffset rule) * width) :: scope)).1
      return width * value) = .ok ((List.range partitions).map fun i : Nat =>
        width * (c₀ + c₁ * (start + (i + sampleOffset rule) * width))) := by
    simp only [h]
    exact List.mapM_pure ..
  rw [evaluate_integral_value, hsamples, ← sum_samples]
  rfl

/-- Over a line the midpoint rule gives the integral itself, whatever the range and however it is
parted. The left edge rule misses half of what the line rises over one partition, times the length
of the range. -/
theorem evaluate_integral_of_line {externals : List (Callable ℚ)} {name : String}
    {body : Expression ℚ} {scope : Scope ℚ} {c₀ c₁ : ℚ}
    (h : ∀ x, (body.evaluate externals ((name, x) :: scope)).1 = .ok (c₀ + c₁ * x))
    (start width : ℚ) (partitions : Nat) :
    let area := partitions * width * (c₀ + c₁ * (start + partitions * width / 2))
    (area : ℝ) = (∫ x in (start : ℝ)..(start + partitions * width), ((c₀ : ℝ) + c₁ * x)) ∧
    ((Expression.integral name start width partitions .midpoint body).evaluate externals
      scope).1 = .ok area ∧
    ((Expression.integral name start width partitions .leftEdge body).evaluate externals
      scope).1 = .ok (area - c₁ * partitions * width * width / 2) := by
  have hmidpoint : sampleOffset .midpoint = (1 / 2 : ℚ) := rfl
  have hleftEdge : sampleOffset .leftEdge = (0 : ℚ) := Nat.cast_zero
  refine ⟨(integral_line ..).symm, ?_, ?_⟩
  · rw [evaluate_integral_line h, hmidpoint, sub_self, mul_zero, add_zero]
  · rw [evaluate_integral_line h, hleftEdge]
    congr 1
    ring

end Line

/-- From one to minus one half, in three partitions to the left, the integral of `1 + 2 x` is minus
nine quarters; the left edge rule gives minus three. -/
theorem evaluate_integral_of_odd_numbers :
    let _ : ExactFunctions := ⟨fun _ _ => 0⟩
    let body : Expression ℚ := .binary .add (.number 1) (.binary .multiply (.number 2) (.var "x"))
    (∀ x, (body.evaluate [] [("x", x)]).1 = .ok (1 + 2 * x)) ∧
    (∫ x in (1 : ℝ)..-1 / 2, (1 + 2 * x)) = -9 / 4 ∧
    ((Expression.integral "x" 1 (-1 / 2) 3 .midpoint body).evaluate [] []).1 = .ok (-9 / 4) ∧
    ((Expression.integral "x" 1 (-1 / 2) 3 .leftEdge body).evaluate [] []).1 = .ok (-3) := by
  intro _ body
  have hline : ∀ x, (body.evaluate [] [("x", x)]).1 = .ok (1 + 2 * x) := fun _ => rfl
  obtain ⟨harea, hmidpoint, hleftEdge⟩ := evaluate_integral_of_line hline 1 (-1 / 2) 3
  refine ⟨hline, ?_, ?_, ?_⟩
  · norm_num at harea ⊢
    exact harea.symm
  · rw [hmidpoint]
    norm_num
  · rw [hleftEdge]
    norm_num

end Expression

end Formulary
