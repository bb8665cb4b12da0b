import Formulary.Proofs.Calls

/-!
# Scopes

Evaluation works on one scope, which sums and integrals push their variable on and pop it from.
Every push is undone, on the way out with an error as well, so the scope behind an evaluation is
the one before it.
-/

namespace Formulary

namespace Evaluation

variable {α β γ : Type}

/-- Whatever the result, a value or an error, the scope behind the computation is the one before
it. -/
def Restores (m : Evaluation α β) : Prop := Ends [] (fun _ => True) (fun _ => True) m

theorem Restores.scope {m : Evaluation α β} (h : m.Restores) (scope : Scope α) :
    (m scope).2 = scope :=
  (h scope fun _ hname => absurd hname List.not_mem_nil).1

/-- What comes next starts in the scope that the computation before it started in. -/
theorem Restores.bind_value {m : Evaluation α β} (h : m.Restores) (next : β → Evaluation α γ)
    (scope : Scope α) : ((m >>= next) scope).1 = (m scope).1 >>= fun b => (next b scope).1 := by
  have hbind : (m >>= next) scope = ExceptT.bindCont next (m scope).1 (m scope).2 := rfl
  rw [hbind, h.scope]
  rcases (m scope).1 with error | b <;> rfl

theorem Restores.pure (b : β) : Restores (pure b : Evaluation α β) := Ends.pure trivial

theorem Restores.bind {m : Evaluation α β} {next : β → Evaluation α γ} (h : m.Restores)
    (hnext : ∀ b, (next b).Restores) : (m >>= next).Restores :=
  Ends.bind h fun b _ => hnext b

theorem Restores.reading (f : Scope α → Except CallError β) : (reading f).Restores :=
  Ends.reading fun scope _ => by cases f scope <;> trivial

theorem Restores.binding {m : Evaluation α β} (h : m.Restores) (name : String) (value : α) :
    (binding name value m).Restores :=
  Ends.binding h name value

theorem Restores.mapM {f : β → Evaluation α γ} (h : ∀ b, (f b).Restores) (bs : List β) :
    (bs.mapM f).Restores := by
  induction bs with
  | nil => exact .pure []
  | cons b bs ih =>
    rw [List.mapM_cons]
    exact (h b).bind fun _ => ih.bind fun _ => .pure _

/-- Computations one after the other each start in the scope that the first one starts in. -/
theorem Restores.mapM_value {f : β → Evaluation α γ} (h : ∀ b, (f b).Restores) (bs : List β)
    (scope : Scope α) : (bs.mapM f scope).1 = bs.mapM fun b => (f b scope).1 := by
  induction bs with
  | nil => rfl
  | cons b bs ih =>
    rw [List.mapM_cons, List.mapM_cons, (h b).bind_value]
    refine bind_congr fun c => ?_
    rw [(Restores.mapM h bs).bind_value, ih]
    rfl

theorem Restores.total [Quantity α] {term : Nat → Evaluation α α} (h : ∀ i, (term i).Restores)
    (count : Nat) : (total count term).Restores :=
  Ends.total h count

end Evaluation

namespace Expression

open Evaluation

variable {α : Type} [Quantity α] (externals : List (Callable α))

mutual

theorem restores_evaluate : (e : Expression α) → (e.evaluate externals).Restores
  | .number value => .pure value
  | .var _ => .reading _
  | .negate operand => (restores_evaluate operand).bind fun _ => .pure _
  | .binary _ left right =>
    (restores_evaluate left).bind fun _ => (restores_evaluate right).bind fun _ => .pure _
  | .call _ arguments => (restores_evaluateAll arguments).bind fun _ => .pure _
  | .sum index _ _ body =>
    -- The bounds are read before the index is bound, and each term undoes its own binding.
    (Restores.reading _).bind fun _ => (Restores.reading _).bind fun _ =>
      (Restores.reading _).bind fun count =>
        .total (fun _ => (restores_evaluate body).binding index _) count
  | .integral name _ _ partitions _ body =>
    .total (fun _ => ((restores_evaluate body).binding name _).bind fun _ => .pure _) partitions
  | .reference _ _ => .reading _
  | .apply _ _ arguments => (restores_evaluateAll arguments).bind fun _ => .reading _
  | .derivative _ _ _ arguments =>
    (Restores.reading _).bind fun _ => (restores_evaluateAll arguments).bind fun _ => .reading _

theorem restores_evaluateAll : (es : List (Expression α)) →
    (evaluateAll externals es).Restores
  | [] => .pure []
  | e :: rest =>
    (restores_evaluate e).bind fun _ => (restores_evaluateAll rest).bind fun _ => .pure _

end

/-- Evaluation leaves the scope as it was: the same entries, with the same values, in the same
order, whether it ends in a value or in an error raised anywhere in a nested term. -/
theorem evaluate_keeps_scope (e : Expression α) (scope : Scope α) :
    (e.evaluate externals scope).2 = scope :=
  (restores_evaluate externals e).scope scope

/-- Arguments that are evaluated one after the other in a shared scope have the values that each
has by itself. -/
theorem evaluateAll_eq_mapM (es : List (Expression α)) (scope : Scope α) :
    (evaluateAll externals es scope).1 = es.mapM fun e => (e.evaluate externals scope).1 := by
  have hloop : evaluateAll externals es = es.mapM (evaluate externals) := by
    induction es with
    | nil => rfl
    | cons e rest ih => rw [evaluateAll, List.mapM_cons, ih]
  rw [hloop, Restores.mapM_value (restores_evaluate externals)]

end Expression

end Formulary
