import Formulary.Proofs.Calls
import Formulary.Proofs.Paraphrase.Names

/-!
# Values under other names

An expression has the same value when it and the scope have other names; an error names the new
name. Externals see the scope of their caller, so the same is asked of them, and they have it for
the same reason.
-/

namespace Formulary

variable {α β γ : Type} {f : String → String}

def CallError.rename (f : String → String) : CallError → CallError
  | unboundVariable name => unboundVariable (f name)
  | sumTooLong index => sumTooLong (f index)
  | error => error

namespace Scope

def rename (f : String → String) (scope : Scope α) : Scope α :=
  scope.map fun entry => (f entry.1, entry.2)

theorem lookup_rename (hf : Function.Injective f) (scope : Scope α) (name : String) :
    (scope.rename f).lookup (f name) = (scope.lookup name).mapError (CallError.rename f) := by
  have hlookup : List.lookup (f name) (scope.rename f) = List.lookup name scope := by
    induction scope with
    | nil => rfl
    | cons entry scope ih =>
      rw [rename, List.map_cons, List.lookup_cons, List.lookup_cons, hf.beq_eq]
      rw [rename] at ih
      rw [ih]
  rw [lookup, lookup, hlookup]
  cases List.lookup name scope <;> rfl

end Scope

namespace Evaluation

/-- In a scope under other names, the second computation does what the first does. -/
def Renames (f : String → String) (m m' : Evaluation α β) : Prop :=
  ∀ scope, m' (scope.rename f) = ((m scope).1.mapError (CallError.rename f), (m scope).2.rename f)

namespace Renames

theorem pure (b : β) : Renames f (Pure.pure b : Evaluation α β) (Pure.pure b) := fun _ => rfl

theorem reading {g g' : Scope α → Except CallError β}
    (h : ∀ scope, g' (scope.rename f) = (g scope).mapError (CallError.rename f)) :
    Renames f (reading g) (reading g') :=
  fun scope => congrArg (·, scope.rename f) (h scope)

theorem bind {m m' : Evaluation α β} {next next' : β → Evaluation α γ} (h : Renames f m m')
    (hnext : ∀ b, Renames f (next b) (next' b)) : Renames f (m >>= next) (m' >>= next') := by
  intro scope
  have hbind : ∀ (m : Evaluation α β) (next : β → Evaluation α γ) (scope : Scope α),
      (m >>= next) scope = ExceptT.bindCont next (m scope).1 (m scope).2 := fun _ _ _ => rfl
  rw [hbind, hbind, h scope]
  rcases m scope with ⟨error | b, later⟩
  · rfl
  · exact hnext b later

theorem binding {m m' : Evaluation α β} (h : Renames f m m') (name : String) (value : α) :
    Renames f (binding name value m) (binding (f name) value m') := by
  intro scope
  have hbinding : ∀ (name : String) (m : Evaluation α β) (scope : Scope α),
      Evaluation.binding name value m scope =
        ((m ((name, value) :: scope)).1, (m ((name, value) :: scope)).2.tail) := fun _ _ _ => rfl
  have hinner := h ((name, value) :: scope)
  rw [Scope.rename, List.map_cons] at hinner
  rw [hbinding, hbinding, Scope.rename, hinner]
  exact congrArg (_, ·) List.map_tail.symm

theorem addTerms [Add α] {term term' : Nat → Evaluation α α}
    (h : ∀ i, Renames f (term i) (term' i)) (count first : Nat) (total : α) :
    Renames f (addTerms term count first total) (addTerms term' count first total) := by
  induction count generalizing first total with
  | zero => exact .pure total
  | succ count ih => exact (h first).bind fun value => ih (first + 1) (total + value)

theorem total [Quantity α] {term term' : Nat → Evaluation α α}
    (h : ∀ i, Renames f (term i) (term' i)) (count : Nat) :
    Renames f (total count term) (total count term') :=
  addTerms h count 0 _

end Renames

end Evaluation

/-- Called from a scope under other names, the second does what the first does. -/
def Callable.Renames (f : String → String) (callable callable' : Callable α) : Prop :=
  ∀ branch values scope, callable' branch values (scope.rename f) =
    (callable branch values scope).mapError (CallError.rename f)

namespace Expression

open Evaluation (Renames)

theorem limit_rename (hf : Function.Injective f) (bound : Bound α) (scope : Scope α) :
    limit (scope.rename f) (bound.rename f) =
      (limit scope bound).mapError (CallError.rename f) := by
  cases bound with
  | number value => rfl
  | var name => exact Scope.lookup_rename hf scope name

theorem termCount_rename [Quantity α] (index : String) (lower upper : α) :
    termCount (f index) lower upper =
      (termCount index lower upper).mapError (CallError.rename f) := by
  simp only [termCount]
  split
  · rfl
  · split <;> rfl

variable {externals externals' : List (Callable α)}

section Externals

variable (hexternals : List.Forall₂ (Callable.Renames f) externals externals') (i : Nat)

include hexternals

/-- Both have an external at a place, or neither has. -/
theorem external_rename :
    external externals i = .error (.missingExternal i) ∧
        external externals' i = .error (.missingExternal i) ∨
      ∃ callable callable', external externals i = .ok callable ∧
        external externals' i = .ok callable' ∧ callable.Renames f callable' := by
  have hplace : Option.Rel (Callable.Renames f) externals[i]? externals'[i]? := by
    induction hexternals generalizing i with
    | nil => exact .none
    | cons h _ ih =>
      cases i with
      | zero => exact .some h
      | succ i => exact ih i
  rw [external, external]
  generalize externals[i]? = callable? at hplace ⊢
  generalize externals'[i]? = callable?' at hplace ⊢
  cases hplace with
  | none => exact .inl ⟨rfl, rfl⟩
  | some h => exact .inr ⟨_, _, rfl, rfl, h⟩

theorem calling_rename (branch : Nat) (values : List α) (scope : Scope α) :
    (do (← external externals' i) branch values (scope.rename f)) =
      (do (← external externals i) branch values scope).mapError (CallError.rename f) := by
  rcases external_rename hexternals i with
    ⟨hnone, hnone'⟩ | ⟨callable, callable', hfound, hfound', h⟩
  · rw [hnone, hnone']
    rfl
  · rw [hfound, hfound']
    exact h branch values scope

theorem reading_external_rename {next next' : Callable α → Evaluation α β}
    (h : ∀ callable callable' : Callable α, callable.Renames f callable' →
      Renames f (next callable) (next' callable')) :
    Renames f (Evaluation.reading (fun _ => external externals i) >>= next)
      (Evaluation.reading (fun _ => external externals' i) >>= next') := by
  rcases external_rename hexternals i with
    ⟨hnone, hnone'⟩ | ⟨callable, callable', hfound, hfound', hrenames⟩
  · rw [hnone, hnone']
    exact fun _ => rfl
  · rw [hfound, hfound']
    exact h callable callable' hrenames

end Externals

/-- The forward difference of a callable. -/
theorem difference_rename [Quantity α] {callable callable' : Callable α}
    (h : callable.Renames f callable') (branch : Nat) (step : α) (values : List α)
    (scope : Scope α) :
    (do
        let here ← callable' branch values (scope.rename f)
        let next ← callable' branch (values.map (· + step)) (scope.rename f)
        return (next - here) / step) =
      (do
        let here ← callable branch values scope
        let next ← callable branch (values.map (· + step)) scope
        return (next - here) / step : Except CallError α).mapError (CallError.rename f) := by
  rw [h branch values scope, h branch (values.map (· + step)) scope]
  cases callable branch values scope with
  | error error => rfl
  | ok here => cases callable branch (values.map (· + step)) scope <;> rfl

variable [Quantity α]

mutual

theorem evaluate_rename (hf : Function.Injective f)
    (hexternals : List.Forall₂ (Callable.Renames f) externals externals') :
    (e : Expression α) → Renames f (evaluate externals e) (evaluate externals' (e.rename f))
  | .number value => .pure value
  | .var name => .reading fun scope => Scope.lookup_rename hf scope name
  | .negate operand => (evaluate_rename hf hexternals operand).bind fun x => .pure (-x)
  | .binary operator left right =>
    (evaluate_rename hf hexternals left).bind fun x =>
      (evaluate_rename hf hexternals right).bind fun y => .pure (operator.apply x y)
  | .call function arguments =>
    (evaluateAll_rename hf hexternals arguments).bind fun values =>
      .pure (Quantity.apply function values)
  | .sum index lower upper body =>
    (Renames.reading (limit_rename hf lower)).bind fun lower =>
      (Renames.reading (limit_rename hf upper)).bind fun upper =>
        (Renames.reading fun _ => termCount_rename index lower upper).bind fun count =>
          .total (fun _ => (evaluate_rename hf hexternals body).binding index _) count
  | .integral name _ width partitions _ body =>
    .total (fun _ => ((evaluate_rename hf hexternals body).binding name _).bind fun value =>
      .pure (width * value)) partitions
  | .reference i branch => .reading fun scope => calling_rename hexternals i branch [] scope
  | .apply i branch arguments =>
    (evaluateAll_rename hf hexternals arguments).bind fun values =>
      .reading fun scope => calling_rename hexternals i branch values scope
  | .derivative i branch step arguments =>
    reading_external_rename hexternals i fun _ _ h =>
      (evaluateAll_rename hf hexternals arguments).bind fun values =>
        .reading fun scope => difference_rename h branch step values scope

theorem evaluateAll_rename (hf : Function.Injective f)
    (hexternals : List.Forall₂ (Callable.Renames f) externals externals') :
    (es : List (Expression α)) →
      Renames f (evaluateAll externals es) (evaluateAll externals' (renameAll f es))
  | [] => .pure []
  | e :: rest =>
    (evaluate_rename hf hexternals e).bind fun value =>
      (evaluateAll_rename hf hexternals rest).bind fun values => .pure (value :: values)

end

end Expression

namespace Scope

theorem lookups_rename (hf : Function.Injective f) (names : List String) (scope : Scope α) :
    ((names.map f).mapM fun name => ((scope.rename f).lookup name).map ((name, ·))) =
      ((names.mapM fun name => (scope.lookup name).map ((name, ·))).map (rename f)).mapError
        (CallError.rename f) := by
  induction names with
  | nil => rfl
  | cons name names ih =>
    rw [List.map_cons, List.mapM_cons, List.mapM_cons, ih, lookup_rename hf]
    cases scope.lookup name with
    | error error => rfl
    | ok value => cases names.mapM fun name => (scope.lookup name).map ((name, ·)) <;> rfl

theorem zip_rename (names : List String) (values : List α) :
    (names.map f).zip values = rename f (names.zip values) :=
  List.zip_map_left

end Scope

namespace Equation

variable [Quantity α]

theorem callBranch_rename (hf : Function.Injective f) (e : Equation α)
    {externals externals' : List (Callable α)}
    (hexternals : List.Forall₂ (Callable.Renames f) externals externals') :
    Callable.Renames f (e.callBranch externals) ((e.rename f).callBranch externals') := by
  intro branch values scope
  simp only [callBranch, parameters_rename, List.length_map, branches_rename, List.getElem?_map,
    freeArguments_rename, lookup_entry, Scope.lookups_rename hf, Scope.zip_rename]
  split
  · rfl
  · cases e.branches[branch]? with
    | none => rfl
    | some expression =>
      cases e.freeArguments.mapM fun name => (scope.lookup name).map ((name, ·)) with
      | error error => rfl
      | ok free =>
        have hscope : (Scope.rename f (e.parameters.zip values) ++ Scope.rename f free).reverse =
            Scope.rename f (e.parameters.zip values ++ free).reverse := by
          rw [Scope.rename, Scope.rename, Scope.rename, ← List.map_append, List.map_reverse]
        have hvalue := Expression.evaluate_rename hf hexternals expression
          (e.parameters.zip values ++ free).reverse
        rw [← hscope] at hvalue
        exact congrArg Prod.fst hvalue

mutual

/-- By induction on the equations that are referred to. -/
theorem callable_rename (hf : Function.Injective f) :
    (e : Equation α) → Callable.Renames f e.callable (e.rename f).callable
  | ⟨binding, arguments, bound, branches, externals⟩ => by
    have hexternals := callables_rename hf externals
    rw [callable, rename, callable]
    have hbranch := callBranch_rename hf ⟨binding, arguments, bound, branches, externals⟩ hexternals
    rwa [rename] at hbranch

theorem callables_rename (hf : Function.Injective f) :
    (es : List (Equation α)) →
      List.Forall₂ (Callable.Renames f) (callables es) (callables (renameAll f es))
  | [] => .nil
  | e :: rest => .cons (callable_rename hf e) (callables_rename hf rest)

end

theorem branchValues_rename (hf : Function.Injective f) (e : Equation α) (values : List α) :
    (e.rename f).branchValues values = (e.branchValues values).mapError (CallError.rename f) := by
  have hexternals := callables_rename hf e.externals
  rw [renameAll_eq_map, callables_eq_map, callables_eq_map] at hexternals
  simp only [branchValues, arguments_rename, List.length_map, branches_rename, externals_rename]
  split
  · rfl
  · have hscope : ((e.arguments.map f).zip values).reverse =
        Scope.rename f (e.arguments.zip values).reverse := by
      rw [Scope.zip_rename, Scope.rename, Scope.rename, List.map_reverse]
    rw [hscope]
    induction e.branches with
    | nil => rfl
    | cons branch branches ih =>
      rw [List.map_cons, List.mapM_cons, List.mapM_cons, ih,
        Expression.evaluate_rename hf hexternals branch]
      cases (branch.evaluate (e.externals.map callable) (e.arguments.zip values).reverse).1 with
      | error error => rfl
      | ok value =>
        cases branches.mapM fun branch =>
          (branch.evaluate (e.externals.map callable) (e.arguments.zip values).reverse).1 <;> rfl

theorem call_rename (hf : Function.Injective f) (e : Equation Float) (values : List Float) :
    (e.rename f).call values = (e.call values).mapError (CallError.rename f) := by
  rw [call, call, branchValues_rename hf]
  cases e.branchValues values <;> rfl

end Equation

end Formulary
