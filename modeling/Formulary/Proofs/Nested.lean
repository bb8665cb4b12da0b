import Mathlib.Data.List.Forall2
import Formulary.Proofs.Calls

/-!
# Nested evaluation and calls

Where an expression refers to an equation, the values of its parameters are given and its other
arguments are looked up in the scope of the caller. The scope in which the branch is evaluated then
is the one that a call with all these values builds, so both give the same.
-/

namespace Formulary

/-- Each name has its value. -/
def Scope.Gives {α : Type} (scope : Scope α) (names : List String) (values : List α) : Prop :=
  List.Forall₂ (fun name value => scope.lookup name = .ok value) names values

namespace Expression

/-! ## Scopes are left as they are -/

section Scopes

variable {α : Type}

/-- In whatever scope, the computation leaves it as it was. -/
abbrev Leaves {β : Type} (m : Evaluation α β) : Prop :=
  Evaluation.Ends [] (fun _ => True) (fun _ => True) m

theorem leaves_reading {β : Type} (f : Scope α → Except CallError β) :
    Leaves (Evaluation.reading f) := by
  apply Evaluation.Ends.reading
  intro scope _
  cases f scope <;> trivial

variable [Quantity α] (externals : List (Callable α))

mutual

theorem leaves_evaluate : (e : Expression α) → Leaves (evaluate externals e)
  | .number _ => .pure trivial
  | .var _ => leaves_reading _
  | .negate operand => (leaves_evaluate operand).bind fun _ _ => .pure trivial
  | .binary _ left right =>
    (leaves_evaluate left).bind fun _ _ => (leaves_evaluate right).bind fun _ _ => .pure trivial
  | .call _ arguments => (leaves_evaluateAll arguments).bind fun _ _ => .pure trivial
  | .sum _ _ _ body =>
    (leaves_reading _).bind fun _ _ => (leaves_reading _).bind fun _ _ =>
      (leaves_reading _).bind fun count _ =>
        .total (fun _ => (leaves_evaluate body).binding _ _) count
  | .integral _ _ _ partitions _ body =>
    .total (fun _ => ((leaves_evaluate body).binding _ _).bind fun _ _ => .pure trivial) partitions
  | .reference _ _ => leaves_reading _
  | .apply _ _ arguments => (leaves_evaluateAll arguments).bind fun _ _ => leaves_reading _
  | .derivative _ _ _ arguments =>
    (leaves_reading _).bind fun _ _ =>
      (leaves_evaluateAll arguments).bind fun _ _ => leaves_reading _

theorem leaves_evaluateAll : (es : List (Expression α)) → Leaves (evaluateAll externals es)
  | [] => .pure trivial
  | e :: rest =>
    (leaves_evaluate e).bind fun _ _ => (leaves_evaluateAll rest).bind fun _ _ => .pure trivial

end

/-- What comes behind the arguments is evaluated in the same scope. -/
theorem evaluateAll_eq {arguments : List (Expression α)} {values : List α} {scope : Scope α}
    (h : (evaluateAll externals arguments scope).1 = .ok values) :
    evaluateAll externals arguments scope = (.ok values, scope) := by
  have hscope := (leaves_evaluateAll externals arguments scope nofun).1
  exact Prod.ext h hscope

/-! ## What is asked of an external -/

section External

variable {externals} {i : Nat} {callable : Callable α} (h : external externals i = .ok callable)
  (k : Nat) {arguments : List (Expression α)} {values : List α} {scope : Scope α}

include h

theorem evaluate_reference :
    evaluate externals (.reference i k) scope = (callable k [] scope, scope) := by
  have hreading : evaluate externals (.reference i k) scope =
      ((do (← external externals i) k [] scope), scope) := rfl
  rw [hreading, h]
  rfl

variable (hvalues : evaluateAll externals arguments scope = (.ok values, scope))

include hvalues

theorem evaluate_apply :
    evaluate externals (.apply i k arguments) scope = (callable k values scope, scope) := by
  have hbind : evaluate externals (.apply i k arguments) scope = ExceptT.bindCont
      (fun values => Evaluation.reading fun scope => do (← external externals i) k values scope)
      (evaluateAll externals arguments scope).1 (evaluateAll externals arguments scope).2 := rfl
  rw [hbind, hvalues, h]
  rfl

theorem evaluate_derivative (step : α) :
    evaluate externals (.derivative i k step arguments) scope =
      ((do
        let here ← callable k values scope
        let next ← callable k (values.map (· + step)) scope
        return (next - here) / step), scope) := by
  have hbind : evaluate externals (.derivative i k step arguments) scope = ExceptT.bindCont
      (fun callable => (evaluateAll externals arguments >>= fun values =>
        Evaluation.reading fun scope => do
          let here ← callable k values scope
          let next ← callable k (values.map (· + step)) scope
          return (next - here) / step : Evaluation α α))
      (external externals i) scope := rfl
  have hbind' : ∀ next : List α → Evaluation α α, (evaluateAll externals arguments >>= next) scope =
      ExceptT.bindCont next (evaluateAll externals arguments scope).1
        (evaluateAll externals arguments scope).2 := fun _ => rfl
  rw [hbind, h]
  change (evaluateAll externals arguments >>= _) scope = _
  rw [hbind', hvalues]
  rfl

end External

end Scopes

end Expression

namespace Equation

variable {α : Type} {e : Equation α} {scope : Scope α} {ps vs ws : List α}

/-! ## One scope -/

theorem lookups_eq {names : List String} (h : scope.Gives names vs) :
    (names.mapM fun name => return (name, ← scope.lookup name)) =
      (.ok (names.zip vs) : Except CallError (List (String × α))) := by
  induction h with
  | nil => rfl
  | cons hvalue _ ih =>
    rw [List.mapM_cons, ih, hvalue]
    rfl

variable [Quantity α] (harguments : e.parameters ++ e.freeArguments = e.arguments)
  (hps : ps.length = e.parameters.length) (hvs : scope.Gives e.freeArguments vs)

include harguments hps hvs

/-- A branch called from the scope has the value that it has in a call. -/
theorem callable_of_branchValues (hws : e.branchValues (ps ++ vs) = .ok ws) {k : Nat}
    (hk : k < e.branchCount) : ∃ w, ws[k]? = some w ∧ e.callable k ps scope = .ok w := by
  have hcount : e.arguments.length = (ps ++ vs).length := by
    rw [← harguments, List.length_append, List.length_append, hps, hvs.length_eq]
  have hzip : e.arguments.zip (ps ++ vs) = e.parameters.zip ps ++ e.freeArguments.zip vs := by
    rw [← harguments, List.zip_append hps.symm]
  have hbranch : e.branches[k]? = some e.branches[k] := List.getElem?_eq_getElem hk
  rw [branchValues, if_neg (not_not.2 hcount), Session.mapM_eq_ok_iff] at hws
  have hvalue := congrArg (·[k]?) hws
  simp only [List.getElem?_map, hbranch, Option.map_some, hzip] at hvalue
  obtain ⟨w, hw, hvalue⟩ := Option.map_eq_some_iff.1 hvalue.symm
  refine ⟨w, hw, ?_⟩
  rw [callable_eq, callBranch, if_neg (not_not.2 hps.symm), hbranch]
  simp only [lookups_eq hvs]
  exact hvalue.symm

end Equation

namespace Session

open Expression (evaluate evaluateAll)

/-- Where a call of an equation with values for its parameters and for its other arguments has
values, a reference to one of its branches has the one of that branch in every scope that gives the
other arguments these values, and so has an application to arguments with the values of the
parameters. A derivative has the difference quotient of two calls. -/
theorem nested_evaluation_is_call {s : Session} (hs : s.Reachable) {e : Equation Float}
    (he : e ∈ s.equations.toList) {externals : List (Equation Float)} {i : Nat}
    (hi : externals[i]? = some e) {scope : Scope Float} {ps vs ws : List Float}
    (hps : ps.length = e.parameters.length) (hvs : scope.Gives e.freeArguments vs)
    (hws : e.branchValues (ps ++ vs) = .ok ws) {k : Nat} (hk : k < e.branchCount) :
    ∃ w, ws[k]? = some w ∧
      (ps = [] → evaluate (externals.map Equation.callable) (.reference i k) scope =
        (.ok w, scope)) ∧
      ∀ arguments, (evaluateAll (externals.map Equation.callable) arguments scope).1 = .ok ps →
        evaluate (externals.map Equation.callable) (.apply i k arguments) scope = (.ok w, scope) ∧
        ∀ step ws', e.branchValues (ps.map (· + step) ++ vs) = .ok ws' →
          ∃ w', ws'[k]? = some w' ∧
            evaluate (externals.map Equation.callable) (.derivative i k step arguments) scope =
              (.ok ((w' - w) / step), scope) := by
  have harguments := (hs.isLinked e he).arguments
  have hfound : Expression.external (externals.map Equation.callable) i = .ok e.callable := by
    rw [Expression.external, List.getElem?_map, hi]
    rfl
  obtain ⟨w, hw, hcall⟩ := Equation.callable_of_branchValues harguments hps hvs hws hk
  refine ⟨w, hw, ?_, ?_⟩
  · rintro rfl
    rw [Expression.evaluate_reference hfound, hcall]
  · intro arguments hvalues
    have hall := Expression.evaluateAll_eq _ hvalues
    refine ⟨?_, ?_⟩
    · rw [Expression.evaluate_apply hfound k hall, hcall]
    · intro step ws' hws'
      have hshifted : (ps.map (· + step)).length = e.parameters.length := by
        rw [List.length_map, hps]
      obtain ⟨w', hw', hcall'⟩ :=
        Equation.callable_of_branchValues harguments hshifted hvs hws' hk
      refine ⟨w', hw', ?_⟩
      rw [Expression.evaluate_derivative hfound k hall, hcall, hcall']
      rfl

/-- The session after `f(x) = x + a`. -/
private theorem exists_reachable_addition : ∃ (s : Session) (f : Equation Float), s.Reachable ∧
    f ∈ s.equations.toList ∧ f.parameters = ["x"] ∧ f.freeArguments = ["a"] ∧ f.branchCount = 1 ∧
    ∀ x a, f.branchValues [x, a] = .ok [x + a] := by
  have hread : readBranches [.append (.var "x"), .append (.operator .add), .append (.var "a")] =
      .ok [.binary .add (.var "x") (.var "a")] :=
    readBranches_single rfl (Expression.parse_eq_ok_iff_ofCode.2 (by cbv))
  have hcompile : ((fresh {}).compile [.var "f", .atom "(", .var "x", .atom ")", .atom "=",
      .var "x", .atom "+", .var "a"]).outcome = .ok ⟨some ⟨"f", .function, ["x"]⟩, ["x", "a"], [],
        [.binary .add (.var "x") (.var "a")], []⟩ :=
    compile_outcome_eq_ok_iff.2 ⟨_, _, _, _, _, rfl,
      .cons (.name (.inl rfl)) (.cons (.atom rfl) (.cons (.name (.inr rfl)) .nil)), hread, rfl⟩
  have hs : ((fresh {}).compile [.var "f", .atom "(", .var "x", .atom ")", .atom "=", .var "x",
      .atom "+", .var "a"]).session.Reachable := .compile _ (.fresh {})
  rw [session_compile_of_ok hcompile] at hs
  have hmem := List.mem_append_right (fresh {}).equations.toList (List.mem_singleton_self
    (⟨some ⟨"f", .function, ["x"]⟩, ["x", "a"], [], [.binary .add (.var "x") (.var "a")], []⟩ :
      Equation Float))
  rw [← toList_register] at hmem
  exact ⟨_, _, hs, hmem, rfl, rfl, rfl, fun _ _ => rfl⟩

/-- With `f(x) = x + a`, the values of `f(x)` and its derivative inside two loops over `a`, where
`x` is the variable of a loop between them. -/
theorem nested_evaluation_in_loops : ∃ (s : Session) (f : Equation Float), s.Reachable ∧
    f ∈ s.equations.toList ∧ f.parameters = ["x"] ∧ f.freeArguments = ["a"] ∧
    evaluate [f.callable] (.apply 0 0 [.var "x"]) [("a", 3.0), ("x", 5.0), ("a", 7.0)] =
      (.ok (5.0 + 3.0), [("a", 3.0), ("x", 5.0), ("a", 7.0)]) ∧
    evaluate [f.callable] (.derivative 0 0 2.0 [.var "x"]) [("a", 3.0), ("x", 5.0), ("a", 7.0)] =
      (.ok ((5.0 + 2.0 + 3.0 - (5.0 + 3.0)) / 2.0), [("a", 3.0), ("x", 5.0), ("a", 7.0)]) := by
  obtain ⟨s, f, hs, hmem, hparameters, hfree, hcount, hvalues⟩ := exists_reachable_addition
  have hgives : Scope.Gives [("a", 3.0), ("x", 5.0), ("a", 7.0)] f.freeArguments
      [(3.0 : Float)] := by
    rw [hfree]
    exact .cons rfl .nil
  have hlength : [(5.0 : Float)].length = f.parameters.length := by
    rw [hparameters]
    rfl
  have hfound : [f][0]? = some f := rfl
  obtain ⟨w, hw, -, happly⟩ := nested_evaluation_is_call hs hmem hfound hlength hgives
    (hvalues 5.0 3.0) (hcount ▸ Nat.one_pos)
  obtain rfl : (5.0 + 3.0 : Float) = w := Option.some.inj hw
  obtain ⟨hvalue, hderivative⟩ := happly [.var "x"] rfl
  obtain ⟨w', hw', hquotient⟩ := hderivative 2.0 _ (hvalues (5.0 + 2.0) 3.0)
  obtain rfl : (5.0 + 2.0 + 3.0 : Float) = w' := Option.some.inj hw'
  exact ⟨s, f, hs, hmem, hparameters, hfree, hvalue, hquotient⟩

end Session

end Formulary
