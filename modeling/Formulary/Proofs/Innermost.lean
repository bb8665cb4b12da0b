import Formulary.Proofs.Scopes

/-!
# Innermost bindings

Evaluation asks a scope for the innermost values of some names and for nothing else: the variables
and limits of the expression, and the free arguments of the equations it refers to. Two scopes that
answer alike are as good as one another.
-/

namespace Formulary

/-! ## Scopes that answer alike -/

namespace Scope

variable {α : Type} {names : List String} {scope scope' : Scope α}

/-- The names have the same innermost values, or none. -/
def Alike (names : List String) (scope scope' : Scope α) : Prop :=
  ∀ name ∈ names, scope.lookup name = scope'.lookup name

theorem Alike.cons (h : scope.Alike names scope') (entry : String × α) :
    Alike names (entry :: scope) (entry :: scope') := by
  intro name hname
  have hlookup := h name hname
  unfold lookup at hlookup ⊢
  rw [List.lookup_cons, List.lookup_cons]
  cases name == entry.1 with
  | true => rfl
  | false => exact hlookup

theorem Alike.lookups (h : scope.Alike names scope') :
    (names.mapM fun name => do return (name, ← scope.lookup name) :
        Except CallError (List (String × α))) =
      names.mapM fun name => do return (name, ← scope'.lookup name) := by
  induction names with
  | nil => rfl
  | cons name names ih =>
    have hfirst : scope.lookup name = scope'.lookup name := h name (List.mem_cons_self ..)
    have hrest : scope.Alike names scope' :=
      fun other hother => h other (List.mem_cons_of_mem _ hother)
    rw [List.mapM_cons, List.mapM_cons, hfirst, ih hrest]

/-- An entry behind another of its name is never found, and one whose name is not asked for is not
looked for. -/
theorem alike_insert {before : Scope α} {entry : String × α}
    (h : entry.1 ∈ before.map Prod.fst ∨ entry.1 ∉ names) (after : Scope α) :
    Alike names (before ++ entry :: after) (before ++ after) := by
  intro name hname
  have hbehind : name = entry.1 → List.lookup name before ≠ none := by
    rintro rfl
    rcases h with hshadowed | hextra
    · obtain ⟨other, hother, hsame⟩ := List.mem_map.1 hshadowed
      rw [Ne, List.lookup_eq_none_iff]
      exact fun hnone => by simpa [hsame] using hnone other hother
    · exact absurd hname hextra
  unfold lookup
  rw [List.lookup_append, List.lookup_append, List.lookup_cons]
  cases hfirst : List.lookup name before with
  | some value => rfl
  | none =>
    have hne : (name == entry.1) = false := by
      simpa using fun heq => hbehind heq hfirst
    rw [hne]

/-- Neighbours of different names may change places. -/
theorem alike_swap (names : List String) {first second : String × α} (h : first.1 ≠ second.1)
    (before after : Scope α) :
    Alike names (before ++ first :: second :: after) (before ++ second :: first :: after) := by
  intro name _
  have hpair : List.lookup name (first :: second :: after) =
      List.lookup name (second :: first :: after) := by
    rw [List.lookup_cons, List.lookup_cons, List.lookup_cons, List.lookup_cons]
    by_cases hfirst : name = first.1
    · have hsecond : (name == second.1) = false := by simpa [hfirst] using h
      rw [hsecond]
    · have hother : (name == first.1) = false := by simpa using hfirst
      rw [hother]
  unfold lookup
  rw [List.lookup_append, List.lookup_append, hpair]

end Scope

/-! ## Computations that ask for names -/

namespace Evaluation

variable {α β γ : Type} {names : List String}

/-- In scopes in which the names have the same values, the computation has the same result. -/
def Asks (names : List String) (m : Evaluation α β) : Prop :=
  ∀ scope scope' : Scope α, scope.Alike names scope' → (m scope).1 = (m scope').1

theorem Asks.pure (b : β) : Asks names (pure b : Evaluation α β) := fun _ _ _ => rfl

theorem Asks.reading {f : Scope α → Except CallError β}
    (h : ∀ scope scope' : Scope α, scope.Alike names scope' → f scope = f scope') :
    Asks names (reading f) := h

/-- What comes next starts in the scopes that the computation before it started in. -/
theorem Asks.bind {m : Evaluation α β} {next : β → Evaluation α γ} (hm : m.Restores)
    (h : Asks names m) (hnext : ∀ b, Asks names (next b)) : Asks names (m >>= next) := by
  intro scope scope' halike
  rw [hm.bind_value, hm.bind_value, h scope scope' halike]
  exact bind_congr fun b => hnext b scope scope' halike

theorem Asks.binding {m : Evaluation α β} (h : Asks names m) (name : String) (value : α) :
    Asks names (binding name value m) :=
  fun _ _ halike => h _ _ (halike.cons (name, value))

theorem Asks.addTerms [Add α] {term : Nat → Evaluation α α} (hterm : ∀ i, (term i).Restores)
    (h : ∀ i, Asks names (term i)) (count first : Nat) (total : α) :
    Asks names (addTerms term count first total) := by
  induction count generalizing first total with
  | zero => exact .pure total
  | succ count ih =>
    exact .bind (hterm first) (h first) fun value => ih (first + 1) (total + value)

theorem Asks.total [Quantity α] {term : Nat → Evaluation α α} (hterm : ∀ i, (term i).Restores)
    (h : ∀ i, Asks names (term i)) (count : Nat) : Asks names (total count term) :=
  .addTerms hterm h count 0 _

end Evaluation

/-! ## Calls that ask for names -/

section Equations

variable {α : Type}

/-- In scopes in which the names have the same values, the calls have the same results. -/
def Callable.Asks (names : List String) (callable : Callable α) : Prop :=
  ∀ branch values (scope scope' : Scope α), scope.Alike names scope' →
    callable branch values scope = callable branch values scope'

/-- A branch of an equation is evaluated in a scope of its own, which takes nothing from that of the
caller but the values of the free arguments. -/
theorem Equation.callable_asks [Quantity α] (e : Equation α) :
    Callable.Asks e.freeArguments e.callable := by
  intro branch values scope scope' h
  rw [callable_eq]
  unfold callBranch
  rw [h.lookups]

/-! ## The names an expression asks for -/

/-- The name of a limit that is a variable. -/
def Bound.name? : Bound α → Option String
  | number _ => none
  | var name => some name

namespace Expression

/-- The names that the head of an expression asks for. -/
def headAsks (externals : List (Equation α)) : Expression α → List String
  | var name => [name]
  | sum _ lower upper _ => [lower, upper].filterMap Bound.name?
  | reference external _ | apply external _ _ | derivative external _ _ _ =>
    externals[external]?.elim [] Equation.freeArguments
  | number _ | negate _ | binary _ _ _ | call _ _ | integral _ _ _ _ _ _ => []

/-- The names that an expression asks for: its variables, the limits of its sums, and the free
arguments of the externals that it mentions. -/
def asks (externals : List (Equation α)) (e : Expression α) : List String :=
  e.parts.flatMap (headAsks externals)

open Evaluation

variable {externals : List (Equation α)} {names : List String}

theorem limit_alike {limits : List (Bound α)} (h : limits.filterMap Bound.name? ⊆ names)
    {bound : Bound α} (hbound : bound ∈ limits) {scope scope' : Scope α}
    (halike : scope.Alike names scope') : limit scope bound = limit scope' bound := by
  cases bound with
  | number value => rfl
  | var name => exact halike name (h (List.mem_filterMap.2 ⟨_, hbound, rfl⟩))

variable [Quantity α]

theorem external_asks {i : Nat} (h : externals[i]?.elim [] Equation.freeArguments ⊆ names) :
    (∃ error, external (externals.map Equation.callable) i = .error error) ∨
      ∃ callable : Callable α, external (externals.map Equation.callable) i = .ok callable ∧
        callable.Asks names := by
  rw [external, List.getElem?_map]
  cases hx : externals[i]? with
  | none => exact .inl ⟨_, rfl⟩
  | some x =>
    rw [hx] at h
    exact .inr ⟨_, rfl, fun branch values scope scope' halike =>
      x.callable_asks branch values scope scope' fun name hname => halike name (h hname)⟩

theorem asks_called {i : Nat} (h : externals[i]?.elim [] Equation.freeArguments ⊆ names)
    (branch : Nat) (values : List α) :
    Asks names (reading fun scope => do
      (← external (externals.map Equation.callable) i) branch values scope) := by
  rcases external_asks h with ⟨error, hmissing⟩ | ⟨callable, hfound, hasks⟩
  · rw [hmissing]
    exact .reading fun _ _ _ => rfl
  · rw [hfound]
    exact .reading fun scope scope' halike => hasks branch values scope scope' halike

/-- Where the external is missing, nothing more is asked. -/
theorem asks_external {β : Type} {i : Nat} {next : Callable α → Evaluation α β}
    (h : externals[i]?.elim [] Equation.freeArguments ⊆ names)
    (hnext : ∀ callable : Callable α, callable.Asks names → Asks names (next callable)) :
    Asks names (reading (fun _ => external (externals.map Equation.callable) i) >>= next) := by
  rcases external_asks h with ⟨error, hmissing⟩ | ⟨callable, hfound, hasks⟩
  · rw [hmissing]
    exact fun _ _ _ => rfl
  · rw [hfound]
    exact hnext callable hasks

mutual

/-- What an expression and its parts ask for is all that its evaluation depends on. -/
theorem asks_evaluate : (e : Expression α) → (∀ part ∈ e.parts, part.headAsks externals ⊆ names) →
    Asks names (e.evaluate (externals.map Equation.callable))
  | number value, _ => .pure value
  | var name, h => by
    have hname := h _ (List.mem_singleton_self _)
    exact .reading fun _ _ halike => halike name (hname (List.mem_singleton_self _))
  | negate operand, h => by
    have hoperand := fun part hpart => h part (List.mem_append_left _ hpart)
    rw [evaluate]
    exact .bind (restores_evaluate _ operand) (asks_evaluate operand hoperand) fun _ => .pure _
  | binary o left right, h => by
    have hleft := fun part hpart =>
      h part (List.mem_append_left _ (List.mem_append_left _ hpart))
    have hright := fun part hpart =>
      h part (List.mem_append_left _ (List.mem_append_right _ hpart))
    rw [evaluate]
    exact .bind (restores_evaluate _ left) (asks_evaluate left hleft) fun _ =>
      .bind (restores_evaluate _ right) (asks_evaluate right hright) fun _ => .pure _
  | call function arguments, h => by
    have harguments := fun part hpart => h part (List.mem_append_left _ hpart)
    rw [evaluate]
    exact .bind (restores_evaluateAll _ arguments) (asks_evaluateAll arguments harguments)
      fun _ => .pure _
  | sum index lower upper body, h => by
    have hbody := fun part hpart => h part (List.mem_append_left _ hpart)
    have hlimits := h _ (List.mem_append_right _ (List.mem_singleton_self _))
    have hrestores := restores_evaluate (externals.map Equation.callable) body
    have hasks := asks_evaluate body hbody
    rw [evaluate]
    -- The limits are read outside, the body once for each value of the index.
    refine .bind (.reading _) (.reading fun _ _ halike => limit_alike hlimits ?_ halike) fun _ =>
      .bind (.reading _) (.reading fun _ _ halike => limit_alike hlimits ?_ halike) fun _ =>
      .bind (.reading _) (.reading fun _ _ _ => rfl) fun count =>
      .total (fun _ => hrestores.binding index _) (fun _ => hasks.binding index _) count
    · exact List.mem_cons_self ..
    · exact List.mem_cons_of_mem _ (List.mem_singleton_self _)
  | integral name start width partitions rule body, h => by
    have hbody := fun part hpart => h part (List.mem_append_left _ hpart)
    have hrestores := restores_evaluate (externals.map Equation.callable) body
    have hasks := asks_evaluate body hbody
    rw [evaluate]
    exact .total (fun _ => (hrestores.binding name _).bind fun _ => .pure _)
      (fun _ => .bind (hrestores.binding name _) (hasks.binding name _) fun _ => .pure _) partitions
  | reference i branch, h => by
    have hfree := h _ (List.mem_singleton_self _)
    rw [evaluate]
    exact asks_called hfree branch []
  | apply i branch arguments, h => by
    have harguments := fun part hpart => h part (List.mem_append_left _ hpart)
    have hfree := h _ (List.mem_append_right _ (List.mem_singleton_self _))
    rw [evaluate]
    exact .bind (restores_evaluateAll _ arguments) (asks_evaluateAll arguments harguments)
      fun values => asks_called hfree branch values
  | derivative i branch step arguments, h => by
    have harguments := fun part hpart => h part (List.mem_append_left _ hpart)
    have hfree := h _ (List.mem_append_right _ (List.mem_singleton_self _))
    rw [evaluate]
    refine asks_external hfree fun callable hcallable => .bind (restores_evaluateAll _ arguments)
      (asks_evaluateAll arguments harguments) fun values => .reading fun _ _ halike => ?_
    -- The function is called here and a step away, in one scope.
    simp only [hcallable _ _ _ _ halike]

theorem asks_evaluateAll : (es : List (Expression α)) →
    (∀ part ∈ partsAll es, part.headAsks externals ⊆ names) →
      Asks names (evaluateAll (externals.map Equation.callable) es)
  | [], _ => .pure []
  | e :: rest, h => by
    have hfirst := fun part hpart => h part (List.mem_append_left _ hpart)
    have hrest := fun part hpart => h part (List.mem_append_right _ hpart)
    rw [evaluateAll]
    exact .bind (restores_evaluate _ e) (asks_evaluate e hfirst) fun _ =>
      .bind (restores_evaluateAll _ rest) (asks_evaluateAll rest hrest) fun _ => .pure _

end

/-- An expression has the same value, or the same error, in any two scopes that have the same
innermost values for the names it asks for. So no entry matters that stands behind another of its
name or whose name is not asked for, nor does the order of entries with different names. -/
theorem evaluate_asks_innermost (externals : List (Equation α)) (e : Expression α) :
    (∀ scope scope' : Scope α,
      (∀ name ∈ e.asks externals, scope.lookup name = scope'.lookup name) →
        (e.evaluate (externals.map Equation.callable) scope).1 =
          (e.evaluate (externals.map Equation.callable) scope').1) ∧
    (∀ (before after : Scope α) (entry : String × α),
      entry.1 ∈ before.map Prod.fst ∨ entry.1 ∉ e.asks externals →
        (e.evaluate (externals.map Equation.callable) (before ++ entry :: after)).1 =
          (e.evaluate (externals.map Equation.callable) (before ++ after)).1) ∧
    ∀ (before after : Scope α) (first second : String × α), first.1 ≠ second.1 →
      (e.evaluate (externals.map Equation.callable) (before ++ first :: second :: after)).1 =
        (e.evaluate (externals.map Equation.callable) (before ++ second :: first :: after)).1 := by
  have hasks : Asks (e.asks externals) (e.evaluate (externals.map Equation.callable)) :=
    asks_evaluate e fun part hpart name hname => List.mem_flatMap.2 ⟨part, hpart, hname⟩
  refine ⟨hasks, ?_, ?_⟩
  · intro before after entry h
    exact hasks _ _ (Scope.alike_insert h after)
  · intro before after first second h
    exact hasks _ _ (Scope.alike_swap _ h before after)

/-- A sum up to `m` over its index and the earlier `c = n` asks for three names. The second `n` and
the `z` are never seen. -/
theorem evaluate_asks_innermost_of_sum :
    let c : Equation Float := ⟨some ⟨"c", .variable, []⟩, ["n"], [], [.var "n"], []⟩
    let e : Expression Float :=
      .sum "i" (.number 1) (.var "m") (.binary .add (.var "i") (.reference 0 0))
    e.asks [c] = ["i", "n", "m"] ∧
    (e.evaluate [c.callable] [("n", 2), ("m", 3), ("n", 7), ("z", 1)]).1 =
      (e.evaluate [c.callable] [("m", 3), ("n", 2)]).1 ∧
    (e.evaluate [c.callable] [("n", 2), ("m", 3), ("n", 7)]).1 =
      (e.evaluate [c.callable] [("n", 2), ("m", 3)]).1 ∧
    (e.evaluate [c.callable] [("n", 2), ("m", 3)]).1 =
      (e.evaluate [c.callable] [("m", 3), ("n", 2)]).1 := by
  intro c e
  obtain ⟨hinnermost, hentry, horder⟩ := evaluate_asks_innermost [c] e
  have hasks : e.asks [c] = ["i", "n", "m"] := rfl
  refine ⟨hasks, hinnermost _ _ ?_, hentry [("n", 2), ("m", 3)] [] ("n", 7) (.inl ?_),
    horder [] [] ("n", 2) ("m", 3) (by decide)⟩
  · rw [hasks]
    simp only [List.forall_mem_cons, List.not_mem_nil, false_implies, implies_true, and_true]
    exact ⟨rfl, rfl, rfl⟩
  · exact List.mem_cons_self ..

end Expression

end Equations

end Formulary
