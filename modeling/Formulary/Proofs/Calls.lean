import Formulary.Proofs.Links
import Formulary.ResultSet

/-!
# How calls end

A call of a compiled equation has values, or it ends with an error that its source accounts for: a
name that is used where nothing binds it, a function that is applied to other than its parameters,
or a sum with too many terms. What it refers to is always found.
-/

namespace Formulary

/-! ## Computations in a scope -/

/-- The names have values. -/
def Scope.Has {α : Type} (scope : Scope α) (names : List String) : Prop :=
  ∀ name ∈ names, ∃ value, scope.lookup name = .ok value

section Scope

variable {α : Type} {scope : Scope α} {names : List String}

theorem Scope.has_of_subset (h : names ⊆ scope.map Prod.fst) : scope.Has names := by
  intro name hname
  have hsome : (List.lookup name scope).isSome = true := by
    obtain ⟨entry, hentry, rfl⟩ := List.mem_map.1 (h hname)
    rw [List.lookup_isSome_iff]
    exact ⟨entry, hentry, beq_self_eq_true _⟩
  obtain ⟨value, hvalue⟩ := Option.isSome_iff_exists.1 hsome
  exact ⟨value, by rw [lookup, hvalue]⟩

theorem Scope.Has.cons (h : scope.Has names) (entry : String × α) :
    Scope.Has (entry :: scope) names := by
  intro name hname
  by_cases hsame : name = entry.1
  · refine ⟨entry.2, ?_⟩
    rw [hsame, lookup, List.lookup_cons_self]
  · have hother : (name == entry.1) = false := by simpa using hsame
    obtain ⟨value, hvalue⟩ := h name hname
    refine ⟨value, ?_⟩
    rw [lookup] at hvalue ⊢
    rw [List.lookup_cons, hother]
    exact hvalue

theorem Scope.error_of_lookup {name : String} {error : CallError}
    (h : scope.lookup name = .error error) : error = .unboundVariable name := by
  unfold lookup at h
  split at h
  · cases h
  · exact (Except.error.inj h).symm

end Scope

/-- A result, or an error of some kind. -/
def EndsIn {β : Type} (result : β → Prop) (failure : CallError → Prop) :
    Except CallError β → Prop
  | .ok b => result b
  | .error error => failure error

theorem EndsIn.bind {β γ : Type} {p : β → Prop} {q : γ → Prop}
    {failure : CallError → Prop} {r : Except CallError β} {next : β → Except CallError γ}
    (h : EndsIn p failure r) (hnext : ∀ b, p b → EndsIn q failure (next b)) :
    EndsIn q failure (r >>= next) := by
  cases r with
  | ok b => exact hnext b h
  | error error => exact h

namespace Evaluation

variable {α β γ : Type} {names : List String} {p : β → Prop} {q : γ → Prop}
  {failure : CallError → Prop}

/-- In every scope in which the names have values, the computation ends in a result or an error of
some kind, and leaves the scope as it was. -/
def Ends (names : List String) (p : β → Prop) (failure : CallError → Prop)
    (m : Evaluation α β) : Prop :=
  ∀ scope : Scope α, scope.Has names → (m scope).2 = scope ∧ EndsIn p failure (m scope).1

theorem Ends.pure {b : β} (h : p b) :
    Ends names p failure (pure b : Evaluation α β) :=
  fun _ _ => ⟨rfl, h⟩

theorem Ends.bind {m : Evaluation α β} {next : β → Evaluation α γ}
    (h : Ends names p failure m) (hnext : ∀ b, p b → Ends names q failure (next b)) :
    Ends names q failure (m >>= next) := by
  intro scope hscope
  obtain ⟨hsame, hends⟩ := h scope hscope
  have hbind : (m >>= next) scope = ExceptT.bindCont next (m scope).1 (m scope).2 := rfl
  rw [hbind]
  rcases hm : m scope with ⟨error | b, scope'⟩
  · rw [hm] at hsame hends
    exact ⟨hsame, hends⟩
  · rw [hm] at hsame hends
    obtain rfl : scope' = scope := hsame
    exact hnext b hends scope' hscope

theorem Ends.reading {f : Scope α → Except CallError β}
    (h : ∀ scope : Scope α, scope.Has names → EndsIn p failure (f scope)) :
    Ends names p failure (reading f) :=
  fun scope hscope => ⟨rfl, h scope hscope⟩

theorem Ends.binding {m : Evaluation α β} (h : Ends names p failure m) (name : String)
    (value : α) : Ends names p failure (binding name value m) := by
  intro scope hscope
  obtain ⟨hsame, hends⟩ := h ((name, value) :: scope) (hscope.cons _)
  exact ⟨congrArg List.tail hsame, hends⟩

theorem Ends.addTerms [Add α] {term : Nat → Evaluation α α}
    (h : ∀ i, Ends names (fun _ => True) failure (term i)) (count first : Nat) (total : α) :
    Ends names (fun _ => True) failure (addTerms term count first total) := by
  induction count generalizing first total with
  | zero => exact .pure trivial
  | succ count ih => exact (h first).bind fun value _ => ih (first + 1) (total + value)

theorem Ends.total [Quantity α] {term : Nat → Evaluation α α}
    (h : ∀ i, Ends names (fun _ => True) failure (term i)) (count : Nat) :
    Ends names (fun _ => True) failure (total count term) :=
  .addTerms h count 0 _

end Evaluation

/-! ## Why a call may end with an error -/

/-- What a function is applied to: its place and the number of arguments. -/
def Expression.applied? {α : Type} : Expression α → Option (Nat × Nat)
  | apply external _ arguments | derivative external _ _ arguments =>
    some (external, arguments.length)
  | _ => none

namespace Equation

/-- Every function that is applied is given as many arguments as it has parameters. -/
def AppliesWell (e : Equation Float) : Prop :=
  ∀ branch ∈ e.branches, ∀ part ∈ branch.parts, ∀ external found,
    part.applied? = some (external, found) →
      ∃ x, e.externals[external]? = some x ∧ found = x.parameters.length

/-- The errors that a call may end with whatever the values. -/
inductive MayEnd (e : Equation Float) : CallError → Prop
  | sumTooLong (index : String) : MayEnd e (.sumTooLong index)
  | unboundVariable {x : Equation Float} {name : String} :
      e.Reaches x → name ∈ x.bound → MayEnd e (.unboundVariable name)
  | argumentCount {x : Equation Float} {expected found : Nat} :
      e.Reaches x → ¬x.AppliesWell → MayEnd e (.argumentCount expected found)

theorem MayEnd.of_external {e x : Equation Float} {error : CallError} (hx : x ∈ e.externals)
    (h : x.MayEnd error) : e.MayEnd error := by
  cases h with
  | sumTooLong index => exact .sumTooLong index
  | unboundVariable hreaches hbound => exact .unboundVariable (.head hx hreaches) hbound
  | argumentCount hreaches hmisapplied => exact .argumentCount (.head hx hreaches) hmisapplied

/-- A branch that is there ends with an error only if it is called with other than its parameters,
or if a free argument has no value, or for a reason of its own. -/
def EndsAsTold (e : Equation Float) : Prop :=
  ∀ branch < e.branchCount, ∀ (values : List Float) (scope : Scope Float) (error : CallError),
    e.callable branch values scope = .error error →
      (error = .argumentCount e.parameters.length values.length ∧
        e.parameters.length ≠ values.length) ∨
      (∃ name ∈ e.freeArguments, error = .unboundVariable name ∧
        scope.lookup name = .error error) ∨
      e.MayEnd error

end Equation

/-! ## Evaluating a branch -/

/-- A part of a branch of the equation: what it names is there, and it is one of the reasons why the
equation may not apply its functions well. -/
structure Expression.BelongsTo (part : Expression Float) (e : Equation Float) : Prop where
  head : ∀ f, part.head? = some f → f.IsLinked e.Knows e.externals
  applied : e.AppliesWell → ∀ external found, part.applied? = some (external, found) →
    ∃ x, e.externals[external]? = some x ∧ found = x.parameters.length

/-- Where all functions are applied well, a part gives the parameters of the function it applies. -/
theorem Expression.BelongsTo.count {part : Expression Float} {e x : Equation Float}
    (h : part.BelongsTo e) {external found : Nat}
    (happlied : part.applied? = some (external, found)) (hx : e.externals[external]? = some x)
    (hwell : e.AppliesWell) : x.parameters.length = found := by
  obtain ⟨x', hx', hcount⟩ := h.applied hwell external found happlied
  obtain rfl := Option.some.inj (hx.symm.trans hx')
  exact hcount.symm

namespace Equation

variable {e : Equation Float}

theorem external_found {external : Nat} {x : Equation Float}
    (hx : e.externals[external]? = some x) :
    Expression.external (e.externals.map callable) external = .ok x.callable := by
  rw [Expression.external, List.getElem?_map, hx]
  rfl

theorem lookup_ends {scope : Scope Float} (hscope : scope.Has e.arguments) {name : String}
    (h : e.Knows name) : EndsIn (fun _ => True) e.MayEnd (scope.lookup name) := by
  cases hlookup : scope.lookup name with
  | ok value => trivial
  | error error =>
    rcases h with hargument | hbound
    · obtain ⟨value, hvalue⟩ := hscope name hargument
      rw [hlookup] at hvalue
      cases hvalue
    · rw [Scope.error_of_lookup hlookup]
      exact .unboundVariable .refl hbound

theorem limit_ends {scope : Scope Float} (hscope : scope.Has e.arguments) {bound : Bound Float}
    (h : ∀ name, bound = .var name → e.Knows name) :
    EndsIn (fun _ => True) e.MayEnd (Expression.limit scope bound) := by
  cases bound with
  | number value => trivial
  | var name => exact lookup_ends hscope (h name rfl)

/-- Calling an external ends as it does by itself: its free arguments are known here. -/
theorem external_ends (hexternals : ∀ x ∈ e.externals, x.IsLinked ∧ x.EndsAsTold)
    {scope : Scope Float}
    (hscope : scope.Has e.arguments) {external branch : Nat} {x : Equation Float}
    (hx : e.externals[external]? = some x) (hlt : branch < x.branchCount)
    (hfree : ∀ name ∈ x.freeArguments, e.Knows name) {values : List Float}
    (hcount : e.AppliesWell → x.parameters.length = values.length) :
    EndsIn (fun _ => True) e.MayEnd (x.callable branch values scope) := by
  cases hcall : x.callable branch values scope with
  | ok value => trivial
  | error error =>
    have hmem := List.mem_of_getElem? hx
    rcases (hexternals x hmem).2 branch hlt values scope error hcall with
      ⟨rfl, hcounts⟩ | ⟨name, hname, -, hlookup⟩ | hmay
    · exact .argumentCount .refl fun hwell => hcounts (hcount hwell)
    · have hends := lookup_ends hscope (hfree name hname)
      rw [hlookup] at hends
      exact hends
    · exact hmay.of_external hmem

open Evaluation Expression

mutual

/-- A part of the equation ends in a value or for a reason of the equation. -/
theorem evaluate_ends (hexternals : ∀ x ∈ e.externals, x.IsLinked ∧ x.EndsAsTold) :
    (expression : Expression Float) → (∀ part ∈ expression.parts, part.BelongsTo e) →
      Ends e.arguments (fun _ => True) e.MayEnd
        (expression.evaluate (e.externals.map callable))
  | .number _, _ => .pure trivial
  | .var name, h =>
    .reading fun scope hscope =>
      lookup_ends hscope ((h _ (List.mem_singleton_self _)).head _ rfl)
  | .negate operand, h => by
    rw [evaluate]
    have hoperand := fun part hpart => h part (List.mem_append_left _ hpart)
    exact (evaluate_ends hexternals operand hoperand).bind fun _ _ => .pure trivial
  | .binary o left right, h => by
    rw [evaluate]
    have hleft := fun part hpart =>
      h part (List.mem_append_left _ (List.mem_append_left _ hpart))
    have hright := fun part hpart =>
      h part (List.mem_append_left _ (List.mem_append_right _ hpart))
    exact (evaluate_ends hexternals left hleft).bind fun _ _ =>
      (evaluate_ends hexternals right hright).bind fun _ _ => .pure trivial
  | .call function arguments, h => by
    rw [evaluate]
    have harguments := fun part hpart => h part (List.mem_append_left _ hpart)
    exact (evaluateAll_ends hexternals arguments harguments).bind fun _ _ => .pure trivial
  | .sum index lower upper body, h => by
    rw [evaluate]
    have hbody := fun part hpart => h part (List.mem_append_left _ hpart)
    have hnames := (h _ (List.mem_append_right _ (List.mem_singleton_self _))).head _ rfl
    refine (Ends.reading fun scope hscope => limit_ends hscope ?_).bind fun x _ =>
      (Ends.reading fun scope hscope => limit_ends hscope ?_).bind fun y _ =>
      (Ends.reading (p := fun _ => True) fun scope _ => ?_).bind fun count _ =>
      Ends.total (fun i => (evaluate_ends hexternals body hbody).binding index _) count
    · rintro name rfl
      exact hnames name (by simp [SumRange.names])
    · rintro name rfl
      exact hnames name (by simp [SumRange.names])
    · unfold termCount
      simp only
      split
      · exact .sumTooLong index
      · split <;> trivial
  | .integral name start width partitions rule body, h => by
    rw [evaluate]
    have hbody := fun part hpart => h part (List.mem_append_left _ hpart)
    exact Ends.total (fun i => ((evaluate_ends hexternals body hbody).binding name _).bind
      fun _ _ => .pure trivial) partitions
  | .reference external branch, h => by
    rw [evaluate]
    obtain ⟨x, hx, hlt, hfree, hvariable⟩ := (h _ (List.mem_singleton_self _)).head _ rfl
    have hparameters := (hexternals x (List.mem_of_getElem? hx)).1.parameters hvariable
    refine .reading fun scope hscope => ?_
    rw [external_found hx]
    exact external_ends hexternals hscope hx hlt hfree fun _ => congrArg List.length hparameters
  | .apply external branch arguments, h => by
    rw [evaluate]
    have harguments := fun part hpart => h part (List.mem_append_left _ hpart)
    have hwhole := h _ (List.mem_append_right _ (List.mem_singleton_self _))
    obtain ⟨x, hx, hlt, hfree⟩ := hwhole.head _ rfl
    refine (evaluateAll_ends hexternals arguments harguments).bind fun values hvalues =>
      .reading fun scope hscope => ?_
    rw [external_found hx]
    exact external_ends hexternals hscope hx hlt hfree fun hwell =>
      (hwhole.count rfl hx hwell).trans hvalues.symm
  | .derivative external branch step arguments, h => by
    rw [evaluate]
    have harguments := fun part hpart => h part (List.mem_append_left _ hpart)
    have hwhole := h _ (List.mem_append_right _ (List.mem_singleton_self _))
    obtain ⟨x, hx, hlt, hfree⟩ := hwhole.head _ rfl
    refine (Ends.reading (p := (· = x.callable)) fun _ _ => ?_).bind ?_
    · rw [external_found hx]
      exact rfl
    · rintro _ rfl
      refine (evaluateAll_ends hexternals arguments harguments).bind fun values hvalues =>
        .reading fun scope hscope => ?_
      -- The function is called here and a step away, each time with the same number of values.
      have hcount := fun hwell => (hwhole.count rfl hx hwell).trans hvalues.symm
      have hhere := external_ends hexternals hscope hx hlt hfree hcount
      have hnext : EndsIn (fun _ => True) e.MayEnd
          (x.callable branch (values.map (· + step)) scope) :=
        external_ends hexternals hscope hx hlt hfree fun hwell =>
          (hcount hwell).trans (List.length_map _).symm
      exact hhere.bind fun _ _ => hnext.bind fun _ _ => trivial

theorem evaluateAll_ends (hexternals : ∀ x ∈ e.externals, x.IsLinked ∧ x.EndsAsTold) :
    (es : List (Expression Float)) → (∀ part ∈ partsAll es, part.BelongsTo e) →
      Ends e.arguments (fun values : List Float => values.length = es.length) e.MayEnd
        (evaluateAll (e.externals.map callable) es)
  | [], _ => .pure rfl
  | expression :: rest, h => by
    rw [evaluateAll]
    have hfirst := fun part hpart => h part (List.mem_append_left _ hpart)
    have hrest := fun part hpart => h part (List.mem_append_right _ hpart)
    exact (evaluate_ends hexternals expression hfirst).bind fun value _ =>
      (evaluateAll_ends hexternals rest hrest).bind fun values hvalues =>
        .pure (congrArg Nat.succ hvalues)

end

/-! ## Calling an equation -/

theorem exists_of_mapM_error {β γ ε : Type} {f : β → Except ε γ} {xs : List β} {error : ε}
    (h : xs.mapM f = .error error) : ∃ x ∈ xs, f x = .error error := by
  induction xs with
  | nil => cases h
  | cons x xs ih =>
    rw [List.mapM_cons] at h
    cases hx : f x with
    | error error' =>
      obtain rfl : error' = error := by simpa [hx, bind, Except.bind] using h
      exact ⟨x, List.mem_cons_self .., hx⟩
    | ok y =>
      cases hxs : xs.mapM f with
      | error error' =>
        obtain rfl : error' = error := by simpa [hx, hxs, bind, Except.bind] using h
        obtain ⟨x', hx', herror⟩ := ih hxs
        exact ⟨x', List.mem_cons_of_mem _ hx', herror⟩
      | ok ys => simp [hx, hxs, bind, Except.bind, pure, Except.pure] at h

theorem belongsTo_of_mem (h : e.IsLinked) {branch : Expression Float}
    (hbranch : branch ∈ e.branches)
    {part : Expression Float} (hpart : part ∈ branch.parts) : part.BelongsTo e where
  head := h.heads branch hbranch part hpart
  applied := fun hwell => hwell branch hbranch part hpart

/-- A value that is looked up stands under its name. -/
theorem lookup_entry {α : Type} (scope : Scope α) (name : String) :
    (do let value ← scope.lookup name; return (name, value)) =
      (scope.lookup name).map ((name, ·)) := by
  cases scope.lookup name <;> rfl

theorem names_of_lookups {α : Type} {scope : Scope α} {names : List String}
    {entries : List (String × α)}
    (h : (names.mapM fun name => (scope.lookup name).map ((name, ·))) = .ok entries) :
    entries.map Prod.fst = names := by
  rw [Session.mapM_eq_ok_iff] at h
  induction names generalizing entries with
  | nil => rw [List.map_eq_nil_iff.1 h.symm, List.map_nil]
  | cons name names ih =>
    cases entries with
    | nil => cases h
    | cons entry entries =>
      obtain ⟨hentry, hmore⟩ := List.cons.inj h
      have hname : entry.1 = name := by
        cases hlookup : scope.lookup name with
        | error error => simp [hlookup, Except.map] at hentry
        | ok value =>
          obtain rfl : (name, value) = entry := by simpa [hlookup, Except.map] using hentry
          rfl
      rw [List.map_cons, hname, ih hmore]

theorem endsAsTold_of_externals (h : e.IsLinked)
    (hexternals : ∀ x ∈ e.externals, x.IsLinked ∧ x.EndsAsTold) : e.EndsAsTold := by
  intro branch hlt values scope error herror
  rw [callable_eq, callBranch] at herror
  by_cases hcount : e.parameters.length = values.length
  · rw [if_neg (fun hne => hne hcount), List.getElem?_eq_getElem hlt] at herror
    simp only [lookup_entry] at herror
    right
    cases hfree : e.freeArguments.mapM fun name => (scope.lookup name).map ((name, ·)) with
    | error error' =>
      rw [hfree] at herror
      obtain rfl : error' = error := Except.error.inj herror
      obtain ⟨name, hname, hfails⟩ := exists_of_mapM_error hfree
      have hlookup : scope.lookup name = .error error' := by
        cases hvalue : scope.lookup name with
        | error other => simpa [hvalue, Except.map] using hfails
        | ok value => simp [hvalue, Except.map] at hfails
      exact .inl ⟨name, hname, Scope.error_of_lookup hlookup, hlookup⟩
    | ok free =>
      rw [hfree] at herror
      have hscope : Scope.Has (e.parameters.zip values ++ free).reverse e.arguments := by
        apply Scope.has_of_subset
        rw [List.map_reverse, List.map_append, List.map_fst_zip (Nat.le_of_eq hcount),
          names_of_lookups hfree, h.arguments]
        exact (List.reverse_perm _).symm.subset
      have hbranch : e.branches[branch] ∈ e.branches := List.getElem_mem hlt
      have hends := (evaluate_ends hexternals e.branches[branch]
        (fun part hpart => belongsTo_of_mem h hbranch hpart) _ hscope).2
      exact .inr ((congrArg (EndsIn (fun _ => True) e.MayEnd) herror).mp hends)
  · rw [if_pos hcount] at herror
    exact .inl ⟨(Except.error.inj herror).symm, hcount⟩

theorem mayEnd_of_branchValues (h : e.IsLinked)
    (hexternals : ∀ x ∈ e.externals, x.IsLinked ∧ x.EndsAsTold) {values : List Float}
    (hlength : values.length = e.arguments.length) {error : CallError}
    (herror : e.branchValues values = .error error) : e.MayEnd error := by
  rw [branchValues, if_neg (fun hne => hne hlength.symm)] at herror
  obtain ⟨branch, hbranch, hfails⟩ := exists_of_mapM_error herror
  have hscope : Scope.Has (e.arguments.zip values).reverse e.arguments := by
    apply Scope.has_of_subset
    rw [List.map_reverse, List.map_fst_zip (Nat.le_of_eq hlength.symm)]
    exact (List.reverse_perm _).symm.subset
  have hends := (evaluate_ends hexternals branch
    (fun part hpart => belongsTo_of_mem h hbranch hpart) _ hscope).2
  rw [hfails] at hends
  exact hends

end Equation

namespace Session

theorem Reachable.endsAsTold {s : Session} (hs : s.Reachable) :
    ∀ e ∈ s.equations.toList, e.IsLinked ∧ e.EndsAsTold := by
  refine hs.reachableBy.forall_equations fun s nodes e hs _ houtcome hexternals => ?_
  have hlinked := isLinked_of_compile hs.reachable houtcome
  exact ⟨hlinked, Equation.endsAsTold_of_externals hlinked hexternals⟩

/-- A call with a value for each argument has values, or it ends with an error for a reason of the
equation. -/
theorem Reachable.mayEnd {s : Session} (hs : s.Reachable) {e : Equation Float}
    (he : e ∈ s.equations.toList) {values : List Float}
    (hlength : values.length = e.arguments.length) {error : CallError}
    (h : e.branchValues values = .error error) : e.MayEnd error := by
  have hexternals : ∀ x ∈ e.externals, x.IsLinked ∧ x.EndsAsTold := by
    have hreached := hs.reachableBy.forall_equations
      (P := fun e => ∀ x ∈ e.externals, x.IsLinked ∧ x.EndsAsTold)
      fun s nodes e hs _ houtcome _ x hx =>
        hs.reachable.endsAsTold x (mem_of_mem_externals hs.reachable houtcome hx)
    exact hreached e he
  exact e.mayEnd_of_branchValues (hs.isLinked e he) hexternals hlength h

theorem branchValues_error_of_call {e : Equation Float} {values : List Float} {error : CallError}
    (h : e.call values = .error error) : e.branchValues values = .error error := by
  cases hvalues : e.branchValues values with
  | error other => simpa [Equation.call, hvalues, bind, Except.bind] using h
  | ok results => simp [Equation.call, hvalues, bind, Except.bind, pure, Except.pure] at h

/-- A call with a value for each argument always finds the equations and branches it refers to, and
is without a value only for a name that is bound in one of the equations it reaches. -/
theorem call_finds_references {s : Session} (hs : s.Reachable) {e : Equation Float}
    (he : e ∈ s.equations.toList) {values : List Float}
    (hlength : values.length = e.arguments.length) {error : CallError}
    (h : e.branchValues values = .error error ∨ e.call values = .error error) :
    (∀ external, error ≠ .missingExternal external) ∧
      (∀ branch, error ≠ .missingBranch branch) ∧
      ∀ name, error = .unboundVariable name → ∃ x, e.Reaches x ∧ name ∈ x.bound := by
  have hmay := hs.mayEnd he hlength (h.elim id branchValues_error_of_call)
  cases hmay with
  | sumTooLong index => simp
  | @unboundVariable x name hreaches hbound =>
    refine ⟨by simp, by simp, fun other hother => ?_⟩
    obtain rfl := CallError.unboundVariable.inj hother
    exact ⟨x, hreaches, hbound⟩
  | argumentCount => simp

/-- The variable of an integral has no value behind it. -/
theorem call_behind_integral : ∃ (s : Session) (e x : Equation Float), s.Reachable ∧
    e ∈ s.equations.toList ∧ e.arguments = [] ∧
    e.branchValues [] = .error (.unboundVariable "x") ∧ e.Reaches x ∧ "x" ∈ x.bound := by
  have hzero : Node.fixed? [.literal "0"] = some ⟨false, 0, 0⟩ := by
    have htext : Node.signedText? [.literal "0"] = some "0" := by decide
    have hdigits : "0".toList = ['0'] := by simp
    have hdecimal : Decimal.Fixed.parse? ['0'] = some ⟨false, 0, 0⟩ := by decide
    rw [Node.fixed?, Node.ungrouped, htext]
    · simp [hdigits, hdecimal]
    · simp
  obtain ⟨partition, hpartition⟩ : ∃ partition, Partition.ofLimits 1 (some [.literal "0"])
      (some [.literal "0"]) = .ok partition := by
    simp only [Partition.ofLimits, Option.bind_some, hzero]
    exact ⟨_, rfl⟩
  have hx : Expression.IsSigned [.var "x"] (.var "x") := .operand (.var "x")
  have hsum := (Expression.IsSum.product (.signed (.operand (.integral "x" partition.start
    partition.width 1 .leftEdge (.product (.signed hx)))))).more rfl (o := .add) (.signed hx)
  have hread : readBranches [.append (.integral "x" partition.start partition.width 1 .leftEdge),
      .append (.var "x"), .append .close, .append (.operator .add), .append (.var "x")] =
      .ok [.binary .add (.integral "x" partition.start partition.width 1 .leftEdge (.var "x"))
        (.var "x")] :=
    readBranches_single rfl (Expression.parse_eq_ok_iff.2 hsum)
  have hcompile : ((fresh { partitions := 1 }).compile [.named .integral (some [.literal "0"])
      (some [.literal "0"]), .var "x", .var "d", .var "x", .atom "+", .var "x"]).outcome =
      .ok ⟨none, [], ["x"], [.binary .add (.integral "x" partition.start partition.width 1
        .leftEdge (.var "x")) (.var "x")], []⟩ :=
    compile_outcome_eq_ok_iff.2 ⟨none, _, _, _, _, rfl,
      .cons (.integral hpartition (by decide) rfl (.cons (.name (.inl rfl)) .nil))
        (.cons (.atom rfl) (.cons (.name (.inl rfl)) .nil)), hread, rfl⟩
  have hs : ((fresh { partitions := 1 }).compile [.named .integral (some [.literal "0"])
      (some [.literal "0"]), .var "x", .var "d", .var "x", .atom "+",
      .var "x"]).session.Reachable :=
    .compile _ (.fresh { partitions := 1 })
  rw [session_compile_of_ok hcompile] at hs
  have herror : Equation.branchValues (α := Float) ⟨none, [], ["x"], [.binary .add
      (.integral "x" partition.start partition.width 1 .leftEdge (.var "x")) (.var "x")], []⟩ [] =
        .error (.unboundVariable "x") := rfl
  have hmem := List.mem_append_right (fresh { partitions := 1 }).equations.toList
    (List.mem_singleton_self (⟨none, [], ["x"], [.binary .add (.integral "x" partition.start
      partition.width 1 .leftEdge (.var "x")) (.var "x")], []⟩ : Equation Float))
  rw [← toList_register] at hmem
  obtain ⟨x, hreaches, hbound⟩ :=
    (call_finds_references hs hmem rfl (.inl herror)).2.2 "x" rfl
  exact ⟨_, _, x, hs, hmem, rfl, herror, hreaches, hbound⟩

end Session

end Formulary
