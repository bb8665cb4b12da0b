import Formulary.Proofs.Calls
import Formulary.Proofs.Enclosure
import Formulary.Proofs.Unfolding.Trees

/-!
# A definition has the value of its name

A reference is evaluated in a scope of its own, with the values of its arguments looked up first;
a definition in its place is evaluated where it stands. Since a definition is arithmetic, it uses
all its names whenever it has a value, and no others, so both have the same value.
-/

namespace Formulary

/-! ## Computations that agree -/

namespace Evaluation

variable {α β γ : Type} {scope scope' : Scope α}

/-- Each computation leaves its scope as it was, and a value of one is a value of the other. -/
def Agree (scope scope' : Scope α) (m m' : Evaluation α β) : Prop :=
  ∃ r r', m scope = (r, scope) ∧ m' scope' = (r', scope') ∧ ∀ b, r = .ok b ↔ r' = .ok b

namespace Agree

theorem pure (b : β) : Agree scope scope' (Pure.pure b : Evaluation α β) (Pure.pure b) :=
  ⟨.ok b, .ok b, rfl, rfl, fun _ => Iff.rfl⟩

theorem reading {f f' : Scope α → Except CallError β}
    (h : ∀ b, f scope = .ok b ↔ f' scope' = .ok b) :
    Agree scope scope' (reading f) (reading f') :=
  ⟨_, _, rfl, rfl, h⟩

theorem bind {m m' : Evaluation α β} (h : Agree scope scope' m m')
    {next next' : β → Evaluation α γ} (hnext : ∀ b, Agree scope scope' (next b) (next' b)) :
    Agree scope scope' (m >>= next) (m' >>= next') := by
  have hbind : ∀ (m : Evaluation α β) (next : β → Evaluation α γ) (scope : Scope α),
      (m >>= next) scope = ExceptT.bindCont next (m scope).1 (m scope).2 := fun _ _ _ => rfl
  obtain ⟨r, r', hm, hm', hsame⟩ := h
  rw [Agree, hbind, hbind, hm, hm']
  cases r with
  | ok b =>
    rw [(hsame b).1 rfl]
    exact hnext b
  | error error =>
    cases r' with
    | ok b => cases (hsame b).2 rfl
    | error error' => exact ⟨_, _, rfl, rfl, fun _ => by simp⟩

theorem binding {m m' : Evaluation α β} {name : String} {value : α}
    (h : Agree ((name, value) :: scope) ((name, value) :: scope') m m') :
    Agree scope scope' (binding name value m) (binding name value m') := by
  obtain ⟨r, r', hm, hm', hsame⟩ := h
  have hbinding : ∀ (m : Evaluation α β) (scope : Scope α), Evaluation.binding name value m scope =
      ((m ((name, value) :: scope)).1, (m ((name, value) :: scope)).2.tail) := fun _ _ => rfl
  rw [Agree, hbinding, hbinding, hm, hm']
  exact ⟨r, r', rfl, rfl, hsame⟩

theorem addTerms [Add α] {term term' : Nat → Evaluation α α}
    (h : ∀ i, Agree scope scope' (term i) (term' i)) (count first : Nat) (total : α) :
    Agree scope scope' (addTerms term count first total) (addTerms term' count first total) := by
  induction count generalizing first total with
  | zero => exact .pure total
  | succ count ih => exact (h first).bind fun value => ih (first + 1) (total + value)

end Agree

/-- A computation that has ended well has done so in each of its steps. -/
theorem ok_of_bind {m : Evaluation α β} {next : β → Evaluation α γ} {c : γ} {scope' : Scope α}
    (h : (m >>= next) scope = (.ok c, scope')) :
    ∃ b later, m scope = (.ok b, later) ∧ next b later = (.ok c, scope') := by
  have hbind : (m >>= next) scope = ExceptT.bindCont next (m scope).1 (m scope).2 := rfl
  rw [hbind] at h
  rcases hm : m scope with ⟨error | b, later⟩
  · rw [hm] at h
    cases h
  · rw [hm] at h
    exact ⟨b, later, rfl, h⟩

end Evaluation

/-! ## Arithmetic -/

namespace Expression

variable {α : Type}

mutual

/-- The expression is made of numbers, variables, operators and built-in functions. -/
def isArithmetic : Expression α → Bool
  | number _ | var _ => true
  | negate operand => operand.isArithmetic
  | binary _ left right => left.isArithmetic && right.isArithmetic
  | call _ arguments => areArithmetic arguments
  | sum .. | integral .. | reference .. | apply .. | derivative .. => false

def areArithmetic : List (Expression α) → Bool
  | [] => true
  | e :: rest => e.isArithmetic && areArithmetic rest

end

mutual

theorem IsSum.isArithmetic {code : List Fragment} {e : Expression Float} :
    IsSum code e → (∀ f ∈ code, f.isArithmetic = true) → e.isArithmetic = true
  | .product h, hcode => h.isArithmetic hcode
  | .more hl _ hr, hcode => by
    obtain ⟨hleft, hright⟩ := List.forall_mem_append.1 hcode
    rw [Expression.isArithmetic, hl.isArithmetic hleft,
      hr.isArithmetic (List.forall_mem_cons.1 hright).2]
    rfl

theorem IsProduct.isArithmetic {code : List Fragment} {e : Expression Float} :
    IsProduct code e → (∀ f ∈ code, f.isArithmetic = true) → e.isArithmetic = true
  | .signed h, hcode => h.isArithmetic hcode
  | .more hl _ hr, hcode => by
    obtain ⟨hleft, hright⟩ := List.forall_mem_append.1 hcode
    rw [Expression.isArithmetic, hl.isArithmetic hleft,
      hr.isArithmetic (List.forall_mem_cons.1 hright).2]
    rfl

theorem IsSigned.isArithmetic {code : List Fragment} {e : Expression Float} :
    IsSigned code e → (∀ f ∈ code, f.isArithmetic = true) → e.isArithmetic = true
  | .operand h, hcode => h.isArithmetic hcode
  | .plus h, hcode => h.isArithmetic (List.forall_mem_cons.1 hcode).2
  | .minus h, hcode => h.isArithmetic (List.forall_mem_cons.1 hcode).2

theorem IsOperand.isArithmetic {code : List Fragment} {e : Expression Float} :
    IsOperand code e → (∀ f ∈ code, f.isArithmetic = true) → e.isArithmetic = true
  | .number _, _ => rfl
  | .var _, _ => rfl
  | .parens h, hcode =>
    h.isArithmetic (List.forall_mem_append.1 (List.forall_mem_cons.1 hcode).2).1
  | .call _ h _, hcode => h.areArithmetic (List.forall_mem_cons.1 hcode).2
  | .sum _ _ _ _, hcode => (List.forall_mem_cons.1 hcode).1
  | .integral _ _ _ _ _ _, hcode => (List.forall_mem_cons.1 hcode).1
  | .reference _ _, hcode => (List.forall_mem_cons.1 hcode).1
  | .apply _ _ _, hcode => (List.forall_mem_cons.1 hcode).1
  | .derivative _ _ _ _, hcode => (List.forall_mem_cons.1 hcode).1

theorem IsArguments.areArithmetic {code : List Fragment} {es : List (Expression Float)} :
    IsArguments code es → (∀ f ∈ code, f.isArithmetic = true) → Expression.areArithmetic es = true
  | .none, _ => rfl
  | .some h, hcode => h.areArithmetic hcode

theorem IsListed.areArithmetic {code : List Fragment} {es : List (Expression Float)} :
    IsListed code es → (∀ f ∈ code, f.isArithmetic = true) → Expression.areArithmetic es = true
  | .last h, hcode => by
    rw [Expression.areArithmetic, h.isArithmetic (List.forall_mem_append.1 hcode).1]
    rfl
  | .more h hrest, hcode => by
    obtain ⟨hfirst, hmore⟩ := List.forall_mem_append.1 hcode
    rw [Expression.areArithmetic, h.isArithmetic hfirst,
      hrest.areArithmetic (List.forall_mem_cons.1 hmore).2]
    rfl

end

open Evaluation

variable {xs xs' : List (Callable α)} {scope scope' : Scope α}

section Skip

variable {place : Nat} (hxs : ∀ i, i ≠ place → xs'[skip place i]? = xs[i]?) {i : Nat}
  (hi : i ≠ place)

include hxs hi

/-- The other externals are found where they have moved. -/
theorem external_skip (callable : Callable α) :
    external xs i = .ok callable ↔ external xs' (skip place i) = .ok callable := by
  rw [external, external, hxs i hi]
  cases xs[i]? with
  | some found => exact Iff.rfl
  | none => exact iff_of_false (by rintro ⟨⟩) (by rintro ⟨⟩)

theorem reading_skip (branch : Nat) (values : List α) :
    Agree scope scope (reading fun scope => do (← external xs i) branch values scope)
      (reading fun scope => do (← external xs' (skip place i)) branch values scope) := by
  refine .reading fun b => ?_
  rw [external, external, hxs i hi]
  cases xs[i]? with
  | some found => exact Iff.rfl
  | none => exact iff_of_false (by rintro ⟨⟩) (by rintro ⟨⟩)

end Skip

variable [Quantity α]

mutual

/-- The value depends on the variables only. -/
theorem evaluate_agree : (e : Expression α) → e.isArithmetic = true →
    (∀ name, .var name ∈ e.uses → scope.lookup name = scope'.lookup name) →
      Agree scope scope' (e.evaluate xs) (e.evaluate xs')
  | number value, _, _ => .pure value
  | var name, _, hsame => by
    rw [evaluate, evaluate]
    refine .reading fun b => ?_
    rw [hsame name (List.mem_singleton_self _)]
  | negate operand, h, hsame => by
    rw [evaluate, evaluate]
    exact (evaluate_agree operand h hsame).bind fun _ => .pure _
  | binary operator left right, h, hsame => by
    obtain ⟨hleft, hright⟩ := Bool.and_eq_true_iff.1 h
    rw [evaluate, evaluate]
    exact (evaluate_agree left hleft fun name hname =>
        hsame name (List.mem_append_left _ hname)).bind fun _ =>
      (evaluate_agree right hright fun name hname =>
        hsame name (List.mem_append_right _ hname)).bind fun _ => .pure _
  | call function arguments, h, hsame => by
    rw [evaluate, evaluate]
    exact (evaluateAll_agree arguments h hsame).bind fun _ => .pure _

theorem evaluateAll_agree : (es : List (Expression α)) → areArithmetic es = true →
    (∀ name, .var name ∈ usesAll es → scope.lookup name = scope'.lookup name) →
      Agree scope scope' (evaluateAll xs es) (evaluateAll xs' es)
  | [], _, _ => .pure []
  | e :: rest, h, hsame => by
    obtain ⟨hfirst, hrest⟩ := Bool.and_eq_true_iff.1 h
    rw [evaluateAll, evaluateAll]
    exact (evaluate_agree e hfirst fun name hname =>
        hsame name (List.mem_append_left _ hname)).bind fun _ =>
      (evaluateAll_agree rest hrest fun name hname =>
        hsame name (List.mem_append_right _ hname)).bind fun _ => .pure _

end

/-- Arithmetic leaves the scope as it was. -/
theorem scope_of_evaluateAll {es : List (Expression α)} (h : areArithmetic es = true)
    {values : List α} (hvalues : evaluateAll xs es scope = (.ok values, scope')) :
    scope = scope' := by
  have hagree : Agree scope scope (evaluateAll xs es) (evaluateAll xs es) :=
    evaluateAll_agree es h fun _ _ => rfl
  obtain ⟨_, _, hresult, -⟩ := hagree
  rw [hvalues] at hresult
  exact (Prod.mk.inj hresult).2.symm

theorem scope_of_evaluate {e : Expression α} (h : e.isArithmetic = true) {value : α}
    (hvalue : e.evaluate xs scope = (.ok value, scope')) : scope = scope' := by
  have hagree : Agree scope scope (e.evaluate xs) (e.evaluate xs) :=
    evaluate_agree e h fun _ _ => rfl
  obtain ⟨_, _, hresult, -⟩ := hagree
  rw [hvalue] at hresult
  exact (Prod.mk.inj hresult).2.symm

mutual

/-- Arithmetic has a value only where all its variables have one. -/
theorem has_of_evaluate : (e : Expression α) → e.isArithmetic = true → ∀ {value : α},
    e.evaluate xs scope = (.ok value, scope) →
      ∀ name, .var name ∈ e.uses → ∃ value, scope.lookup name = .ok value
  | number _, _, _, _, _, hname => by cases hname
  | var name, _, value, hvalue, other, hother => by
    obtain rfl : other = name := by simpa [uses] using hother
    rw [evaluate] at hvalue
    exact ⟨value, (Prod.mk.inj hvalue).1⟩
  | negate operand, h, value, hvalue, name, hname => by
    rw [evaluate] at hvalue
    obtain ⟨x, later, hoperand, -⟩ := ok_of_bind hvalue
    have harithmetic : operand.isArithmetic = true := h
    obtain rfl := scope_of_evaluate harithmetic hoperand
    exact has_of_evaluate operand h hoperand name hname
  | binary operator left right, h, value, hvalue, name, hname => by
    obtain ⟨harithmetic, harithmetic'⟩ := Bool.and_eq_true_iff.1 h
    rw [evaluate] at hvalue
    obtain ⟨x, later, hleft, hvalue⟩ := ok_of_bind hvalue
    obtain rfl := scope_of_evaluate harithmetic hleft
    obtain ⟨y, later', hright, -⟩ := ok_of_bind hvalue
    obtain rfl := scope_of_evaluate harithmetic' hright
    rcases List.mem_append.1 hname with hname | hname
    · exact has_of_evaluate left harithmetic hleft name hname
    · exact has_of_evaluate right harithmetic' hright name hname
  | call function arguments, h, value, hvalue, name, hname => by
    rw [evaluate] at hvalue
    obtain ⟨values, later, harguments, -⟩ := ok_of_bind hvalue
    have harithmetic : areArithmetic arguments = true := h
    obtain rfl := scope_of_evaluateAll harithmetic harguments
    exact has_of_evaluateAll arguments h harguments name hname

theorem has_of_evaluateAll : (es : List (Expression α)) → areArithmetic es = true →
    ∀ {values : List α}, evaluateAll xs es scope = (.ok values, scope) →
      ∀ name, .var name ∈ usesAll es → ∃ value, scope.lookup name = .ok value
  | [], _, _, _, _, hname => by cases hname
  | e :: rest, h, values, hvalues, name, hname => by
    obtain ⟨harithmetic, harithmetic'⟩ := Bool.and_eq_true_iff.1 h
    rw [evaluateAll] at hvalues
    obtain ⟨x, later, hfirst, hvalues⟩ := ok_of_bind hvalues
    obtain rfl := scope_of_evaluate harithmetic hfirst
    obtain ⟨more, later', hrest, -⟩ := ok_of_bind hvalues
    obtain rfl := scope_of_evaluateAll harithmetic' hrest
    rcases List.mem_append.1 hname with hname | hname
    · exact has_of_evaluate e harithmetic hfirst name hname
    · exact has_of_evaluateAll rest harithmetic' hrest name hname

end

/-! ## Expressions without the external -/

section Unfolding

variable (place : Nat) (trees : Nat → Expression α) (xs xs')

/-- What is asked of the parts of an expression: the trees stand for the references to the external,
and it is not applied. -/
structure Unfoldable (part : Expression α) : Prop where
  reference : ∀ branch, part = reference place branch → ∀ scope : Scope α,
    Agree scope scope (part.evaluate xs) ((trees branch).evaluate xs')
  applied : ∀ external found, part.applied? = some (external, found) → external ≠ place

variable {place trees xs xs'}

mutual

/-- An expression has the value of the unfolded expression. -/
theorem evaluate_unfold (hxs : ∀ i, i ≠ place → xs'[skip place i]? = xs[i]?) :
    (e : Expression α) → (∀ part ∈ e.parts, part.Unfoldable xs xs' place trees) →
      ∀ scope : Scope α, Agree scope scope (e.evaluate xs) ((e.unfold place trees).evaluate xs')
  | number value, _, _ => .pure value
  | var name, _, _ => .reading fun _ => Iff.rfl
  | negate operand, h, scope => by
    rw [unfold, evaluate, evaluate]
    have hoperand := fun part hpart => h part (List.mem_append_left _ hpart)
    exact (evaluate_unfold hxs operand hoperand scope).bind fun _ => .pure _
  | binary operator left right, h, scope => by
    rw [unfold, evaluate, evaluate]
    have hleft := fun part hpart =>
      h part (List.mem_append_left _ (List.mem_append_left _ hpart))
    have hright := fun part hpart =>
      h part (List.mem_append_left _ (List.mem_append_right _ hpart))
    exact (evaluate_unfold hxs left hleft scope).bind fun _ =>
      (evaluate_unfold hxs right hright scope).bind fun _ => .pure _
  | call function arguments, h, scope => by
    rw [unfold, evaluate, evaluate]
    have harguments := fun part hpart => h part (List.mem_append_left _ hpart)
    exact (evaluateAll_unfold hxs arguments harguments scope).bind fun _ => .pure _
  | sum index lower upper body, h, scope => by
    rw [unfold, evaluate, evaluate]
    have hbody := fun part hpart => h part (List.mem_append_left _ hpart)
    exact (Agree.reading fun _ => Iff.rfl).bind fun _ => (Agree.reading fun _ => Iff.rfl).bind
      fun _ => (Agree.reading fun _ => Iff.rfl).bind fun count =>
        .addTerms (fun _ => .binding (evaluate_unfold hxs body hbody _)) count 0 _
  | integral name start width partitions rule body, h, scope => by
    rw [unfold, evaluate, evaluate]
    have hbody := fun part hpart => h part (List.mem_append_left _ hpart)
    exact .addTerms (fun _ => (Agree.binding (evaluate_unfold hxs body hbody _)).bind
      fun _ => .pure _) partitions 0 _
  | reference external branch, h, scope => by
    by_cases hself : external = place
    · rw [unfold, if_pos hself]
      exact (h _ (List.mem_singleton_self _)).reference branch (by rw [hself]) scope
    · rw [unfold, if_neg hself, evaluate, evaluate]
      exact reading_skip hxs hself branch []
  | apply external branch arguments, h, scope => by
    rw [unfold, evaluate, evaluate]
    have harguments := fun part hpart => h part (List.mem_append_left _ hpart)
    have hne := (h _ (List.mem_append_right _ (List.mem_singleton_self _))).applied _ _ rfl
    exact (evaluateAll_unfold hxs arguments harguments scope).bind fun values =>
      reading_skip hxs hne branch values
  | derivative external branch step arguments, h, scope => by
    rw [unfold, evaluate, evaluate]
    have harguments := fun part hpart => h part (List.mem_append_left _ hpart)
    have hne := (h _ (List.mem_append_right _ (List.mem_singleton_self _))).applied _ _ rfl
    exact (Agree.reading fun callable => external_skip hxs hne callable).bind fun _ =>
      (evaluateAll_unfold hxs arguments harguments scope).bind fun _ =>
        .reading fun _ => Iff.rfl

theorem evaluateAll_unfold (hxs : ∀ i, i ≠ place → xs'[skip place i]? = xs[i]?) :
    (es : List (Expression α)) → (∀ part ∈ partsAll es, part.Unfoldable xs xs' place trees) →
      ∀ scope : Scope α,
        Agree scope scope (evaluateAll xs es) (evaluateAll xs' (unfoldAll place trees es))
  | [], _, _ => .pure []
  | e :: rest, h, scope => by
    rw [unfoldAll, evaluateAll, evaluateAll]
    have hfirst := fun part hpart => h part (List.mem_append_left _ hpart)
    have hrest := fun part hpart => h part (List.mem_append_right _ hpart)
    exact (evaluate_unfold hxs e hfirst scope).bind fun _ =>
      (evaluateAll_unfold hxs rest hrest scope).bind fun _ => .pure _

end

end Unfolding

end Expression

open Evaluation Expression

/-! ## The trees of a definition -/

section Trees

variable {equation : Equation Float} {code : List Instruction}

/-- Every number tells a tree of the definition, by its lowest bits. -/
theorem Equation.HasCode.exists_trees (h : equation.HasCode code) :
    ∃ trees : Nat → Expression Float, (∀ branch, IsSum (branchCode code branch) (trees branch)) ∧
      ∀ branch < equation.branchCount, equation.branches[branch]? = some (trees branch) := by
  have hplain := fun i hi => (h.isArithmetic i hi).isPlain
  obtain ⟨hlength, hbranches⟩ := (Session.readBranches_plain hplain).1 h.read
  have hall : ∀ branch, ∃ e, IsSum (branchCode code branch) e ∧
      (branch < equation.branchCount → equation.branches[branch]? = some e) := by
    intro branch
    have hlt : branch % 2 ^ signCount code < equation.branches.length :=
      Nat.lt_of_lt_of_eq (Nat.mod_lt _ (Nat.two_pow_pos _)) hlength.symm
    have hfound := List.getElem?_eq_getElem hlt
    refine ⟨equation.branches[branch % 2 ^ signCount code], ?_, fun hbranch => ?_⟩
    · have hsum := hbranches _ _ hfound
      rwa [← select_mod hplain] at hsum
    · rw [← hfound, Nat.mod_eq_of_lt]
      exact hlength ▸ hbranch
  choose trees hsum hfound using hall
  exact ⟨trees, hsum, hfound⟩

variable {branch : Nat} {tree : Expression Float}

private theorem isArithmetic_select (hcode : ∀ i ∈ code, i.IsArithmetic) (σ : Nat → Bool)
    (j : Nat) : ∀ f ∈ select σ j code, f.isArithmetic = true := by
  induction code generalizing j with
  | nil => exact List.forall_mem_nil _
  | cons i rest ih =>
    obtain ⟨hi, hrest⟩ := List.forall_mem_cons.1 hcode
    cases hi with
    | append hf => exact List.forall_mem_cons.2 ⟨hf, ih hrest j⟩
    | sign => exact List.forall_mem_cons.2 ⟨rfl, ih hrest (j + 1)⟩

private theorem uses_select (hcode : ∀ i ∈ code, i.IsArithmetic) (σ : Nat → Bool) (j : Nat) :
    (select σ j code).filterMap Fragment.use? = (Instruction.names code).map Use.var := by
  induction code generalizing j with
  | nil => rfl
  | cons i rest ih =>
    obtain ⟨hi, hrest⟩ := List.forall_mem_cons.1 hcode
    cases hi with
    | sign => exact ih hrest (j + 1)
    | @append f hf =>
      cases f with
      | var name => exact congrArg (Use.var name :: ·) (ih hrest j)
      | reference external branch => cases hf
      | _ => exact ih hrest j

theorem isArithmetic_of_code (hcode : ∀ i ∈ code, i.IsArithmetic)
    (h : IsSum (branchCode code branch) tree) : tree.isArithmetic = true := by
  refine h.isArithmetic fun f hf => ?_
  by_cases hnumber : ∃ text, f = .number text
  · obtain ⟨text, rfl⟩ := hnumber
    rfl
  · have hmem := Fragment.mem_of_mem_joined (fun text heq => hnumber ⟨text, heq⟩) hf
    exact isArithmetic_select hcode _ _ f hmem

/-- A tree of a definition uses the variables of its code. -/
theorem uses_of_code (hcode : ∀ i ∈ code, i.IsArithmetic)
    (h : IsSum (branchCode code branch) tree) :
    tree.uses = (Instruction.names code).map Use.var := by
  rw [h.uses, branchCode, Fragment.filterMap_joined fun _ => rfl, uses_select hcode]

end Trees

/-! ## The value of a reference -/

section Value

variable {α : Type} {scope : Scope α}

theorem lookup_entries {entries : List (String × α)} {name : String}
    (h : ∀ entry ∈ entries, scope.lookup entry.1 = .ok entry.2)
    (hname : name ∈ entries.map Prod.fst) : Scope.lookup entries name = scope.lookup name := by
  obtain ⟨value, hvalue⟩ := Scope.has_of_subset (List.Subset.refl _) name hname
  have hfound : List.lookup name entries = some value := by
    unfold Scope.lookup at hvalue
    split at hvalue
    · next found => rw [found, Except.ok.inj hvalue]
    · cases hvalue
  obtain ⟨before, behind, rfl, -⟩ := List.lookup_eq_some_iff.1 hfound
  rw [hvalue, h (name, value) (by simp)]

/-- Values that have been looked up are found again. -/
theorem lookup_of_lookups {names : List String} {entries : List (String × α)}
    (h : (names.mapM fun name => (scope.lookup name).map ((name, ·))) = .ok entries)
    {name : String} (hname : name ∈ names) :
    Scope.lookup entries.reverse name = scope.lookup name := by
  apply lookup_entries
  · intro entry hentry
    have hmem : (.ok entry : Except CallError (String × α)) ∈ entries.map .ok :=
      List.mem_map_of_mem (List.mem_reverse.1 hentry)
    rw [← Session.mapM_eq_ok_iff.1 h] at hmem
    obtain ⟨other, -, hentry⟩ := List.mem_map.1 hmem
    cases hlookup : scope.lookup other with
    | error error => simp [hlookup, Except.map] at hentry
    | ok value =>
      obtain rfl : (other, value) = entry := by simpa [hlookup, Except.map] using hentry
      exact hlookup
  · rw [List.map_reverse, Equation.names_of_lookups h]
    exact List.mem_reverse.2 hname

variable [Quantity α] {equation : Equation α} {branch : Nat} {tree : Expression α}

/-- What a variable is called for is one of its trees, in a scope with its arguments only. -/
theorem Equation.callable_of_variable (hexternals : equation.externals = [])
    (hparameters : equation.parameters = []) (hbranch : equation.branches[branch]? = some tree) :
    equation.callable branch [] scope =
      (equation.arguments.mapM fun name => (scope.lookup name).map ((name, ·))) >>= fun free =>
        (tree.evaluate [] free.reverse).1 := by
  have hfree : equation.freeArguments = equation.arguments := by
    rw [Equation.freeArguments, hparameters, List.length_nil, List.drop_zero]
  rw [Equation.callable_eq, Equation.callBranch, hexternals, hbranch, hfree, hparameters]
  simp only [List.length_nil, ne_eq, not_true_eq_false, if_false, Equation.lookup_entry,
    List.zip_nil_left, List.nil_append, List.map_nil]

/-- In a scope of its own a definition has the value that it has where it stands. -/
theorem callable_agree (hexternals : equation.externals = [])
    (hparameters : equation.parameters = []) (hbranch : equation.branches[branch]? = some tree)
    (harithmetic : tree.isArithmetic = true)
    (huses : ∀ name, .var name ∈ tree.uses ↔ name ∈ equation.arguments) (xs : List (Callable α)) :
    Agree scope scope (reading fun scope => equation.callable branch [] scope)
      (tree.evaluate xs) := by
  have hcall : equation.callable branch [] scope = _ :=
    Equation.callable_of_variable hexternals hparameters hbranch
  cases hlookups : equation.arguments.mapM fun name => (scope.lookup name).map ((name, ·)) with
  | error error =>
    obtain ⟨name, hname, hfails⟩ := Equation.exists_of_mapM_error hlookups
    have hagree : Agree scope scope (tree.evaluate xs) (tree.evaluate xs) :=
      evaluate_agree tree harithmetic fun _ _ => rfl
    obtain ⟨_, r, -, hr, -⟩ := hagree
    refine ⟨equation.callable branch [] scope, r, rfl, hr, fun value => iff_of_false ?_ ?_⟩
    · rw [hcall, hlookups]
      rintro ⟨⟩
    · -- Where the definition has a value, all its names have one.
      rintro rfl
      obtain ⟨found, hfound⟩ := has_of_evaluate tree harithmetic hr name ((huses name).2 hname)
      rw [hfound] at hfails
      cases hfails
  | ok entries =>
    have hagree : Agree entries.reverse scope (tree.evaluate []) (tree.evaluate xs) :=
      evaluate_agree tree harithmetic fun name hname =>
        lookup_of_lookups hlookups ((huses name).1 hname)
    obtain ⟨r, r', hr, hr', hiff⟩ := hagree
    refine ⟨equation.callable branch [] scope, r', rfl, hr', fun value => ?_⟩
    have hvalue : equation.callable branch [] scope = (tree.evaluate [] entries.reverse).1 := by
      rw [hcall, hlookups]
      rfl
    rw [hvalue, hr]
    exact hiff value

end Value

end Formulary
