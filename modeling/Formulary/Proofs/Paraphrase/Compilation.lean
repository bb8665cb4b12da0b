import Formulary.Proofs.Paraphrase.Walk
import Formulary.Proofs.Readings

/-!
# Compiling nodes in other words

An equation in other words is refused for the same kind of cause, or compiles to the same equation
under its names. The session it leaves is the other one under its names.
-/

namespace Formulary

/-- Both are refused for the same kind of cause, or the second gives the image of the first. -/
inductive SameAnswer {β γ : Type} (g : β → γ) :
    Except CompileError β → Except CompileError γ → Prop
  | refused {e e' : CompileError} : e'.kind = e.kind → SameAnswer g (.error e) (.error e')
  | given (b : β) : SameAnswer g (.ok b) (.ok (g b))

/-! ## Trees under other names -/

theorem Fragment.rename_leftInverse {f g : String → String} (h : Function.LeftInverse g f)
    (fragment : Fragment) : (fragment.rename f).rename g = fragment := by
  have hbound : ∀ b : Bound Float, (b.rename f).rename g = b := by
    intro b
    cases b with
    | number value => rfl
    | var name => exact congrArg Bound.var (h name)
  cases fragment <;> simp [rename, h _, hbound]

namespace Expression

variable (f : String → String)

mutual

theorem IsSum.rename {code : List Fragment} {e : Expression Float} :
    IsSum code e → IsSum (code.map (Fragment.rename f)) (e.rename f)
  | .product h => .product h.rename
  | .more h ho hright => by
    rw [List.map_append]
    exact .more h.rename ho hright.rename

theorem IsProduct.rename {code : List Fragment} {e : Expression Float} :
    IsProduct code e → IsProduct (code.map (Fragment.rename f)) (e.rename f)
  | .signed h => .signed h.rename
  | .more h ho hright => by
    rw [List.map_append]
    exact .more h.rename ho hright.rename

theorem IsSigned.rename {code : List Fragment} {e : Expression Float} :
    IsSigned code e → IsSigned (code.map (Fragment.rename f)) (e.rename f)
  | .operand h => .operand h.rename
  | .plus h => .plus h.rename
  | .minus h => .minus h.rename

theorem IsOperand.rename {code : List Fragment} {e : Expression Float} :
    IsOperand code e → IsOperand (code.map (Fragment.rename f)) (e.rename f)
  | .number h => .number h
  | .var name => .var (f name)
  | .parens h => by
    rw [List.map_cons, List.map_append]
    exact .parens h.rename
  | .call function h harity => .call function h.rename ((length_renameAll f _).trans harity)
  | .sum index lower upper h => by
    rw [List.map_cons, List.map_append]
    exact .sum (f index) (lower.rename f) (upper.rename f) h.rename
  | .integral name start width partitions rule h => by
    rw [List.map_cons, List.map_append]
    exact .integral (f name) start width partitions rule h.rename
  | .reference external branch => .reference external branch
  | .apply external branch h => .apply external branch h.rename
  | .derivative external branch step h => .derivative external branch step h.rename

theorem IsArguments.rename {code : List Fragment} {es : List (Expression Float)} :
    IsArguments code es → IsArguments (code.map (Fragment.rename f)) (renameAll f es)
  | .none => .none
  | .some h => .some h.rename

theorem IsListed.rename {code : List Fragment} {es : List (Expression Float)} :
    IsListed code es → IsListed (code.map (Fragment.rename f)) (renameAll f es)
  | .last h => by
    rw [List.map_append]
    exact .last h.rename
  | .more h hrest => by
    rw [List.map_append]
    exact .more h.rename hrest.rename

end

/-- Code is read under other names as it is under its own. -/
theorem parse_rename (hf : Function.Injective f) (code : List Fragment) :
    SameAnswer (rename f) (parse code) (parse (code.map (Fragment.rename f))) := by
  by_cases hsum : ∃ e, IsSum code e
  · obtain ⟨e, he⟩ := hsum
    rw [parse_eq_ok_iff.2 he, parse_eq_ok_iff.2 (he.rename f)]
    exact .given e
  · have hsum' : ¬∃ e, IsSum (code.map (Fragment.rename f)) e := by
      rintro ⟨e, he⟩
      obtain ⟨g, hg⟩ := hf.hasLeftInverse
      have hback := he.rename g
      rw [List.map_map, show Fragment.rename g ∘ Fragment.rename f = id from
        funext (Fragment.rename_leftInverse hg), List.map_id] at hback
      exact hsum ⟨_, hback⟩
    obtain ⟨flaw, hflaw⟩ := (parse_accepts_exactly_sums code).2.2 hsum
    obtain ⟨flaw', hflaw'⟩ := (parse_accepts_exactly_sums _).2.2 hsum'
    rw [hflaw, hflaw']
    exact .refused rfl

end Expression

namespace Session

variable {f : String → String} (hf : Function.Injective f)

include hf

theorem parseAll_rename (branches : List Branch) :
    SameAnswer (List.map (Expression.rename f))
      (branches.mapM fun branch => Expression.parse branch.fragments)
      ((branches.map (Branch.rename f)).mapM fun branch => Expression.parse branch.fragments) := by
  induction branches with
  | nil => exact .given []
  | cons branch branches ih =>
    have hparse := Expression.parse_rename f hf branch.fragments
    rw [← Branch.fragments_rename] at hparse
    rw [List.map_cons, List.mapM_cons, List.mapM_cons]
    generalize Expression.parse branch.fragments = tree at hparse ⊢
    generalize Expression.parse (branch.rename f).fragments = tree' at hparse ⊢
    generalize (branches.mapM fun branch => Expression.parse branch.fragments) = trees at ih ⊢
    generalize ((branches.map (Branch.rename f)).mapM fun branch =>
      Expression.parse branch.fragments) = trees' at ih ⊢
    cases hparse with
    | refused hkind => exact .refused hkind
    | given e =>
      cases ih with
      | refused hkind => exact .refused hkind
      | given es => exact .given (e :: es)

theorem readBranches_rename {is is' : List Instruction} (h : Instruction.Grows f is is') :
    SameAnswer (List.map (Expression.rename f)) (readBranches is) (readBranches is') := by
  have hrun : BranchSet.runAll {} is' = (BranchSet.runAll {} is).map (BranchSet.rename f) := h {}
  rw [readBranches, readBranches, hrun]
  cases BranchSet.runAll {} is with
  | none => exact .refused rfl
  | some set => exact parseAll_rename hf set.branches

theorem freeze_rename {es es' : List Emission}
    (h : Instruction.Grows f (Emission.instructions es) (Emission.instructions es'))
    (binding : Option Binding) (d : Declared) :
    SameAnswer (Equation.rename f) (freeze binding d es)
      (freeze (binding.map (·.rename f)) (d.rename f) es') := by
  have hread := readBranches_rename hf h
  rw [freeze, freeze]
  generalize readBranches (Emission.instructions es) = branches at hread ⊢
  generalize readBranches (Emission.instructions es') = branches' at hread ⊢
  cases hread with
  | refused hkind => exact .refused hkind
  | given branches =>
    have hequation := Equation.rename_eq f
      ⟨binding, d.symbols.arguments, d.symbols.bound, branches, d.externals⟩
    have hgiven := SameAnswer.given (g := Equation.rename f)
      ⟨binding, d.symbols.arguments, d.symbols.bound, branches, d.externals⟩
    rw [hequation] at hgiven
    exact hgiven

end Session

/-! ## Compilations -/

/-- The second compilation goes as the first, under other names. -/
structure Compilation.SameUnder (f : String → String) (c c' : Compilation (Equation Float)) :
    Prop where
  approximations : Emission.approximations c'.emissions = Emission.approximations c.emissions
  outcome : SameAnswer (Equation.rename f) c.outcome c'.outcome
  session : c'.session = c.session.rename f

/-- The equation, or the kind of cause for which there is none. -/
def Compilation.answer (c : Compilation (Equation Float)) :
    Except CompileError.Kind (Equation Float) :=
  c.outcome.mapError CompileError.kind

namespace Compilation.SameUnder

variable {f : String → String} {c c' : Compilation (Equation Float)} (h : c.SameUnder f c')

include h

theorem answer : c'.answer = c.answer.map (Equation.rename f) := by
  have houtcome := h.outcome
  rw [Compilation.answer, Compilation.answer]
  generalize c.outcome = outcome at houtcome ⊢
  generalize c'.outcome = outcome' at houtcome ⊢
  cases houtcome with
  | refused hkind => exact congrArg Except.error hkind
  | given equation => rfl

theorem length_warnings : c'.warnings.length = c.warnings.length := by
  have hlength := congrArg List.length h.approximations
  rw [Emission.approximations, Emission.approximations, List.length_map, List.length_map] at hlength
  exact hlength

end Compilation.SameUnder

namespace Paraphrase

variable {p : Paraphrase} {nodes nodes' right right' : List Node} (s : Session)

theorem walk_parallel (binding : Option Binding) (h : p.RelatesAll right right') :
    Walk.Parallel p.name Eq (s.walk binding right)
      ((s.rename p.name).walk (binding.map (·.rename p.name)) right') := by
  have hparameters : (binding.map (·.rename p.name)).elim [] (·.parameters) =
      (binding.elim [] (·.parameters)).map p.name := by
    cases binding <;> rfl
  rw [Session.walk, Session.walk, hparameters]
  exact (Walk.Parallel.addArguments p.name_injective _).bind fun _ _ _ =>
    (Walk.visitAll_parallel p s).1 0 none right none right' .none h

theorem assemble_related (h : p.RelatesAll nodes nodes') :
    Emission.approximations ((s.rename p.name).assemble nodes').1 =
        Emission.approximations (s.assemble nodes).1 ∧
      SameAnswer (Equation.rename p.name) (s.assemble nodes).2
        ((s.rename p.name).assemble nodes').2 := by
  have hsides := splitSides_related h
  rw [Session.assemble, Session.assemble]
  generalize Session.splitSides nodes = sides at hsides ⊢
  generalize Session.splitSides nodes' = sides' at hsides ⊢
  cases hsides with
  | malformed => exact ⟨rfl, .refused rfl⟩
  | @ok binding right right' hright =>
    have hempty : ({} : Declared).rename p.name = {} := rfl
    have hwalk := walk_parallel s binding hright {}
    rw [hempty] at hwalk
    simp only
    generalize s.walk binding right {} = result at hwalk ⊢
    generalize (s.rename p.name).walk (binding.map (·.rename p.name)) right' {} = result' at hwalk ⊢
    cases hwalk with
    | failed hwarned hkind => exact ⟨hwarned, .refused hkind⟩
    | @ended es es' _ _ d hwarned hgrows _ =>
      exact ⟨hwarned, Session.freeze_rename p.name_injective hgrows binding d⟩

/-- An equation in other words compiles as it does in its own. -/
theorem compile_related (h : p.RelatesAll nodes nodes') :
    (s.compile nodes).SameUnder p.name ((s.rename p.name).compile nodes') := by
  obtain ⟨hwarned, houtcome⟩ := assemble_related s h
  rw [Session.compile, Session.compile]
  generalize s.assemble nodes = assembled at hwarned houtcome ⊢
  generalize (s.rename p.name).assemble nodes' = assembled' at hwarned houtcome ⊢
  obtain ⟨es, outcome⟩ := assembled
  obtain ⟨es', outcome'⟩ := assembled'
  cases houtcome with
  | refused hkind => exact ⟨hwarned, .refused hkind, rfl⟩
  | given equation =>
    refine ⟨?_, .given equation, s.register_rename p.name_injective equation⟩
    rw [Emission.approximations_append, Emission.approximations_append, hwarned]
    rfl

end Paraphrase

end Formulary
