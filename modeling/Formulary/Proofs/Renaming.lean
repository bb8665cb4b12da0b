import Mathlib.Logic.Equiv.Basic
import Formulary.Proofs.Arity
import Formulary.Proofs.Inertness
import Formulary.Proofs.Paraphrase.Compilation
import Formulary.Proofs.Paraphrase.Evaluation

/-!
# Names are opaque

Whole sessions go the same way under other names: all equations compile as they did, to the same
equations under the new names, and calls of these have the same values. Only the `d` of a
differential is a name with a meaning.
-/

namespace Formulary

variable {f : String → String}

namespace Node

mutual

/-- The node with all its variables renamed. -/
def rename (f : String → String) : Node → Node
  | literal text => literal text
  | var name => var (f name)
  | atom symbol => atom symbol
  | power base exponent => power (base.rename f) (exponent.rename f)
  | angle base => angle (base.rename f)
  | prime base => prime (base.rename f)
  | fraction numerator denominator => fraction (renameAll f numerator) (renameAll f denominator)
  | root body => root (renameAll f body)
  | group body => group (renameAll f body)
  | named operator lower upper => named operator (renameLimit f lower) (renameLimit f upper)

def renameAll (f : String → String) : List Node → List Node
  | [] => []
  | node :: rest => node.rename f :: renameAll f rest

def renameLimit (f : String → String) : Option (List Node) → Option (List Node)
  | none => none
  | some nodes => some (renameAll f nodes)

end

end Node

namespace Paraphrase

mutual

theorem relates_rename (hf : Function.Injective f) (hd : f "d" = "d") :
    (node : Node) → (otherNames hf hd).Relates node (node.rename f)
  | .literal text => .literal text
  | .var name => .var name
  | .atom _ => .atom rfl
  | .power base exponent => .power (relates_rename hf hd base) (relates_rename hf hd exponent)
  | .angle base => .angle (relates_rename hf hd base)
  | .prime base => .prime (relates_rename hf hd base)
  | .fraction numerator denominator =>
    .fraction (relatesAll_rename hf hd numerator) (relatesAll_rename hf hd denominator)
  | .root body => .root (relatesAll_rename hf hd body)
  | .group body => .group (relatesAll_rename hf hd body)
  | .named operator lower upper =>
    .named operator (relatesLimit_rename hf hd lower) (relatesLimit_rename hf hd upper)

theorem relatesAll_rename (hf : Function.Injective f) (hd : f "d" = "d") :
    (nodes : List Node) → (otherNames hf hd).RelatesAll nodes (Node.renameAll f nodes)
  | [] => .nil
  | node :: rest => .cons (relates_rename hf hd node) (relatesAll_rename hf hd rest)

theorem relatesLimit_rename (hf : Function.Injective f) (hd : f "d" = "d") :
    (limit : Option (List Node)) → (otherNames hf hd).RelatesLimit limit (Node.renameLimit f limit)
  | none => .none
  | some nodes => .some (relatesAll_rename hf hd nodes)

end

/-- Node lists in other words, compiled one after another. -/
theorem history_related {p : Paraphrase} {equations equations' : List (List Node)}
    (h : List.Forall₂ p.RelatesAll equations equations') (s : Session) :
    List.Forall₂ (Compilation.SameUnder p.name) (s.history equations)
      ((s.rename p.name).history equations') := by
  induction h generalizing s with
  | nil => exact .nil
  | cons hnodes _ ih =>
    have hcompile := compile_related s hnodes
    rw [Session.history, Session.history, hcompile.session]
    exact .cons hcompile (ih _)

end Paraphrase

/-- The second compilation gives what the first gives, under other names, and so do calls of what
they give. -/
structure Compilation.Renames (f : String → String) (c c' : Compilation (Equation Float)) :
    Prop where
  answer : c'.answer = c.answer.map (Equation.rename f)
  branchValues : ∀ e e', c.outcome = .ok e → c'.outcome = .ok e' → ∀ values,
    e'.branchValues values = (e.branchValues values).mapError (CallError.rename f)
  call : ∀ e e', c.outcome = .ok e → c'.outcome = .ok e' → ∀ values,
    e'.call values = (e.call values).mapError (CallError.rename f)

theorem Compilation.SameUnder.renames (hf : Function.Injective f)
    {c c' : Compilation (Equation Float)} (h : c.SameUnder f c') : c.Renames f c' := by
  have hequation : ∀ e e', c.outcome = .ok e → c'.outcome = .ok e' → e' = e.rename f := by
    intro e e' he he'
    have houtcome := h.outcome
    rw [he, he'] at houtcome
    cases houtcome
    rfl
  refine ⟨h.answer, ?_, ?_⟩
  · intro e e' he he' values
    rw [hequation e e' he he', Equation.branchValues_rename hf]
  · intro e e' he he' values
    rw [hequation e e' he he', Equation.call_rename hf]

namespace Session

theorem rename_fresh (f : String → String) (config : Config) :
    (fresh config).rename f = fresh (config.rename f) := by
  simp [fresh, rename]

/-- Equations compiled one after another under other names, in a session whose integrals run over
the new name of their default variable, are the same equations under the new names; calls have the
same values. -/
theorem history_renamed (hf : Function.Injective f) (hd : f "d" = "d") (config : Config)
    (equations : List (List Node)) :
    List.Forall₂ (Compilation.Renames f) ((fresh config).history equations)
      ((fresh (config.rename f)).history (equations.map (Node.renameAll f))) := by
  have hnodes : List.Forall₂ (Paraphrase.otherNames hf hd).RelatesAll equations
      (equations.map (Node.renameAll f)) := by
    rw [List.forall₂_map_right_iff, List.forall₂_same]
    exact fun nodes _ => Paraphrase.relatesAll_rename hf hd nodes
  have hhistory := Paraphrase.history_related hnodes (fresh config)
  rw [← rename_fresh]
  exact hhistory.imp fun _ _ h => h.renames hf

/-- In `f(x) = x` the two names change places. -/
theorem history_renamed_identity : ∃ e : Equation Float,
    ((fresh { differential := "f" }).compile
      [.var "x", .atom "(", .var "f", .atom ")", .atom "=", .var "f"]).outcome = .ok e ∧
    e.name? = some "x" ∧ e.arguments = ["f"] ∧ ∀ v, e.branchValues [v] = .ok [v] := by
  have hd : Equiv.swap "x" "f" "d" = "d" := by decide
  have hconfig : Config.rename (Equiv.swap "x" "f") {} = { differential := "f" } := by
    simp [Config.rename]
  have hnodes : Node.renameAll (Equiv.swap "x" "f") [.var "f", .atom "(", .var "x", .atom ")",
      .atom "=", .var "x"] = [.var "x", .atom "(", .var "f", .atom ")", .atom "=", .var "f"] := by
    simp [Node.renameAll, Node.rename]
  have hhistory := history_renamed (Equiv.swap "x" "f").injective hd {}
    [[.var "f", .atom "(", .var "x", .atom ")", .atom "=", .var "x"]]
  rw [hconfig, List.map_singleton, hnodes] at hhistory
  obtain ⟨hrenames, -⟩ := List.forall₂_cons.1 hhistory
  have hanswer := hrenames.answer
  rw [Compilation.answer, Compilation.answer, compile_identity] at hanswer
  cases houtcome : ((fresh { differential := "f" }).compile
      [.var "x", .atom "(", .var "f", .atom ")", .atom "=", .var "f"]).outcome with
  | error error =>
    rw [houtcome] at hanswer
    cases hanswer
  | ok e =>
    rw [houtcome] at hanswer
    obtain rfl : e = Equation.rename (Equiv.swap "x" "f")
      ⟨some ⟨"f", .function, ["x"]⟩, ["x"], [], [.var "x"], []⟩ := Except.ok.inj hanswer
    refine ⟨_, rfl, ?_, ?_, ?_⟩
    · rw [Equation.name?_rename]
      simp [Equation.name?]
    · simp
    · intro v
      rw [hrenames.branchValues _ _ compile_identity houtcome [v]]
      rfl

end Session

end Formulary
