import Mathlib.Logic.Relation
import Formulary.Proofs.Externals

/-!
# Histories of sessions

Every equation of a session has been compiled in an earlier one, and refers to equations of that
one. So a property that an equation has whenever its externals have it, all equations have.
-/

namespace Formulary

/-- The externals of an equation, their externals, and so on. -/
def Equation.Reaches {α : Type} : Equation α → Equation α → Prop :=
  Relation.ReflTransGen fun e x => x ∈ e.externals

/-- The nodes right of the first equality, or all nodes. -/
def Node.rightSide (nodes : List Node) : List Node :=
  match nodes.findIdx? isEquality with
  | some i => nodes.drop (i + 1)
  | none => nodes

namespace Session

theorem eq_rightSide_of_splitSides {nodes right : List Node} {binding : Option Binding}
    (h : splitSides nodes = .ok (binding, right)) : right = Node.rightSide nodes := by
  unfold splitSides at h
  unfold Node.rightSide
  cases hequality : nodes.findIdx? Node.isEquality with
  | none =>
    simp only [hequality, Except.ok.injEq, Prod.mk.injEq] at h
    exact h.2.symm
  | some i =>
    simp only [hequality] at h
    cases hbinding : Binding.ofNodes (nodes.take i) with
    | error e => simp [hbinding, Except.map] at h
    | ok b =>
      have hright : nodes.drop (i + 1) = right := by
        simp [hbinding, Except.map] at h
        exact h.2
      exact hright.symm

/-- The sessions that compiling node lists of one kind leads to. -/
inductive ReachableBy (p : List Node → Prop) : Session → Prop
  | fresh (config : Config) : ReachableBy p (fresh config)
  | compile {s : Session} {nodes : List Node} :
      p nodes → ReachableBy p s → ReachableBy p (s.compile nodes).session

variable {p : List Node → Prop} {s : Session}

theorem Reachable.reachableBy (h : s.Reachable) : s.ReachableBy fun _ => True := by
  induction h with
  | fresh config => exact .fresh config
  | compile nodes _ ih => exact .compile trivial ih

theorem ReachableBy.reachable (h : s.ReachableBy p) : s.Reachable := by
  induction h with
  | fresh config => exact .fresh config
  | compile _ _ ih => exact .compile _ ih

theorem mem_of_resolve {name : String} {e : Equation Float} (h : s.resolve name = some e) :
    e ∈ s.equations.toList := by
  obtain ⟨key, -, he⟩ := Option.bind_eq_some_iff.1 h
  rw [Registry.get?_eq_getElem?] at he
  exact List.mem_of_getElem? he

/-- An equation refers to equations of the session it is compiled in. -/
theorem mem_of_mem_externals (hs : s.Reachable) {nodes : List Node} {e x : Equation Float}
    (h : (s.compile nodes).outcome = .ok e) (hx : x ∈ e.externals) : x ∈ s.equations.toList := by
  obtain ⟨binding, right, es, d, branches, -, hvisits, -, rfl⟩ := compile_outcome_eq_ok_iff.1 h
  obtain ⟨name, -, hresolve⟩ :=
    hvisits.resolved hs.namesBind (resolved_declaredBy s binding) x hx
  exact mem_of_resolve hresolve

/-- What holds of an equation whenever it holds of those compiled before it holds of all. -/
theorem ReachableBy.forall_equations {P : Equation Float → Prop} (h : s.ReachableBy p)
    (hP : ∀ (s : Session) (nodes : List Node) (e : Equation Float), s.ReachableBy p → p nodes →
      (s.compile nodes).outcome = .ok e → (∀ x ∈ e.externals, P x) → P e) :
    ∀ e ∈ s.equations.toList, P e := by
  induction h with
  | fresh config =>
    intro e he
    cases he
  | @compile s nodes hnodes hs ih =>
    cases houtcome : (s.compile nodes).outcome with
    | error error =>
      rw [session_compile_of_error houtcome]
      exact ih
    | ok equation =>
      rw [session_compile_of_ok houtcome, toList_register]
      refine List.forall_mem_append.2 ⟨ih, List.forall_mem_singleton.2 ?_⟩
      exact hP s nodes equation hs hnodes houtcome fun x hx =>
        ih x (mem_of_mem_externals hs.reachable houtcome hx)

/-- A property that every compiled equation has, all equations have that one of them reaches. -/
theorem ReachableBy.forall_reached {P : Equation Float → Prop} (h : s.ReachableBy p)
    (hP : ∀ (s : Session) (nodes : List Node) (e : Equation Float), s.ReachableBy p → p nodes →
      (s.compile nodes).outcome = .ok e → P e) :
    ∀ e ∈ s.equations.toList, ∀ x, e.Reaches x → P x := by
  apply h.forall_equations (P := fun e => ∀ x, e.Reaches x → P x)
  intro s nodes e hs hnodes houtcome hexternals x hreaches
  rcases Relation.ReflTransGen.cases_head hreaches with rfl | ⟨y, hy, hreaches⟩
  · exact hP s nodes e hs hnodes houtcome
  · exact hexternals y hy x hreaches

end Session

end Formulary
