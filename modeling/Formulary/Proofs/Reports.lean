import Mathlib.Data.List.Perm.Basic
import Formulary.Proofs.Arity
import Formulary.Proofs.Operands

/-!
# Reports of approximations

Whatever a node list compiles to, each integral and each derivative that is written anywhere on its
right side is reported once, however many branches there are, and nothing else is. Reports come in
the order of the nodes, but a derivative is reported behind its arguments.
-/

namespace Formulary

/-! ## What is approximated -/

namespace Node

mutual

/-- The integrals and the nodes with a prime in a node, itself and limits included. -/
def approximations : Node → List Node
  | literal _ | var _ | atom _ => []
  | power base exponent => base.approximations ++ exponent.approximations
  | angle base => base.approximations
  | prime base => prime base :: base.approximations
  | fraction numerator denominator =>
      approximationsAll numerator ++ approximationsAll denominator
  | root body | group body => approximationsAll body
  | named name lower upper =>
      (if name = .integral then [named name lower upper] else []) ++
        (approximationsLimit lower ++ approximationsLimit upper)

def approximationsAll : List Node → List Node
  | [] => []
  | node :: rest => node.approximations ++ approximationsAll rest

def approximationsLimit : Option (List Node) → List Node
  | none => []
  | some nodes => approximationsAll nodes

end

@[simp] theorem approximationsAll_nil : approximationsAll [] = [] := rfl

@[simp] theorem approximationsAll_cons (node : Node) (rest : List Node) :
    approximationsAll (node :: rest) = node.approximations ++ approximationsAll rest := rfl

@[simp] theorem approximationsAll_append (first second : List Node) :
    approximationsAll (first ++ second) = approximationsAll first ++ approximationsAll second := by
  induction first with
  | nil => rfl
  | cons node rest ih => simp [ih]

/-- Whatever has a mark is an atom. -/
theorem approximations_of_mark {node : Node} {mark : Mark} (h : node.mark? = some mark) :
    node.approximations = [] := by
  cases node with
  | atom symbol => rfl
  | _ => cases h

theorem approximationsAll_simple {base : Node} (h : Walk.simple base ≠ []) :
    approximationsAll (Walk.simple base) = base.approximations := by
  rcases Walk.simple_eq_or_group h with hself | hgroup
  · rw [hself]
    exact List.append_nil _
  · conv => rhs; rw [hgroup, approximations]

/-! ### Limits are numbers or names -/

theorem approximationsAll_of_piecesText {nodes : List Node} {text : String}
    (h : piecesText? nodes = some text) : approximationsAll nodes = [] := by
  induction nodes generalizing text with
  | nil => rfl
  | cons node rest ih =>
    cases node with
    | literal piece =>
      rw [piecesText?] at h
      split at h
      · cases h
      · obtain ⟨behind, hbehind, -⟩ := Option.map_eq_some_iff.1 h
        exact ih hbehind
    | _ => cases h

theorem approximationsAll_of_unsignedText {nodes : List Node} {text : String}
    (h : unsignedText? nodes = some text) : approximationsAll nodes = [] := by
  rw [unsignedText?] at h
  split at h
  · cases h
  · exact approximationsAll_of_piecesText h

theorem approximationsAll_of_signedText {nodes : List Node} {text : String}
    (h : signedText? nodes = some text) : approximationsAll nodes = [] := by
  cases nodes with
  | nil => rfl
  | cons node rest =>
    rw [signedText?] at h
    split at h
    · next hminus =>
      obtain ⟨behind, hbehind, -⟩ := Option.map_eq_some_iff.1 h
      rw [approximationsAll_cons, approximations_of_mark (beq_iff_eq.1 hminus),
        approximationsAll_of_unsignedText hbehind, List.append_nil]
    · exact approximationsAll_of_unsignedText h

theorem approximationsAll_of_bound {nodes : List Node} {bound : Bound Float}
    (h : bound? nodes = some bound) : approximationsAll nodes = [] := by
  rw [← apply_ungrouped approximationsAll (fun _ => List.append_nil _)]
  unfold bound? at h
  split at h
  · next hname =>
    rw [hname]
    rfl
  · obtain ⟨text, htext, -⟩ := Option.bind_eq_some_iff.1 h
    exact approximationsAll_of_signedText htext

theorem approximationsAll_of_fixed {nodes : List Node} {value : Decimal.Fixed}
    (h : fixed? nodes = some value) : approximationsAll nodes = [] := by
  obtain ⟨text, htext, -⟩ := Option.bind_eq_some_iff.1 h
  rw [← apply_ungrouped approximationsAll (fun _ => List.append_nil _)]
  exact approximationsAll_of_signedText htext

end Node

open Node (approximationsAll approximationsLimit)

theorem SumRange.approximations_of_limits {lower upper : Option (List Node)} {range : SumRange}
    (h : SumRange.ofLimits lower upper = .ok range) :
    approximationsLimit lower = [] ∧ approximationsLimit upper = [] := by
  unfold ofLimits at h
  split at h
  · next index equality first =>
    split at h
    · next hequality =>
      split at h
      · next hfirst hupper =>
        obtain ⟨nodes, rfl, hnodes⟩ := Option.bind_eq_some_iff.1 hupper
        simp [approximationsLimit, Node.approximations,
          Node.approximations_of_mark (beq_iff_eq.1 hequality),
          Node.approximationsAll_of_bound hfirst, Node.approximationsAll_of_bound hnodes]
      · cases h
      · cases h
    · cases h
  · cases h

theorem Partition.approximations_of_limits {partitions : Nat} {lower upper : Option (List Node)}
    {partition : Partition} (h : Partition.ofLimits partitions lower upper = .ok partition) :
    approximationsLimit lower = [] ∧ approximationsLimit upper = [] := by
  unfold ofLimits at h
  split at h
  · next hlower hupper =>
    obtain ⟨first, rfl, hfirst⟩ := Option.bind_eq_some_iff.1 hlower
    obtain ⟨last, rfl, hlast⟩ := Option.bind_eq_some_iff.1 hupper
    simp [approximationsLimit, Node.approximationsAll_of_fixed hfirst,
      Node.approximationsAll_of_fixed hlast]
  · cases h

/-! ## The order of the reports -/

/-- An integral or a derivative, and the nodes behind it that it takes. -/
structure Approximated where
  node : Node
  taken : List Node

def Approximated.warning (config : Config) (a : Approximated) : Warning where
  subject := Node.textAll (a.node :: a.taken)
  approximation :=
    match a.node with
    | .prime _ => .forwardDifference config.step
    | _ => .riemannSum config.partitions

/-- What is approximated among siblings, in the order of the reports. An operand is reported apart
from the nodes behind it. -/
inductive Reported : List Node → List Approximated → Prop
  | nil : Reported [] []
  | piece {text : String} {rest : List Node} {rs : List Approximated} :
      text ≠ Node.bar → Reported rest rs → Reported (.literal text :: rest) rs
  | name {name : String} {rest : List Node} {rs : List Approximated} :
      Reported rest rs → Reported (.var name :: rest) rs
  | atom {symbol : String} {rest : List Node} {rs : List Approximated} :
      Reported rest rs → Reported (.atom symbol :: rest) rs
  | application {name : String} {nodes rest : List Node} {rs rs' : List Approximated} :
      (Operand.following false (.var name :: nodes)).isParenthesized = true →
      nodes = (Operand.following false (.var name :: nodes)).nodes ++ rest →
      Reported (Operand.following false (.var name :: nodes)).inner rs → Reported rest rs' →
      Reported (.var name :: nodes) (rs ++ rs')
  /-- A derivative comes behind its arguments. -/
  | derivative {base : Node} {nodes rest : List Node} {rs rs' : List Approximated} :
      (Operand.following false (.prime base :: nodes)).isParenthesized = true →
      nodes = (Operand.following false (.prime base :: nodes)).nodes ++ rest →
      Reported (Operand.following false (.prime base :: nodes)).inner rs → Reported rest rs' →
      Reported (.prime base :: nodes) (rs ++
        ⟨.prime base, (Operand.following false (.prime base :: nodes)).nodes⟩ :: rs')
  | bars {nodes rest : List Node} {rs rs' : List Approximated} :
      nodes = (Operand.absolute (.literal Node.bar :: nodes)).nodes ++ .literal Node.bar :: rest →
      Reported (Operand.absolute (.literal Node.bar :: nodes)).nodes rs → Reported rest rs' →
      Reported (.literal Node.bar :: nodes) (rs ++ rs')
  | power {base exponent : Node} {rest : List Node} {rs rs' rs'' : List Approximated} :
      Reported [base] rs → Reported [exponent] rs' → Reported rest rs'' →
      Reported (.power base exponent :: rest) (rs ++ rs' ++ rs'')
  | angle {base : Node} {rest : List Node} {rs rs' : List Approximated} :
      Reported [base] rs → Reported rest rs' → Reported (.angle base :: rest) (rs ++ rs')
  | fraction {numerator denominator rest : List Node} {rs rs' rs'' : List Approximated} :
      Reported numerator rs → Reported denominator rs' → Reported rest rs'' →
      Reported (.fraction numerator denominator :: rest) (rs ++ rs' ++ rs'')
  | root {body rest : List Node} {rs rs' : List Approximated} :
      Reported body rs → Reported rest rs' → Reported (.root body :: rest) (rs ++ rs')
  | group {body rest : List Node} {rs rs' : List Approximated} :
      Reported body rs → Reported rest rs' → Reported (.group body :: rest) (rs ++ rs')
  | operator {name : OperatorName} {lower upper : Option (List Node)} {nodes rest : List Node}
      {rs rs' : List Approximated} :
      name ≠ .integral →
      nodes = (Operand.following false (.named name lower upper :: nodes)).nodes ++ rest →
      Reported (Operand.following false (.named name lower upper :: nodes)).nodes rs →
      Reported rest rs' → Reported (.named name lower upper :: nodes) (rs ++ rs')
  /-- An integral comes before its operand. -/
  | integral {lower upper : Option (List Node)} {nodes rest : List Node}
      {rs rs' : List Approximated} :
      nodes = (Operand.following true (.named .integral lower upper :: nodes)).nodes ++
        (Operand.following true (.named .integral lower upper :: nodes)).marker ++ rest →
      Reported (Operand.following true (.named .integral lower upper :: nodes)).nodes rs →
      Reported rest rs' →
      Reported (.named .integral lower upper :: nodes)
        (⟨.named .integral lower upper,
          (Operand.following true (.named .integral lower upper :: nodes)).nodes ++
            (Operand.following true (.named .integral lower upper :: nodes)).marker⟩ :: (rs ++ rs'))

theorem Reported.of_simple {base : Node} {rs : List Approximated} (hbase : Walk.simple base ≠ [])
    (h : Reported (Walk.simple base) rs) : Reported [base] rs := by
  rcases Walk.simple_eq_or_group hbase with hself | hgroup
  · rwa [hself] at h
  · rw [hgroup, ← List.append_nil rs]
    exact .group h .nil

/-! ## What a walk reports -/

namespace Emission

@[simp] theorem warnings_nil : warnings [] = [] := rfl

@[simp] theorem warnings_visit (depth : Nat) (node : Node) (es : List Emission) :
    warnings (.visit depth node :: es) = warnings es := rfl

@[simp] theorem warnings_instruction (i : Instruction) (es : List Emission) :
    warnings (.instruction i :: es) = warnings es := rfl

@[simp] theorem warnings_warning (w : Warning) (es : List Emission) :
    warnings (.warning w :: es) = w :: warnings es := rfl

@[simp] theorem warnings_joint (previous : Option Node) (node : Node) :
    warnings (Walk.joint previous node) = [] := by
  unfold Walk.joint
  split <;> rfl

@[simp] theorem warnings_pairing (d : Declared) (equation : Equation Float)
    (make : Nat → Nat → Fragment) : warnings (Walk.pairing d equation make) = [] := rfl

@[simp] theorem warnings_between (opening : Fragment) (es : List Emission) :
    warnings (Walk.between opening es) = warnings es := by
  simp [Walk.between]

end Emission

/-- The warnings are the reports, one for each approximation in the nodes. -/
structure Account (config : Config) (nodes : List Node) (rs : List Approximated)
    (ws : List Warning) : Prop where
  warnings : ws = rs.map (·.warning config)
  complete : (rs.map (·.node)).Perm (approximationsAll nodes)

namespace Account

variable {config : Config} {nodes nodes' : List Node} {rs rs' : List Approximated}
  {ws ws' : List Warning}

theorem silent (h : approximationsAll nodes = []) : Account config nodes [] [] :=
  ⟨rfl, by rw [h, List.map_nil]⟩

theorem append (h : Account config nodes rs ws) (h' : Account config nodes' rs' ws') :
    Account config (nodes ++ nodes') (rs ++ rs') (ws ++ ws') := by
  refine ⟨by rw [h.warnings, h'.warnings, List.map_append], ?_⟩
  rw [List.map_append, Node.approximationsAll_append]
  exact h.complete.append h'.complete

/-- Only what is approximated in the nodes counts. -/
theorem of_eq (h : Account config nodes rs ws)
    (hnodes : approximationsAll nodes' = approximationsAll nodes) :
    Account config nodes' rs ws :=
  ⟨h.warnings, hnodes ▸ h.complete⟩

end Account

/-- Between the parentheses of an operand stands all of it. -/
theorem Node.approximationsAll_anchored {anchor : Node} {rest : List Node}
    (h : (Operand.following false (anchor :: rest)).isParenthesized = true) :
    approximationsAll (rest.take (Operand.following false (anchor :: rest)).consumed) =
      approximationsAll (Operand.following false (anchor :: rest)).inner := by
  obtain ⟨opening, closing, hopening, hclosing, hnodes⟩ := Operand.nodes_of_isParenthesized h
  rw [Operand.take_unmarked, hnodes]
  simp [Node.approximations_of_mark (beq_iff_eq.1 hopening),
    Node.approximations_of_mark (beq_iff_eq.1 hclosing)]

theorem Node.approximationsAll_marker (o : Operand) : approximationsAll o.marker = [] := by
  unfold Operand.marker
  split <;> rfl

/-- What the reports of a stretch are, those of one node followed by those of the nodes behind its
own. -/
def Stretch.Reports (config : Config) (ws : List Warning) : Stretch → Prop
  | siblings _ nodes => ∃ rs, Reported nodes rs ∧ Account config nodes rs ws
  | single node rest consumed => ∃ rs, Account config (node :: rest.take consumed) rs ws ∧
      ∀ rs', Reported (rest.drop consumed) rs' → Reported (node :: rest) (rs ++ rs')

open Emission (warnings) in
theorem Visits.reports {s : Session} {depth : Nat} {stretch : Stretch} {d d' : Declared}
    {es : List Emission} (h : Visits s depth stretch d es d') :
    stretch.Reports s.config (warnings es) := by
  induction h with
  | nil => exact ⟨[], .nil, .silent rfl⟩
  | @cons _ consumed _ node rest _ _ _ _ _ _ _ ihnode ihrest =>
    obtain ⟨rs, haccount, hbehind⟩ := ihnode
    obtain ⟨rs', hreported, haccount'⟩ := ihrest
    refine ⟨rs ++ rs', hbehind rs' hreported, ?_⟩
    simpa [← List.append_assoc] using haccount.append haccount'
  | bars hclosed _ _ ih =>
    obtain ⟨rs, hreported, haccount⟩ := ih
    refine ⟨rs, ?_, fun _ hrest => .bars (Operand.split_absolute hclosed) hreported hrest⟩
    rw [Emission.warnings_between]
    refine haccount.of_eq ?_
    simp [Operand.take_absolute hclosed, Node.approximations]
  | piece htext => exact ⟨[], .silent rfl, fun _ hrest => .piece htext hrest⟩
  | name => exact ⟨[], .silent rfl, fun _ hrest => .name hrest⟩
  | reference => exact ⟨[], .silent rfl, fun _ hrest => .name hrest⟩
  | application _ _ _ hparens _ _ ih =>
    obtain ⟨rs, hreported, haccount⟩ := ih
    refine ⟨rs, ?_, fun _ hrest =>
      .application hparens (Operand.split_unmarked _ _) hreported hrest⟩
    simp only [Emission.warnings_append, Emission.warnings_pairing, Emission.warnings_instruction,
      Emission.warnings_nil, List.nil_append, List.append_nil]
    exact haccount.of_eq (Node.approximationsAll_anchored hparens)
  | atom => exact ⟨[], .silent rfl, fun _ hrest => .atom hrest⟩
  | power hbase hexponent _ _ ihbase ihexponent =>
    obtain ⟨rs, hreported, haccount⟩ := ihbase
    obtain ⟨rs', hreported', haccount'⟩ := ihexponent
    refine ⟨rs ++ rs', ?_, fun _ hrest => .power (.of_simple hbase hreported)
      (.of_simple hexponent hreported') hrest⟩
    rw [Emission.warnings_between, Emission.warnings_append, Emission.warnings_instruction]
    refine (haccount.append haccount').of_eq ?_
    simp [Node.approximations, Node.approximationsAll_simple hbase,
      Node.approximationsAll_simple hexponent]
  | angle hbase _ ih =>
    obtain ⟨rs, hreported, haccount⟩ := ih
    refine ⟨rs, haccount.of_eq ?_, fun _ hrest => .angle (.of_simple hbase hreported) hrest⟩
    simp [Node.approximations, Node.approximationsAll_simple hbase]
  | @derivative _ name rest _ _ _ _ _ hparens _ _ ih =>
    obtain ⟨rs, hreported, haccount⟩ := ih
    refine ⟨rs ++ [⟨.prime (.var name), (Operand.following false
      (.prime (.var name) :: rest)).nodes⟩], ⟨?_, ?_⟩, fun _ hrest => ?_⟩
    · rw [Emission.warnings_append, Emission.warnings_append, Emission.warnings_pairing,
        haccount.warnings, List.take_succ_cons, Operand.take_unmarked, List.map_append]
      rfl
    · -- The prime comes first among the nodes and last among the reports.
      rw [List.map_append, Node.approximationsAll_cons, Node.approximationsAll_anchored hparens]
      exact List.perm_append_comm.trans (haccount.complete.cons _)
    · rw [List.append_assoc, List.singleton_append]
      exact .derivative hparens (Operand.split_unmarked _ _) hreported hrest
  | fraction _ _ _ _ ihnumerator ihdenominator =>
    obtain ⟨rs, hreported, haccount⟩ := ihnumerator
    obtain ⟨rs', hreported', haccount'⟩ := ihdenominator
    refine ⟨rs ++ rs', ?_, fun _ hrest => .fraction hreported hreported' hrest⟩
    simp only [Emission.warnings_between, Emission.warnings_append, Emission.warnings_instruction]
    refine (haccount.append haccount').of_eq ?_
    simp [Node.approximations]
  | root _ _ ih =>
    obtain ⟨rs, hreported, haccount⟩ := ih
    refine ⟨rs, ?_, fun _ hrest => .root hreported hrest⟩
    rw [Emission.warnings_between]
    exact haccount.of_eq (List.append_nil _)
  | group _ ih =>
    obtain ⟨rs, hreported, haccount⟩ := ih
    exact ⟨rs, haccount.of_eq (List.append_nil _), fun _ hrest => .group hreported hrest⟩
  | sum hrange _ _ ih =>
    obtain ⟨rs, hreported, haccount⟩ := ih
    refine ⟨rs, ?_, fun _ hrest =>
      .operator (by decide) (Operand.split_unmarked _ _) hreported hrest⟩
    obtain ⟨hlower, hupper⟩ := SumRange.approximations_of_limits hrange
    rw [Emission.warnings_between, Operand.take_unmarked]
    refine haccount.of_eq ?_
    simp [Node.approximations, hlower, hupper]
  | @integral _ lower upper rest _ _ _ _ _ hpartition _ _ _ ih =>
    obtain ⟨rs, hreported, haccount⟩ := ih
    refine ⟨⟨.named .integral lower upper, (Operand.following true
      (.named .integral lower upper :: rest)).nodes ++ (Operand.following true
      (.named .integral lower upper :: rest)).marker⟩ :: rs, ⟨?_, ?_⟩, fun _ hrest => ?_⟩
    · rw [Emission.warnings_warning, Emission.warnings_between, haccount.warnings,
        List.take_succ_cons, Operand.take_following]
      rfl
    · obtain ⟨hlower, hupper⟩ := Partition.approximations_of_limits hpartition
      rw [Operand.take_following]
      simpa [Node.approximations, hlower, hupper, Node.approximationsAll_marker] using
        haccount.complete
    · exact .integral (Operand.split_following _ _ _) hreported hrest
  | @turned _ operator _ _ _ _ _ hturning _ _ ih =>
    obtain ⟨rs, hreported, haccount⟩ := ih
    have hoperator : operator ≠ .integral := by
      rintro rfl
      cases hturning
    refine ⟨rs, ?_, fun _ hrest =>
      .operator hoperator (Operand.split_unmarked _ _) hreported hrest⟩
    rw [Emission.warnings_between, Operand.take_unmarked]
    refine haccount.of_eq ?_
    simp [Node.approximations, approximationsLimit, hoperator]

namespace Session

/-- Whatever compiles has the warnings of its approximations and no other: one for each integral and
each derivative anywhere on its right side, an integral before those of its operand, a derivative
behind those of its arguments, and all others as they are written. -/
theorem approximations_are_reported {s : Session} {nodes : List Node} {equation : Equation Float}
    (h : (s.compile nodes).outcome = .ok equation) :
    ∃ reported, Reported (Node.rightSide nodes) reported ∧
      (s.compile nodes).warnings = reported.map (·.warning s.config) ∧
      (reported.map (·.node)).Perm (approximationsAll (Node.rightSide nodes)) := by
  obtain ⟨binding, right, es, d, branches, hsides, hvisits, -, -⟩ := compile_outcome_eq_ok_iff.1 h
  obtain rfl := eq_rightSide_of_splitSides hsides
  obtain ⟨reported, horder, haccount⟩ := hvisits.reports
  have hwarnings : (s.compile nodes).warnings = Emission.warnings es := by
    rw [Compilation.warnings, emissions_compile_of_ok h, assemble_of_visits hsides hvisits,
      Emission.warnings_append]
    exact List.append_nil _
  exact ⟨reported, horder, hwarnings.trans haccount.warnings, haccount.complete⟩

/-- The inner derivative of `f'(f'(a))` is reported first. -/
theorem approximations_of_nested_derivatives : ∃ (s : Session) (nodes : List Node)
    (equation : Equation Float), (s.compile nodes).outcome = .ok equation ∧
    (s.compile nodes).warnings.map (·.subject) = ["f' ( a )", "f' ( f' ( a ) )"] ∧
    ∃ reported, Reported (Node.rightSide nodes) reported ∧
      (s.compile nodes).warnings = reported.map (·.warning s.config) ∧
      (reported.map (·.node)).Perm (approximationsAll (Node.rightSide nodes)) := by
  have hvisits : Visits ((fresh {}).register
      ⟨some ⟨"f", .function, ["x"]⟩, ["x"], [], [.var "x"], []⟩) 0
      (.siblings none [.prime (.var "f"), .atom "(", .prime (.var "f"), .atom "(", .var "a",
        .atom ")", .atom ")"]) (declaredBy none) _ _ :=
    .cons (.derivative rfl rfl rfl (.cons (.derivative rfl rfl rfl
      (.cons (.name (.inr rfl)) .nil)) .nil)) .nil
  have ha := Expression.IsSum.product (.signed (.operand (.var "a")))
  have hinner := Expression.IsSum.product (.signed (.operand
    (.derivative 0 0 ({} : Config).step (.some (.last ha)))))
  have hread : readBranches [.pair 0 1, .appendPaired 0 (.derivative 0 · ({} : Config).step),
      .pair 0 1, .appendPaired 0 (.derivative 0 · ({} : Config).step), .append (.var "a"),
      .append .close, .append .close] =
      .ok [.derivative 0 0 ({} : Config).step [.derivative 0 0 ({} : Config).step [.var "a"]]] :=
    readBranches_single rfl (Expression.parse_eq_ok_iff.2
      (.product (.signed (.operand (.derivative 0 0 _ (.some (.last hinner)))))))
  have hcompile := compile_outcome_eq_ok_iff.2
    ⟨none, _, _, _, _, splitSides_eq_none (by decide), hvisits, hread, rfl⟩
  refine ⟨_, _, _, hcompile, ?_, approximations_are_reported hcompile⟩
  rw [Compilation.warnings, emissions_compile_of_ok hcompile,
    assemble_of_visits (splitSides_eq_none (by decide)) hvisits]
  decide

end Session

end Formulary
