import Mathlib.Algebra.Order.BigOperators.Ring.List
import Formulary.Proofs.Choices
import Formulary.Proofs.Histories
import Formulary.Proofs.Operands

/-!
# How many branches an equation has

A walk visits every node of the right side once, and pairs every external once. So an equation has
two branches for each two-valued sign, times the branches of each of its externals.
-/

namespace Formulary

/-! ## Two-valued signs -/

namespace Node

mutual

/-- The two-valued signs in a node and in all that it holds, limits apart. -/
def signs : Node → Nat
  | literal _ | var _ | named _ _ _ => 0
  | atom symbol => if Mark.ofSymbol? symbol = some .plusMinus then 1 else 0
  | power base exponent => base.signs + exponent.signs
  | angle base | prime base => base.signs
  | fraction numerator denominator => signsAll numerator + signsAll denominator
  | root body | group body => signsAll body

def signsAll : List Node → Nat
  | [] => 0
  | node :: rest => node.signs + signsAll rest

end

theorem signsAll_append (first second : List Node) :
    signsAll (first ++ second) = signsAll first + signsAll second := by
  induction first with
  | nil => rw [List.nil_append, signsAll, Nat.zero_add]
  | cons node rest ih => rw [List.cons_append, signsAll, signsAll, ih, Nat.add_assoc]

theorem signsAll_take_add_drop (n : Nat) (nodes : List Node) :
    signsAll (nodes.take n) + signsAll (nodes.drop n) = signsAll nodes := by
  rw [← signsAll_append, List.take_append_drop]

theorem signs_of_mark {node : Node} {mark : Mark} (h : node.mark? = some mark)
    (hmark : mark ≠ .plusMinus) : node.signs = 0 := by
  cases node with
  | atom symbol =>
    have hnot : Mark.ofSymbol? symbol ≠ some .plusMinus := by
      rw [mark?] at h
      simpa [h] using hmark
    rw [signs, if_neg hnot]
  | _ => cases h

theorem signsAll_simple {node : Node} (h : Walk.simple node ≠ []) :
    signsAll (Walk.simple node) = node.signs := by
  rcases Walk.simple_eq_or_group h with hself | hgroup
  · rw [hself]
    rfl
  · conv => rhs; rw [hgroup, signs]

end Node

namespace Operand

/-- The parentheses around an operand are no signs. -/
theorem signsAll_inner {o : Operand} (h : o.isParenthesized = true) :
    Node.signsAll o.inner = Node.signsAll o.nodes := by
  obtain ⟨opening, closing, hopening, hclosing, hnodes⟩ := nodes_of_isParenthesized h
  have hopening' := Node.signs_of_mark (beq_iff_eq.1 hopening) (by decide)
  have hclosing' := Node.signs_of_mark (beq_iff_eq.1 hclosing) (by decide)
  rw [hnodes, Node.signsAll, Node.signsAll_append, Node.signsAll, Node.signsAll, hopening',
    hclosing', Nat.zero_add]
  rfl

theorem signsAll_take_following (marked : Bool) (anchor : Node) (rest : List Node) :
    Node.signsAll (rest.take (following marked (anchor :: rest)).consumed) =
      Node.signsAll (following marked (anchor :: rest)).nodes := by
  have hmarker : ∀ o : Operand, Node.signsAll o.marker = 0 := by
    intro o
    unfold marker
    split <;> rfl
  rw [take_following, Node.signsAll_append, hmarker, Nat.add_zero]

theorem signsAll_take_absolute {anchor : Node} {rest : List Node}
    (h : isClosed (anchor :: rest) = true) :
    Node.signsAll (rest.take (absolute (anchor :: rest)).consumed) =
      Node.signsAll (absolute (anchor :: rest)).nodes := by
  rw [take_absolute h, Node.signsAll_append]
  rfl

end Operand

/-- The two-valued signs of a stretch, those of the nodes that its first node takes included. -/
def Stretch.signs : Stretch → Nat
  | siblings _ nodes => Node.signsAll nodes
  | single node rest consumed => node.signs + Node.signsAll (rest.take consumed)

/-! ## What a walk adds to the choices -/

/-- The places that externals have been given. -/
def Declared.places (externals : List (Equation Float)) (place : Nat) : Bool :=
  place < externals.length

/-- The number of ways to take one branch of each of the equations. -/
def combinations (externals : List (Equation Float)) : Nat :=
  (externals.map Equation.branchCount).prod

theorem combinations_append (first second : List (Equation Float)) :
    combinations (first ++ second) = combinations first * combinations second := by
  rw [combinations, List.map_append, List.prod_append]
  rfl

namespace Instruction

theorem pairsFirst_append {paired : Nat → Bool} {first second : List Instruction} :
    PairsFirst paired (first ++ second) ↔
      PairsFirst paired first ∧ PairsFirst (pairedAfter paired first) second := by
  induction first generalizing paired with
  | nil => exact (and_iff_right trivial).symm
  | cons i rest ih =>
    cases i with
    | append fragment => exact ih
    | choose alternatives => exact ih
    | pair external count => exact ih
    | appendPaired external make => exact (and_congr_right' ih).trans and_assoc.symm

open Declared in
/-- Instructions that choose a number of signs, and one branch of each external that is new. -/
structure Counts (externals : List (Equation Float)) (signs : Nat)
    (instructions : List Instruction) (externals' : List (Equation Float)) : Prop where
  pairsFirst : PairsFirst (places externals) instructions
  paired : pairedAfter (places externals) instructions = places externals'
  choices : (choices (places externals) instructions).prod * combinations externals =
    2 ^ signs * combinations externals'

namespace Counts

variable {externals externals₁ externals' : List (Equation Float)} {m n : Nat}
  {first second : List Instruction}

theorem nil : Counts externals 0 [] externals := ⟨trivial, rfl, rfl⟩

theorem append (h₁ : Counts externals m first externals₁)
    (h₂ : Counts externals₁ n second externals') :
    Counts externals (m + n) (first ++ second) externals' where
  pairsFirst := pairsFirst_append.2 ⟨h₁.pairsFirst, h₁.paired ▸ h₂.pairsFirst⟩
  paired := by rw [pairedAfter_append, h₁.paired, h₂.paired]
  choices := by
    have hfirst := h₁.choices
    have hsecond := h₂.choices
    rw [choices_append, h₁.paired, List.prod_append]
    generalize (Instruction.choices (Declared.places externals) first).prod = p at *
    generalize (Instruction.choices (Declared.places externals₁) second).prod = q at *
    calc p * q * combinations externals
        = q * (p * combinations externals) := by ring
      _ = 2 ^ m * (q * combinations externals₁) := by rw [hfirst]; ring
      _ = 2 ^ (m + n) * combinations externals' := by rw [hsecond]; ring

theorem code (fragment : Fragment) : Counts externals 0 [.append fragment] externals :=
  ⟨trivial, rfl, rfl⟩

theorem sign (first second : Fragment) :
    Counts externals 1 [.choose [first, second]] externals :=
  ⟨trivial, rfl, rfl⟩

theorem joint (previous : Option Node) (node : Node) :
    Counts externals 0 (Emission.instructions (Walk.joint previous node)) externals := by
  rw [Walk.instructions_joint]
  split
  · exact .code _
  · exact .nil

theorem between {es : List Emission} (h : Counts externals n (Emission.instructions es) externals')
    (opening : Fragment) :
    Counts externals n (Emission.instructions (Walk.between opening es)) externals' := by
  have henclosed := ((Counts.code opening).append h).append (.code .close)
  rw [Nat.zero_add, Nat.add_zero] at henclosed
  rw [Walk.instructions_between]
  exact henclosed

/-- An external chooses a branch where it is declared, and only there. -/
theorem pairing (d : Declared) (equation : Equation Float) (make : Nat → Nat → Fragment) :
    Counts d.externals 0 (Emission.instructions (Walk.pairing d equation make))
      (d.declaring equation).externals := by
  have hinstructions : Emission.instructions (Walk.pairing d equation make) =
      [.pair (d.placeOf equation) equation.branchCount,
        .appendPaired (d.placeOf equation) (make (d.placeOf equation))] := rfl
  rw [hinstructions]
  cases hplace : d.externals.findIdx? (·.name? == equation.name?) with
  | some i =>
    have hold : d.placeOf equation = i := by rw [Declared.placeOf, hplace, Option.getD_some]
    have hsame : d.declaring equation = d := by
      rw [Declared.declaring, hplace]
      rfl
    have hknown : Declared.places d.externals i = true :=
      decide_eq_true (List.findIdx?_eq_some_iff_getElem.1 hplace).1
    rw [hold, hsame]
    refine ⟨⟨by simp, trivial⟩, ?_, by simp [Instruction.choices, hknown]⟩
    funext e
    by_cases he : e = i
    · simp [pairedAfter, he, hknown]
    · simp [pairedAfter, he]
  | none =>
    have hnew : d.placeOf equation = d.externals.length := by
      rw [Declared.placeOf, hplace, Option.getD_none]
    have hexternals : (d.declaring equation).externals = d.externals ++ [equation] := by
      rw [Declared.declaring, hplace]
      rfl
    have hunknown : Declared.places d.externals d.externals.length = false :=
      decide_eq_false (Nat.lt_irrefl _)
    rw [hnew, hexternals]
    refine ⟨⟨by simp, trivial⟩, ?_, ?_⟩
    · funext e
      simp only [pairedAfter, Declared.places, List.length_append, List.length_singleton]
      by_cases he : e = d.externals.length
      · simp [he]
      · have hiff : e < d.externals.length ↔ e < d.externals.length + 1 := by omega
        simp [he, hiff]
    · rw [combinations_append]
      simp [Instruction.choices, hunknown, combinations, Nat.mul_comm]

/-- A function is paired, its arguments are walked, and its `close` follows. -/
theorem applied {d : Declared} {equation : Equation Float} {es : List Emission}
    (make : Nat → Nat → Fragment)
    (h : Counts (d.declaring equation).externals n (Emission.instructions es) externals') :
    Counts d.externals n (Emission.instructions (Walk.pairing d equation make ++ es ++
      [.instruction (.append .close)])) externals' := by
  have henclosed := ((pairing d equation make).append h).append (.code .close)
  rw [Nat.zero_add, Nat.add_zero] at henclosed
  rw [Emission.instructions_append, Emission.instructions_append]
  exact henclosed

end Counts

end Instruction

theorem Entry.counts {symbol : String} {entry : Entry} (h : Entry.ofSymbol? symbol = some entry)
    (externals : List (Equation Float)) :
    Instruction.Counts externals (Node.atom symbol).signs [entry.instruction] externals := by
  obtain ⟨mark, hmark, hentry⟩ := Option.bind_eq_some_iff.1 h
  rw [Node.signs, hmark]
  cases mark with
  | equality => cases hentry
  | plusMinus =>
    obtain rfl := Option.some.inj hentry
    exact .sign _ _
  | _ =>
    obtain rfl := Option.some.inj hentry
    exact .code _

/-- Every sign of a stretch is chosen once. -/
theorem Visits.counts {s : Session} {depth : Nat} {stretch : Stretch} {d d' : Declared}
    {es : List Emission} (h : Visits s depth stretch d es d') :
    Instruction.Counts d.externals stretch.signs (Emission.instructions es) d'.externals := by
  induction h with
  | nil => exact .nil
  | @cons depth consumed previous node rest d d₁ d' es es' _ _ ihnode ihrest =>
    have hsigns : (Stretch.siblings previous (node :: rest)).signs =
        0 + ((Stretch.single node rest consumed).signs + Node.signsAll (rest.drop consumed)) := by
      rw [Stretch.signs, Stretch.signs, Node.signsAll, Nat.zero_add, Nat.add_assoc,
        Node.signsAll_take_add_drop]
    rw [hsigns, Emission.instructions_append, Emission.instructions_cons_visit,
      Emission.instructions_append]
    exact (Instruction.Counts.joint previous node).append (ihnode.append ihrest)
  | bars hclosed _ _ ih =>
    rw [Stretch.signs, Operand.signsAll_take_absolute hclosed, Node.signs, Nat.zero_add]
    exact ih.between _
  | piece => exact .code _
  | name => exact .code _
  | reference => exact .pairing ..
  | application _ _ _ hparens _ _ ih =>
    rw [Stretch.signs, Operand.signsAll_take_following, Node.signs, Nat.zero_add,
      ← Operand.signsAll_inner hparens]
    exact ih.applied .apply
  | atom hentry => exact Entry.counts hentry _
  | power hbase hexponent _ _ ih₁ ih₂ =>
    have hsigns := congrArg₂ (· + ·) (Node.signsAll_simple hbase) (Node.signsAll_simple hexponent)
    have hparts := (ih₁.append (.code .separator)).append ih₂
    rw [Stretch.signs, List.take_zero, Node.signsAll, Nat.add_zero, Node.signs, ← hsigns]
    apply Instruction.Counts.between
    rw [Emission.instructions_append, Emission.instructions_cons_instruction]
    rw [List.append_assoc] at hparts
    exact hparts
  | angle hbase _ ih =>
    rw [Stretch.signs, List.take_zero, Node.signsAll, Nat.add_zero, Node.signs,
      ← Node.signsAll_simple hbase]
    exact ih
  | derivative _ hparens _ _ ih =>
    rw [Stretch.signs, Operand.signsAll_take_following, Node.signs, Node.signs, Nat.zero_add,
      ← Operand.signsAll_inner hparens]
    have happlied := ih.applied (.derivative · · s.config.step)
    rw [Emission.instructions_append] at happlied ⊢
    exact happlied
  | fraction _ _ _ _ ih₁ ih₂ =>
    have hparts := ((ih₁.between .openParen).append (.code (.operator .divide))).append
      (ih₂.between .openParen)
    rw [Stretch.signs, List.take_zero, Node.signsAll, Nat.add_zero, Node.signs]
    apply Instruction.Counts.between
    rw [Emission.instructions_append, Emission.instructions_cons_instruction]
    rw [List.append_assoc] at hparts
    exact hparts
  | root _ _ ih =>
    rw [Stretch.signs, List.take_zero, Node.signsAll, Nat.add_zero, Node.signs]
    exact ih.between _
  | group _ ih =>
    rw [Stretch.signs, List.take_zero, Node.signsAll, Nat.add_zero, Node.signs]
    exact ih
  | sum _ _ _ ih =>
    rw [Stretch.signs, Operand.signsAll_take_following, Node.signs, Nat.zero_add]
    exact ih.between _
  | integral _ _ _ _ ih =>
    rw [Stretch.signs, Operand.signsAll_take_following, Node.signs, Nat.zero_add]
    exact ih.between _
  | turned _ _ _ ih =>
    rw [Stretch.signs, Operand.signsAll_take_following, Node.signs, Nat.zero_add]
    exact ih.between _

namespace Session

theorem length_of_readBranches {instructions : List Instruction} {set : BranchSet}
    {branches : List (Expression Float)} (hrun : BranchSet.runAll {} instructions = some set)
    (h : readBranches instructions = .ok branches) : branches.length = set.size := by
  rw [readBranches, hrun] at h
  have hlength := congrArg List.length (mapM_eq_ok_iff.1 h)
  rw [List.length_map, List.length_map] at hlength
  exact hlength.symm

theorem branchCount_eq {s : Session} {nodes : List Node} {equation : Equation Float}
    (h : (s.compile nodes).outcome = .ok equation) :
    equation.branchCount =
      2 ^ Node.signsAll (Node.rightSide nodes) * combinations equation.externals := by
  obtain ⟨binding, right, es, d, branches, hsides, hvisits, hread, rfl⟩ :=
    compile_outcome_eq_ok_iff.1 h
  have hcounts := hvisits.counts
  obtain ⟨set, hrun, hmultiplies⟩ :=
    BranchSet.exists_multiplies BranchSet.pairedAs_empty hcounts.pairsFirst
  have hchoices : (Instruction.choices (Declared.places []) (Emission.instructions es)).prod =
      2 ^ Node.signsAll right * combinations d.externals := by
    rw [← Nat.mul_one (List.prod _)]
    exact hcounts.choices
  calc branches.length
      = set.size := length_of_readBranches hrun hread
    _ = (Instruction.choices (Declared.places []) (Emission.instructions es)).prod * 1 :=
        hmultiplies.size
    _ = 2 ^ Node.signsAll (Node.rightSide nodes) * combinations d.externals := by
        rw [Nat.mul_one, hchoices, eq_rightSide_of_splitSides hsides]

theorem combinations_pos {externals : List (Equation Float)}
    (h : ∀ x ∈ externals, 0 < x.branchCount) : 0 < combinations externals := by
  refine CanonicallyOrderedAdd.list_prod_pos.2 fun count hcount => ?_
  obtain ⟨x, hx, rfl⟩ := List.mem_map.1 hcount
  exact h x hx

/-- An equation has two branches for each two-valued sign, times those of each external, so it has
one at least. -/
theorem branchCount_of_compile {s : Session} (hs : s.Reachable) {nodes : List Node}
    {equation : Equation Float} (h : (s.compile nodes).outcome = .ok equation) :
    equation.branchCount = 2 ^ Node.signsAll (Node.rightSide nodes) *
        (equation.externals.map Equation.branchCount).prod ∧
      0 < equation.branchCount := by
  have hstep : ∀ (s : Session) (nodes : List Node) (e : Equation Float),
      (s.compile nodes).outcome = .ok e → (∀ x ∈ e.externals, 0 < x.branchCount) →
        0 < e.branchCount := by
    intro s nodes e houtcome hexternals
    rw [branchCount_eq houtcome]
    exact Nat.mul_pos (Nat.two_pow_pos _) (combinations_pos hexternals)
  have hall : ∀ e ∈ s.equations.toList, 0 < e.branchCount :=
    hs.reachableBy.forall_equations fun s nodes e _ _ => hstep s nodes e
  refine ⟨branchCount_eq h, hstep s nodes equation h fun x hx => ?_⟩
  exact hall x (mem_of_mem_externals hs h hx)

/-- After `c = ± n`, the two branches of `c` are doubled by the sign in `c ± c`. -/
theorem branchCount_signed_reference : ∃ (s : Session) (equation : Equation Float), s.Reachable ∧
    (s.compile [.var "c", .atom "±", .var "c"]).outcome = .ok equation ∧
    equation.externals.map Equation.branchCount = [2] ∧ equation.branchCount = 4 := by
  have hsum : ∀ (o : Operator) (k : Nat), o.isMultiplicative = false →
      Expression.parse [.reference 0 k, .operator o, .reference 0 k] =
        .ok (.binary o (.reference 0 k) (.reference 0 k)) := by
    intro o k ho
    have hleft := Expression.IsSum.product (.signed (.operand (.reference 0 k)))
    have hright := Expression.IsProduct.signed (.operand (.reference 0 k))
    exact Expression.parse_eq_ok_iff.2 (hleft.more ho hright)
  have hsigned : ∀ o : Operator, o.isMultiplicative = false →
      ∃ e, Expression.parse [.operator o, .var "n"] = .ok e := by
    intro o ho
    have hn := Expression.IsSigned.operand (.var "n")
    cases o with
    | add => exact ⟨_, Expression.parse_eq_ok_iff.2 (.product (.signed hn.plus))⟩
    | subtract => exact ⟨_, Expression.parse_eq_ok_iff.2 (.product (.signed hn.minus))⟩
    | _ => cases ho
  obtain ⟨plus, hplus⟩ := hsigned .add rfl
  obtain ⟨minus, hminus⟩ := hsigned .subtract rfl
  have htwo : readBranches [.choose [.operator .add, .operator .subtract], .append (.var "n")] =
      .ok [plus, minus] :=
    mapM_eq_ok_iff.2 (congrArg₂ ([·, ·]) hplus hminus)
  have hfirst : ((fresh {}).compile [.var "c", .atom "=", .atom "±", .var "n"]).outcome =
      .ok ⟨some ⟨"c", .variable, []⟩, ["n"], [], [plus, minus], []⟩ :=
    compile_outcome_eq_ok_iff.2 ⟨_, _, _, _, _, rfl, .cons (.atom rfl) (.cons (.name (.inr rfl))
      .nil), htwo, rfl⟩
  have hs : ((fresh {}).compile [.var "c", .atom "=", .atom "±", .var "n"]).session.Reachable :=
    .compile _ (.fresh {})
  rw [session_compile_of_ok hfirst] at hs
  have hfour : readBranches [.pair 0 2, .appendPaired 0 (.reference 0),
      .choose [.operator .add, .operator .subtract], .pair 0 2, .appendPaired 0 (.reference 0)] =
        .ok [.binary .add (.reference 0 0) (.reference 0 0),
          .binary .add (.reference 0 1) (.reference 0 1),
          .binary .subtract (.reference 0 0) (.reference 0 0),
          .binary .subtract (.reference 0 1) (.reference 0 1)] := by
    refine mapM_eq_ok_iff.2 ?_
    exact congrArg₂ (· ++ ·) (congrArg₂ ([·, ·]) (hsum .add 0 rfl) (hsum .add 1 rfl))
      (congrArg₂ ([·, ·]) (hsum .subtract 0 rfl) (hsum .subtract 1 rfl))
  have hsecond : ∃ equation, (((fresh {}).register
      ⟨some ⟨"c", .variable, []⟩, ["n"], [], [plus, minus], []⟩).compile
        [.var "c", .atom "±", .var "c"]).outcome = .ok equation ∧
      equation.externals.map Equation.branchCount = [2] :=
    ⟨_, compile_outcome_eq_ok_iff.2 ⟨none, _, _, _, _, rfl, .cons (.reference rfl rfl rfl)
      (.cons (.atom rfl) (.cons (.reference rfl rfl rfl) .nil)), hfour, rfl⟩, rfl⟩
  obtain ⟨equation, hequation, hcounts⟩ := hsecond
  have hcount := (branchCount_of_compile hs hequation).1
  rw [hcounts] at hcount
  exact ⟨_, equation, hs, hequation, hcounts, hcount⟩

end Session

end Formulary
