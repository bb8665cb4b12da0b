import Formulary.Proofs.Arity
import Formulary.Proofs.Enclosure
import Formulary.Proofs.Extents

/-!
# Bars behind a function

The operand of a trigonometric function is found by a scan that counts parentheses, and bars by a
search for the next bar. The scan ends at a sign between bars, too, when the sign is not in
parentheses, and the bar that closes them is left outside of the operand.
-/

namespace Formulary

namespace Operand

/-- All additive atoms of the nodes are in parentheses, of which `depth` are open before them. -/
def hidesSigns (depth : Nat) : List Node → Bool
  | [] => true
  | node :: rest => (depth != 0 || !node.isAdditive) && hidesSigns (depthAfter node depth) rest

theorem hidesSigns_cons {depth : Nat} {node : Node} {rest : List Node} :
    hidesSigns depth (node :: rest) = true ↔
      (depth = 0 → node.isAdditive = false) ∧ hidesSigns (depthAfter node depth) rest = true := by
  rw [hidesSigns, Bool.and_eq_true, Bool.or_eq_true, bne_iff_ne, Bool.not_eq_true',
    ← Decidable.imp_iff_not_or]

/-- Where a sign is not in parentheses, there is a first one. -/
theorem exists_sign_of_not_hidesSigns {depth : Nat} {nodes : List Node}
    (h : hidesSigns depth nodes = false) :
    ∃ before sign after, nodes = before ++ sign :: after ∧ hidesSigns depth before = true ∧
      depthAtEnd depth before = 0 ∧ sign.isAdditive = true := by
  induction nodes generalizing depth with
  | nil => cases h
  | cons node rest ih =>
    by_cases hplain : depth = 0 → node.isAdditive = false
    · have hrest : hidesSigns (depthAfter node depth) rest = false := by
        rw [Bool.eq_false_iff] at h ⊢
        exact fun hrest => h (hidesSigns_cons.2 ⟨hplain, hrest⟩)
      obtain ⟨before, sign, after, rfl, hbefore, hdepth, hsign⟩ := ih hrest
      exact ⟨node :: before, sign, after, rfl, hidesSigns_cons.2 ⟨hplain, hbefore⟩, hdepth, hsign⟩
    · obtain ⟨hdepth, hsign⟩ := Classical.not_imp.1 hplain
      exact ⟨[], node, rest, rfl, rfl, hdepth, by simpa using hsign⟩

/-- A scan goes on behind nodes whose signs are in parentheses. -/
theorem scan_hidesSigns {depth : Nat} {nodes : List Node} (h : hidesSigns depth nodes = true)
    (tail : List Node) :
    (scan false false false depth (nodes ++ tail)).1 =
      nodes ++ (scan false false false (depthAtEnd depth nodes) tail).1 := by
  induction nodes generalizing depth with
  | nil => rfl
  | cons node rest ih =>
    obtain ⟨hplain, hrest⟩ := hidesSigns_cons.1 h
    have hgoes : ¬Stops false false false depth (node :: (rest ++ tail)) :=
      not_stops_iff.2 fun hdepth => ⟨fun _ => hplain hdepth, nofun⟩
    rw [List.cons_append, scan_of_not_stops hgoes, ih hrest, depthAtEnd_cons, List.cons_append]

/-- What is not looked for is not found: the operand is all it consumes. -/
theorem consumed_unmarked (anchored : List Node) :
    (following false anchored).consumed = (following false anchored).nodes.length := by
  have hnone : (following false anchored).differential = none := scan_unmarked ..
  have hconsumed := (isOperandOf_following false anchored).consumed_eq
  rw [hnone] at hconsumed
  exact hconsumed

/-- The operand of an anchor with a bar behind it starts with that bar. -/
theorem nodes_following_bar (anchor : Node) (rest : List Node) :
    (following false (anchor :: .literal Node.bar :: rest)).nodes =
      .literal Node.bar :: (scan false false false 0 rest).1 := by
  have hgoes : ¬Stops false false true 0 (.literal Node.bar :: rest) :=
    not_stops_iff.2 fun _ => ⟨nofun, nofun⟩
  have hscan := congrArg Prod.fst (scan_of_not_stops hgoes)
  exact hscan

theorem nodes_following_bars (anchor : Node) {nodes : List Node} (h : hidesSigns 0 nodes = true) :
    (following false (anchor :: .literal Node.bar :: (nodes ++ [.literal Node.bar]))).nodes =
      .literal Node.bar :: (nodes ++ [.literal Node.bar]) := by
  have hgoes : ∀ depth, ¬Stops false false false depth [.literal Node.bar] := fun _ =>
    not_stops_iff.2 fun _ => ⟨fun _ => rfl, nofun⟩
  rw [nodes_following_bar, scan_hidesSigns h, scan_of_not_stops (hgoes _), scan]

theorem nodes_following_sign (anchor : Node) {before : List Node} {sign : Node}
    (h : hidesSigns 0 before = true) (hdepth : depthAtEnd 0 before = 0)
    (hsign : sign.isAdditive = true) (after : List Node) :
    (following false (anchor :: .literal Node.bar :: (before ++ sign :: after))).nodes =
      .literal Node.bar :: before := by
  have hstops : Stops false false false 0 (sign :: after) := ⟨rfl, .inr ⟨rfl, .inr hsign⟩⟩
  rw [nodes_following_bar, scan_hidesSigns h, hdepth, scan_of_stops hstops, List.append_nil]

end Operand

/-! ## Walks that fail -/

namespace Walk

variable {β γ : Type} {w : Walk β} {next : β → Walk γ} {d d' : Declared} {es : List Emission}
  {b : β} {e : CompileError}

/-- The walk ends with this error. -/
def EndsWith (w : Walk β) (d : Declared) (e : CompileError) : Prop := ∃ es, w d = (es, .error e)

theorem endsWith_malformed (subject : List Node) (flaw : Flaw) (d : Declared) :
    (malformed subject flaw : Walk β).EndsWith d (.malformed (Node.textAll subject) flaw) :=
  ⟨[], rfl⟩

theorem EndsWith.bind (h : w.EndsWith d e) (next : β → Walk γ) : (w >>= next).EndsWith d e := by
  obtain ⟨es, hw⟩ := h
  exact ⟨es, by rw [bind_apply, hw]⟩

theorem EndsWith.behind (hw : w.Runs d es b d') (h : (next b).EndsWith d' e) :
    (w >>= next).EndsWith d e := by
  obtain ⟨es', hnext⟩ := h
  have hfirst : w d = (es, .ok (b, d')) := hw
  exact ⟨es ++ es', by simp only [bind_apply, hfirst, hnext]⟩

/-- An error of the first node ends the walk. -/
theorem EndsWith.visitAll {s : Session} {depth : Nat} {node : Node} {rest : List Node}
    (h : (visit s depth node rest).EndsWith d e) :
    (visitAll s depth none (node :: rest)).EndsWith d e := by
  rw [visitAll_cons]
  exact .behind (runs_pure.2 ⟨rfl, rfl, rfl⟩) (.behind rfl (h.bind _))

/-- A bar with none behind it is an error. -/
theorem endsWith_unclosed (s : Session) (depth : Nat) {nodes : List Node}
    (h : ∀ n ∈ nodes, n.isBar = false) (d : Declared) :
    (visitAll s depth none (.literal Node.bar :: nodes)).EndsWith d
      (.malformed (Node.textAll (.literal Node.bar :: nodes)) .unclosedBar) := by
  apply EndsWith.visitAll
  have hclosed : Operand.isClosed (.literal Node.bar :: nodes) = false :=
    List.any_eq_false.2 (by simpa using h)
  rw [visit, if_pos rfl, if_neg (by simp [hclosed])]
  exact endsWith_malformed _ _ d

/-- An error in the operand of a trigonometric function ends the walk. -/
theorem EndsWith.turned {s : Session} {depth : Nat} {operator : OperatorName} {function : Function}
    (hturning : operator.turning? = some function) {rest operand : List Node}
    (hoperand : (Operand.following false (.named operator none none :: rest)).nodes = operand)
    (hne : operand ≠ []) (h : ∀ d, (Walk.visitAll s (depth + 1) none operand).EndsWith d e)
    (d : Declared) : (visit s depth (.named operator none none) rest).EndsWith d e := by
  subst hoperand
  rw [visit_turned s depth hturning, Walk.turned, if_neg (by simp), called,
    if_neg (by simpa using hne), enclosed]
  have hopening : (append (.call function)).Runs d [.instruction (.append (.call function))] () d :=
    runs_append.2 ⟨rfl, rfl⟩
  exact .bind (.behind hopening (.bind (h d) _)) _

end Walk

/-! ## The walk over bars -/

section Bars

variable {s : Session} {nodes : List Node} {is : List Instruction}

theorem emits_bars (hs : ∀ name, s.resolve name = none) (hbars : ∀ n ∈ nodes, n.isBar = false)
    (hempty : nodes ≠ []) (h : Emits s nodes is) :
    Emits s (.literal Node.bar :: (nodes ++ [.literal Node.bar]))
      (Instruction.enclosing (.call .absolute) is) := by
  obtain ⟨es, d, hinside, rfl⟩ := h.visits hs 1 (Session.declaredBy none)
  have habsolute := absolute_closed hbars []
  rw [List.append_nil] at habsolute
  have hclosed : Operand.isClosed (.literal Node.bar :: (nodes ++ [.literal Node.bar])) = true := by
    simp [Operand.isClosed, Node.isBar]
  have hall : Visits s 0 (.single (.literal Node.bar) (nodes ++ [.literal Node.bar]) _)
      (Session.declaredBy none) (Walk.between (.call .absolute) es) d :=
    .bars hclosed (by rwa [habsolute]) (by rwa [habsolute])
  rw [habsolute] at hall
  exact ⟨_, d, hall.cons_all, by simp [Walk.joint, Instruction.enclosing]⟩

/-- A trigonometric function that takes all the nodes behind it. -/
theorem emits_turned (hs : ∀ name, s.resolve name = none) {operator : OperatorName}
    {function : Function} (hturning : operator.turning? = some function) (hempty : nodes ≠ [])
    (hoperand : (Operand.following false (.named operator none none :: nodes)).nodes = nodes)
    (h : Emits s nodes is) :
    Emits s (.named operator none none :: nodes) (Instruction.enclosing (.call function) is) := by
  obtain ⟨es, d, hinside, rfl⟩ := h.visits hs 1 (Session.declaredBy none)
  have hall : Visits s 0 (.single (.named operator none none) nodes _) (Session.declaredBy none)
      _ d :=
    .turned hturning (by rwa [hoperand]) (by rwa [hoperand])
  rw [Operand.consumed_unmarked, hoperand] at hall
  exact ⟨_, d, hall.cons_all, by simp [Walk.joint, Instruction.enclosing]⟩

end Bars

namespace Session

variable {s : Session} {nodes : List Node}

/-- An error of the walk is the outcome. -/
theorem compile_of_endsWith (hnodes : ∀ n ∈ nodes, n.isEquality = false) {e : CompileError}
    (h : (Walk.visitAll s 0 none nodes).EndsWith (declaredBy none) e) :
    (s.compile nodes).outcome = .error e := by
  obtain ⟨es, hwalk⟩ : (s.walk none nodes).EndsWith {} e := .behind rfl h
  rw [compile, assemble, splitSides_eq_none hnodes]
  simp only [hwalk]

theorem isEquality_bars (operator : OperatorName) (h : ∀ n ∈ nodes, n.isEquality = false) :
    ∀ n ∈ .named operator none none :: .literal Node.bar :: (nodes ++ [.literal Node.bar]),
      Node.isEquality n = false := by
  simp only [List.forall_mem_cons, List.forall_mem_append]
  exact ⟨rfl, rfl, h, rfl, List.forall_mem_nil _⟩

theorem compile_hidden_signs (hs : ∀ name, s.resolve name = none) {operator : OperatorName}
    {function : Function} (hturning : operator.turning? = some function)
    (hbars : ∀ n ∈ nodes, n.isBar = false) (hnodes : ∀ n ∈ nodes, n.isEquality = false)
    (hsigns : Operand.hidesSigns 0 nodes = true) {equation : Equation Float}
    (h : (s.compile nodes).outcome = .ok equation) :
    ∃ turned, (s.compile (.named operator none none :: .literal Node.bar ::
        (nodes ++ [.literal Node.bar]))).outcome = .ok turned ∧
      turned.branches = equation.branches.map fun e => .call function [.call .absolute [e]] := by
  obtain ⟨is, hemits, hreads⟩ := exists_emits_of_compile hs hnodes h
  have hplain := hemits.isPlain hs
  have hbarred := emits_bars hs hbars (ne_nil_of_reads hemits hreads) hemits
  have habsolute := hreads.called (f := .absolute) rfl hplain
  have hoperand := Operand.nodes_following_bars (.named operator none none) hsigns
  have hturned := emits_turned hs hturning (List.cons_ne_nil _ _) hoperand hbarred
  have hbranches := habsolute.called (OperatorName.arity_of_turning? hturning)
    (Formula.isPlain_enclosing hplain)
  obtain ⟨turned, hcompile, heq⟩ :=
    exists_compile_of_reads hs (isEquality_bars operator hnodes) hturned hbranches
  refine ⟨turned, hcompile, ?_⟩
  rw [heq, List.map_map]
  rfl

/-- The scan ends at the first sign, and no bar is left behind the one that opens. -/
theorem compile_bare_sign {operator : OperatorName} {function : Function}
    (hturning : operator.turning? = some function) (hbars : ∀ n ∈ nodes, n.isBar = false)
    (hnodes : ∀ n ∈ nodes, n.isEquality = false) {before after : List Node} {sign : Node}
    (hsplit : nodes = before ++ sign :: after) (hsigns : Operand.hidesSigns 0 before = true)
    (hdepth : Operand.depthAtEnd 0 before = 0) (hsign : sign.isAdditive = true) :
    (s.compile (.named operator none none :: .literal Node.bar ::
        (nodes ++ [.literal Node.bar]))).outcome =
      .error (.malformed (Node.textAll (.literal Node.bar :: before)) .unclosedBar) := by
  have hoperand := Operand.nodes_following_sign (.named operator none none) hsigns hdepth hsign
    (after ++ [.literal Node.bar])
  -- Only the operand is walked, and the one bar in it is the one at its head.
  have hbefore : ∀ n ∈ before, n.isBar = false := fun n hn => hbars n (by simp [hsplit, hn])
  apply compile_of_endsWith (isEquality_bars operator hnodes)
  rw [hsplit, List.append_assoc, List.cons_append]
  exact (Walk.EndsWith.turned hturning hoperand (List.cons_ne_nil _ _)
    (Walk.endsWith_unclosed s 1 hbefore) _).visitAll

/-- A trigonometric function of an absolute value, where what is between the bars compiles in a
fresh session. It compiles where the signs between the bars are all in parentheses, into calls on
the calls on the branches. Otherwise the first sign that is not ends the operand of the function,
and the bar in front of it is an error. -/
theorem compile_turned_bars (config : Config) {operator : OperatorName} {function : Function}
    (hturning : operator.turning? = some function) {nodes : List Node}
    (hbars : ∀ n ∈ nodes, n.isBar = false) (hnodes : ∀ n ∈ nodes, n.isEquality = false)
    {equation : Equation Float} (h : ((fresh config).compile nodes).outcome = .ok equation) :
    (Operand.hidesSigns 0 nodes = true → ∃ turned,
      ((fresh config).compile (.named operator none none :: .literal Node.bar ::
        (nodes ++ [.literal Node.bar]))).outcome = .ok turned ∧
      turned.branches = equation.branches.map fun e => .call function [.call .absolute [e]]) ∧
    (Operand.hidesSigns 0 nodes = false → ∃ before sign after,
      nodes = before ++ sign :: after ∧ Operand.hidesSigns 0 before = true ∧
      Operand.depthAtEnd 0 before = 0 ∧ sign.isAdditive = true ∧
      ((fresh config).compile (.named operator none none :: .literal Node.bar ::
        (nodes ++ [.literal Node.bar]))).outcome =
        .error (.malformed (Node.textAll (.literal Node.bar :: before)) .unclosedBar)) := by
  constructor
  · intro hsigns
    exact compile_hidden_signs (resolve_fresh config) hturning hbars hnodes hsigns h
  · intro hsigns
    obtain ⟨before, sign, after, hsplit, hbefore, hdepth, hsign⟩ :=
      Operand.exists_sign_of_not_hidesSigns hsigns
    exact ⟨before, sign, after, hsplit, hbefore, hdepth, hsign,
      compile_bare_sign hturning hbars hnodes hsplit hbefore hdepth hsign⟩

/-- In `\sin | ( x + y ) |` the sign is in parentheses. -/
theorem compile_sine_of_fenced_sum :
    (∀ n ∈ [.atom "(", .var "x", .atom "+", .var "y", .atom ")"], Node.isBar n = false) ∧
    (∀ n ∈ [.atom "(", .var "x", .atom "+", .var "y", .atom ")"], Node.isEquality n = false) ∧
    Operand.hidesSigns 0 [.atom "(", .var "x", .atom "+", .var "y", .atom ")"] = true ∧
    ∃ equation turned,
      ((fresh {}).compile
        [.atom "(", .var "x", .atom "+", .var "y", .atom ")"]).outcome = .ok equation ∧
      ((fresh {}).compile [.named .sin none none, .literal "|", .atom "(", .var "x", .atom "+",
        .var "y", .atom ")", .literal "|"]).outcome = .ok turned ∧
      equation.branches = [.binary .add (.var "x") (.var "y")] ∧
      turned.branches = [.call .sine [.call .absolute [.binary .add (.var "x") (.var "y")]]] := by
  have hbars : ∀ n ∈ [.atom "(", .var "x", .atom "+", .var "y", .atom ")"],
      Node.isBar n = false := by decide
  have hnodes : ∀ n ∈ [.atom "(", .var "x", .atom "+", .var "y", .atom ")"],
      Node.isEquality n = false := by decide
  have hsine : OperatorName.sin.turning? = some .sine := rfl
  have hsigns : Operand.hidesSigns 0
      [.atom "(", .var "x", .atom "+", .var "y", .atom ")"] = true := by decide
  have hvisits : Visits (fresh {}) 0
      (.siblings none [.atom "(", .var "x", .atom "+", .var "y", .atom ")"]) (declaredBy none) _ _ :=
    .cons (.atom rfl) (.cons (.name (.inr rfl)) (.cons (.atom rfl)
      (.cons (.name (.inr rfl)) (.cons (.atom rfl) .nil))))
  have hparse : Expression.parse [.openParen, .var "x", .operator .add, .var "y", .close] =
      .ok (.binary .add (.var "x") (.var "y")) := Expression.parse_eq_ok_iff_ofCode.2 (by cbv)
  obtain ⟨equation, h, hbranches⟩ :=
    compile_single (resolve_fresh {}) hnodes hvisits rfl hparse
  obtain ⟨turned, hcompile, hturned⟩ :=
    (compile_turned_bars {} hsine hbars hnodes h).1 hsigns
  refine ⟨hbars, hnodes, hsigns, equation, turned, h, hcompile, hbranches, ?_⟩
  rw [hturned, hbranches]
  rfl

/-- The operand of the sine in `\sin | x + y |` is `| x`. -/
theorem sine_leaves_bar_behind :
    ¬∀ (nodes : List Node) (equation : Equation Float),
      (∀ n ∈ nodes, n.isBar = false) → (∀ n ∈ nodes, n.isEquality = false) →
      ((fresh {}).compile nodes).outcome = .ok equation →
      ∃ turned, ((fresh {}).compile (.named .sin none none :: .literal Node.bar ::
          (nodes ++ [.literal Node.bar]))).outcome = .ok turned ∧
        turned.branches.length = equation.branches.length ∧
        ∀ (k : Nat) (e), equation.branches[k]? = some e →
          turned.branches[k]? = some (.call .sine [.call .absolute [e]]) := by
  intro hunit
  let nodes : List Node := [.var "x", .atom "+", .var "y"]
  have hbars : ∀ n ∈ nodes, n.isBar = false := by decide
  have hnodes : ∀ n ∈ nodes, n.isEquality = false := by decide
  have hvisits : Visits (fresh {}) 0 (.siblings none nodes) (declaredBy none) _ _ :=
    .cons (.name (.inr rfl)) (.cons (.atom rfl) (.cons (.name (.inr rfl)) .nil))
  have hparse : Expression.parse [.var "x", .operator .add, .var "y"] =
      .ok (.binary .add (.var "x") (.var "y")) := Expression.parse_eq_ok_iff_ofCode.2 (by cbv)
  obtain ⟨equation, h, -⟩ := compile_single (resolve_fresh {}) hnodes hvisits rfl hparse
  have hsplit : nodes = [.var "x"] ++ .atom "+" :: [.var "y"] := rfl
  have hsine : OperatorName.sin.turning? = some .sine := rfl
  have hfails := compile_bare_sign (s := fresh {}) hsine hbars hnodes hsplit
    (by decide) rfl rfl
  obtain ⟨turned, hcompile, -⟩ := hunit nodes equation hbars hnodes h
  cases hfails.symm.trans hcompile

end Session

end Formulary
