import Formulary.Compilation
import Formulary.Proofs.Cardinality
import Formulary.Proofs.OpenRuns
import Formulary.Proofs.Operands

/-!
# The walk by places

The walk written down once more, this time with every node looked up by its place among its
siblings, every run of nodes cut out by its two ends, and every branch of an external looked up in
the branch that refers to it. Where nothing is to be found, there is no answer; nor is there one
where an operand is not smaller than the nodes it was taken from. The walk by places always has an
answer, and it is that of the walk over lists.
-/

namespace Formulary

/-- A walk that has no answer once it looks where nothing is. -/
def Lookup (β : Type) : Type :=
  Declared → Option (List Emission × Except CompileError (β × Declared))

namespace Lookup

variable {β γ : Type}

def andThen (c : Lookup β) (next : β → Lookup γ) : Lookup γ := fun d =>
  (c d).bind fun
    | (es, .error e) => some (es, .error e)
    | (es, .ok (b, d)) => (next b d).map fun (es', result) => (es ++ es', result)

instance : Monad Lookup where
  pure b := fun d => some ([], .ok (b, d))
  bind := andThen

/-- A part of a walk that looks nothing up. -/
def of (w : Walk β) : Lookup β := fun d => some (w d)

/-- What was looked up, if it was found. -/
def found (b : Option β) : Lookup β := fun d => b.map fun b => ([], .ok (b, d))

/-- No answer. -/
def lost : Lookup β := fun _ => none

/-- The nodes from place `first` on and before place `last`. -/
def slice (nodes : List Node) (first last : Nat) : Option (List Node) :=
  if first ≤ last ∧ last ≤ nodes.length then some ((nodes.drop first).take (last - first))
  else none

/-- The operand without the parentheses around it. -/
def inner (o : Operand) : Option (List Node) :=
  if o.isParenthesized then slice o.nodes 1 (o.nodes.length - 1) else some o.nodes

def enclosed (opening : Fragment) (body : Lookup Unit) : Lookup Unit := do
  of (Walk.append opening)
  body
  of (Walk.append .close)

def called (function : Function) (subject : Node) (operand : List Node) (body : Lookup Unit) :
    Lookup Unit :=
  if operand.isEmpty then of (Walk.malformed [subject] (.noOperand function))
  else enclosed (.call function) body

/-! In what follows, `descend` walks over an operand, and the anchor is at `place`. -/

section Anchor

variable (descend : List Node → Lookup Unit) (nodes : List Node) (place : Nat)

def applied (equation : Equation Float) (make : (external branch : Nat) → Fragment)
    (operand : Operand) : Lookup Unit :=
  if !operand.isParenthesized then do
    let anchor ← found nodes[place]?
    of (Walk.malformed [anchor] .unapplied)
  else do
    let inside ← found (inner operand)
    let count := Operand.argumentCount inside
    if count ≠ equation.parameters.length then do
      let subject ← found (slice nodes place (place + operand.consumed + 1))
      of (Walk.malformed subject (.argumentCount equation.parameters.length count))
    else do
      of (Walk.paired equation make)
      descend inside
      of (Walk.append .close)
      of (Walk.changeSymbols (·.addArguments equation.freeArguments))

def named (session : Session) (name : String) (operand : Operand) : Lookup Nat := do
  match if (← of Walk.symbols).isLocal name then none else session.resolve name with
  | some equation =>
    if equation.isFunction then
      applied descend nodes place equation .apply operand
      return operand.consumed
    else
      of (Walk.referred equation)
      return 0
  | none =>
    of (Walk.changeSymbols (·.addArgument name))
    of (Walk.append (.var name))
    return 0

def primed (session : Session) (name : String) (operand : Operand) : Lookup Nat :=
  match session.resolveFunction name with
  | none => of (Walk.fail (.unresolvedReference name))
  | some equation => do
    let step := session.config.step
    applied descend nodes place equation (.derivative · · step) operand
    let subject ← found (slice nodes place (place + operand.consumed + 1))
    of (Walk.warn subject (.forwardDifference step))
    return operand.consumed

def summed (lower upper : Option (List Node)) (operand : Operand) : Lookup Nat := do
  let subject ← found nodes[place]?
  let range ← of (Walk.reading [subject] (SumRange.ofLimits lower upper))
  of (Walk.changeSymbols (·.addArguments range.names))
  of (Walk.changeSymbols (·.addBound range.index))
  if operand.nodes.isEmpty then of (Walk.malformed [subject] .sumOperand)
  else
    enclosed (.sum range.index range.lower range.upper) (descend operand.nodes)
    return operand.consumed

def integrated (config : Config) (lower upper : Option (List Node)) (operand : Operand) :
    Lookup Nat := do
  let subject ← found nodes[place]?
  let partition ← of (Walk.reading [subject] (Partition.ofLimits config.partitions lower upper))
  if operand.nodes.isEmpty then of (Walk.malformed [subject] .integralOperand)
  else
    let name := operand.differential.getD config.differential
    of (Walk.changeSymbols (·.addBound name))
    let run ← found (slice nodes place (place + operand.consumed + 1))
    of (Walk.warn run (.riemannSum config.partitions))
    enclosed (.integral name partition.start partition.width config.partitions config.rule)
      (descend operand.nodes)
    return operand.consumed

def turned (name : OperatorName) (function : Function) (lower upper : Option (List Node))
    (operand : Operand) : Lookup Nat := do
  let subject ← found nodes[place]?
  if lower.isSome || upper.isSome then of (Walk.malformed [subject] (.unwantedLimits name))
  else do
    called function subject operand.nodes (descend operand.nodes)
    return operand.consumed

def absolute : Lookup Nat :=
  let rest := nodes.drop (place + 1)
  match rest.findIdx? Node.isBar with
  | none => of (Walk.malformed (nodes.drop place) .unclosedBar)
  | some length => do
    let operand ← found (slice rest 0 length)
    let anchor ← found nodes[place]?
    called .absolute anchor operand (descend operand)
    return length + 1

/-- Compiles the node at the place and returns how many of the nodes behind it are its own. -/
def visit (session : Session) : Lookup Nat := do
  let node ← found nodes[place]?
  let anchored := nodes.drop place
  match node with
  | .literal text =>
    if text = Node.bar then absolute descend nodes place
    else do
      of (Walk.append (.number text))
      return 0
  | .var name => named descend nodes place session name (Operand.following false anchored)
  | .atom symbol => do
    of (Walk.operated symbol)
    return 0
  | .power base exponent =>
    if (Walk.simple base).isEmpty || (Walk.simple exponent).isEmpty then
      of (Walk.malformed [.power base exponent] .powerPart)
    else do
      enclosed (.call .power) do
        descend (Walk.simple base)
        of (Walk.append .separator)
        descend (Walk.simple exponent)
      return 0
  | .angle base =>
    if (Walk.simple base).isEmpty then of (Walk.malformed [.angle base] .anglePart)
    else do
      descend (Walk.simple base)
      return 0
  | .prime (.var name) =>
    primed descend nodes place session name (Operand.following false anchored)
  | .prime base => of (Walk.malformed [.prime base] .primeBase)
  | .fraction numerator denominator =>
    if numerator.isEmpty || denominator.isEmpty then
      of (Walk.malformed [.fraction numerator denominator] .emptyFraction)
    else do
      enclosed .openParen do
        enclosed .openParen (descend numerator)
        of (Walk.append (.operator .divide))
        enclosed .openParen (descend denominator)
      return 0
  | .root body => do
    called .squareRoot (.root body) body (descend body)
    return 0
  | .group body => do
    descend body
    return 0
  | .named name lower upper =>
    let operand := Operand.following (name == .integral) anchored
    match name with
    | .sum => summed descend nodes place lower upper operand
    | .integral => integrated descend nodes place session.config lower upper operand
    | .sin => turned descend nodes place .sin .sine lower upper operand
    | .cos => turned descend nodes place .cos .cosine lower upper operand
    | .tan => turned descend nodes place .tan .tangent lower upper operand

end Anchor

theorem drop_eq_cons {nodes : List Node} {place : Nat} {node : Node}
    (h : nodes[place]? = some node) : nodes.drop place = node :: nodes.drop (place + 1) := by
  obtain ⟨hplace, rfl⟩ := List.getElem?_eq_some_iff.1 h
  exact List.drop_eq_getElem_cons hplace

theorem sizeOf_drop_lt {nodes : List Node} {place : Nat} {node : Node}
    (h : nodes[place]? = some node) (n : Nat) :
    sizeOf (nodes.drop (place + n + 1)) < sizeOf (nodes.drop place) := by
  have hdrop : nodes.drop (place + n + 1) = (nodes.drop (place + 1)).drop n := by
    rw [List.drop_drop]
    congr 1
    omega
  have hle := sizeOf_le_of_isInfix (List.drop_suffix n (nodes.drop (place + 1))).isInfix
  rw [hdrop, drop_eq_cons h, List.cons.sizeOf_spec]
  omega

/-- The sign put in between the node at the place and the one before it. -/
def joint (nodes : List Node) (place : Nat) (node : Node) : Lookup Unit :=
  if 0 < place then do
    let previous ← found nodes[place - 1]?
    if previous.juxtaposed node then of (Walk.append (.operator .multiply)) else return ()
  else return ()

/-- Compiles the siblings from the place on. -/
noncomputable def visitFrom (session : Session) (depth : Nat) (nodes : List Node) (place : Nat) :
    Lookup Unit :=
  match _ : nodes[place]? with
  | none => return ()
  | some node => do
    joint nodes place node
    of (Walk.emit (.visit depth node))
    let descend := fun operand : List Node =>
      if sizeOf operand < sizeOf (nodes.drop place) then visitFrom session (depth + 1) operand 0
      else lost
    let consumed ← visit descend nodes place session
    visitFrom session depth nodes (place + consumed + 1)
termination_by sizeOf (nodes.drop place)
decreasing_by
  · simpa
  · apply sizeOf_drop_lt
    assumption

/-! ## Walks that are answered -/

/-- The walk by places has an answer, that of the walk over lists, and that walk fails with one of
the three errors that are reported. -/
structure Answers (c : Lookup β) (w : Walk β) : Prop where
  same : ∀ d, c d = some (w d)
  reported : ∀ d es, w d ≠ (es, .error .unpaired)

namespace Answers

variable {c : Lookup β} {w : Walk β} {next : β → Lookup γ} {next' : β → Walk γ}

theorem pure (b : β) : Answers (pure b) (Pure.pure b) :=
  ⟨fun _ => rfl, fun _ _ => by rintro ⟨⟩⟩

theorem bind (h : Answers c w) (hnext : ∀ b, Answers (next b) (next' b)) :
    Answers (c >>= next) (w >>= next') where
  same d := by
    change (c d).bind _ = _
    rw [h.same, Option.bind_some, Walk.bind_apply]
    rcases w d with ⟨es, error | ⟨b, d₁⟩⟩
    · rfl
    · simp only [(hnext b).same]
      rfl
  reported d es hfail := by
    rw [Walk.bind_apply] at hfail
    rcases hw : w d with ⟨es₁, error | ⟨b, d₁⟩⟩
    · rw [hw] at hfail
      obtain ⟨rfl, hunpaired⟩ := Prod.mk.inj hfail
      rw [Except.error.inj hunpaired] at hw
      exact h.reported d es₁ hw
    · rw [hw] at hfail
      obtain ⟨-, hunpaired⟩ := Prod.mk.inj hfail
      exact (hnext b).reported d₁ _ (Prod.ext rfl hunpaired)

/-- A part that looks nothing up and ends well. -/
theorem of_ok {w : Walk β} (h : ∀ d, ∃ es b d', w.Runs d es b d') : Answers (of w) w := by
  refine ⟨fun _ => rfl, ?_⟩
  intro d es hfail
  obtain ⟨es', b, d', hruns⟩ := h d
  cases hfail.symm.trans hruns

theorem append (fragment : Fragment) : Answers (of (Walk.append fragment)) (Walk.append fragment) :=
  of_ok fun d => ⟨_, _, d, rfl⟩

theorem emit (e : Emission) : Answers (of (Walk.emit e)) (Walk.emit e) :=
  of_ok fun d => ⟨_, _, d, rfl⟩

theorem warn (subject : List Node) (approximation : Approximation) :
    Answers (of (Walk.warn subject approximation)) (Walk.warn subject approximation) :=
  of_ok fun d => ⟨_, _, d, rfl⟩

theorem changeSymbols (f : Symbols → Symbols) :
    Answers (of (Walk.changeSymbols f)) (Walk.changeSymbols f) :=
  of_ok fun _ => ⟨_, _, _, rfl⟩

theorem symbols : Answers (of Walk.symbols) Walk.symbols :=
  of_ok fun d => ⟨_, _, d, rfl⟩

theorem paired (equation : Equation Float) (make : (external branch : Nat) → Fragment) :
    Answers (of (Walk.paired equation make)) (Walk.paired equation make) :=
  of_ok fun d => ⟨_, _, _, Walk.paired_apply equation make d⟩

theorem malformed (subject : List Node) (flaw : Flaw) :
    Answers (of (Walk.malformed subject flaw)) (Walk.malformed subject flaw : Walk β) :=
  ⟨fun _ => rfl, fun _ _ => by rintro ⟨⟩⟩

theorem unresolved (name : String) :
    Answers (of (Walk.fail (.unresolvedReference name)))
      (Walk.fail (.unresolvedReference name) : Walk β) :=
  ⟨fun _ => rfl, fun _ _ => by rintro ⟨⟩⟩

theorem unsupported (symbol : String) :
    Answers (of (Walk.fail (.unsupportedOperator symbol)))
      (Walk.fail (.unsupportedOperator symbol) : Walk β) :=
  ⟨fun _ => rfl, fun _ _ => by rintro ⟨⟩⟩

theorem reading (subject : List Node) (result : Except Flaw β) :
    Answers (of (Walk.reading subject result)) (Walk.reading subject result) := by
  cases result with
  | error flaw => exact malformed subject flaw
  | ok b => exact pure b

theorem operated (symbol : String) :
    Answers (of (Walk.operated symbol)) (Walk.operated symbol) := by
  unfold Walk.operated
  split
  · exact append _
  · exact of_ok fun d => ⟨_, _, d, rfl⟩
  · exact unsupported symbol

theorem found {b : β} {o : Option β} (h : o = some b) {w : Walk γ} (hnext : Answers (next b) w) :
    Answers (Lookup.found o >>= next) w := by
  subst h
  refine ⟨fun d => ?_, hnext.reported⟩
  change ((next b d).map fun (es', result) => ([] ++ es', result)) = _
  rw [hnext.same]
  rfl

theorem enclosed (opening : Fragment) {body : Lookup Unit} {body' : Walk Unit}
    (h : Answers body body') : Answers (enclosed opening body) (Walk.enclosed opening body') :=
  (append opening).bind fun _ => h.bind fun _ => append .close

theorem called (function : Function) (subject : Node) (operand : List Node) {body : Lookup Unit}
    {body' : Walk Unit} (h : Answers body body') :
    Answers (called function subject operand body) (Walk.called function subject operand body') := by
  unfold Lookup.called Walk.called
  split
  · exact malformed _ _
  · exact h.enclosed _

theorem referred (equation : Equation Float) :
    Answers (of (Walk.referred equation)) (Walk.referred equation) := by
  refine of_ok fun d => ?_
  exact ⟨_, (), _, Walk.runs_referred.2 ⟨rfl, rfl⟩⟩

theorem then_return {c : Lookup Unit} {w : Walk Unit} (h : Answers c w) (b : β) :
    Answers (do c; Pure.pure b) (do w; Pure.pure b) :=
  h.bind fun _ => pure b

end Answers

/-! ## Every access is in range -/

theorem inner_eq (o : Operand) : inner o = some o.inner := by
  unfold inner Operand.inner
  by_cases h : o.isParenthesized = true
  · obtain ⟨opening, closing, -, -, hnodes⟩ := Operand.nodes_of_isParenthesized h
    have hlength : 2 ≤ o.nodes.length := by
      rw [hnodes]
      simp
    rw [if_pos h, if_pos h, slice, if_pos ⟨by omega, by omega⟩, List.drop_one,
      List.dropLast_eq_take, List.length_tail]
  · rw [if_neg h, if_neg h]

variable {nodes : List Node} {place : Nat} {node : Node}

/-- The anchor and what it consumes are among the nodes. -/
theorem slice_anchored {consumed : Nat} (hnode : nodes[place]? = some node)
    (h : consumed ≤ (nodes.drop (place + 1)).length) :
    slice nodes place (place + consumed + 1) =
      some ((node :: nodes.drop (place + 1)).take (consumed + 1)) := by
  obtain ⟨hplace, -⟩ := List.getElem?_eq_some_iff.1 hnode
  rw [List.length_drop] at h
  have hlength : place + consumed + 1 - place = consumed + 1 := by omega
  rw [slice, if_pos ⟨by omega, by omega⟩, hlength, drop_eq_cons hnode]

theorem slice_following (marked : Bool) (hnode : nodes[place]? = some node) :
    slice nodes place
        (place + (Operand.following marked (node :: nodes.drop (place + 1))).consumed + 1) =
      some ((node :: nodes.drop (place + 1)).take
        ((Operand.following marked (node :: nodes.drop (place + 1))).consumed + 1)) :=
  slice_anchored hnode (Operand.following_consumed_le marked node _)

/-- The next bar ends the nodes between the bars. -/
theorem slice_before_bar {rest : List Node} {length : Nat}
    (h : rest.findIdx? Node.isBar = some length) :
    slice rest 0 length = some (rest.takeWhile (!·.isBar)) ∧
      (rest.takeWhile (!·.isBar)).length = length := by
  obtain ⟨hlt, -, -⟩ := List.findIdx?_eq_some_iff_getElem.1 h
  have htake : rest.takeWhile (!·.isBar) = rest.take length := by
    rw [List.takeWhile_eq_take_findIdx_not]
    simp [List.findIdx_eq_getD_findIdx?, h]
  rw [slice, if_pos ⟨by omega, by omega⟩, htake, List.length_take]
  exact ⟨rfl, by omega⟩

section Anchor

variable {descend : List Node → Lookup Unit} {body : List Node → Walk Unit}
  (hnode : nodes[place]? = some node)
  (hdescend : ∀ operand, sizeOf operand < sizeOf (node :: nodes.drop (place + 1)) →
    Answers (descend operand) (body operand))

include hnode hdescend

theorem applied_answers (equation : Equation Float)
    (make : (external branch : Nat) → Fragment) :
    Answers
      (applied descend nodes place equation make
        (Operand.following false (node :: nodes.drop (place + 1))))
      (Walk.applied equation make (node :: nodes.drop (place + 1))
        (Operand.following false (node :: nodes.drop (place + 1)))
        (body (Operand.following false (node :: nodes.drop (place + 1))).inner)) := by
  unfold applied Walk.applied
  split
  · exact .found hnode (.malformed _ _)
  · refine .found (inner_eq _) ?_
    dsimp only
    split
    · exact .found (slice_following false hnode) (.malformed _ _)
    · refine (Answers.paired equation make).bind fun _ => ?_
      refine (hdescend _ (Operand.sizeOf_inner_following false node _)).bind fun _ => ?_
      exact (Answers.append .close).bind fun _ => .changeSymbols _

theorem named_answers (session : Session) (name : String) :
    Answers
      (named descend nodes place session name
        (Operand.following false (node :: nodes.drop (place + 1))))
      (Walk.named session name (node :: nodes.drop (place + 1))
        (Operand.following false (node :: nodes.drop (place + 1)))
        (body (Operand.following false (node :: nodes.drop (place + 1))).inner)) := by
  refine Answers.symbols.bind fun symbols => ?_
  cases (if symbols.isLocal name then none else session.resolve name) with
  | some equation =>
    dsimp only
    split
    · exact (applied_answers hnode hdescend equation .apply).then_return _
    · exact (Answers.referred equation).then_return _
  | none =>
    exact (Answers.changeSymbols _).bind fun _ => (Answers.append _).then_return _

theorem primed_answers (session : Session) (name : String) :
    Answers
      (primed descend nodes place session name
        (Operand.following false (node :: nodes.drop (place + 1))))
      (Walk.primed session name (node :: nodes.drop (place + 1))
        (Operand.following false (node :: nodes.drop (place + 1)))
        (body (Operand.following false (node :: nodes.drop (place + 1))).inner)) := by
  unfold primed Walk.primed
  cases session.resolveFunction name with
  | none => exact .unresolved name
  | some equation =>
    refine (applied_answers hnode hdescend equation _).bind fun _ => ?_
    exact .found (slice_following false hnode) ((Answers.warn _ _).then_return _)

theorem summed_answers (lower upper : Option (List Node)) :
    Answers
      (summed descend nodes place lower upper
        (Operand.following false (node :: nodes.drop (place + 1))))
      (Walk.summed node lower upper (Operand.following false (node :: nodes.drop (place + 1)))
        (body (Operand.following false (node :: nodes.drop (place + 1))).nodes)) := by
  refine .found hnode ?_
  refine (Answers.reading _ _).bind fun range => ?_
  refine (Answers.changeSymbols _).bind fun _ => ?_
  refine (Answers.changeSymbols _).bind fun _ => ?_
  split
  · exact .malformed _ _
  · exact ((hdescend _ (Operand.sizeOf_following false node _)).enclosed _).then_return _

theorem integrated_answers (config : Config) (lower upper : Option (List Node)) :
    Answers
      (integrated descend nodes place config lower upper
        (Operand.following true (node :: nodes.drop (place + 1))))
      (Walk.integrated config lower upper (node :: nodes.drop (place + 1))
        (Operand.following true (node :: nodes.drop (place + 1)))
        (body (Operand.following true (node :: nodes.drop (place + 1))).nodes)) := by
  refine .found hnode ?_
  refine (Answers.reading _ _).bind fun partition => ?_
  split
  · exact .malformed _ _
  · refine (Answers.changeSymbols _).bind fun _ => ?_
    refine .found (slice_following true hnode) ?_
    refine (Answers.warn _ _).bind fun _ => ?_
    exact ((hdescend _ (Operand.sizeOf_following true node _)).enclosed _).then_return _

theorem turned_answers (name : OperatorName) (function : Function)
    (lower upper : Option (List Node)) :
    Answers
      (turned descend nodes place name function lower upper
        (Operand.following false (node :: nodes.drop (place + 1))))
      (Walk.turned name function node lower upper
        (Operand.following false (node :: nodes.drop (place + 1)))
        (body (Operand.following false (node :: nodes.drop (place + 1))).nodes)) := by
  unfold turned Walk.turned
  refine .found hnode ?_
  split
  · exact .malformed _ _
  · exact ((hdescend _ (Operand.sizeOf_following false node _)).called _ _ _).then_return _

/-- A bar that is closed takes the nodes up to the next bar, and any other is refused. -/
theorem absolute_answers :
    Answers (absolute descend nodes place)
      (if Operand.isClosed (node :: nodes.drop (place + 1)) then do
        Walk.called .absolute node (Operand.absolute (node :: nodes.drop (place + 1))).nodes
          (body (Operand.absolute (node :: nodes.drop (place + 1))).nodes)
        return (Operand.absolute (node :: nodes.drop (place + 1))).consumed
      else Walk.malformed (node :: nodes.drop (place + 1)) .unclosedBar) := by
  unfold absolute
  dsimp only
  cases hbar : (nodes.drop (place + 1)).findIdx? Node.isBar with
  | none =>
    have hopen : Operand.isClosed (node :: nodes.drop (place + 1)) = false := by
      simpa [Operand.isClosed] using List.findIdx?_eq_none_iff.1 hbar
    rw [hopen, drop_eq_cons hnode]
    exact .malformed _ _
  | some length =>
    obtain ⟨hlt, hat, -⟩ := List.findIdx?_eq_some_iff_getElem.1 hbar
    have hclosed : Operand.isClosed (node :: nodes.drop (place + 1)) = true :=
      List.any_eq_true.2 ⟨_, List.getElem_mem hlt, hat⟩
    obtain ⟨hslice, hlength⟩ := slice_before_bar hbar
    have hconsumed : length + 1 =
        (Operand.absolute (node :: nodes.drop (place + 1))).consumed :=
      congrArg (· + 1) hlength.symm
    rw [hclosed, ← hconsumed]
    refine .found hslice (.found hnode ?_)
    exact ((hdescend _ (Operand.sizeOf_absolute node _)).called _ _ _).then_return _

end Anchor

/-- The walk over one node. -/
theorem visit_answers (session : Session) (depth : Nat) {descend : List Node → Lookup Unit}
    (hnode : nodes[place]? = some node)
    (hdescend : ∀ operand, sizeOf operand < sizeOf (node :: nodes.drop (place + 1)) →
      Answers (descend operand) (Walk.visitAll session (depth + 1) none operand)) :
    Answers (visit descend nodes place session)
      (Walk.visit session depth node (nodes.drop (place + 1))) := by
  have hsimple : ∀ part : Node, sizeOf part < sizeOf node →
      Answers (descend (Walk.simple part))
        (Walk.visitAll session (depth + 1) none (Walk.simple part)) := by
    intro part hpart
    apply hdescend
    have hle := Walk.sizeOf_simple part
    have hrest := sizeOf_pos (nodes.drop (place + 1))
    rw [List.cons.sizeOf_spec]
    omega
  have hchild : ∀ child : List Node, sizeOf child < sizeOf node →
      Answers (descend child) (Walk.visitAll session (depth + 1) none child) := by
    intro child hsize
    apply hdescend
    rw [List.cons.sizeOf_spec]
    omega
  refine .found hnode ?_
  rw [drop_eq_cons hnode]
  cases node with
  | literal text =>
    rw [Walk.visit]
    dsimp only
    split
    · exact absolute_answers hnode hdescend
    · exact (Answers.append _).then_return _
  | var name =>
    rw [Walk.visit]
    exact named_answers hnode hdescend session name
  | atom symbol =>
    rw [Walk.visit]
    exact (Answers.operated symbol).then_return _
  | power base exponent =>
    rw [Walk.visit]
    dsimp only
    split
    · exact .malformed _ _
    · refine (Answers.enclosed _ ?_).then_return _
      refine (hsimple base (by simp +arith)).bind fun _ => ?_
      exact (Answers.append _).bind fun _ => hsimple exponent (by simp +arith)
  | angle base =>
    rw [Walk.visit]
    dsimp only
    split
    · exact .malformed _ _
    · exact (hsimple base (by simp)).then_return _
  | prime base =>
    cases base with
    | var name =>
      rw [Walk.visit]
      exact primed_answers hnode hdescend session name
    | _ =>
      rw [Walk.visit]
      · exact .malformed _ _
      · rintro _ ⟨⟩
  | fraction numerator denominator =>
    rw [Walk.visit]
    dsimp only
    split
    · exact .malformed _ _
    · refine (Answers.enclosed _ ?_).then_return _
      refine ((hchild numerator (by simp +arith)).enclosed _).bind fun _ => ?_
      exact (Answers.append _).bind fun _ => (hchild denominator (by simp +arith)).enclosed _
  | root child =>
    rw [Walk.visit]
    exact ((hchild child (by simp)).called _ _ _).then_return _
  | group child =>
    rw [Walk.visit]
    exact (hchild child (by simp)).then_return _
  | named name lower upper =>
    cases name with
    | sum =>
      rw [Walk.visit]
      exact summed_answers hnode hdescend lower upper
    | integral =>
      rw [Walk.visit]
      exact integrated_answers hnode hdescend session.config lower upper
    | sin =>
      rw [visit_turned session depth rfl]
      exact turned_answers hnode hdescend .sin .sine lower upper
    | cos =>
      rw [visit_turned session depth rfl]
      exact turned_answers hnode hdescend .cos .cosine lower upper
    | tan =>
      rw [visit_turned session depth rfl]
      exact turned_answers hnode hdescend .tan .tangent lower upper

/-- The node before the place. -/
def previous? (nodes : List Node) (place : Nat) : Option Node :=
  if 0 < place then nodes[place - 1]? else none

/-- The node before a place at which there is a node is found. -/
theorem joint_answers (hnode : nodes[place]? = some node) :
    Answers (joint nodes place node)
      (if (previous? nodes place).any (·.juxtaposed node) then
        Walk.append (.operator .multiply)
      else Pure.pure ()) := by
  unfold joint previous?
  split
  · obtain ⟨hplace, -⟩ := List.getElem?_eq_some_iff.1 hnode
    have hlt : place - 1 < nodes.length := by omega
    have hbefore : nodes[place - 1]? = some nodes[place - 1] := List.getElem?_eq_getElem hlt
    refine .found hbefore ?_
    rw [hbefore, Option.any_some]
    split
    · exact .append _
    · exact .pure ()
  · exact .pure ()

/-- The last of the nodes that a node takes is the one before the place behind them. -/
theorem visitAll_previous (session : Session) (depth : Nat) (hnode : nodes[place]? = some node)
    (consumed : Nat) :
    Walk.visitAll session depth (previous? nodes (place + consumed + 1))
        (nodes.drop (place + consumed + 1)) =
      Walk.visitAll session depth (node :: (nodes.drop (place + 1)).take consumed).getLast?
        ((nodes.drop (place + 1)).drop consumed) := by
  have hdrop : nodes.drop (place + consumed + 1) = (nodes.drop (place + 1)).drop consumed := by
    rw [List.drop_drop]
    congr 1
    omega
  rw [hdrop]
  rcases hrest : (nodes.drop (place + 1)).drop consumed with _ | ⟨next, rest⟩
  · rw [Walk.visitAll, Walk.visitAll]
  · have hlength := congrArg List.length hrest
    rw [List.length_drop, List.length_drop, List.length_cons] at hlength
    have htaken : node :: (nodes.drop (place + 1)).take consumed =
        (nodes.drop place).take (consumed + 1) := by
      rw [drop_eq_cons hnode, List.take_succ_cons]
    have hlt : place + consumed < nodes.length := by omega
    have hbefore : nodes[place + consumed]? = some nodes[place + consumed] :=
      List.getElem?_eq_getElem hlt
    have hlast : ((nodes.drop place).take (consumed + 1)).getLast? = nodes[place + consumed]? := by
      rw [List.getLast?_take, if_neg (Nat.succ_ne_zero _), Nat.add_sub_cancel, List.getElem?_drop,
        hbefore, Option.some_or]
    rw [htaken, hlast, previous?, if_pos (Nat.succ_pos _), Nat.add_sub_cancel]

/-- The walk over the siblings from a place on. -/
theorem visitFrom_answers (session : Session) (depth : Nat) (nodes : List Node) (place : Nat) :
    Answers (visitFrom session depth nodes place)
      (Walk.visitAll session depth (previous? nodes place) (nodes.drop place)) := by
  rw [visitFrom]
  split
  · next hnone =>
    have hdrop : nodes.drop place = [] := List.drop_eq_nil_of_le (List.getElem?_eq_none_iff.1 hnone)
    rw [hdrop, Walk.visitAll]
    exact .pure ()
  · next node hnode =>
    have hdrop := drop_eq_cons hnode
    have hdescend : ∀ operand, sizeOf operand < sizeOf (node :: nodes.drop (place + 1)) →
        Answers (if sizeOf operand < sizeOf (node :: nodes.drop (place + 1))
            then visitFrom session (depth + 1) operand 0 else lost)
          (Walk.visitAll session (depth + 1) none operand) := by
      intro operand hoperand
      rw [if_pos hoperand]
      exact visitFrom_answers session (depth + 1) operand 0
    rw [hdrop, Walk.visitAll_cons]
    refine (joint_answers hnode).bind fun _ => ?_
    refine (Answers.emit _).bind fun _ => ?_
    refine (visit_answers session depth hnode hdescend).bind fun consumed => ?_
    have hrest := visitFrom_answers session depth nodes (place + consumed + 1)
    rwa [visitAll_previous session depth hnode consumed] at hrest
termination_by sizeOf (nodes.drop place)
decreasing_by
  · rwa [hdrop]
  · apply sizeOf_drop_lt
    assumption

end Lookup

/-! ## Branches by places -/

namespace BranchSet

/-- One copy of the set for each alternative, looked up by its place. -/
def chooseAt (s : BranchSet) (alternatives : List Fragment) : Option BranchSet :=
  ((List.range alternatives.length).mapM fun i => alternatives[i]?).map s.choose

def runAt (s : BranchSet) : Instruction → Option BranchSet
  | .choose alternatives => s.chooseAt alternatives
  | instruction => s.run instruction

theorem runAt_eq (s : BranchSet) (instruction : Instruction) :
    s.runAt instruction = s.run instruction := by
  cases instruction with
  | choose alternatives =>
    have hall : ((List.range alternatives.length).mapM fun i => alternatives[i]?) =
        some alternatives := by
      rw [mapM_eq_some_iff]
      apply List.ext_getElem
      · simp
      · intro i hi _
        have hlt : i < alternatives.length := by simpa using hi
        simp [hlt]
    rw [runAt, chooseAt, hall]
    rfl
  | _ => rfl

end BranchSet

namespace Session

open Lookup (slice)

/-- The signature and the right side, cut out of the nodes by the place of the first equality. -/
def sidesAt (nodes : List Node) : Option (Except CompileError (Option Binding × List Node)) :=
  match nodes.findIdx? Node.isEquality with
  | none => some (.ok (none, nodes))
  | some i => do
    let left ← slice nodes 0 i
    let right ← slice nodes (i + 1) nodes.length
    return (Binding.ofNodes left).map (some ·, right)

theorem sidesAt_eq (nodes : List Node) : sidesAt nodes = some (splitSides nodes) := by
  unfold sidesAt splitSides
  cases h : nodes.findIdx? Node.isEquality with
  | none => rfl
  | some i =>
    obtain ⟨hlt, -⟩ := List.findIdx?_eq_some_iff_getElem.1 h
    have hleft : slice nodes 0 i = some (nodes.take i) := by
      rw [slice, if_pos ⟨by omega, by omega⟩]
      rfl
    have hright : slice nodes (i + 1) nodes.length = some (nodes.drop (i + 1)) := by
      rw [slice, if_pos ⟨by omega, by omega⟩, List.take_of_length_le (by simp)]
    simp [hleft, hright]

/-- The equation that a walk has led to. There is no answer when a branch refers to an external it
has not been paired with. -/
def freezeAt (binding : Option Binding) (declared : Declared) (es : List Emission) :
    Option (Except CompileError (Equation Float)) := do
  let set ← (Emission.instructions es).foldlM BranchSet.runAt {}
  return (set.branches.mapM fun branch => Expression.parse branch.fragments).map fun branches =>
    { binding
      arguments := declared.symbols.arguments
      bound := declared.symbols.bound
      branches
      externals := declared.externals }

/-- Compiles an equation, with every access by place. -/
noncomputable def compileAt (s : Session) (nodes : List Node) :
    Option (Compilation (Equation Float)) := do
  match ← sidesAt nodes with
  | .error e => return ⟨[], .error e, s⟩
  | .ok (binding, right) =>
    match ← Lookup.visitFrom s 0 right 0 (declaredBy binding) with
    | (es, .error e) => return ⟨es, .error e, s⟩
    | (es, .ok ((), declared)) =>
      match ← freezeAt binding declared es with
      | .error e => return ⟨es, .error e, s⟩
      | .ok equation => return ⟨es ++ [.frozen equation], .ok equation, s.register equation⟩

/-- Every branch has been paired with the externals it refers to. -/
theorem exists_runAll {s : Session} {binding : Option Binding} {depth : Nat} {stretch : Stretch}
    {es : List Emission} {d : Declared} (h : Visits s depth stretch (declaredBy binding) es d) :
    ∃ set, BranchSet.runAll {} (Emission.instructions es) = some set := by
  have hfirst := h.counts.pairsFirst
  have hnone : Declared.places (declaredBy binding).externals = fun _ => false := rfl
  rw [hnone] at hfirst
  obtain ⟨set, hrun, -⟩ := BranchSet.exists_multiplies BranchSet.pairedAs_empty hfirst
  exact ⟨set, hrun⟩

theorem freezeAt_eq {s : Session} {binding : Option Binding} {right : List Node}
    {es : List Emission} {d : Declared}
    (h : Visits s 0 (.siblings none right) (declaredBy binding) es d) :
    freezeAt binding d es = some (freeze binding d es) := by
  obtain ⟨set, hrun⟩ := exists_runAll h
  have hrunAt : (Emission.instructions es).foldlM BranchSet.runAt {} = some set := by
    rw [← hrun, BranchSet.runAll]
    congr 1
    funext s instruction
    exact s.runAt_eq instruction
  rw [freezeAt, hrunAt, freeze, readBranches, hrun]
  rfl

theorem walk_eq (s : Session) (binding : Option Binding) (right : List Node) :
    s.walk binding right {} = Walk.visitAll s 0 none right (declaredBy binding) := by
  rw [walk, Walk.bind_apply]
  rfl

/-- Compiling by places has an answer, and it is that of compiling. -/
theorem compileAt_eq (s : Session) (nodes : List Node) :
    s.compileAt nodes = some (s.compile nodes) := by
  rw [compileAt, sidesAt_eq, compile, assemble]
  cases hsides : splitSides nodes with
  | error e => rfl
  | ok sides =>
    obtain ⟨binding, right⟩ := sides
    have hanswer : Lookup.visitFrom s 0 right 0 (declaredBy binding) =
        some (s.walk binding right {}) := by
      rw [walk_eq]
      exact (Lookup.visitFrom_answers s 0 right 0).same _
    simp only [Option.bind_eq_bind, Option.bind_some, hanswer]
    rcases hwalk : s.walk binding right {} with ⟨es, error | ⟨u, d⟩⟩
    · rfl
    · simp only [freezeAt_eq (walk_eq_ok_iff.1 hwalk), Option.bind_some]
      cases freeze binding d es <;> rfl

theorem parse_reported (code : List Fragment) : Expression.parse code ≠ .error .unpaired := by
  rw [Expression.parse]
  cases Expression.ofCode code <;> rintro ⟨⟩

theorem mapM_parse_reported (branches : List Branch) :
    (branches.mapM fun branch => Expression.parse branch.fragments) ≠ .error .unpaired := by
  induction branches with
  | nil => rintro ⟨⟩
  | cons branch branches ih =>
    rw [List.mapM_cons]
    cases hparse : Expression.parse branch.fragments with
    | error e =>
      intro h
      obtain rfl : e = .unpaired := Except.error.inj h
      exact parse_reported _ hparse
    | ok expression =>
      cases hrest : branches.mapM fun branch => Expression.parse branch.fragments with
      | error e =>
        intro h
        obtain rfl : e = .unpaired := Except.error.inj h
        exact ih hrest
      | ok expressions => rintro ⟨⟩

theorem splitSides_reported (nodes : List Node) : splitSides nodes ≠ .error .unpaired := by
  unfold splitSides
  cases nodes.findIdx? Node.isEquality with
  | none => rintro ⟨⟩
  | some i =>
    dsimp only
    rw [Binding.ofNodes]
    cases Binding.read (nodes.take i) <;> rintro ⟨⟩

theorem freeze_reported {s : Session} {binding : Option Binding} {right : List Node}
    {es : List Emission} {d : Declared}
    (h : Visits s 0 (.siblings none right) (declaredBy binding) es d) :
    freeze binding d es ≠ .error .unpaired := by
  obtain ⟨set, hrun⟩ := exists_runAll h
  rw [freeze, readBranches, hrun]
  dsimp only
  cases hbranches : set.branches.mapM fun branch => Expression.parse branch.fragments with
  | error e =>
    intro h
    obtain rfl : e = .unpaired := Except.error.inj h
    exact mapM_parse_reported _ hbranches
  | ok branches => rintro ⟨⟩

/-- No part of compiling fails but with one of the errors that are reported. -/
theorem outcome_reported (s : Session) (nodes : List Node) :
    (s.compile nodes).outcome ≠ .error .unpaired := by
  rw [compile, assemble]
  cases hsides : splitSides nodes with
  | error e =>
    intro h
    obtain rfl : e = .unpaired := Except.error.inj h
    exact splitSides_reported nodes hsides
  | ok sides =>
    obtain ⟨binding, right⟩ := sides
    dsimp only
    rcases hwalk : s.walk binding right {} with ⟨es, error | ⟨u, d⟩⟩
    · intro h
      obtain rfl : error = .unpaired := Except.error.inj h
      rw [walk_eq] at hwalk
      exact (Lookup.visitFrom_answers s 0 right 0).reported _ es hwalk
    · have hfreeze := freeze_reported (walk_eq_ok_iff.1 hwalk)
      dsimp only
      cases hfrozen : freeze binding d es with
      | error e =>
        intro h
        obtain rfl : e = .unpaired := Except.error.inj h
        exact hfreeze hfrozen
      | ok equation => rintro ⟨⟩

/-- Compiling ends, with no access out of range, and gives an equation or one of three errors. -/
theorem compile_total (s : Session) (nodes : List Node) :
    s.compileAt nodes = some (s.compile nodes) ∧
      ((∃ equation, (s.compile nodes).outcome = .ok equation) ∨
        (∃ symbol, (s.compile nodes).outcome = .error (.unsupportedOperator symbol)) ∨
        (∃ subject flaw, (s.compile nodes).outcome = .error (.malformed subject flaw)) ∨
        ∃ name, (s.compile nodes).outcome = .error (.unresolvedReference name)) := by
  refine ⟨compileAt_eq s nodes, ?_⟩
  have hreported := outcome_reported s nodes
  cases houtcome : (s.compile nodes).outcome with
  | ok equation => exact .inl ⟨equation, rfl⟩
  | error e =>
    cases e with
    | unsupportedOperator symbol => exact .inr (.inl ⟨symbol, rfl⟩)
    | malformed subject flaw => exact .inr (.inr (.inl ⟨subject, flaw, rfl⟩))
    | unresolvedReference name => exact .inr (.inr (.inr ⟨name, rfl⟩))
    | unpaired => exact absurd houtcome hreported

end Session

end Formulary
