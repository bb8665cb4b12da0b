import Formulary.Proofs.Paraphrase.Readings
import Formulary.Proofs.Visits

/-!
# Walking nodes in other words

A walk over nodes in other words goes the same way: both fail for the same kind of cause, or both
declare the same equations under their names and emit code that grows the same branches, whether a
number is appended in one piece or in two.
-/

namespace Formulary

/-! ## What is compared -/

namespace CompileError

/-- The cause of an error without its particulars. -/
inductive Kind
  | unsupportedOperator
  | malformed
  | unresolvedReference
  | unpaired
deriving DecidableEq, Repr

def kind : CompileError → Kind
  | unsupportedOperator _ => .unsupportedOperator
  | malformed .. => .malformed
  | unresolvedReference _ => .unresolvedReference
  | unpaired => .unpaired

end CompileError

namespace Emission

/-- The approximations that are warned of, without their places. -/
def approximations (es : List Emission) : List Approximation :=
  (warnings es).map (·.approximation)

theorem approximations_append (es es' : List Emission) :
    approximations (es ++ es') = approximations es ++ approximations es' := by
  rw [approximations, warnings_append, List.map_append]
  rfl

end Emission

namespace Instruction

/-- From branches under other names, the second instructions grow what the first grow. -/
def Grows (f : String → String) (is is' : List Instruction) : Prop :=
  ∀ set : BranchSet, (set.rename f).runAll is' = (set.runAll is).map (BranchSet.rename f)

variable {f : String → String} {is is' more more' : List Instruction}

theorem Grows.nil : Grows f [] [] := fun _ => rfl

theorem Grows.single (i : Instruction) : Grows f [i] [i.rename f] := by
  intro set
  simp [BranchSet.runAll, BranchSet.run_rename]

theorem Grows.append (h : Grows f is is') (hmore : Grows f more more') :
    Grows f (is ++ more) (is' ++ more') := by
  intro set
  have hset : (set.rename f).runAll is' = (set.runAll is).map (BranchSet.rename f) := h set
  simp only [BranchSet.runAll, List.foldlM_append] at hset ⊢
  rw [hset]
  cases List.foldlM BranchSet.run set is with
  | none => rfl
  | some grown => exact hmore grown

theorem append_pieces (set : BranchSet) (first second : String) :
    (set.append (.number first)).append (.number second) =
      set.append (.number (first ++ second)) := by
  have hbranch : ∀ b : Branch, (b.append (.number first)).append (.number second) =
      b.append (.number (first ++ second)) := by
    rintro ⟨code, pairings⟩
    rcases code with _ | ⟨last, code⟩
    · rfl
    · cases last with
      | number text => simp [Branch.append, String.append_assoc]
      | _ => rfl
  simp [BranchSet.append, hbranch]

/-- A number appended in two pieces. -/
theorem Grows.pieces (first second : String) :
    Grows f [.append (.number (first ++ second))]
      [.append (.number first), .append (.number second)] := by
  intro set
  have hset : (set.rename f).append (.number (first ++ second)) =
      (set.append (.number (first ++ second))).rename f :=
    set.append_rename f (.number (first ++ second))
  simp [BranchSet.runAll, BranchSet.run, append_pieces, hset]

end Instruction

/-! ## Two walks side by side -/

namespace Walk

variable {α β γ δ : Type} {f : String → String}

/-- Both walks have failed, or both have ended well. -/
inductive SameEnd (f : String → String) (R : β → γ → Prop) :
    List Emission × Except CompileError (β × Declared) →
      List Emission × Except CompileError (γ × Declared) → Prop
  | failed {es es' : List Emission} {e e' : CompileError} :
      Emission.approximations es' = Emission.approximations es → e'.kind = e.kind →
        SameEnd f R (es, .error e) (es', .error e')
  | ended {es es' : List Emission} {b : β} {c : γ} {d : Declared} :
      Emission.approximations es' = Emission.approximations es →
      Instruction.Grows f (Emission.instructions es) (Emission.instructions es') → R b c →
        SameEnd f R (es, .ok (b, d)) (es', .ok (c, d.rename f))

/-- From the same declarations under other names, both walks end in the same way. -/
def Parallel (f : String → String) (R : β → γ → Prop) (w : Walk β) (w' : Walk γ) : Prop :=
  ∀ d, SameEnd f R (w d) (w' (d.rename f))

namespace Parallel

variable {R : β → γ → Prop} {w : Walk β} {w' : Walk γ}

theorem bind {T : α → δ → Prop} {next : β → Walk α} {next' : γ → Walk δ} (h : Parallel f R w w')
    (hnext : ∀ b c, R b c → Parallel f T (next b) (next' c)) :
    Parallel f T (w >>= next) (w' >>= next') := by
  intro d
  have hd := h d
  rw [bind_apply, bind_apply]
  generalize w d = result at hd ⊢
  generalize w' (d.rename f) = result' at hd ⊢
  cases hd with
  | failed hwarned hkind => exact .failed hwarned hkind
  | @ended es es' b c d₁ hwarned hgrows hR =>
    have hd₁ := hnext b c hR d₁
    simp only
    generalize next b d₁ = result at hd₁ ⊢
    generalize next' c (d₁.rename f) = result' at hd₁ ⊢
    cases hd₁ with
    | failed hwarned' hkind =>
      refine .failed ?_ hkind
      rw [Emission.approximations_append, Emission.approximations_append, hwarned, hwarned']
    | ended hwarned' hgrows' hT =>
      refine .ended ?_ ?_ hT
      · rw [Emission.approximations_append, Emission.approximations_append, hwarned, hwarned']
      · rw [Emission.instructions_append, Emission.instructions_append]
        exact hgrows.append hgrows'

theorem fail {e e' : CompileError} (h : e'.kind = e.kind) :
    Parallel f R (Walk.fail e) (Walk.fail e') :=
  fun _ => .failed rfl h

theorem malformed (subject subject' : List Node) (flaw flaw' : Flaw) :
    Parallel f R (Walk.malformed subject flaw) (Walk.malformed subject' flaw') :=
  fail rfl

theorem pure {b : β} {c : γ} (h : R b c) : Parallel f R (Pure.pure b) (Pure.pure c) :=
  fun _ => .ended rfl .nil h

/-- Further results by which what follows may differ. -/
theorem then_return {w w' : Walk Unit} (h : Parallel f Eq w w') {b : β} {c : γ} (hR : R b c) :
    Parallel f R (w >>= fun _ => Pure.pure b) (w' >>= fun _ => Pure.pure c) :=
  h.bind fun _ _ _ => pure hR

/-- A step that declares nothing. -/
theorem silent {w w' : Walk Unit} {es es' : List Emission} (hw : ∀ d, w d = (es, .ok ((), d)))
    (hw' : ∀ d, w' d = (es', .ok ((), d)))
    (hwarned : Emission.approximations es' = Emission.approximations es)
    (hgrows : Instruction.Grows f (Emission.instructions es) (Emission.instructions es')) :
    Parallel f Eq w w' := by
  intro d
  rw [hw, hw']
  exact .ended hwarned hgrows rfl

theorem instruct (i : Instruction) :
    Parallel f Eq (Walk.instruct i) (Walk.instruct (i.rename f)) :=
  silent (fun _ => rfl) (fun _ => rfl) rfl (.single i)

theorem append (fragment : Fragment) :
    Parallel f Eq (Walk.append fragment) (Walk.append (fragment.rename f)) :=
  instruct (.append fragment)

theorem visit (depth depth' : Nat) (node node' : Node) :
    Parallel f Eq (emit (.visit depth node)) (emit (.visit depth' node')) :=
  silent (fun _ => rfl) (fun _ => rfl) rfl .nil

theorem warn (subject subject' : List Node) (approximation : Approximation) :
    Parallel f Eq (Walk.warn subject approximation) (Walk.warn subject' approximation) :=
  silent (fun _ => rfl) (fun _ => rfl) rfl .nil

theorem operated {symbol symbol' : String}
    (h : Mark.ofSymbol? symbol' = Mark.ofSymbol? symbol) :
    Parallel f Eq (Walk.operated symbol) (Walk.operated symbol') := by
  rw [Walk.operated, Walk.operated, Entry.ofSymbol?, Entry.ofSymbol?, h]
  -- No entry of the operator table has a name in it.
  cases Mark.ofSymbol? symbol with
  | none => exact fail rfl
  | some mark =>
    cases mark with
    | equality => exact fail rfl
    | plusMinus => exact instruct (.choose [.operator .add, .operator .subtract])
    | opening => exact append .openParen
    | closing => exact append .close
    | separator => exact append .separator
    | plus => exact append (.operator .add)
    | minus => exact append (.operator .subtract)
    | times => exact append (.operator .multiply)
    | division => exact append (.operator .divide)

theorem reading {g : α → δ} {T : β → γ → Prop} (subject subject' : List Node)
    {result : Except Flaw α} {result' : Except Flaw δ} (h : result' = result.map g)
    {next : α → Walk β} {next' : δ → Walk γ}
    (hnext : ∀ a, Parallel f T (next a) (next' (g a))) :
    Parallel f T (Walk.reading subject result >>= next)
      (Walk.reading subject' result' >>= next') := by
  subst h
  cases result with
  | error flaw => exact fun _ => .failed rfl rfl
  | ok a =>
    have hnext := hnext a
    rw [← pure_bind a next, ← pure_bind (g a) next'] at hnext
    exact hnext

theorem symbols : Parallel f (fun s s' => s' = s.rename f) Walk.symbols Walk.symbols :=
  fun _ => .ended rfl .nil rfl

theorem changeSymbols {g g' : Symbols → Symbols}
    (h : ∀ symbols : Symbols, g' (symbols.rename f) = (g symbols).rename f) :
    Parallel f Eq (Walk.changeSymbols g) (Walk.changeSymbols g') := by
  intro d
  have hd : ({ d.rename f with symbols := g' (d.rename f).symbols } : Declared) =
      ({ d with symbols := g d.symbols } : Declared).rename f :=
    congrArg (Declared.mk · (d.rename f).externals) (h d.symbols)
  rw [Walk.changeSymbols, Walk.changeSymbols, hd]
  exact .ended rfl .nil rfl

theorem addArguments (hf : Function.Injective f) (names : List String) :
    Parallel f Eq (Walk.changeSymbols (·.addArguments names))
      (Walk.changeSymbols (·.addArguments (names.map f))) :=
  changeSymbols fun symbols => symbols.addArguments_rename hf names

theorem addBound (hf : Function.Injective f) (name : String) :
    Parallel f Eq (Walk.changeSymbols (·.addBound name))
      (Walk.changeSymbols (·.addBound (f name))) :=
  changeSymbols fun symbols => symbols.addBound_rename hf name

theorem enclosed (opening : Fragment) {body body' : Walk Unit} (h : Parallel f Eq body body') :
    Parallel f Eq (Walk.enclosed opening body) (Walk.enclosed (opening.rename f) body') :=
  (append opening).bind fun _ _ _ => h.bind fun _ _ _ => append .close

theorem called (function : Function) {subject subject' : Node} {operand operand' : List Node}
    {body body' : Walk Unit} (hoperand : operand'.isEmpty = operand.isEmpty)
    (h : Parallel f Eq body body') :
    Parallel f Eq (Walk.called function subject operand body)
      (Walk.called function subject' operand' body') := by
  rw [Walk.called, Walk.called, hoperand]
  split
  · exact malformed _ _ _ _
  · exact enclosed (.call function) h

theorem paired (hf : Function.Injective f) (equation : Equation Float)
    {make make' : (external branch : Nat) → Fragment}
    (h : ∀ external branch, make' external branch = (make external branch).rename f) :
    Parallel f Eq (Walk.paired equation make) (Walk.paired (equation.rename f) make') := by
  intro d
  have hmake : make' (d.placeOf equation) = fun branch =>
      (make (d.placeOf equation) branch).rename f := funext (h (d.placeOf equation))
  rw [paired_apply, paired_apply, d.declaring_rename hf equation]
  refine .ended rfl ?_ rfl
  simp only [pairing, d.placeOf_rename hf equation, Equation.branchCount_rename, hmake]
  exact (Instruction.Grows.single (.pair (d.placeOf equation) equation.branchCount)).append
    (.single (.appendPaired (d.placeOf equation) (make (d.placeOf equation))))

theorem referred (hf : Function.Injective f) (equation : Equation Float) :
    Parallel f Eq (Walk.referred equation) (Walk.referred (equation.rename f)) := by
  have hpaired : Parallel f Eq (Walk.paired equation .reference)
      (Walk.paired (equation.rename f) .reference) := paired hf equation fun _ _ => rfl
  rw [Walk.referred, Walk.referred, Equation.arguments_rename]
  exact hpaired.bind fun _ _ _ => addArguments hf equation.arguments

section Operand

variable {p : Paraphrase} {rest rest' : List Node} {operand operand' : Operand}
  {body body' : Walk Unit} (hoperand : p.SameOperand rest rest' operand operand')

include hoperand

theorem applied (equation : Equation Float) {make make' : (external branch : Nat) → Fragment}
    (hmake : ∀ external branch, make' external branch = (make external branch).rename p.name)
    (anchored anchored' : List Node) (h : Parallel p.name Eq body body') :
    Parallel p.name Eq (Walk.applied equation make anchored operand body)
      (Walk.applied (equation.rename p.name) make' anchored' operand' body') := by
  have hcount : Operand.argumentCount operand'.inner = Operand.argumentCount operand.inner :=
    Paraphrase.argumentCount_eq (Paraphrase.inner_related hoperand.nodes)
  simp only [Walk.applied, Paraphrase.isParenthesized_eq hoperand.nodes, hcount,
    Equation.parameters_rename, List.length_map, Equation.freeArguments_rename]
  split
  · exact malformed _ _ _ _
  · split
    · exact malformed _ _ _ _
    · exact (paired p.name_injective equation hmake).bind fun _ _ _ => h.bind fun _ _ _ =>
        (append .close).bind fun _ _ _ => addArguments p.name_injective equation.freeArguments

theorem named (s : Session) (name : String) (hrest : p.RelatesAll rest rest')
    (anchored anchored' : List Node) (h : Parallel p.name Eq body body') :
    Parallel p.name (p.Takes rest rest') (Walk.named s name anchored operand body)
      (Walk.named (s.rename p.name) (p.name name) anchored' operand' body') := by
  refine symbols.bind fun symbols symbols' hsymbols => ?_
  have hmeant : (if symbols'.isLocal (p.name name) then none
        else (s.rename p.name).resolve (p.name name)) =
      (if symbols.isLocal name then none else s.resolve name).map (Equation.rename p.name) := by
    rw [hsymbols, Symbols.isLocal_rename p.name_injective, Session.resolve_rename p.name_injective]
    split <;> rfl
  rw [hmeant]
  cases if symbols.isLocal name then none else s.resolve name with
  | none =>
    exact (addArguments p.name_injective [name]).bind fun _ _ _ =>
      (append (.var name)).then_return (.none hrest)
  | some equation =>
    simp only [Option.map_some, Equation.isFunction_rename]
    split
    · exact (applied hoperand equation (fun _ _ => rfl) anchored anchored' h).then_return
        hoperand.takes
    · exact (referred p.name_injective equation).then_return (.none hrest)

theorem primed (s : Session) (name : String) (anchored anchored' : List Node)
    (h : Parallel p.name Eq body body') :
    Parallel p.name (p.Takes rest rest') (Walk.primed s name anchored operand body)
      (Walk.primed (s.rename p.name) (p.name name) anchored' operand' body') := by
  rw [Walk.primed, Walk.primed, Session.resolveFunction_rename p.name_injective]
  cases s.resolveFunction name with
  | none => exact fail rfl
  | some equation =>
    exact (applied hoperand equation (fun _ _ => rfl) anchored anchored' h).bind fun _ _ _ =>
      (warn _ _ _).then_return hoperand.takes

section Limits

variable {lower lower' upper upper' : Option (List Node)} (hlower : p.RelatesLimit lower lower')
  (hupper : p.RelatesLimit upper upper')

include hlower hupper

theorem summed (subject subject' : Node) (h : Parallel p.name Eq body body') :
    Parallel p.name (p.Takes rest rest') (Walk.summed subject lower upper operand body)
      (Walk.summed subject' lower' upper' operand' body') := by
  refine reading _ _ (Paraphrase.sumRange_eq hlower hupper) fun range => ?_
  rw [SumRange.names_rename, hoperand.nodes.isEmpty]
  refine (addArguments p.name_injective range.names).bind fun _ _ _ =>
    (addBound p.name_injective range.index).bind fun _ _ _ => ?_
  split
  · exact malformed _ _ _ _
  · exact (enclosed (.sum range.index range.lower range.upper) h).then_return hoperand.takes

theorem integrated (config : Config) (anchored anchored' : List Node)
    (h : Parallel p.name Eq body body') :
    Parallel p.name (p.Takes rest rest')
      (Walk.integrated config lower upper anchored operand body)
      (Walk.integrated (config.rename p.name) lower' upper' anchored' operand' body') := by
  have hname : operand'.differential.getD (config.rename p.name).differential =
      p.name (operand.differential.getD config.differential) := by
    rw [hoperand.differential]
    cases operand.differential <;> rfl
  have hpartition : Partition.ofLimits (config.rename p.name).partitions lower' upper' =
      (Partition.ofLimits config.partitions lower upper).map id := by
    rw [Except.map_id]
    exact Paraphrase.partition_eq config.partitions hlower hupper
  refine reading _ _ hpartition fun partition => ?_
  rw [hoperand.nodes.isEmpty, hname]
  split
  · exact malformed _ _ _ _
  · exact (addBound p.name_injective _).bind fun _ _ _ => (warn _ _ _).bind fun _ _ _ =>
      (enclosed (.integral (operand.differential.getD config.differential) partition.start
        partition.width config.partitions config.rule) h).then_return hoperand.takes

theorem turned (name : OperatorName) (function : Function) (subject subject' : Node)
    (h : Parallel p.name Eq body body') :
    Parallel p.name (p.Takes rest rest')
      (Walk.turned name function subject lower upper operand body)
      (Walk.turned name function subject' lower' upper' operand' body') := by
  have hlimits : (lower'.isSome || upper'.isSome) = (lower.isSome || upper.isSome) := by
    cases hlower <;> cases hupper <;> rfl
  rw [Walk.turned, Walk.turned, hlimits]
  split
  · exact malformed _ _ _ _
  · exact (called function hoperand.nodes.isEmpty h).then_return hoperand.takes

end Limits

end Operand

end Parallel

/-! ## The nodes -/

section Nodes

variable {p : Paraphrase}

theorem visitAll_piece {text : String} (h : text ≠ Node.bar) (s : Session) (depth : Nat)
    (previous : Option Node) (rest : List Node) :
    visitAll s depth previous (.literal text :: rest) =
      (if previous.any (·.juxtaposed (.literal text)) then append (.operator .multiply)
        else pure ()) >>= fun _ =>
      (emit (.visit depth (.literal text)) >>= fun _ => append (.number text)) >>= fun _ =>
      visitAll s depth (some (.literal text)) rest := by
  rw [visitAll_cons, visit, if_neg h]
  simp only [bind_assoc, pure_bind]
  rfl

/-- Between two pieces of a number no sign is put in. -/
theorem visitAll_pieces {first second : String} (hfirst : first ≠ Node.bar)
    (hsecond : second ≠ Node.bar) (s : Session) (depth : Nat) (previous : Option Node)
    (rest : List Node) :
    visitAll s depth previous (.literal first :: .literal second :: rest) =
      (if previous.any (·.juxtaposed (.literal first)) then append (.operator .multiply)
        else pure ()) >>= fun _ =>
      (emit (.visit depth (.literal first)) >>= fun _ => append (.number first) >>= fun _ =>
        emit (.visit depth (.literal second)) >>= fun _ => append (.number second)) >>= fun _ =>
      visitAll s depth (some (.literal second)) rest := by
  have hnumeric : (Node.literal first).juxtaposed (.literal second) = false := by
    simp [Node.juxtaposed, Node.isNumeric, hfirst, hsecond]
  rw [visitAll_piece hfirst, visitAll_piece hsecond, Option.any_some, hnumeric]
  simp only [bind_assoc, pure_bind, Bool.false_eq_true, if_false]

theorem parallel_pieces (f : String → String) (depth : Nat) (first second : String) :
    Parallel f Eq
      (emit (.visit depth (.literal (first ++ second))) >>= fun _ =>
        append (.number (first ++ second)))
      (emit (.visit depth (.literal first)) >>= fun _ => append (.number first) >>= fun _ =>
        emit (.visit depth (.literal second)) >>= fun _ => append (.number second)) :=
  .silent (fun _ => rfl) (fun _ => rfl) rfl (.pieces first second)

/-- A sign is put in before both nodes, or before neither. -/
theorem parallel_joint (f : String → String) {previous previous' : Option Node}
    {node node' : Node} (hprevious : Option.Rel Node.SameOutline previous previous')
    (h : node.SameOutline node') :
    Parallel f Eq
      (if previous.any (·.juxtaposed node) then append (.operator .multiply) else pure ())
      (if previous'.any (·.juxtaposed node') then append (.operator .multiply) else pure ()) := by
  rw [Node.SameOutline.any hprevious fun _ _ hsibling => hsibling.juxtaposed h]
  split
  · exact .append (.operator .multiply)
  · exact .pure rfl

private theorem siblings_parallel {s : Session} {depth : Nat} {previous previous' : Option Node}
    {node : Node} {rest nodes' : List Node}
    (hprevious : Option.Rel Node.SameOutline previous previous')
    (h : p.RelatesAll (node :: rest) nodes')
    (hnode : ∀ node' rest', p.Relates node node' → p.RelatesAll rest rest' →
      Parallel p.name (p.Takes rest rest') (visit s depth node rest)
        (visit (s.rename p.name) depth node' rest'))
    (hrest : ∀ consumed previous' nodes',
      Option.Rel Node.SameOutline (node :: rest.take consumed).getLast? previous' →
      p.RelatesAll (rest.drop consumed) nodes' →
        Parallel p.name Eq
          (visitAll s depth (node :: rest.take consumed).getLast? (rest.drop consumed))
          (visitAll (s.rename p.name) depth previous' nodes')) :
    Parallel p.name Eq (visitAll s depth previous (node :: rest))
      (visitAll (s.rename p.name) depth previous' nodes') := by
  cases h with
  | cons hrelates hbehind =>
    rw [visitAll_cons, visitAll_cons]
    exact (parallel_joint _ hprevious hrelates.outline).bind fun _ _ _ =>
      (Parallel.visit _ _ _ _).bind fun _ _ _ =>
        (hnode _ _ hrelates hbehind).bind fun consumed consumed' htakes =>
          hrest consumed _ _ (Paraphrase.RelatesAll.cons hrelates htakes.taken).last htakes.behind
  | @split first second _ rest' hsplit hbehind =>
    obtain ⟨hfirst, hsecond, hboth⟩ := p.ne_bar_of_split hsplit
    rw [visitAll_piece hboth, visitAll_pieces hfirst hsecond]
    exact (parallel_joint _ hprevious (Paraphrase.outline_first hsplit)).bind fun _ _ _ =>
      (parallel_pieces _ _ _ _).bind fun _ _ _ =>
        hrest 0 _ _ (.some (Paraphrase.outline_second hsplit)) hbehind

private theorem prime_malformed {s : Session} {depth : Nat} {base : Node}
    (h : ∀ name, base ≠ .var name) (rest : List Node) :
    visit s depth (.prime base) rest = malformed [.prime base] .primeBase := by
  rw [visit]
  exact h

private theorem turned_parallel {s : Session} {depth : Nat} {operator : OperatorName}
    {function : Function} (hturning : operator.turning? = some function)
    {lower upper : Option (List Node)} {node' : Node} {rest rest' : List Node}
    (hnode : p.Relates (.named operator lower upper) node') (hrest : p.RelatesAll rest rest')
    (ih : ∀ {body' : List Node},
      p.RelatesAll (Operand.following false (.named operator lower upper :: rest)).nodes body' →
        Parallel p.name Eq
          (visitAll s (depth + 1) none
            (Operand.following false (.named operator lower upper :: rest)).nodes)
          (visitAll (s.rename p.name) (depth + 1) none body')) :
    Parallel p.name (p.Takes rest rest') (visit s depth (.named operator lower upper) rest)
      (visit (s.rename p.name) depth node' rest') := by
  cases hnode with
  | @named _ _ lower' _ upper' hlower hupper =>
    have hoperand := Paraphrase.following_related false (.named operator lower upper)
      (.named operator lower' upper') hrest
    rw [visit_turned _ _ hturning, visit_turned _ _ hturning]
    exact .turned hoperand hlower hupper operator function _ _ (ih hoperand.nodes)

/-- The walk over nodes in other words goes the same way, node by node. -/
theorem visitAll_parallel (p : Paraphrase) (s : Session) :
    (∀ depth previous nodes, ∀ previous' nodes', Option.Rel Node.SameOutline previous previous' →
      p.RelatesAll nodes nodes' →
        Parallel p.name Eq (visitAll s depth previous nodes)
          (visitAll (s.rename p.name) depth previous' nodes')) ∧
    ∀ depth node rest, ∀ node' rest', p.Relates node node' → p.RelatesAll rest rest' →
      Parallel p.name (p.Takes rest rest') (visit s depth node rest)
        (visit (s.rename p.name) depth node' rest') := by
  apply Walk.visitAll.mutual_induct s
  · intro depth previous previous' nodes' _ h
    cases h
    rw [visitAll, visitAll]
    exact .pure rfl
  · intro depth previous node rest _ hnode hrest previous' nodes' hprevious h
    exact siblings_parallel hprevious h hnode hrest
  · intro depth previous node rest _ hnode hrest previous' nodes' hprevious h
    exact siblings_parallel hprevious h hnode hrest
  · intro depth rest operand hclosed ih node' rest' hnode hrest
    cases hnode
    have hoperand := Paraphrase.absolute_related (.literal Node.bar) (.literal Node.bar) hrest
      hclosed
    have hclosed' := (Paraphrase.isClosed_eq (.literal Node.bar) (.literal Node.bar) hrest).trans
      hclosed
    rw [visit, visit, if_pos rfl, if_pos rfl, if_pos hclosed, if_pos hclosed']
    exact (Parallel.called .absolute hoperand.nodes.isEmpty
      (ih none _ .none hoperand.nodes)).then_return hoperand.takes
  · intro depth rest hclosed node' rest' hnode hrest
    cases hnode
    have hclosed' := (Paraphrase.isClosed_eq (.literal Node.bar) (.literal Node.bar) hrest).symm ▸
      hclosed
    rw [visit, visit, if_pos rfl, if_pos rfl, if_neg hclosed, if_neg hclosed']
    exact .malformed _ _ _ _
  · intro depth rest text htext node' rest' hnode hrest
    cases hnode
    rw [visit, visit, if_neg htext, if_neg htext]
    exact (Parallel.append (.number text)).then_return (.none hrest)
  · intro depth rest name operand ih node' rest' hnode hrest
    cases hnode
    have hoperand := Paraphrase.following_related false (.var name) (.var (p.name name)) hrest
    rw [visit, visit]
    exact .named hoperand s name hrest _ _
      (ih none _ .none (Paraphrase.inner_related hoperand.nodes))
  · intro depth rest symbol node' rest' hnode hrest
    cases hnode with
    | atom hsymbol =>
      rw [visit, visit]
      exact (Parallel.operated (p.mark_of_atom hsymbol)).then_return (.none hrest)
  · intro depth rest base exponent hempty node' rest' hnode hrest
    cases hnode with
    | power hbase hexponent =>
      rw [visit, visit, if_pos hempty, (Paraphrase.simple_related hbase).isEmpty,
        (Paraphrase.simple_related hexponent).isEmpty, if_pos hempty]
      exact .malformed _ _ _ _
  · intro depth rest base exponent hnonempty ihbase ihexponent node' rest' hnode hrest
    cases hnode with
    | power hbase hexponent =>
      have hbase := Paraphrase.simple_related hbase
      have hexponent := Paraphrase.simple_related hexponent
      rw [visit, visit, if_neg hnonempty, hbase.isEmpty, hexponent.isEmpty, if_neg hnonempty]
      exact (Parallel.enclosed (.call .power) ((ihbase none _ .none hbase).bind fun _ _ _ =>
        (Parallel.append .separator).bind fun _ _ _ =>
          ihexponent none _ .none hexponent)).then_return (.none hrest)
  · intro depth rest base hempty node' rest' hnode hrest
    cases hnode with
    | angle hbase =>
      rw [visit, visit, if_pos hempty, (Paraphrase.simple_related hbase).isEmpty, if_pos hempty]
      exact .malformed _ _ _ _
  · intro depth rest base hnonempty ih node' rest' hnode hrest
    cases hnode with
    | angle hbase =>
      have hbase := Paraphrase.simple_related hbase
      rw [visit, visit, if_neg hnonempty, hbase.isEmpty, if_neg hnonempty]
      exact (ih none _ .none hbase).then_return (.none hrest)
  · intro depth rest name operand ih node' rest' hnode hrest
    cases hnode with
    | prime hbase =>
      cases hbase
      have hoperand := Paraphrase.following_related false (.prime (.var name))
        (.prime (.var (p.name name))) hrest
      rw [visit, visit]
      exact .primed hoperand s name _ _ (ih none _ .none (Paraphrase.inner_related hoperand.nodes))
  · intro depth rest base hbase operand _ node' rest' hnode hrest
    cases hnode with
    | @prime _ base' hrelates =>
      have hbase' : ∀ name, base' ≠ .var name := by
        rintro name rfl
        cases hrelates
        exact hbase _ rfl
      rw [prime_malformed hbase, prime_malformed hbase']
      exact .malformed _ _ _ _
  · intro depth rest numerator denominator hempty node' rest' hnode hrest
    cases hnode with
    | fraction hnumerator hdenominator =>
      rw [visit, visit, if_pos hempty, hnumerator.isEmpty, hdenominator.isEmpty, if_pos hempty]
      exact .malformed _ _ _ _
  · intro depth rest numerator denominator hnonempty ih₁ ih₂ node' rest' hnode hrest
    cases hnode with
    | fraction hnumerator hdenominator =>
      rw [visit, visit, if_neg hnonempty, hnumerator.isEmpty, hdenominator.isEmpty,
        if_neg hnonempty]
      exact (Parallel.enclosed .openParen
        ((Parallel.enclosed .openParen (ih₁ none _ .none hnumerator)).bind fun _ _ _ =>
          (Parallel.append (.operator .divide)).bind fun _ _ _ =>
            .enclosed .openParen (ih₂ none _ .none hdenominator))).then_return (.none hrest)
  · intro depth rest body ih node' rest' hnode hrest
    cases hnode with
    | root hbody =>
      rw [visit, visit]
      exact (Parallel.called .squareRoot hbody.isEmpty (ih none _ .none hbody)).then_return
        (.none hrest)
  · intro depth rest body ih node' rest' hnode hrest
    cases hnode with
    | group hbody =>
      rw [visit, visit]
      exact (ih none _ .none hbody).then_return (.none hrest)
  · intro depth rest lower upper anchor operand ih node' rest' hnode hrest
    cases hnode with
    | named _ hlower hupper =>
      have hoperand := Paraphrase.following_related false anchor anchor hrest
      rw [visit, visit]
      exact .summed hoperand hlower hupper _ _ (ih none _ .none hoperand.nodes)
  · intro depth rest lower upper anchor operand ih node' rest' hnode hrest
    cases hnode with
    | named _ hlower hupper =>
      have hoperand := Paraphrase.following_related true anchor anchor hrest
      rw [visit, visit]
      exact .integrated hoperand hlower hupper s.config _ _ (ih none _ .none hoperand.nodes)
  · intro depth rest lower upper anchor operand ih node' rest' hnode hrest
    exact turned_parallel rfl hnode hrest fun h => ih none _ .none h
  · intro depth rest lower upper anchor operand ih node' rest' hnode hrest
    exact turned_parallel rfl hnode hrest fun h => ih none _ .none h
  · intro depth rest lower upper anchor operand ih node' rest' hnode hrest
    exact turned_parallel rfl hnode hrest fun h => ih none _ .none h

end Nodes

end Walk

end Formulary
