import Mathlib.Data.List.Induction
import Formulary.Proofs.Grouping
import Formulary.Proofs.Histories
import Formulary.Proofs.Links
import Formulary.Proofs.Unfolding.Nodes

/-!
# Walks in another session

Nodes without named operators whose names stand for no equation are walked the same in every
session, at every depth and whatever is declared: plain code is emitted, and its variables are
declared.
-/

namespace Formulary

/-! ## Code without names of its own -/

/-- The fragment binds no name and stands for no equation. -/
def Fragment.isArithmetic : Fragment → Bool
  | number _ | var _ | operator _ | openParen | close | separator | call _ => true
  | sum .. | integral .. | reference .. | apply .. | derivative .. => false

namespace Instruction

/-- What is emitted for nodes without named operators and equations. -/
inductive IsArithmetic : Instruction → Prop
  | append {fragment : Fragment} :
      fragment.isArithmetic = true → IsArithmetic (.append fragment)
  | sign : IsArithmetic (.choose [.operator .add, .operator .subtract])

theorem IsArithmetic.isPlain {i : Instruction} (h : i.IsArithmetic) : i.IsPlain := by
  cases h with
  | append _ => exact .append _
  | sign => exact .sign

/-- The variables that instructions append, in order. -/
def names (is : List Instruction) : List String :=
  is.filterMap fun
    | append (.var name) => some name
    | _ => none

theorem names_append (first second : List Instruction) :
    names (first ++ second) = names first ++ names second :=
  List.filterMap_append

/-- Code between brackets, of which the first is no variable. -/
theorem names_between {opening : Fragment} (h : ∀ name, opening ≠ .var name) (es : List Emission) :
    names (Emission.instructions (Walk.between opening es)) = names (Emission.instructions es) := by
  rw [Walk.instructions_between, names, List.filterMap_cons_none, List.filterMap_append]
  · exact List.append_nil _
  · cases opening with
    | var name => exact absurd rfl (h name)
    | _ => rfl

theorem isArithmetic_between {opening : Fragment} (hopening : opening.isArithmetic = true)
    {es : List Emission} (h : ∀ i ∈ Emission.instructions es, i.IsArithmetic) :
    ∀ i ∈ Emission.instructions (Walk.between opening es), i.IsArithmetic := by
  rw [Walk.instructions_between]
  exact List.forall_mem_cons.2 ⟨.append hopening,
    List.forall_mem_append.2 ⟨h, List.forall_mem_singleton.2 (.append rfl)⟩⟩

end Instruction

theorem Entry.isArithmetic_instruction {symbol : String} {entry : Entry}
    (h : Entry.ofSymbol? symbol = some entry) : entry.instruction.IsArithmetic := by
  obtain ⟨mark, _, hmark⟩ := Option.bind_eq_some_iff.1 h
  cases mark with
  | equality => cases hmark
  | plusMinus =>
    obtain rfl := Option.some.inj hmark
    exact .sign
  | _ =>
    obtain rfl := Option.some.inj hmark
    exact .append rfl

/-- Adding the names that are left when duplicates are dropped adds them all. -/
theorem Symbols.addArguments_arguments (s : Symbols) (names : List String) :
    s.addArguments (addArguments {} names).arguments = s.addArguments names := by
  induction names using List.reverseRecOn with
  | nil => rfl
  | append_singleton names name ih =>
    have hsnoc : ∀ s : Symbols, s.addArguments (names ++ [name]) =
        (s.addArguments names).addArgument name := fun s => List.foldl_append
    have hlocal : ∀ s : Symbols, name ∈ names → (s.addArguments names).isLocal name = true := by
      intro s hmem
      simp [isLocal_addArguments, hmem]
    rw [hsnoc, hsnoc]
    by_cases hmem : name ∈ names
    · rw [addArgument_of_isLocal (hlocal {} hmem), addArgument_of_isLocal (hlocal s hmem), ih]
    · have hnew : (addArguments {} names).isLocal name = false := by
        rw [isLocal_addArguments]
        simpa [isLocal, isArgument, isBound] using hmem
      have harguments : ((addArguments {} names).addArgument name).arguments =
          (addArguments {} names).arguments ++ [name] := by
        simp [addArgument, hnew]
      rw [harguments, ← ih]
      exact List.foldl_append

/-! ## Closed nodes -/

/-- The node holds no named operator, and no name in it stands for an equation. -/
structure Node.IsClosed (s : Session) (node : Node) : Prop where
  isElementary : node.isElementary = true
  resolve : ∀ name ∈ node.names, s.resolve name = none

namespace Node

variable {s : Session}

theorem forall_isClosed_iff {nodes : List Node} :
    (∀ node ∈ nodes, node.IsClosed s) ↔
      areElementary nodes = true ∧ ∀ name ∈ namesAll nodes, s.resolve name = none := by
  induction nodes with
  | nil => simp [areElementary, namesAll]
  | cons node rest ih =>
    rw [List.forall_mem_cons, ih, areElementary, namesAll, List.forall_mem_append,
      Bool.and_eq_true]
    constructor
    · rintro ⟨⟨helementary, hnames⟩, hrest, hnamesRest⟩
      exact ⟨⟨helementary, hrest⟩, hnames, hnamesRest⟩
    · rintro ⟨⟨helementary, hrest⟩, hnames, hnamesRest⟩
      exact ⟨⟨helementary, hnames⟩, hrest, hnamesRest⟩

theorem isClosed_power {base exponent : Node} (h : (power base exponent).IsClosed s) :
    base.IsClosed s ∧ exponent.IsClosed s := by
  obtain ⟨helementary, hnames⟩ := h
  obtain ⟨hbase, hexponent⟩ := Bool.and_eq_true_iff.1 helementary
  obtain ⟨hbaseNames, hexponentNames⟩ := List.forall_mem_append.1 hnames
  exact ⟨⟨hbase, hbaseNames⟩, hexponent, hexponentNames⟩

theorem isClosed_fraction {numerator denominator : List Node}
    (h : (fraction numerator denominator).IsClosed s) :
    (∀ node ∈ numerator, node.IsClosed s) ∧ ∀ node ∈ denominator, node.IsClosed s := by
  obtain ⟨helementary, hnames⟩ := h
  obtain ⟨hnumerator, hdenominator⟩ := Bool.and_eq_true_iff.1 helementary
  obtain ⟨hnumeratorNames, hdenominatorNames⟩ := List.forall_mem_append.1 hnames
  exact ⟨forall_isClosed_iff.2 ⟨hnumerator, hnumeratorNames⟩,
    forall_isClosed_iff.2 ⟨hdenominator, hdenominatorNames⟩⟩

theorem isClosed_simple {base : Node} (h : base.IsClosed s) :
    ∀ node ∈ Walk.simple base, node.IsClosed s := by
  cases base with
  | literal text =>
    rw [Walk.simple]
    split
    · exact List.forall_mem_nil _
    · exact List.forall_mem_singleton.2 h
  | var name => exact List.forall_mem_singleton.2 h
  | group body => exact forall_isClosed_iff.2 ⟨h.isElementary, h.resolve⟩
  | _ => exact List.forall_mem_nil _

end Node

/-- All nodes of a stretch are closed, those behind what it takes included. -/
def Stretch.IsClosed (s : Session) : Stretch → Prop
  | siblings _ nodes => ∀ node ∈ nodes, node.IsClosed s
  | single node rest _ => ∀ n ∈ node :: rest, n.IsClosed s

/-! ## The walk -/

theorem Declared.addArguments_append (d : Declared) (first second : List String) :
    (d.addArguments first).addArguments second = d.addArguments (first ++ second) := by
  simp [addArguments, Symbols.addArguments]

/-- Only variables are declared, by arithmetic instructions; and at any other depth and behind any
other declarations the session `s'` walks the stretch the same. -/
structure Visits.Elsewhere (s' : Session) (stretch : Stretch) (d : Declared) (es : List Emission)
    (d' : Declared) : Prop where
  declared : d' = d.addArguments (Instruction.names (Emission.instructions es))
  isArithmetic : ∀ i ∈ Emission.instructions es, i.IsArithmetic
  visits : ∀ depth₁ d₁, ∃ es₁, Visits s' depth₁ stretch d₁ es₁
    (d₁.addArguments (Instruction.names (Emission.instructions es))) ∧
    Emission.instructions es₁ = Emission.instructions es

namespace Visits.Elsewhere

open Walk Emission Instruction

variable {s' : Session} {node : Node} {rest body : List Node} {consumed : Nat}
  {d d₁ d' : Declared} {es es' : List Emission}

/-- A node that is walked as the list below it is. -/
theorem below (h : Elsewhere s' (.siblings none body) d es d')
    (hnode : ∀ depth₁ d₁ es₁ d₁', Visits s' (depth₁ + 1) (.siblings none body) d₁ es₁ d₁' →
      Visits s' depth₁ (.single node rest consumed) d₁ es₁ d₁') :
    Elsewhere s' (.single node rest consumed) d es d' := by
  refine ⟨h.declared, h.isArithmetic, fun depth₁ d₁ => ?_⟩
  obtain ⟨es₁, hvisits, hes₁⟩ := h.visits (depth₁ + 1) d₁
  exact ⟨es₁, hnode _ _ _ _ hvisits, hes₁⟩

/-- A node that puts the list below it between brackets. -/
theorem between {opening : Fragment} (hopening : ∀ name, opening ≠ .var name)
    (harithmetic : opening.isArithmetic = true) (h : Elsewhere s' (.siblings none body) d es d')
    (hnode : ∀ depth₁ d₁ es₁ d₁', Visits s' (depth₁ + 1) (.siblings none body) d₁ es₁ d₁' →
      Visits s' depth₁ (.single node rest consumed) d₁ (Walk.between opening es₁) d₁') :
    Elsewhere s' (.single node rest consumed) d (Walk.between opening es) d' := by
  refine ⟨?_, isArithmetic_between harithmetic h.isArithmetic, ?_⟩
  · rw [names_between hopening]
    exact h.declared
  · intro depth₁ d₁
    obtain ⟨es₁, hvisits, hes₁⟩ := h.visits (depth₁ + 1) d₁
    rw [names_between hopening]
    exact ⟨_, hnode _ _ _ _ hvisits, by simp [hes₁]⟩

/-- A node with two lists below it, from whose code its own is built. -/
theorem both {first second : List Node} {build : List Emission → List Emission → List Emission}
    (hnames : ∀ es es', names (instructions (build es es')) =
      names (instructions es) ++ names (instructions es'))
    (harithmetic : ∀ es es', (∀ i ∈ instructions es, i.IsArithmetic) →
      (∀ i ∈ instructions es', i.IsArithmetic) → ∀ i ∈ instructions (build es es'), i.IsArithmetic)
    (hbuild : ∀ es₁ es₁' es es', instructions es₁ = instructions es →
      instructions es₁' = instructions es' →
        instructions (build es₁ es₁') = instructions (build es es'))
    (hfirst : Elsewhere s' (.siblings none first) d es d₁)
    (hsecond : Elsewhere s' (.siblings none second) d₁ es' d')
    (hnode : ∀ depth₁ d₁ es₁ d₂ es₂ d₃, Visits s' (depth₁ + 1) (.siblings none first) d₁ es₁ d₂ →
      Visits s' (depth₁ + 1) (.siblings none second) d₂ es₂ d₃ →
        Visits s' depth₁ (.single node rest consumed) d₁ (build es₁ es₂) d₃) :
    Elsewhere s' (.single node rest consumed) d (build es es') d' := by
  refine ⟨?_, harithmetic _ _ hfirst.isArithmetic hsecond.isArithmetic, ?_⟩
  · rw [hnames, hsecond.declared, hfirst.declared, Declared.addArguments_append]
  · intro depth₁ d₁
    obtain ⟨es₁, h₁, hes₁⟩ := hfirst.visits (depth₁ + 1) d₁
    obtain ⟨es₂, h₂, hes₂⟩ := hsecond.visits (depth₁ + 1) _
    rw [Declared.addArguments_append] at h₂
    rw [hnames]
    exact ⟨_, hnode _ _ _ _ _ _ h₁ h₂, hbuild _ _ _ _ hes₁ hes₂⟩

theorem cons {previous : Option Node} {depth : Nat}
    (hnode : Elsewhere s' (.single node rest consumed) d es d₁)
    (hrest : Elsewhere s' (.siblings (node :: rest.take consumed).getLast? (rest.drop consumed)) d₁
      es' d') :
    Elsewhere s' (.siblings previous (node :: rest)) d
      (joint previous node ++ .visit depth node :: (es ++ es')) d' := by
  have hjoint : ∀ i ∈ instructions (joint previous node), i.IsArithmetic := by
    rw [instructions_joint]
    split
    · exact List.forall_mem_singleton.2 (.append rfl)
    · exact List.forall_mem_nil _
  have hnames : names (instructions (joint previous node ++ .visit depth node :: (es ++ es'))) =
      names (instructions es) ++ names (instructions es') := by
    rw [instructions_append, instructions_cons_visit, instructions_append, names_append,
      names_append, instructions_joint]
    split <;> rfl
  refine ⟨?_, ?_, ?_⟩
  · rw [hnames, hrest.declared, hnode.declared, Declared.addArguments_append]
  · rw [instructions_append, instructions_cons_visit, instructions_append]
    exact List.forall_mem_append.2 ⟨hjoint,
      List.forall_mem_append.2 ⟨hnode.isArithmetic, hrest.isArithmetic⟩⟩
  · intro depth₁ d₁
    obtain ⟨es₁, h₁, hes₁⟩ := hnode.visits depth₁ d₁
    obtain ⟨es₂, h₂, hes₂⟩ := hrest.visits depth₁ _
    rw [Declared.addArguments_append] at h₂
    rw [hnames]
    exact ⟨_, .cons h₁ h₂, by simp [hes₁, hes₂]⟩

theorem atom {symbol : String} {entry : Entry} (hentry : Entry.ofSymbol? symbol = some entry) :
    Elsewhere s' (.single (.atom symbol) rest 0) d [.instruction entry.instruction] d := by
  have hnames : names [entry.instruction] = [] := by
    rcases Entry.instruction_cases hentry with hsign | ⟨fragment, huse, -, hcode⟩
    · rw [hsign]
      rfl
    · rw [hcode]
      cases fragment <;> first | rfl | cases huse
  refine ⟨?_, List.forall_mem_singleton.2 (Entry.isArithmetic_instruction hentry), ?_⟩
  · exact (congrArg (Declared.addArguments _) hnames).symm
  · intro depth₁ d₁
    exact ⟨_, hnames.symm ▸ .atom hentry, rfl⟩

end Visits.Elsewhere

open Walk Emission Instruction in
/-- What a session has walked without externals, another walks the same if the nodes are closed in
it. -/
theorem Visits.elsewhere {s s' : Session} {depth : Nat} {stretch : Stretch} {d d' : Declared}
    {es : List Emission} (h : Visits s depth stretch d es d') (hexternals : d'.externals = [])
    (hclosed : stretch.IsClosed s') : Visits.Elsewhere s' stretch d es d' := by
  have hnothing : ∀ {d d' : Declared} {e : Equation Float},
      (d.declaring e).externals <+: d'.externals → d'.externals = [] → False :=
    fun hgrows hempty =>
      Declared.externals_declaring_ne_nil _ _ (List.prefix_nil.1 (hempty ▸ hgrows))
  induction h with
  | nil => exact ⟨rfl, List.forall_mem_nil _, fun _ _ => ⟨[], .nil, rfl⟩⟩
  | cons _ hrest ihnode ihrest =>
    have hempty := List.prefix_nil.1 (hexternals ▸ hrest.externals_grow)
    exact (ihnode hempty hclosed).cons (ihrest hexternals fun n hn =>
      hclosed n (List.mem_cons_of_mem _ (List.mem_of_mem_drop hn)))
  | bars hbar hoperand _ ih =>
    have hinside := ih hexternals fun n hn =>
      hclosed n (List.mem_cons_of_mem _ ((Operand.absolute_isPrefix _).subset hn))
    exact hinside.between (by simp) rfl fun _ _ _ _ => .bars hbar hoperand
  | piece htext =>
    exact ⟨rfl, List.forall_mem_singleton.2 (.append rfl), fun _ _ => ⟨_, .piece htext, rfl⟩⟩
  | @name _ name =>
    have hname := (hclosed _ List.mem_cons_self).resolve name (List.mem_singleton_self _)
    exact ⟨rfl, List.forall_mem_singleton.2 (.append rfl),
      fun _ _ => ⟨_, .name (.inr hname), rfl⟩⟩
  | reference _ _ _ => exact (hnothing List.prefix_rfl hexternals).elim
  | application _ _ _ _ _ hbody => exact (hnothing hbody.externals_grow hexternals).elim
  | atom hentry => exact .atom hentry
  | power hbase hexponent _ hrest ihbase ihexponent =>
    obtain ⟨hfirst, hsecond⟩ := Node.isClosed_power (hclosed _ List.mem_cons_self)
    have hempty := List.prefix_nil.1 (hexternals ▸ hrest.externals_grow)
    refine .both ?_ ?_ ?_ (ihbase hempty (Node.isClosed_simple hfirst))
      (ihexponent hexternals (Node.isClosed_simple hsecond))
      (fun _ _ _ _ _ _ => .power hbase hexponent)
    · intro es es'
      rw [names_between (by simp), instructions_append, names_append]
      rfl
    · intro es es' hes hes'
      refine isArithmetic_between rfl ?_
      rw [instructions_append]
      exact List.forall_mem_append.2 ⟨hes, List.forall_mem_cons.2 ⟨.append rfl, hes'⟩⟩
    · intro es₁ es₁' es es' hes hes'
      simp [hes, hes']
  | angle hbase _ ih =>
    have hbaseClosed := hclosed _ List.mem_cons_self
    have hinside := ih hexternals
      (Node.isClosed_simple ⟨hbaseClosed.isElementary, hbaseClosed.resolve⟩)
    exact hinside.below fun _ _ _ _ => .angle hbase
  | derivative _ _ _ hbody => exact (hnothing hbody.externals_grow hexternals).elim
  | fraction hnum hden _ hrest ihnum ihden =>
    obtain ⟨hfirst, hsecond⟩ := Node.isClosed_fraction (hclosed _ List.mem_cons_self)
    have hempty := List.prefix_nil.1 (hexternals ▸ hrest.externals_grow)
    refine .both ?_ ?_ ?_ (ihnum hempty hfirst) (ihden hexternals hsecond)
      (fun _ _ _ _ _ _ => .fraction hnum hden)
    · intro es es'
      rw [names_between (by simp), instructions_append, names_append, names_between (by simp),
        ← @names_between .openParen (by simp) es']
      rfl
    · intro es es' hes hes'
      refine isArithmetic_between rfl ?_
      rw [instructions_append]
      exact List.forall_mem_append.2 ⟨isArithmetic_between rfl hes,
        List.forall_mem_cons.2 ⟨.append rfl, isArithmetic_between rfl hes'⟩⟩
    · intro es₁ es₁' es es' hes hes'
      simp [hes, hes']
  | root hbody _ ih =>
    have hbodyClosed := hclosed _ List.mem_cons_self
    have hinside := ih hexternals
      (Node.forall_isClosed_iff.2 ⟨hbodyClosed.isElementary, hbodyClosed.resolve⟩)
    exact hinside.between (by simp) rfl fun _ _ _ _ => .root hbody
  | group _ ih =>
    have hbodyClosed := hclosed _ List.mem_cons_self
    have hinside := ih hexternals
      (Node.forall_isClosed_iff.2 ⟨hbodyClosed.isElementary, hbodyClosed.resolve⟩)
    exact hinside.below fun _ _ _ _ => .group
  | sum => cases (hclosed _ List.mem_cons_self).isElementary
  | integral => cases (hclosed _ List.mem_cons_self).isElementary
  | turned => cases (hclosed _ List.mem_cons_self).isElementary

/-! ## In parentheses -/

section Parentheses

variable {s : Session} {depth : Nat} {d d' : Declared} {es : List Emission}

/-- A closed node takes no more when there is more behind it. -/
theorem Visits.behind_closed {node : Node} {rest : List Node} {consumed : Nat}
    (hclosed : node.IsClosed s) (h : Visits s depth (.single node rest consumed) d es d')
    (tail : List Node) :
    consumed ≤ rest.length ∧ Visits s depth (.single node (rest ++ tail) consumed) d es d' := by
  cases h with
  | bars hbar hoperand hbody =>
    obtain ⟨before, after, rfl, hbefore⟩ := exists_bar hbar
    have hmore : Operand.isClosed
        (.literal Node.bar :: (before ++ [.literal Node.bar] ++ after ++ tail)) = true := by
      simp [Operand.isClosed, Node.isBar]
    have hsame := absolute_closed hbefore (after ++ tail)
    rw [← List.append_assoc] at hsame
    rw [absolute_closed hbefore] at hoperand hbody ⊢
    have hall := Visits.bars hmore (by rwa [hsame]) (by rwa [hsame])
    rw [hsame] at hall
    exact ⟨by simp, hall⟩
  | piece htext => exact ⟨Nat.zero_le _, .piece htext⟩
  | name hname => exact ⟨Nat.zero_le _, .name hname⟩
  | reference _ hresolve =>
    rw [hclosed.resolve _ (List.mem_singleton_self _)] at hresolve
    cases hresolve
  | application _ hresolve =>
    rw [hclosed.resolve _ (List.mem_singleton_self _)] at hresolve
    cases hresolve
  | atom hentry => exact ⟨Nat.zero_le _, .atom hentry⟩
  | power hbase hexponent h₁ h₂ => exact ⟨Nat.zero_le _, .power hbase hexponent h₁ h₂⟩
  | angle hbase hbody => exact ⟨Nat.zero_le _, .angle hbase hbody⟩
  | derivative hresolve =>
    rw [Session.resolveFunction, hclosed.resolve _ (List.mem_singleton_self _)] at hresolve
    cases hresolve
  | fraction hnum hden h₁ h₂ => exact ⟨Nat.zero_le _, .fraction hnum hden h₁ h₂⟩
  | root hbody h => exact ⟨Nat.zero_le _, .root hbody h⟩
  | group h => exact ⟨Nat.zero_le _, .group h⟩
  | sum => cases hclosed.isElementary
  | integral => cases hclosed.isElementary
  | turned => cases hclosed.isElementary

/-- A closing parenthesis behind closed nodes adds what it stands for. -/
theorem Visits.close_closed {previous : Option Node} {nodes : List Node} {d d' : Declared}
    {es : List Emission} (hclosed : ∀ node ∈ nodes, node.IsClosed s) :
    Visits s depth (.siblings previous nodes) d es d' →
      ∃ es', Visits s depth (.siblings previous (nodes ++ [.atom ")"])) d es' d' ∧
        Emission.instructions es' = Emission.instructions es ++ [Instruction.append .close]
  | .nil => by
    have hjoint : Walk.joint previous (.atom ")") = [] := by
      simp [Walk.joint, Node.juxtaposed, Node.isClose, Node.mark?, Mark.ofSymbol?]
    have hclosing : Visits s depth (.siblings previous [.atom ")"]) d _ d := .cons (.atom rfl) .nil
    rw [hjoint] at hclosing
    exact ⟨_, hclosing, rfl⟩
  | @Visits.cons _ _ consumed _ _ rest _ _ _ _ _ hnode hrest => by
    have hbehind : ∀ n ∈ rest.drop consumed, n.IsClosed s := fun n hn =>
      hclosed n (List.mem_cons_of_mem _ (List.mem_of_mem_drop hn))
    obtain ⟨hconsumed, hnode⟩ := hnode.behind_closed (hclosed _ List.mem_cons_self) [.atom ")"]
    obtain ⟨es', hrest, hes'⟩ := hrest.close_closed hbehind
    exact ⟨_, .cons_of_le hconsumed hnode hrest, by simp [hes']⟩
termination_by nodes.length
decreasing_by
  rw [List.length_drop, List.length_cons]
  omega

end Parentheses

/-! ## Definitions -/

/-- The name stands for a variable equation with this right side, which holds no named operator and
no name that stands for an equation. -/
structure Session.Defines (s : Session) (name : String) (right : List Node)
    (equation : Equation Float) : Prop where
  compiled : ∃ (earlier : Session) (nodes : List Node),
    (earlier.compile nodes).outcome = .ok equation ∧ Node.rightSide nodes = right
  resolve : s.resolve name = some equation
  isVariable : equation.isFunction = false
  externals : equation.externals = []
  isElementary : Node.areElementary right = true
  unbound : ∀ other ∈ Node.namesAll right, s.resolve other = none

/-- What a definition stands for is code without externals, the same wherever the definition stands.
Its variables are the arguments of the equation. -/
structure Equation.HasCode (equation : Equation Float) (code : List Instruction) : Prop where
  isArithmetic : ∀ i ∈ code, i.IsArithmetic
  arguments : equation.arguments = (Symbols.addArguments {} (Instruction.names code)).arguments
  read : Session.readBranches code = .ok equation.branches

theorem Session.Defines.exists_code {s : Session} {name : String} {right : List Node}
    {equation : Equation Float} (h : s.Defines name right equation) :
    ∃ code, equation.HasCode code ∧ ∀ depth d, ∃ es,
      Visits s depth (.siblings none (Node.parenthesized right)) d es
        (d.addArguments equation.arguments) ∧
      Emission.instructions es = .append .openParen :: (code ++ [.append .close]) := by
  obtain ⟨earlier, nodes, hcompile, rfl⟩ := h.compiled
  obtain ⟨binding, right, es, d, branches, hsides, hvisits, hread, rfl⟩ :=
    compile_outcome_eq_ok_iff.1 hcompile
  obtain rfl := eq_rightSide_of_splitSides hsides
  have hclosed := Node.forall_isClosed_iff.2 ⟨h.isElementary, h.unbound⟩
  have hbinding : declaredBy binding = {} := by
    cases binding with
    | none => rfl
    | some binding =>
      have hkind : binding.kind ≠ .function := by
        intro hkind
        have hvariable := h.isVariable
        simp [Equation.isFunction, Equation.kind?, hkind] at hvariable
      rw [declaredBy, Option.elim_some, (binding_of_splitSides hsides).2 hkind]
      rfl
  obtain ⟨hdeclared, harithmetic, hvisits⟩ := hvisits.elsewhere h.externals hclosed
  have harguments : d.symbols.arguments =
      (Symbols.addArguments {} (Instruction.names (Emission.instructions es))).arguments := by
    rw [hdeclared, hbinding]
    rfl
  refine ⟨_, ⟨harithmetic, harguments, hread⟩, ?_⟩
  intro depth d₁
  obtain ⟨es₁, hbody, hes₁⟩ := hvisits depth d₁
  obtain ⟨es₂, hbody, hes₂⟩ := (hbody.behind_opening .standard).close_closed hclosed
  have hsame : d₁.addArguments d.symbols.arguments =
      d₁.addArguments (Instruction.names (Emission.instructions es)) := by
    rw [harguments, Declared.addArguments, Symbols.addArguments_arguments]
    rfl
  rw [hsame]
  exact ⟨_, .cons (.atom rfl) hbody, by rw [instructions_cons, hes₂, hes₁]; rfl⟩

end Formulary
