import Formulary.Proofs.Nesting
import Formulary.Proofs.Watch

/-!
# A definition in the place of its name

In a node list a name may be unfolded: its node gives way to a group with the definition in
parentheses. Operands keep their extent, because a name and a group look the same from outside
unless the name is read on its own: before a prime, in a limit or behind a `d`.
-/

namespace Formulary

namespace Node

mutual

/-- The names of the variables in a node, limits and bases of primes included. -/
def names : Node → List String
  | literal _ | atom _ => []
  | var name => [name]
  | power base exponent => base.names ++ exponent.names
  | angle base | prime base => base.names
  | fraction numerator denominator => namesAll numerator ++ namesAll denominator
  | root body | group body => namesAll body
  | named _ lower upper => limitNames lower ++ limitNames upper

def namesAll : List Node → List String
  | [] => []
  | node :: rest => node.names ++ namesAll rest

def limitNames : Option (List Node) → List String
  | none => []
  | some nodes => namesAll nodes

end

mutual

/-- No named operator is in the node. -/
def isElementary : Node → Bool
  | literal _ | var _ | atom _ => true
  | power base exponent => base.isElementary && exponent.isElementary
  | angle base | prime base => base.isElementary
  | fraction numerator denominator => areElementary numerator && areElementary denominator
  | root body | group body => areElementary body
  | named _ _ _ => false

def areElementary : List Node → Bool
  | [] => true
  | node :: rest => node.isElementary && areElementary rest

end

mutual

/-- Wherever the name is in the node, it is the base of no prime, in no limit and not behind a
`d`. -/
def standsFree (name : String) : Node → Bool
  | literal _ | var _ | atom _ => true
  | power base exponent => base.standsFree name && exponent.standsFree name
  | angle base => base.standsFree name
  | prime base => !base.isNamed name && base.standsFree name
  | fraction numerator denominator => standFree name numerator && standFree name denominator
  | root body | group body => standFree name body
  | named _ lower upper =>
    !(limitNames lower).contains name && !(limitNames upper).contains name

def standFree (name : String) : List Node → Bool
  | [] => true
  | node :: rest =>
    node.standsFree name && !(node.isNamed "d" && rest.head?.any (isNamed name)) &&
      standFree name rest

end

/-- Nodes between parentheses. -/
def parenthesized (nodes : List Node) : List Node := .atom "(" :: (nodes ++ [atom ")"])

section Unfolding

variable (name : String) (definition : List Node)

mutual

/-- The node with a group for the name. Limits stay as they are. -/
def unfold : Node → Node
  | literal text => literal text
  | var other => if other = name then group (parenthesized definition) else var other
  | atom symbol => atom symbol
  | power base exponent => power base.unfold exponent.unfold
  | angle base => angle base.unfold
  | prime base => prime base.unfold
  | fraction numerator denominator => fraction (unfoldAll numerator) (unfoldAll denominator)
  | root body => root (unfoldAll body)
  | group body => group (unfoldAll body)
  | named operator lower upper => named operator lower upper

def unfoldAll : List Node → List Node
  | [] => []
  | node :: rest => node.unfold :: unfoldAll rest

end

theorem unfoldAll_eq_map (nodes : List Node) :
    unfoldAll name definition nodes = nodes.map (unfold name definition) := by
  induction nodes with
  | nil => rfl
  | cons node rest ih => rw [unfoldAll, ih, List.map_cons]

/-! ## What a node is from outside -/

theorem unfold_name (other : String) : unfold name definition (var other) =
    if other = name then group (parenthesized definition) else var other := rfl

theorem unfold_var (h : other ≠ name) : unfold name definition (var other) = var other := by
  rw [unfold_name, if_neg h]

@[simp] theorem mark?_unfold (node : Node) : (unfold name definition node).mark? = node.mark? := by
  cases node with
  | var other =>
    rw [unfold_name]
    split <;> rfl
  | _ => rfl

@[simp] theorem isNumeric_unfold (node : Node) :
    (unfold name definition node).isNumeric = node.isNumeric := by
  cases node with
  | var other =>
    rw [unfold_name]
    split <;> rfl
  | _ => rfl

@[simp] theorem isBar_unfold (node : Node) :
    (unfold name definition node).isBar = node.isBar := by
  cases node with
  | var other =>
    rw [unfold_name]
    split <;> rfl
  | _ => rfl

@[simp] theorem isSum_unfold (node : Node) :
    (unfold name definition node).isSum = node.isSum := by
  cases node with
  | var other =>
    rw [unfold_name]
    split <;> rfl
  | named operator lower upper => cases operator <;> rfl
  | _ => rfl

@[simp] theorem isOpen_unfold (node : Node) :
    (unfold name definition node).isOpen = node.isOpen := by
  simp [isOpen]

@[simp] theorem isClose_unfold (node : Node) :
    (unfold name definition node).isClose = node.isClose := by
  simp [isClose]

@[simp] theorem isSeparator_unfold (node : Node) :
    (unfold name definition node).isSeparator = node.isSeparator := by
  simp [isSeparator]

@[simp] theorem isAdditive_unfold (node : Node) :
    (unfold name definition node).isAdditive = node.isAdditive := by
  simp [isAdditive]

@[simp] theorem isArithmetic_unfold (node : Node) :
    (unfold name definition node).isArithmetic = node.isArithmetic := by
  simp [isArithmetic]

@[simp] theorem isEquality_unfold (node : Node) :
    (unfold name definition node).isEquality = node.isEquality := by
  simp [isEquality]

@[simp] theorem juxtaposed_unfold (previous current : Node) :
    (unfold name definition previous).juxtaposed (unfold name definition current) =
      previous.juxtaposed current := by
  simp [juxtaposed]

end Unfolding

/-! ## Nodes in which the name is not -/

section Absent

variable {name : String} (definition : List Node)

mutual

theorem unfold_of_not_mem : (node : Node) → name ∉ node.names →
    node.unfold name definition = node
  | .literal _, _ | .atom _, _ | .named _ _ _, _ => rfl
  | .var other, h => unfold_var _ _ fun heq => h (heq ▸ List.mem_singleton_self _)
  | .power base exponent, h => by
    obtain ⟨hbase, hexponent⟩ := not_or.1 (mt List.mem_append.2 h)
    rw [unfold, unfold_of_not_mem base hbase, unfold_of_not_mem exponent hexponent]
  | .angle base, h | .prime base, h => by
    rw [unfold, unfold_of_not_mem base h]
  | .fraction numerator denominator, h => by
    obtain ⟨hnumerator, hdenominator⟩ := not_or.1 (mt List.mem_append.2 h)
    rw [unfold, unfoldAll_of_not_mem numerator hnumerator,
      unfoldAll_of_not_mem denominator hdenominator]
  | .root body, h | .group body, h => by
    rw [unfold, unfoldAll_of_not_mem body h]

theorem unfoldAll_of_not_mem : (nodes : List Node) → name ∉ namesAll nodes →
    unfoldAll name definition nodes = nodes
  | [], _ => rfl
  | node :: rest, h => by
    obtain ⟨hnode, hrest⟩ := not_or.1 (mt List.mem_append.2 h)
    rw [unfoldAll, unfold_of_not_mem node hnode, unfoldAll_of_not_mem rest hrest]

end

end Absent

/-! ## Parts of a list in which a name stands free -/

variable {name : String} {nodes : List Node}

theorem standFree_of_append {first second : List Node}
    (h : standFree name (first ++ second) = true) :
    standFree name first = true ∧ standFree name second = true := by
  induction first with
  | nil => exact ⟨rfl, h⟩
  | cons node rest ih =>
    simp only [List.cons_append, standFree, Bool.and_eq_true] at h ⊢
    obtain ⟨⟨hnode, hpair⟩, hrest⟩ := h
    obtain ⟨hfirst, hsecond⟩ := ih hrest
    refine ⟨⟨⟨hnode, ?_⟩, hfirst⟩, hsecond⟩
    cases rest with
    | nil => simp
    | cons next rest => exact hpair

theorem standFree_of_isInfix {part : List Node} (h : standFree name nodes = true)
    (hpart : part <:+: nodes) : standFree name part = true := by
  obtain ⟨before, behind, rfl⟩ := hpart
  exact (standFree_of_append (standFree_of_append h).1).2

theorem standFree_cons {node : Node} {rest : List Node}
    (h : standFree name (node :: rest) = true) :
    node.standsFree name = true ∧ standFree name rest = true := by
  simp only [standFree, Bool.and_eq_true] at h
  exact ⟨h.1.1, h.2⟩

end Node

open Node

/-! ## Operands keep their extent -/

namespace Operand

variable (name : String) (definition : List Node)

/-- The operand with a group for the name. -/
def unfold (o : Operand) : Operand := { o with nodes := o.nodes.map (Node.unfold name definition) }

theorem depthAfter_unfold (node : Node) (depth : Nat) :
    depthAfter (node.unfold name definition) depth = depthAfter node depth := by
  simp [depthAfter]

/-- A name is no part of a differential where it stands free. -/
theorem differential?_unfold {nodes : List Node} (hname : name ≠ "d")
    (h : standFree name nodes = true) :
    differential? (nodes.map (Node.unfold name definition)) = differential? nodes := by
  match nodes with
  | [] => rfl
  | [node] =>
    cases node with
    | var other =>
      simp only [List.map_cons, List.map_nil, Node.unfold]
      split <;> rfl
    | _ => rfl
  | first :: second :: rest =>
    have hpair : first.isNamed "d" = true → second.isNamed name = false := by
      intro hfirst
      simp only [standFree, Bool.and_eq_true, hfirst, Bool.true_and, List.head?_cons,
        Option.any_some, Bool.not_eq_true'] at h
      exact h.1.2
    cases first with
    | var d =>
      by_cases hd : d = "d"
      · subst hd
        cases second with
        | var v =>
          have hv : v ≠ name := by simpa [isNamed] using hpair
          rw [List.map_cons, List.map_cons, unfold_var _ _ hname.symm, unfold_var _ _ hv]
          rfl
        | _ =>
          rw [List.map_cons, List.map_cons, unfold_var _ _ hname.symm]
          rfl
      · have hnone : ∀ rest, differential? (.var d :: rest) = none := by
          intro rest
          unfold differential?
          split <;> simp_all
        rw [hnone, List.map_cons, Node.unfold]
        split
        · rfl
        · exact hnone _
    | _ => rfl

theorem scan_unfold (marked parenthesized leading : Bool) (depth : Nat) {nodes : List Node}
    (hname : name ≠ "d") (h : standFree name nodes = true) :
    scan marked parenthesized leading depth (nodes.map (Node.unfold name definition)) =
      ((scan marked parenthesized leading depth nodes).1.map (Node.unfold name definition),
        (scan marked parenthesized leading depth nodes).2) := by
  induction nodes generalizing leading depth with
  | nil => rfl
  | cons node rest ih =>
    have hdifferential := differential?_unfold name definition hname h
    rw [List.map_cons] at hdifferential ⊢
    rw [scan, scan, hdifferential]
    split
    · rfl
    · rw [isAdditive_unfold]
      split
      · rfl
      · rw [depthAfter_unfold, ih _ _ (standFree_cons h).2]
        rfl

theorem following_unfold (marked : Bool) (anchor anchor' : Node) {rest : List Node}
    (hname : name ≠ "d") (h : standFree name rest = true) :
    following marked (anchor' :: rest.map (Node.unfold name definition)) =
      (following marked (anchor :: rest)).unfold name definition := by
  have hopen : (rest.map (Node.unfold name definition)).head?.any isOpen =
      rest.head?.any isOpen := by
    cases rest <;> simp
  simp only [following, List.tail_cons, hopen, scan_unfold name definition marked _ _ _ hname h,
    unfold, List.length_map]
  rfl

theorem isParenthesized_unfold (o : Operand) :
    (o.unfold name definition).isParenthesized = o.isParenthesized := by
  obtain ⟨nodes, consumed, differential⟩ := o
  match nodes with
  | [] | [_] => rfl
  | first :: second :: rest =>
    have hlast : (((second :: rest).map (Node.unfold name definition)).getLast?).any isClose =
        ((second :: rest).getLast?).any isClose := by
      rw [List.getLast?_map, Option.any_map]
      simp only [isClose_unfold]
    simp only [unfold, isParenthesized, List.map_cons, isOpen_unfold]
    rw [← List.map_cons, hlast]

theorem inner_unfold (o : Operand) :
    (o.unfold name definition).inner = o.inner.map (Node.unfold name definition) := by
  rw [inner, isParenthesized_unfold, inner]
  split
  · simp [unfold, List.map_tail, List.map_dropLast]
  · rfl

theorem argumentCount_unfold (inside : List Node) :
    argumentCount (inside.map (Node.unfold name definition)) = argumentCount inside := by
  have hgo : ∀ depth, argumentCount.go depth (inside.map (Node.unfold name definition)) =
      argumentCount.go depth inside := by
    induction inside with
    | nil => exact fun _ => rfl
    | cons node rest ih =>
      intro depth
      rw [List.map_cons, go_cons, go_cons, isSeparator_unfold, depthAfter_unfold, ih]
  rw [argumentCount, argumentCount, hgo, List.isEmpty_map]

theorem absolute_unfold (anchor anchor' : Node) (rest : List Node) :
    absolute (anchor' :: rest.map (Node.unfold name definition)) =
      (absolute (anchor :: rest)).unfold name definition := by
  have hbar : ((fun node => !isBar node) ∘ Node.unfold name definition) =
      fun node => !isBar node := by
    funext node
    simp
  simp only [absolute, List.tail_cons, List.takeWhile_map, hbar, unfold, List.length_map]

theorem isClosed_unfold (anchor anchor' : Node) (rest : List Node) :
    isClosed (anchor' :: rest.map (Node.unfold name definition)) = isClosed (anchor :: rest) := by
  have hbar : isBar ∘ Node.unfold name definition = isBar := by
    funext node
    exact isBar_unfold name definition node
  rw [isClosed, isClosed, List.tail_cons, List.tail_cons, List.any_map, hbar]

end Operand

end Formulary
