import Mathlib.Logic.Function.Basic
import Formulary.Node

/-!
# The same nodes in other words

Nodes may have other names, atoms of the same mark, and numbers in smaller pieces. From outside
they look the same, node by node, but for a piece of a number that has become two.
-/

namespace Formulary

/-! ## What a node is from outside -/

/-- The nodes are told apart by nothing that is asked of a sibling. -/
structure Node.SameOutline (node node' : Node) : Prop where
  mark : node'.mark? = node.mark?
  isNumeric : node'.isNumeric = node.isNumeric
  isBar : node'.isBar = node.isBar
  isSum : node'.isSum = node.isSum

namespace Node.SameOutline

variable {node node' next next' : Node}

theorem isOpen (h : node.SameOutline node') : node'.isOpen = node.isOpen := by
  rw [Node.isOpen, Node.isOpen, h.mark]

theorem isClose (h : node.SameOutline node') : node'.isClose = node.isClose := by
  rw [Node.isClose, Node.isClose, h.mark]

theorem isSeparator (h : node.SameOutline node') : node'.isSeparator = node.isSeparator := by
  rw [Node.isSeparator, Node.isSeparator, h.mark]

theorem isEquality (h : node.SameOutline node') : node'.isEquality = node.isEquality := by
  rw [Node.isEquality, Node.isEquality, h.mark]

theorem isMinus (h : node.SameOutline node') : node'.isMinus = node.isMinus := by
  rw [Node.isMinus, Node.isMinus, h.mark]

theorem isAdditive (h : node.SameOutline node') : node'.isAdditive = node.isAdditive := by
  rw [Node.isAdditive, Node.isAdditive, h.mark]

theorem isArithmetic (h : node.SameOutline node') : node'.isArithmetic = node.isArithmetic := by
  rw [Node.isArithmetic, Node.isArithmetic, h.mark]

theorem juxtaposed (h : node.SameOutline node') (hnext : next.SameOutline next') :
    node'.juxtaposed next' = node.juxtaposed next := by
  rw [Node.juxtaposed, Node.juxtaposed, h.isNumeric, h.isSum, h.isOpen, h.isArithmetic,
    h.isSeparator, hnext.isNumeric, hnext.isClose, hnext.isArithmetic, hnext.isSeparator]

/-- What is asked of a node that may be missing. -/
theorem any {o o' : Option Node} (h : Option.Rel SameOutline o o') {q q' : Node → Bool}
    (hq : ∀ node node' : Node, node.SameOutline node' → q' node' = q node) :
    o'.any q' = o.any q := by
  cases h with
  | none => rfl
  | some hnode => exact hq _ _ hnode

/-- All pieces of numbers look the same. -/
theorem piece {text text' : String} (h : text ≠ Node.bar) (h' : text' ≠ Node.bar) :
    (Node.literal text).SameOutline (.literal text') where
  mark := rfl
  isNumeric := by rw [Node.isNumeric, Node.isNumeric, bne_iff_ne.2 h, bne_iff_ne.2 h']
  isBar := by simp [Node.isBar, h, h']
  isSum := rfl

end Node.SameOutline

/-! ## Spellings -/

/-- The spellings that every sign with more than one has. -/
def Mark.spellings : List (List String) :=
  [["(", "\\left"], [")", "\\right"], ["*", "\\times", "×"], ["/", "\\div", "÷"],
    ["±", "\\pm", "\\plusmn"]]

/-- The symbols are the same, or spell the same sign. -/
def Mark.Interchangeable (symbol symbol' : String) : Prop :=
  symbol' = symbol ∨ ∃ spelling ∈ spellings, symbol ∈ spelling ∧ symbol' ∈ spelling

instance (symbol symbol' : String) : Decidable (Mark.Interchangeable symbol symbol') :=
  inferInstanceAs (Decidable (symbol' = symbol ∨
    ∃ spelling ∈ Mark.spellings, symbol ∈ spelling ∧ symbol' ∈ spelling))

theorem Mark.ofSymbol?_eq {symbol symbol' : String} (h : Interchangeable symbol symbol') :
    ofSymbol? symbol' = ofSymbol? symbol := by
  have hspelling : ∀ spelling ∈ spellings, ∀ symbol ∈ spelling, ∀ symbol' ∈ spelling,
      ofSymbol? symbol' = ofSymbol? symbol := by
    decide
  rcases h with rfl | ⟨spelling, hmem, hsymbol, hsymbol'⟩
  · rfl
  · exact hspelling spelling hmem symbol hsymbol symbol' hsymbol'

/-! ## Other words -/

/-- How an equation may be put otherwise. -/
structure Paraphrase where
  name : String → String
  /-- An atom may be written as another. -/
  atom : String → String → Prop
  /-- The text of the two together may be written as two pieces. -/
  split : String → String → Prop
  name_injective : Function.Injective name
  name_d : name "d" = "d"
  mark_of_atom : ∀ {symbol symbol' : String}, atom symbol symbol' →
    Mark.ofSymbol? symbol' = Mark.ofSymbol? symbol
  ne_bar_of_split : ∀ {first second : String}, split first second →
    first ≠ Node.bar ∧ second ≠ Node.bar ∧ first ++ second ≠ Node.bar

namespace Paraphrase

/-- Numbers may stand in two pieces; a bar is no number. -/
def splitting : Paraphrase where
  name := id
  atom symbol symbol' := symbol' = symbol
  split first second := first ≠ Node.bar ∧ second ≠ Node.bar ∧ first ++ second ≠ Node.bar
  name_injective := Function.injective_id
  name_d := rfl
  mark_of_atom h := congrArg Mark.ofSymbol? h
  ne_bar_of_split h := h

/-- Signs may be spelled otherwise. -/
def respelling : Paraphrase where
  name := id
  atom := Mark.Interchangeable
  split _ _ := False
  name_injective := Function.injective_id
  name_d := rfl
  mark_of_atom := Mark.ofSymbol?_eq
  ne_bar_of_split := False.elim

/-- Names may be told apart by others. -/
def otherNames {f : String → String} (hf : Function.Injective f) (hd : f "d" = "d") :
    Paraphrase where
  name := f
  atom symbol symbol' := symbol' = symbol
  split _ _ := False
  name_injective := hf
  name_d := hd
  mark_of_atom h := congrArg Mark.ofSymbol? h
  ne_bar_of_split := False.elim

mutual

/-- The second node is the first in other words. What is a base or an exponent by itself stays in
one piece. -/
inductive Relates (p : Paraphrase) : Node → Node → Prop
  | literal (text : String) : Relates p (.literal text) (.literal text)
  | var (name : String) : Relates p (.var name) (.var (p.name name))
  | atom {symbol symbol' : String} :
      p.atom symbol symbol' → Relates p (.atom symbol) (.atom symbol')
  | power {base base' exponent exponent' : Node} :
      Relates p base base' → Relates p exponent exponent' →
        Relates p (.power base exponent) (.power base' exponent')
  | angle {base base' : Node} : Relates p base base' → Relates p (.angle base) (.angle base')
  | prime {base base' : Node} : Relates p base base' → Relates p (.prime base) (.prime base')
  | fraction {numerator numerator' denominator denominator' : List Node} :
      RelatesAll p numerator numerator' → RelatesAll p denominator denominator' →
        Relates p (.fraction numerator denominator) (.fraction numerator' denominator')
  | root {body body' : List Node} : RelatesAll p body body' → Relates p (.root body) (.root body')
  | group {body body' : List Node} :
      RelatesAll p body body' → Relates p (.group body) (.group body')
  | named (operator : OperatorName) {lower lower' upper upper' : Option (List Node)} :
      RelatesLimit p lower lower' → RelatesLimit p upper upper' →
        Relates p (.named operator lower upper) (.named operator lower' upper')

/-- Siblings in other words; among them a piece of a number may become two. -/
inductive RelatesAll (p : Paraphrase) : List Node → List Node → Prop
  | nil : RelatesAll p [] []
  | cons {node node' : Node} {rest rest' : List Node} :
      Relates p node node' → RelatesAll p rest rest' → RelatesAll p (node :: rest) (node' :: rest')
  | split {first second : String} {rest rest' : List Node} :
      p.split first second → RelatesAll p rest rest' →
        RelatesAll p (.literal (first ++ second) :: rest)
          (.literal first :: .literal second :: rest')

inductive RelatesLimit (p : Paraphrase) : Option (List Node) → Option (List Node) → Prop
  | none : RelatesLimit p none none
  | some {nodes nodes' : List Node} :
      RelatesAll p nodes nodes' → RelatesLimit p (some nodes) (some nodes')

end

variable {p : Paraphrase} {node node' : Node} {nodes nodes' rest rest' : List Node}
  {first second : String}

theorem Relates.outline (h : p.Relates node node') : node.SameOutline node' := by
  cases h with
  | atom h => exact ⟨p.mark_of_atom h, rfl, rfl, rfl⟩
  | named operator => cases operator <;> exact ⟨rfl, rfl, rfl, rfl⟩
  | _ => exact ⟨rfl, rfl, rfl, rfl⟩

theorem outline_first (h : p.split first second) :
    (Node.literal (first ++ second)).SameOutline (.literal first) :=
  .piece (p.ne_bar_of_split h).2.2 (p.ne_bar_of_split h).1

theorem outline_second (h : p.split first second) :
    (Node.literal (first ++ second)).SameOutline (.literal second) :=
  .piece (p.ne_bar_of_split h).2.2 (p.ne_bar_of_split h).2.1

namespace RelatesAll

theorem isEmpty (h : p.RelatesAll nodes nodes') : nodes'.isEmpty = nodes.isEmpty := by
  cases h <;> rfl

/-- Only a piece of a number becomes two. -/
theorem of_cons (h : p.RelatesAll (node :: rest) nodes') (hnode : node.isNumeric = false) :
    ∃ node' rest', nodes' = node' :: rest' ∧ p.Relates node node' ∧ p.RelatesAll rest rest' := by
  cases h with
  | cons hnode hrest => exact ⟨_, _, rfl, hnode, hrest⟩
  | split hsplit _ => simp [Node.isNumeric, p.ne_bar_of_split hsplit] at hnode

theorem of_concat (h : p.RelatesAll (rest ++ [node]) nodes') (hnode : node.isNumeric = false) :
    ∃ rest' node', nodes' = rest' ++ [node'] ∧ p.RelatesAll rest rest' ∧ p.Relates node node' := by
  induction rest generalizing nodes' with
  | nil =>
    obtain ⟨node', rest', rfl, hrelates, hrest⟩ := of_cons h hnode
    cases hrest
    exact ⟨[], node', rfl, .nil, hrelates⟩
  | cons first rest ih =>
    cases h with
    | cons hfirst h =>
      obtain ⟨rest', node', rfl, hrest, hrelates⟩ := ih h
      exact ⟨_ :: rest', node', rfl, .cons hfirst hrest, hrelates⟩
    | split hsplit h =>
      obtain ⟨rest', node', rfl, hrest, hrelates⟩ := ih h
      exact ⟨_ :: _ :: rest', node', rfl, .split hsplit hrest, hrelates⟩

theorem append {more more' : List Node} (h : p.RelatesAll nodes nodes')
    (hmore : p.RelatesAll more more') : p.RelatesAll (nodes ++ more) (nodes' ++ more') := by
  induction nodes generalizing nodes' with
  | nil =>
    cases h
    exact hmore
  | cons node nodes ih =>
    cases h with
    | cons hnode h => exact .cons hnode (ih h)
    | split hsplit h => exact .split hsplit (ih h)

theorem head (h : p.RelatesAll nodes nodes') :
    Option.Rel Node.SameOutline nodes.head? nodes'.head? := by
  cases h with
  | nil => exact .none
  | cons hnode _ => exact .some hnode.outline
  | split hsplit _ => exact .some (outline_first hsplit)

theorem last (h : p.RelatesAll nodes nodes') :
    Option.Rel Node.SameOutline nodes.getLast? nodes'.getLast? := by
  induction nodes generalizing nodes' with
  | nil =>
    cases h
    exact .none
  | cons node rest ih =>
    have hbehind : ∀ {node' : Node} {rest' : List Node}, p.RelatesAll rest rest' →
        node.SameOutline node' →
          Option.Rel Node.SameOutline (node :: rest).getLast? (node' :: rest').getLast? := by
      intro node' rest' hrest hnode
      rw [List.getLast?_cons, List.getLast?_cons]
      refine .some ?_
      generalize hlast : rest.getLast? = last, hlast' : rest'.getLast? = last'
      have hrel := ih hrest
      rw [hlast, hlast'] at hrel
      cases hrel with
      | none => exact hnode
      | some h => exact h
    cases h with
    | cons hnode hrest => exact hbehind hrest hnode.outline
    | split hsplit hrest =>
      rw [List.getLast?_cons_cons]
      exact hbehind hrest (outline_second hsplit)

section While

variable {q : Node → Bool}
  (hq : ∀ node node' : Node, node.SameOutline node' → q node' = q node)

include hq

/-- What is asked of single nodes ends both lists at the same place. -/
theorem takeWhile (h : p.RelatesAll nodes nodes') :
    p.RelatesAll (nodes.takeWhile q) (nodes'.takeWhile q) := by
  induction nodes generalizing nodes' with
  | nil =>
    cases h
    exact .nil
  | cons node rest ih =>
    cases h with
    | @cons _ node' _ rest' hnode hrest =>
      rw [List.takeWhile_cons, List.takeWhile_cons, hq _ _ hnode.outline]
      split
      · exact .cons hnode (ih hrest)
      · exact .nil
    | split hsplit hrest =>
      rw [List.takeWhile_cons, List.takeWhile_cons, List.takeWhile_cons,
        hq _ _ (outline_first hsplit), hq _ _ (outline_second hsplit)]
      split
      · exact .split hsplit (ih hrest)
      · exact .nil

/-- What is behind the node at which both end, where no piece of a number is such a node. -/
theorem tail_dropWhile (hpiece : ∀ node : Node, node.isNumeric = true → q node = true)
    (h : p.RelatesAll nodes nodes') :
    p.RelatesAll (nodes.dropWhile q).tail (nodes'.dropWhile q).tail := by
  induction nodes generalizing nodes' with
  | nil =>
    cases h
    exact .nil
  | cons node rest ih =>
    cases h with
    | cons hnode hrest =>
      rw [List.dropWhile_cons, List.dropWhile_cons, hq _ _ hnode.outline]
      split
      · exact ih hrest
      · exact hrest
    | split hsplit hrest =>
      have hnumeric := hpiece (.literal _) (bne_iff_ne.2 (p.ne_bar_of_split hsplit).2.2)
      rw [List.dropWhile_cons, List.dropWhile_cons, List.dropWhile_cons,
        hq _ _ (outline_first hsplit), hq _ _ (outline_second hsplit), hnumeric]
      exact ih hrest

theorem any (h : p.RelatesAll nodes nodes') : nodes'.any q = nodes.any q := by
  induction nodes generalizing nodes' with
  | nil =>
    cases h
    rfl
  | cons node rest ih =>
    cases h with
    | cons hnode hrest =>
      rw [List.any_cons, List.any_cons, hq _ _ hnode.outline, ih hrest]
    | split hsplit hrest =>
      rw [List.any_cons, List.any_cons, List.any_cons, hq _ _ (outline_first hsplit),
        hq _ _ (outline_second hsplit), ih hrest, ← Bool.or_assoc, Bool.or_self]

end While

end RelatesAll

end Paraphrase

end Formulary
