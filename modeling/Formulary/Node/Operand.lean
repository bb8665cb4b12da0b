import Formulary.Node

/-!
# Operand runs

Sums, integrals, trigonometric functions, applications and absolute values take their operand from
the siblings that follow them. The list scanned here starts with the node that takes the operand,
its anchor. A run is always the beginning of the nodes after the anchor.
-/

namespace Formulary

theorem sizeOf_pos {α : Type} [SizeOf α] (l : List α) : 0 < sizeOf l := by
  cases l <;> simp +arith

/-- A contiguous part of a list is no larger than the list. -/
theorem sizeOf_le_of_isInfix {α : Type} [SizeOf α] {l₁ l₂ : List α} (h : l₁ <:+: l₂) :
    sizeOf l₁ ≤ sizeOf l₂ := by
  obtain ⟨before, after, rfl⟩ := h
  induction before with
  | nil =>
    induction l₁ with
    | nil => cases after <;> simp +arith
    | cons a l ih => simp at ih ⊢; omega
  | cons a l ih => simp at ih ⊢; omega

/-- The operand of an anchor. -/
structure Operand where
  nodes : List Node
  /-- How many nodes after the anchor belong to it: the operand and what marks its end. -/
  consumed : Nat
  /-- The integration variable named by a `d v` that ended the operand. -/
  differential : Option String := none

namespace Operand

/-- The parenthesis depth after a node; a closing atom without partner is passed over. -/
def depthAfter (node : Node) (depth : Nat) : Nat :=
  if node.isOpen then depth + 1 else if node.isClose then depth - 1 else depth

/-- The `v` of a pair of variables `d v` at the head of the nodes. -/
def differential? : List Node → Option String
  | .var d :: .var v :: _ => if d = "d" then some v else none
  | _ => none

/-- A run in parentheses ends with them. Any other run ends before the first additive atom outside
parentheses that is not its leading sign. `marked` says that a `d v` outside parentheses ends the
run too. -/
def scan (marked parenthesized : Bool) (leading : Bool) (depth : Nat) :
    List Node → List Node × Option String
  | [] => ([], none)
  | node :: rest =>
    match if marked && depth == 0 then differential? (node :: rest) else none with
    | some v => ([], some v)
    | none =>
      if depth == 0 && !leading && (parenthesized || node.isAdditive) then ([], none)
      else
        let (run, v) := scan marked parenthesized false (depthAfter node depth) rest
        (node :: run, v)

/-- The operand run after the anchor at the head of `anchored`. -/
def following (marked : Bool) (anchored : List Node) : Operand :=
  let rest := anchored.tail
  let (run, differential) := scan marked (rest.head?.any Node.isOpen) true 0 rest
  { nodes := run
    consumed := run.length + if differential.isSome then 2 else 0
    differential }

/-- Another bar follows the one at the head of `anchored`. -/
def isClosed (anchored : List Node) : Bool := anchored.tail.any Node.isBar

/-- The nodes between the bar at the head of `anchored` and the next one. -/
def absolute (anchored : List Node) : Operand :=
  let run := anchored.tail.takeWhile (!·.isBar)
  { nodes := run, consumed := run.length + 1 }

/-- The operand is one group in parentheses, as far as its two ends tell. -/
def isParenthesized (o : Operand) : Bool :=
  match o.nodes with
  | first :: second :: rest =>
    first.isOpen && ((second :: rest).getLast?.any Node.isClose)
  | _ => false

/-- The operand without the parentheses around it. -/
def inner (o : Operand) : List Node :=
  if o.isParenthesized then o.nodes.tail.dropLast else o.nodes

/-- The number of arguments in a parenthesized list. -/
def argumentCount (inner : List Node) : Nat :=
  if inner.isEmpty then 0 else go 0 inner + 1
where
  /-- The separators outside nested parentheses. -/
  go (depth : Nat) : List Node → Nat
    | [] => 0
    | node :: rest =>
      let separators := go (depthAfter node depth) rest
      if depth == 0 && node.isSeparator then separators + 1 else separators

theorem scan_isPrefix (marked parenthesized leading : Bool) (depth : Nat) (nodes : List Node) :
    (scan marked parenthesized leading depth nodes).1 <+: nodes := by
  fun_induction scan with
  | case1 => exact List.prefix_rfl
  | case2 => exact List.nil_prefix
  | case3 => exact List.nil_prefix
  | case4 leading depth node rest _ _ run v hrun ih =>
    rw [hrun] at ih
    exact List.cons_prefix_cons.2 ⟨rfl, ih⟩

theorem following_isPrefix (marked : Bool) (anchored : List Node) :
    (following marked anchored).nodes <+: anchored.tail :=
  scan_isPrefix ..

theorem absolute_isPrefix (anchored : List Node) :
    (absolute anchored).nodes <+: anchored.tail :=
  List.takeWhile_prefix _

theorem inner_isInfix (o : Operand) : o.inner <:+: o.nodes := by
  unfold inner
  split
  · exact (List.dropLast_prefix _).isInfix.trans (List.tail_suffix _).isInfix
  · exact List.infix_rfl

/-! An operand is smaller than its anchor with all that follows. -/

theorem sizeOf_following (marked : Bool) (node : Node) (rest : List Node) :
    sizeOf (following marked (node :: rest)).nodes < sizeOf (node :: rest) := by
  have := sizeOf_le_of_isInfix (following_isPrefix marked (node :: rest)).isInfix
  simp at this ⊢
  omega

theorem sizeOf_inner_following (marked : Bool) (node : Node) (rest : List Node) :
    sizeOf (following marked (node :: rest)).inner < sizeOf (node :: rest) :=
  Nat.lt_of_le_of_lt (sizeOf_le_of_isInfix (inner_isInfix _)) (sizeOf_following ..)

theorem sizeOf_absolute (node : Node) (rest : List Node) :
    sizeOf (absolute (node :: rest)).nodes < sizeOf (node :: rest) := by
  have := sizeOf_le_of_isInfix (absolute_isPrefix (node :: rest)).isInfix
  simp at this ⊢
  omega

end Operand

end Formulary
