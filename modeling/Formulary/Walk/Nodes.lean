import Formulary.Walk

/-!
# The walk over a node list

Each node is compiled together with the operand it takes from the nodes behind it, and the walk
goes on behind that operand. Between neighbours that are multiplied without a sign, one is put in.
-/

namespace Formulary.Walk

mutual

/-- Compiles a list of siblings. `previous` is the node before them. -/
def visitAll (session : Session) (depth : Nat) (previous : Option Node) (nodes : List Node) :
    Walk Unit :=
  match nodes with
  | [] => done ()
  | node :: rest => do
    if previous.any (·.juxtaposed node) then append (.operator .multiply)
    emit (.visit depth node)
    let consumed ← visit session depth node rest
    visitAll session depth (node :: rest.take consumed).getLast? (rest.drop consumed)
termination_by 2 * sizeOf nodes + 1
decreasing_by
  · simp
  · have := sizeOf_le_of_isInfix (List.drop_suffix consumed rest).isInfix
    simp
    omega

/-- Compiles one node and returns how many of the nodes behind it are its own. -/
def visit (session : Session) (depth : Nat) (node : Node) (rest : List Node) : Walk Nat :=
  match node with
  | .literal text =>
    if text = Node.bar then
      let operand := Operand.absolute (.literal text :: rest)
      if Operand.isClosed (.literal text :: rest) then do
        called .absolute (.literal text) operand.nodes
          (visitAll session (depth + 1) none operand.nodes)
        return operand.consumed
      else malformed (.literal text :: rest) .unclosedBar
    else do
      append (.number text)
      return 0
  | .var name =>
    let operand := Operand.following false (.var name :: rest)
    named session name (.var name :: rest) operand
      (visitAll session (depth + 1) none operand.inner)
  | .atom symbol => do
    operated symbol
    return 0
  | .power base exponent =>
    if (simple base).isEmpty || (simple exponent).isEmpty then
      malformed [.power base exponent] .powerPart
    else do
      enclosed (.call .power) do
        visitAll session (depth + 1) none (simple base)
        append .separator
        visitAll session (depth + 1) none (simple exponent)
      return 0
  | .angle base =>
    if (simple base).isEmpty then malformed [.angle base] .anglePart
    else do
      visitAll session (depth + 1) none (simple base)
      return 0
  | .prime base =>
    let operand := Operand.following false (.prime base :: rest)
    let arguments := visitAll session (depth + 1) none operand.inner
    match base with
    | .var name => primed session name (.prime (.var name) :: rest) operand arguments
    | base => malformed [.prime base] .primeBase
  | .fraction numerator denominator =>
    if numerator.isEmpty || denominator.isEmpty then
      malformed [.fraction numerator denominator] .emptyFraction
    else do
      enclosed .openParen do
        enclosed .openParen (visitAll session (depth + 1) none numerator)
        append (.operator .divide)
        enclosed .openParen (visitAll session (depth + 1) none denominator)
      return 0
  | .root body => do
    called .squareRoot (.root body) body (visitAll session (depth + 1) none body)
    return 0
  | .group body => do
    visitAll session (depth + 1) none body
    return 0
  | .named name lower upper =>
    let anchor := Node.named name lower upper
    let operand := Operand.following (name == .integral) (anchor :: rest)
    let body := visitAll session (depth + 1) none operand.nodes
    match name with
    | .sum => summed anchor lower upper operand body
    | .integral => integrated session.config lower upper (anchor :: rest) operand body
    | .sin => turned .sin .sine anchor lower upper operand body
    | .cos => turned .cos .cosine anchor lower upper operand body
    | .tan => turned .tan .tangent anchor lower upper operand body
termination_by 2 * sizeOf (node :: rest)
decreasing_by
  · have := Operand.sizeOf_absolute (.literal text) rest
    omega
  · have := Operand.sizeOf_inner_following false (.var name) rest
    omega
  · have := sizeOf_simple base
    have := sizeOf_pos rest
    simp
    omega
  · have := sizeOf_simple exponent
    have := sizeOf_pos rest
    simp
    omega
  · have := sizeOf_simple base
    have := sizeOf_pos rest
    simp
    omega
  · have := Operand.sizeOf_inner_following false (.prime base) rest
    omega
  · simp
    omega
  · simp
    omega
  · simp
    omega
  · simp
    omega
  · have := Operand.sizeOf_following (name == .integral) (.named name lower upper) rest
    omega

end

theorem visitAll_cons (session : Session) (depth : Nat) (previous : Option Node) (node : Node)
    (rest : List Node) :
    visitAll session depth previous (node :: rest) =
      (if previous.any (·.juxtaposed node) then append (.operator .multiply) else pure ()) >>=
        fun _ => emit (.visit depth node) >>= fun _ => visit session depth node rest >>=
          fun consumed =>
            visitAll session depth (node :: rest.take consumed).getLast? (rest.drop consumed) := by
  rw [visitAll]
  split
  · rfl
  · rw [pure_bind]

/-- A group leaves nothing in the code but what its body comes to. -/
theorem visit_group (session : Session) (depth : Nat) (body rest : List Node) :
    visit session depth (.group body) rest =
      visitAll session (depth + 1) none body >>= fun _ => return 0 := by
  rw [visit]

end Formulary.Walk
