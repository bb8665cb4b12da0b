import Mathlib.Data.List.Forall2
import Formulary.Proofs.Links

/-!
# Leaves

The numbers and names of an expression from left to right, a function before its arguments. In the
code a number may still be in pieces; the leaves of an expression are those of its code, with
adjacent pieces read as one number, and all branches of an equation have the same leaves.
-/

namespace Formulary

/-- A number, or a name where it stands. An earlier equation is told by its place among the
externals. -/
inductive Leaf (ν : Type)
  | number (value : ν)
  | var (name : String)
  | reference (external : Nat)
  | apply (external : Nat)
  | derivative (external : Nat)

/-- A text is read as the number it spells; names are read as they are. -/
inductive Leaf.ReadsAs : Leaf String → Leaf Float → Prop
  | number {text : String} {value : Float} :
      Decimal.float? text = some value → ReadsAs (.number text) (.number value)
  | var (name : String) : ReadsAs (.var name) (.var name)
  | reference (external : Nat) : ReadsAs (.reference external) (.reference external)
  | apply (external : Nat) : ReadsAs (.apply external) (.apply external)
  | derivative (external : Nat) : ReadsAs (.derivative external) (.derivative external)

namespace Expression

mutual

/-- The leaves in order. The limits of sums and integrals are none. -/
def leaves {α : Type} : Expression α → List (Leaf α)
  | number value => [.number value]
  | var name => [.var name]
  | negate operand => operand.leaves
  | binary _ left right => left.leaves ++ right.leaves
  | call _ arguments => leavesAll arguments
  | sum _ _ _ body => body.leaves
  | integral _ _ _ _ _ body => body.leaves
  | reference external _ => [.reference external]
  | apply external _ arguments => .apply external :: leavesAll arguments
  | derivative external _ _ arguments => .derivative external :: leavesAll arguments

def leavesAll {α : Type} : List (Expression α) → List (Leaf α)
  | [] => []
  | e :: es => e.leaves ++ leavesAll es

end

end Expression

/-! ## Tokens -/

/-- What a fragment is when only leaves count. -/
inductive Token
  /-- A piece of a number. -/
  | piece (text : String)
  | leaf (leaf : Leaf String)
  | other

def Fragment.token : Fragment → Token
  | number text => .piece text
  | var name => .leaf (.var name)
  | reference external _ => .leaf (.reference external)
  | apply external _ => .leaf (.apply external)
  | derivative external _ _ => .leaf (.derivative external)
  | operator _ | openParen | close | separator | call _ | sum _ _ _ | integral _ _ _ _ _ => .other

namespace Token

/-- The number at the head, which may get more pieces before it, and the leaves behind it. -/
abbrev Gathered := Option String × List (Leaf String)

def flush : Gathered → List (Leaf String)
  | (some text, ls) => .number text :: ls
  | (none, ls) => ls

def step : Token → Gathered → Gathered
  | piece text, (some behind, ls) => (some (text ++ behind), ls)
  | piece text, (none, ls) => (some text, ls)
  | leaf l, gathered => (none, l :: flush gathered)
  | other, gathered => (none, flush gathered)

def gather (ts : List Token) : Gathered := ts.foldr step (none, [])

/-- The leaves that the tokens make, adjacent pieces together being one number. -/
def leaves (ts : List Token) : List (Leaf String) := flush (gather ts)

theorem gather_cons (t : Token) (ts : List Token) : gather (t :: ts) = step t (gather ts) := rfl

@[simp] theorem leaves_nil : leaves [] = [] := rfl

@[simp] theorem leaves_other (ts : List Token) : leaves (other :: ts) = leaves ts := rfl

@[simp] theorem leaves_leaf (l : Leaf String) (ts : List Token) :
    leaves (leaf l :: ts) = l :: leaves ts := rfl

@[simp] theorem leaves_piece (text : String) : leaves [piece text] = [.number text] := rfl

/-- Tokens of which the first is no piece are gathered apart from those before them. -/
theorem gather_append (first : List Token) {second : List Token} (h : (gather second).1 = none) :
    gather (first ++ second) = ((gather first).1, (gather first).2 ++ (gather second).2) := by
  induction first with
  | nil => exact Prod.ext h rfl
  | cons t first ih =>
    rw [List.cons_append, gather_cons, gather_cons, ih]
    rcases gather first with ⟨_ | behind, ls⟩ <;> cases t <;> rfl

theorem leaves_append (first : List Token) {second : List Token} (h : (gather second).1 = none) :
    leaves (first ++ second) = leaves first ++ leaves second := by
  have hsecond : leaves second = (gather second).2 := by
    rw [leaves, ← Prod.eta (gather second), h]
    rfl
  rw [leaves, gather_append first h, hsecond, leaves]
  rcases gather first with ⟨_ | text, ls⟩ <;> rfl

theorem leaves_append_other (first second : List Token) :
    leaves (first ++ other :: second) = leaves first ++ leaves second :=
  leaves_append first rfl

/-- A piece before another is one piece with it. -/
theorem gather_pieces (first second : String) (ts : List Token) :
    gather (piece first :: piece second :: ts) = gather (piece (first ++ second) :: ts) := by
  rw [gather_cons, gather_cons, gather_cons]
  rcases gather ts with ⟨_ | behind, ls⟩
  · rfl
  · simp only [step, String.append_assoc]

theorem gather_append_congr (first : List Token) {second second' : List Token}
    (h : gather second = gather second') : gather (first ++ second) = gather (first ++ second') := by
  rw [gather, gather, List.foldr_append, List.foldr_append]
  exact congrArg (fun gathered => first.foldr step gathered) h

end Token

/-! ## The leaves of code -/

open Token

/-- Joining the pieces of a number changes no leaf. -/
theorem Fragment.leaves_joined (code : List Fragment) :
    Token.leaves ((joined code).map token) = Token.leaves (code.map token) := by
  have hall : ∀ (b : Branch) (code : List Fragment),
      gather ((b.appendAll code).fragments.map token) =
        gather ((b.fragments ++ code).map token) := by
    intro b code
    induction code generalizing b with
    | nil => rw [Branch.appendAll_nil, List.append_nil]
    | cons f code ih =>
      rw [Branch.appendAll_cons, ih]
      unfold Branch.append
      split
      · next text before rest hcode =>
        simp only [Branch.fragments, hcode, List.reverse_cons, List.append_assoc,
          List.singleton_append, List.map_append, List.map_cons, Fragment.token]
        exact gather_append_congr _ (gather_pieces before text _).symm
      · simp [Branch.fragments]
  exact congrArg flush (hall {} code)

namespace Expression

private theorem leaves_around {f : Fragment} (hf : f.token = .other) (left right : List Fragment) :
    Token.leaves ((left ++ f :: right).map Fragment.token) =
      Token.leaves (left.map Fragment.token) ++ Token.leaves (right.map Fragment.token) := by
  rw [List.map_append, List.map_cons, hf]
  exact leaves_append_other _ _

/-- The code between brackets. -/
private theorem leaves_enclosed {opening : Fragment} (hopening : opening.token = .other)
    (code : List Fragment) :
    Token.leaves ((opening :: (code ++ [Fragment.close])).map Fragment.token) =
      Token.leaves (code.map Fragment.token) := by
  rw [List.map_cons, hopening, leaves_other, leaves_around rfl]
  exact List.append_nil _

mutual

/-- The leaves of an expression are read off its code. -/
theorem IsSum.leaves {code : List Fragment} {e : Expression Float} :
    IsSum code e →
      List.Forall₂ Leaf.ReadsAs (Token.leaves (code.map Fragment.token)) e.leaves
  | .product h => h.leaves
  | .more hl _ hr => by
    rw [leaves_around rfl, Expression.leaves]
    exact List.rel_append hl.leaves hr.leaves

theorem IsProduct.leaves {code : List Fragment} {e : Expression Float} :
    IsProduct code e →
      List.Forall₂ Leaf.ReadsAs (Token.leaves (code.map Fragment.token)) e.leaves
  | .signed h => h.leaves
  | .more hl _ hr => by
    rw [leaves_around rfl, Expression.leaves]
    exact List.rel_append hl.leaves hr.leaves

theorem IsSigned.leaves {code : List Fragment} {e : Expression Float} :
    IsSigned code e →
      List.Forall₂ Leaf.ReadsAs (Token.leaves (code.map Fragment.token)) e.leaves
  | .operand h => h.leaves
  | .plus h => h.leaves
  | .minus h => h.leaves

theorem IsOperand.leaves {code : List Fragment} {e : Expression Float} :
    IsOperand code e →
      List.Forall₂ Leaf.ReadsAs (Token.leaves (code.map Fragment.token)) e.leaves
  | .number h => .cons (.number h) .nil
  | .var name => .cons (.var name) .nil
  | .parens h => by
    rw [leaves_enclosed rfl]
    exact h.leaves
  | .call _ h _ => h.leaves
  | .sum _ _ _ h => by
    rw [leaves_enclosed rfl]
    exact h.leaves
  | .integral _ _ _ _ _ h => by
    rw [leaves_enclosed rfl]
    exact h.leaves
  | .reference external _ => .cons (.reference external) .nil
  | .apply external _ h => .cons (.apply external) h.leaves
  | .derivative external _ _ h => .cons (.derivative external) h.leaves

theorem IsArguments.leaves {code : List Fragment} {es : List (Expression Float)} :
    IsArguments code es →
      List.Forall₂ Leaf.ReadsAs (Token.leaves (code.map Fragment.token)) (leavesAll es)
  | .none => .nil
  | .some h => h.leaves

theorem IsListed.leaves {code : List Fragment} {es : List (Expression Float)} :
    IsListed code es →
      List.Forall₂ Leaf.ReadsAs (Token.leaves (code.map Fragment.token)) (leavesAll es)
  | .last h => by
    rw [leaves_around rfl, leavesAll]
    exact List.rel_append h.leaves .nil
  | .more h hrest => by
    rw [leaves_around rfl, leavesAll]
    exact List.rel_append h.leaves hrest.leaves

end

end Expression

/-! ## The leaves of all branches -/

/-- The tokens that instructions put into every branch. -/
def Instruction.tokens (instructions : List Instruction) : List Token :=
  instructions.filterMap (put? Fragment.token)

/-- Every branch that is read from linked instructions has the same leaves. -/
theorem Session.leaves_of_mem {known : String → Prop} {externals : List (Equation Float)}
    {instructions : List Instruction} (h : ∀ i ∈ instructions, i.IsLinked known externals)
    {branches : List (Expression Float)} (hread : readBranches instructions = .ok branches)
    {e : Expression Float} (he : e ∈ branches) :
    List.Forall₂ Leaf.ReadsAs (Token.leaves (Instruction.tokens instructions)) e.leaves := by
  obtain ⟨k, code, hscript, hsum⟩ := exists_script_of_mem hread he
  have htokens : code.map Fragment.token = Instruction.tokens instructions :=
    map_script rfl (fun _ _ => rfl) (fun _ _ => rfl) (fun _ _ _ => rfl) h hscript
  rw [← htokens, ← Fragment.leaves_joined]
  exact hsum.leaves

end Formulary
