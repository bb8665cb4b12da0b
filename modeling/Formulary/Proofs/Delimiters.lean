import Formulary.Proofs.Calls

/-!
# Delimiters of the code

Code is a word of brackets with separators between them. Read from left to right, with a stack of
the brackets that are open, it tells how many arguments each function is given. It tells so without
being parsed, and it tells the same of all branches of an equation.
-/

namespace Formulary

/-- A bracket that is not closed yet. -/
inductive Pending
  /-- One expression is to stand in it. -/
  | single
  /-- Arguments stand in it, `found` up to here. `external` is the place of the function they are
  for, unless it is built in. -/
  | arguments (external : Option Nat) (found : Nat)

/-- What a fragment is when only brackets and separators count. -/
inductive Delimiter
  | part
  | opening (pending : Pending)
  | close
  | separator

def Fragment.delimiter : Fragment → Delimiter
  | number _ | var _ | operator _ | reference _ _ => .part
  | openParen | sum _ _ _ | integral _ _ _ _ _ => .opening .single
  | call f => .opening (if f.arity = 1 then .single else .arguments none 0)
  | apply external _ | derivative external _ _ => .opening (.arguments (some external) 0)
  | close => .close
  | separator => .separator

namespace Pending

/-- Something stands in the innermost bracket. -/
def touch : List Pending → List Pending
  | arguments external found :: stack => arguments external (max 1 found) :: stack
  | stack => stack

@[simp] theorem touch_touch (stack : List Pending) : touch (touch stack) = touch stack := by
  rcases stack with _ | ⟨pending, stack⟩
  · rfl
  · cases pending with
    | single => rfl
    | arguments external found =>
      have hmax : max 1 (max 1 found) = max 1 found := by omega
      rw [touch, touch, hmax]

@[simp] theorem touch_single (stack : List Pending) :
    touch (single :: stack) = single :: stack := rfl

/-- What is known of a function when its arguments have ended. -/
def counted : Pending → List (Nat × Nat)
  | arguments (some external) found => [(external, found)]
  | _ => []

end Pending

namespace Delimiter

open Pending

/-- The open brackets behind a delimiter, and the function whose arguments end with it. -/
def read : Delimiter → List Pending → Option (List Pending × List (Nat × Nat))
  | part, stack => some (touch stack, [])
  | opening pending, stack => some (pending :: touch stack, [])
  | close, pending :: stack => some (stack, pending.counted)
  | separator, arguments external (found + 1) :: stack =>
    some (arguments external (found + 2) :: stack, [])
  | _, _ => none

def readAll : List Delimiter → List Pending → Option (List Pending × List (Nat × Nat))
  | [], stack => some (stack, [])
  | b :: rest, stack =>
    (b.read stack).bind fun (stack, counts) =>
      (readAll rest stack).map fun (stack, more) => (stack, counts ++ more)

variable {stack stack' : List Pending} {counts : List (Nat × Nat)} {rest : List Delimiter}

theorem readAll_nil (stack : List Pending) : readAll [] stack = some (stack, []) := rfl

private theorem map_nil_append (result : Option (List Pending × List (Nat × Nat))) :
    (result.map fun (stack, more) => (stack, [] ++ more)) = result := by
  cases result <;> rfl

theorem readAll_part (rest : List Delimiter) (stack : List Pending) :
    readAll (part :: rest) stack = readAll rest (touch stack) :=
  map_nil_append _

theorem readAll_opening (pending : Pending) (rest : List Delimiter) (stack : List Pending) :
    readAll (opening pending :: rest) stack = readAll rest (pending :: touch stack) :=
  map_nil_append _

theorem readAll_close (rest : List Delimiter) (pending : Pending) (stack : List Pending) :
    readAll (close :: rest) (pending :: stack) =
      (readAll rest stack).map fun (stack, more) => (stack, pending.counted ++ more) :=
  rfl

theorem readAll_separator (rest : List Delimiter) (external : Option Nat) (found : Nat)
    (stack : List Pending) :
    readAll (separator :: rest) (arguments external (found + 1) :: stack) =
      readAll rest (arguments external (found + 2) :: stack) :=
  map_nil_append _

theorem readAll_append (first second : List Delimiter) (stack : List Pending) :
    readAll (first ++ second) stack =
      (readAll first stack).bind fun (stack, counts) =>
        (readAll second stack).map fun (stack, more) => (stack, counts ++ more) := by
  induction first generalizing stack with
  | nil => exact (map_nil_append _).symm
  | cons b first ih =>
    rw [List.cons_append, readAll, readAll]
    cases b.read stack with
    | none => rfl
    | some next =>
      obtain ⟨stack₁, counts⟩ := next
      simp only [Option.bind_some, ih]
      cases readAll first stack₁ with
      | none => rfl
      | some next =>
        obtain ⟨stack₂, counts'⟩ := next
        simp only [Option.bind_some, Option.map_some, Option.map_map]
        congr 1
        funext result
        exact congrArg (Prod.mk _) (List.append_assoc ..).symm

end Delimiter

/-! ## What an expression applies -/

namespace Expression

open Delimiter Pending

/-- The functions of an expression with the number of arguments each is given. -/
def applied (e : Expression Float) : List (Nat × Nat) := e.parts.filterMap applied?

def appliedAll (es : List (Expression Float)) : List (Nat × Nat) := (partsAll es).filterMap applied?

theorem applied_binary (o : Operator) (l r : Expression Float) :
    (binary o l r).applied = l.applied ++ r.applied := by
  rw [applied, parts, List.filterMap_append, List.filterMap_append]
  exact List.append_nil _

theorem appliedAll_cons (e : Expression Float) (es : List (Expression Float)) :
    appliedAll (e :: es) = e.applied ++ appliedAll es :=
  List.filterMap_append

/-- Nothing is applied by an expression itself that is no function of an external. -/
theorem applied_behind {e : Expression Float} {inside : List (Expression Float)}
    (hparts : e.parts = inside ++ [e]) (hnone : e.applied? = none) :
    e.applied = inside.filterMap applied? := by
  rw [applied, hparts, List.filterMap_append, List.filterMap_cons_none hnone]
  exact List.append_nil _

theorem applied_negate (e : Expression Float) : (negate e).applied = e.applied :=
  applied_behind rfl rfl

theorem applied_call (f : Function) (es : List (Expression Float)) :
    (call f es).applied = appliedAll es :=
  applied_behind rfl rfl

/-- A body between an opening fragment and its `close`. -/
private theorem readAll_body {opening : Fragment} {code : List Fragment}
    {counts : List (Nat × Nat)} (hopening : opening.delimiter = .opening .single)
    (h : ∀ stack, readAll (code.map Fragment.delimiter) stack = some (touch stack, counts))
    (stack : List Pending) :
    readAll ((opening :: (code ++ [Fragment.close])).map Fragment.delimiter) stack =
      some (touch stack, counts) := by
  rw [List.map_cons, hopening, readAll_opening, List.map_append, readAll_append, h]
  simp [Fragment.delimiter, readAll_close, readAll_nil, counted]

/-- The arguments of a function of an external. -/
private theorem readAll_application {opening : Fragment} {external : Nat} {code : List Fragment}
    {counts : List (Nat × Nat)} {n : Nat}
    (hopening : opening.delimiter = .opening (.arguments (some external) 0))
    (h : ∀ x stack, readAll (code.map Fragment.delimiter) (.arguments x 0 :: stack) =
      some (stack, counts ++ (Pending.arguments x n).counted)) (stack : List Pending) :
    readAll ((opening :: code).map Fragment.delimiter) stack =
      some (touch stack, counts ++ [(external, n)]) := by
  rw [List.map_cons, hopening, readAll_opening, h]
  rfl

theorem IsListed.length_pos {code : List Fragment} {es : List (Expression Float)}
    (h : IsListed code es) : 0 < es.length := by
  cases h with
  | last _ => exact Nat.one_pos
  | more _ _ => exact Nat.succ_pos _

mutual

/-- Code reads as one part, and counts what its expression applies. -/
theorem IsSum.readAll {code : List Fragment} {e : Expression Float} :
    IsSum code e → ∀ stack, Delimiter.readAll (code.map Fragment.delimiter) stack =
      some (touch stack, e.applied)
  | .product h, stack => h.readAll stack
  | .more hl _ hr, stack => by
    rw [List.map_append, List.map_cons, Fragment.delimiter, readAll_append, hl.readAll stack,
      applied_binary]
    simp [readAll_part, hr.readAll]

theorem IsProduct.readAll {code : List Fragment} {e : Expression Float} :
    IsProduct code e → ∀ stack, Delimiter.readAll (code.map Fragment.delimiter) stack =
      some (touch stack, e.applied)
  | .signed h, stack => h.readAll stack
  | .more hl _ hr, stack => by
    rw [List.map_append, List.map_cons, Fragment.delimiter, readAll_append, hl.readAll stack,
      applied_binary]
    simp [readAll_part, hr.readAll]

theorem IsSigned.readAll {code : List Fragment} {e : Expression Float} :
    IsSigned code e → ∀ stack, Delimiter.readAll (code.map Fragment.delimiter) stack =
      some (touch stack, e.applied)
  | .operand h, stack => h.readAll stack
  | .plus h, stack => by
    rw [List.map_cons, Fragment.delimiter, readAll_part, h.readAll, touch_touch]
  | .minus h, stack => by
    rw [List.map_cons, Fragment.delimiter, readAll_part, h.readAll, touch_touch, applied_negate]

theorem IsOperand.readAll {code : List Fragment} {e : Expression Float} :
    IsOperand code e → ∀ stack, Delimiter.readAll (code.map Fragment.delimiter) stack =
      some (touch stack, e.applied)
  | .number _, stack => rfl
  | .var _, stack => rfl
  | .parens h, stack => readAll_body rfl h.readAll stack
  | .call f h hcount, stack => by
    rw [List.map_cons, Fragment.delimiter, readAll_opening, applied_call]
    by_cases hone : f.arity = 1
    · rw [if_pos hone]
      exact h.readAll_single (hcount.trans hone) _
    · rw [if_neg hone, h.readAll]
      simp [counted]
  | .sum _ _ _ h, stack => by
    rw [applied_behind rfl rfl]
    exact readAll_body rfl h.readAll stack
  | .integral _ _ _ _ _ h, stack => by
    rw [applied_behind rfl rfl]
    exact readAll_body rfl h.readAll stack
  | .reference _ _, stack => rfl
  | .apply _ _ h, stack => by
    rw [applied, parts, List.filterMap_append]
    exact readAll_application rfl h.readAll stack
  | .derivative _ _ _ h, stack => by
    rw [applied, parts, List.filterMap_append]
    exact readAll_application rfl h.readAll stack

theorem IsArguments.readAll {code : List Fragment} {es : List (Expression Float)} :
    IsArguments code es → ∀ x stack,
      Delimiter.readAll (code.map Fragment.delimiter) (.arguments x 0 :: stack) =
        some (stack, appliedAll es ++ (Pending.arguments x es.length).counted)
  | .none, x, stack => by
    simp [Fragment.delimiter, readAll_close, readAll_nil, appliedAll, partsAll]
  | .some h, x, stack => by
    have hcounts := h.readAll x 0 stack
    rw [Nat.zero_sub, Nat.zero_add] at hcounts
    exact hcounts

theorem IsArguments.readAll_single {code : List Fragment} {es : List (Expression Float)} :
    IsArguments code es → es.length = 1 → ∀ stack,
      Delimiter.readAll (code.map Fragment.delimiter) (.single :: stack) =
        some (stack, appliedAll es)
  | .some h, hone, stack => h.readAll_single hone stack

theorem IsListed.readAll {code : List Fragment} {es : List (Expression Float)} :
    IsListed code es → ∀ x found stack,
      Delimiter.readAll (code.map Fragment.delimiter) (.arguments x found :: stack) =
        some (stack, appliedAll es ++ (Pending.arguments x (found - 1 + es.length)).counted)
  | .last h, x, found, stack => by
    have hfound : max 1 found = found - 1 + 1 := by omega
    rw [List.map_append, readAll_append, h.readAll, touch, hfound, appliedAll_cons]
    simp [Fragment.delimiter, readAll_close, readAll_nil, appliedAll, partsAll]
  | @IsListed.more _ _ e es h hrest, x, found, stack => by
    have hfound : max 1 found = found - 1 + 1 := by omega
    have hcount : found - 1 + 2 - 1 + es.length = found - 1 + (e :: es).length := by
      rw [List.length_cons]
      omega
    rw [List.map_append, List.map_cons, Fragment.delimiter, readAll_append, h.readAll, touch,
      hfound, Option.bind_some]
    simp only [readAll_separator, hrest.readAll, appliedAll_cons, Option.map_some,
      List.append_assoc, hcount]

theorem IsListed.readAll_single {code : List Fragment} {es : List (Expression Float)} :
    IsListed code es → es.length = 1 → ∀ stack,
      Delimiter.readAll (code.map Fragment.delimiter) (.single :: stack) =
        some (stack, appliedAll es)
  | .last h, _, stack => by
    rw [List.map_append, readAll_append, h.readAll, appliedAll_cons]
    simp [Fragment.delimiter, readAll_close, readAll_nil, counted, appliedAll, partsAll]
  | .more h hrest, hone, _ => by
    have hpos := hrest.length_pos
    rw [List.length_cons] at hone
    omega

end

end Expression

/-! ## From the branches to the walk -/

/-- Joining the pieces of a number changes no delimiter. -/
theorem Fragment.readAll_joined (code : List Fragment) (stack : List Pending) :
    Delimiter.readAll ((joined code).map delimiter) stack =
      Delimiter.readAll (code.map delimiter) stack := by
  have hall : ∀ (b : Branch) (code : List Fragment),
      Delimiter.readAll ((b.appendAll code).fragments.map delimiter) stack =
        Delimiter.readAll ((b.fragments ++ code).map delimiter) stack := by
    intro b code
    induction code generalizing b with
    | nil => rw [Branch.appendAll_nil, List.append_nil]
    | cons f code ih =>
      have hstep : Delimiter.readAll ((b.append f).fragments.map delimiter) stack =
          Delimiter.readAll ((b.fragments ++ [f]).map delimiter) stack := by
        unfold Branch.append
        split
        · next text before code hcode =>
          simp [Branch.fragments, hcode, delimiter, Delimiter.readAll_append,
            Delimiter.readAll_part, Delimiter.readAll_nil]
        · simp [Branch.fragments]
      have hsplit : b.fragments ++ f :: code = (b.fragments ++ [f]) ++ code := by simp
      rw [Branch.appendAll_cons, ih, hsplit, List.map_append, List.map_append,
        Delimiter.readAll_append, hstep, ← Delimiter.readAll_append]
  exact hall {} code

/-- The delimiter that an instruction puts into every branch. -/
def Instruction.delimiter? : Instruction → Option Delimiter
  | append fragment => some fragment.delimiter
  | choose alternatives => alternatives.head?.map Fragment.delimiter
  | pair _ _ => none
  | appendPaired _ make => some (make 0).delimiter

theorem delimiters_script {known : String → Prop} {externals : List (Equation Float)}
    {pairings : List (Nat × Nat)} {instructions : List Instruction}
    (h : ∀ i ∈ instructions, i.IsLinked known externals) {k : Nat} {code : List Fragment}
    (hcode : script? pairings instructions k = some code) :
    code.map Fragment.delimiter = instructions.filterMap Instruction.delimiter? := by
  have hput : Instruction.delimiter? = Instruction.put? Fragment.delimiter := by
    funext i
    cases i <;> rfl
  rw [hput]
  exact map_script rfl (fun _ _ => rfl) (fun _ _ => rfl) (fun _ _ _ => rfl) h hcode

/-- The delimiters that a walk puts into every branch. -/
def Emission.delimiters (es : List Emission) : List Delimiter :=
  (instructions es).filterMap Instruction.delimiter?

/-- What the delimiters of a walk count is applied in every branch that is read from it. -/
theorem Session.readAll_delimiters {known : String → Prop} {externals : List (Equation Float)}
    {es : List Emission} (h : ∀ i ∈ Emission.instructions es, i.IsLinked known externals)
    {branches : List (Expression Float)}
    (hread : readBranches (Emission.instructions es) = .ok branches) {e : Expression Float}
    (he : e ∈ branches) (stack : List Pending) :
    Delimiter.readAll (Emission.delimiters es) stack = some (Pending.touch stack, e.applied) := by
  obtain ⟨k, code, hscript, hsum⟩ := exists_script_of_mem hread he
  rw [Emission.delimiters, ← delimiters_script h hscript, ← Fragment.readAll_joined]
  exact hsum.readAll stack

end Formulary
