import Formulary.Proofs.Passing

/-!
# Formulas compile to their trees

The instructions that a walk over a formula emits, the code they grow and the tree this code
derives. Every choice of the two-valued signs has its branch.
-/

namespace Formulary

open Instruction

/-! ## The walk over a formula -/

theorem Walk.simple_part (grouped : Bool) {nodes : List Node}
    (h : nodes ≠ [.literal Node.bar]) : simple (Formula.part grouped nodes) = nodes := by
  unfold Formula.part
  split
  · next text =>
    have htext : text ≠ Node.bar := by
      rintro rfl
      exact h rfl
    simp [simple, htext]
  · rfl
  · rfl

theorem Formula.nodes_ne_bar (S : Spelling) (e : Formula) : e.nodes S ≠ [.literal Node.bar] := by
  have hlength : ∀ before after : List Node, before ≠ [] → after ≠ [] →
      before ++ after ≠ [.literal Node.bar] := by
    intro before after hbefore hafter h
    have hsum := congrArg List.length h
    have hpos := List.length_pos_iff.2 hbefore
    have hpos' := List.length_pos_iff.2 hafter
    simp at hsum
    omega
  cases e with
  | number numeral =>
    intro h
    have hbar : numeral.pieces.map Node.literal = [Node.bar].map Node.literal := h
    have hpieces := (List.map_inj_right fun _ _ heq => Node.literal.inj heq).1 hbar
    have hmem := numeral.bar_not_mem
    rw [hpieces] at hmem
    exact hmem (List.mem_singleton_self _)
  | absolute body => simp [nodes]
  | joined join left right =>
    exact hlength _ _ (endsOperand_fenced (left.endsOperand S) _).ne_nil
      ((endsOperand_fenced (right.endsOperand S) _).append _).ne_nil
  | added sign left right =>
    exact hlength _ _ (left.endsOperand S).ne_nil (List.cons_ne_nil _ _)
  | _ => simp [nodes, Spelling.enclosed, Spelling.atom]

/-- What a walk emits over a formula in the place of an operand. -/
theorem Formula.passes {s : Session} (hs : ∀ name, s.resolve name = none) {S : Spelling}
    {e : Formula} (h : e.Proper S) : Passes s (e.nodes S) e.instructions := by
  induction e with
  | number numeral => exact .pieces numeral.bar_not_mem numeral.pieces_ne_nil
  | var name =>
    apply Passes.single
    intro depth rest d
    exact ⟨_, _, rfl, .name (.inr (hs name))⟩
  | parens body ih => exact (ih h).enclosed (body.endsOperand S).ne_nil
  | fraction numerator denominator ih₁ ih₂ =>
    apply Passes.single
    intro depth rest d
    obtain ⟨es₁, d₁, hes₁, h₁⟩ := (ih₁ h.1).visits (depth + 1) d
    obtain ⟨es₂, d₂, hes₂, h₂⟩ := (ih₂ h.2).visits (depth + 1) d₁
    refine ⟨_, d₂, ?_, .fraction (numerator.endsOperand S).ne_nil
      (denominator.endsOperand S).ne_nil h₁ h₂⟩
    simp [hes₁, hes₂, Formula.instructions, enclosing]
  | root body ih =>
    apply Passes.single
    intro depth rest d
    obtain ⟨es, d', hes, hbody⟩ := (ih h).visits (depth + 1) d
    refine ⟨_, d', ?_, .root (body.endsOperand S).ne_nil hbody⟩
    simp [hes, Formula.instructions, enclosing]
  | power groupedBase groupedExponent base exponent ih₁ ih₂ =>
    apply Passes.single
    intro depth rest d
    have hbase := Walk.simple_part groupedBase (base.nodes_ne_bar S)
    have hexponent := Walk.simple_part groupedExponent (exponent.nodes_ne_bar S)
    obtain ⟨es₁, d₁, hes₁, h₁⟩ := (ih₁ h.1).visits (depth + 1) d
    obtain ⟨es₂, d₂, hes₂, h₂⟩ := (ih₂ h.2).visits (depth + 1) d₁
    rw [← hbase] at h₁
    rw [← hexponent] at h₂
    refine ⟨_, d₂, ?_, .power ?_ ?_ h₁ h₂⟩
    · simp [hes₁, hes₂, Formula.instructions, enclosing]
    · rw [hbase]
      exact (base.endsOperand S).ne_nil
    · rw [hexponent]
      exact (exponent.endsOperand S).ne_nil
  | absolute body ih =>
    apply Passes.single
    intro depth rest d
    obtain ⟨es, d', hes, hbody⟩ := (ih h.1).visits (depth + 1) d
    have habsolute := absolute_closed h.2 rest
    refine ⟨Walk.between (.call .absolute) es, d', ?_, ?_⟩
    · simp [hes, Formula.instructions, enclosing]
    · have hconsumed : (body.nodes S ++ [Node.literal Node.bar]).length =
          (Operand.absolute (.literal Node.bar :: (body.nodes S ++ [Node.literal Node.bar] ++
            rest))).consumed := by
        rw [habsolute]
      rw [hconsumed]
      refine .bars ?_ ?_ ?_
      · simp [Operand.isClosed, Node.isBar]
      · rw [habsolute]
        exact (body.endsOperand S).ne_nil
      · rw [habsolute]
        exact hbody
  | sum limits body ih =>
    apply Passes.single
    intro depth rest d
    have hfollowing := following_enclosed (S := S) (body.balanced S)
      (.named .sum limits.lower limits.upper) rest
    obtain ⟨es, d', hes, hbody⟩ := ((ih h).enclosed (S := S) (body.endsOperand S).ne_nil).visits
      (depth + 1) ((d.addArguments limits.range.names).addBound limits.range.index)
    refine ⟨Walk.between (.sum limits.range.index limits.range.lower limits.range.upper) es, d',
      ?_, ?_⟩
    · simp [hes, Formula.instructions, enclosing]
    · have hconsumed : (S.enclosed (body.nodes S)).length = (Operand.following false
          (.named .sum limits.lower limits.upper :: (S.enclosed (body.nodes S) ++
            rest))).consumed := by
        rw [hfollowing]
      rw [hconsumed]
      refine .sum limits.reads ?_ ?_
      · rw [hfollowing]
        exact List.cons_ne_nil _ _
      · rw [hfollowing]
        exact hbody
  | turned turn body ih =>
    apply Passes.single
    intro depth rest d
    have hfollowing := following_enclosed (S := S) (body.balanced S)
      (.named turn.name none none) rest
    obtain ⟨es, d', hes, hbody⟩ := ((ih h).enclosed (S := S) (body.endsOperand S).ne_nil).visits
      (depth + 1) d
    refine ⟨Walk.between (.call turn.function) es, d', ?_, ?_⟩
    · simp [hes, Formula.instructions, enclosing]
    · have hconsumed : (S.enclosed (body.nodes S)).length = (Operand.following false
          (.named turn.name none none :: (S.enclosed (body.nodes S) ++ rest))).consumed := by
        rw [hfollowing]
      rw [hconsumed]
      refine .turned turn.reads ?_ ?_
      · rw [hfollowing]
        exact List.cons_ne_nil _ _
      · rw [hfollowing]
        exact hbody
  | signed sign body ih =>
    exact ((ih h).fenced (body.endsOperand S).ne_nil _).sign sign
      (endsOperand_fenced (body.endsOperand S) _).ne_nil
  | joined join left right ih₁ ih₂ =>
    have hleft := (ih₁ h.1).fenced (S := S) (left.endsOperand S).ne_nil (left.level < 1)
    have hright := (ih₂ h.2.1).fenced (S := S) (right.endsOperand S).ne_nil
      (right.level < join.level)
    have hleft_ends := endsOperand_fenced (S := S) (left.endsOperand S) (left.level < 1)
    have hright_ends := endsOperand_fenced (S := S) (right.endsOperand S)
      (right.level < join.level)
    cases join with
    | times =>
      have hsign : Passes s [S.atom .times] [.append (.operator .multiply)] :=
        .atom .times (.single _) rfl
      exact hleft.behind hleft_ends.ne_nil (hsign.append hright (by simp)
        (jointAt_behind_arithmetic rfl _) hright_ends.ne_nil) rfl
    | division =>
      have hsign : Passes s [S.atom .division] [.append (.operator .divide)] :=
        .atom .division (.single _) rfl
      exact hleft.behind hleft_ends.ne_nil (hsign.append hright (by simp)
        (jointAt_behind_arithmetic rfl _) hright_ends.ne_nil) rfl
    | juxtaposition =>
      exact hleft.append_joint hright hleft_ends.ne_nil
        (instructions_jointAt hleft_ends (right.startsOperand S) (h.2.2 rfl)) hright_ends.ne_nil
  | added sign left right ih₁ ih₂ =>
    have harithmetic : sign.mark.isArithmetic = true := by
      cases sign <;> rfl
    have hright := ((ih₂ h.2).fenced (S := S) (right.endsOperand S).ne_nil (right.level < 1)).sign
      (S := S) sign (endsOperand_fenced (right.endsOperand S) _).ne_nil
    exact (ih₁ h.1).behind (left.endsOperand S).ne_nil hright harithmetic

/-! ## The code of a formula -/

namespace Expression

/-- What code derives in a place that asks for this level. -/
def Derives : Nat → List Fragment → Expression Float → Prop
  | 0 => IsSum
  | 1 => IsProduct
  | 2 => IsSigned
  | _ => IsOperand

theorem Derives.lower {place level : Nat} {code : List Fragment} {e : Expression Float}
    (h : Derives level code e) (hle : place ≤ level) : Derives place code e := by
  have hstep : ∀ n, Derives (n + 1) code e → Derives n code e := by
    intro n hn
    rcases n with _ | _ | _ | n
    · exact IsSum.product hn
    · exact IsProduct.signed hn
    · exact IsSigned.operand hn
    · exact hn
  obtain ⟨steps, rfl⟩ := Nat.exists_eq_add_of_le hle
  induction steps with
  | zero => exact h
  | succ steps ih => exact ih (hstep _ h) (Nat.le_add_right ..)

end Expression

namespace Formula

open Expression (Derives IsSum IsProduct IsSigned IsOperand IsArguments IsListed)

theorem isPlain_enclosing {opening : Fragment} {body : List Instruction}
    (h : ∀ i ∈ body, i.IsPlain) : ∀ i ∈ enclosing opening body, i.IsPlain := by
  simp only [enclosing, List.forall_mem_cons, List.forall_mem_append, List.not_mem_nil,
    false_implies, implies_true, and_true]
  exact ⟨.append _, h, .append _⟩

theorem isPlain_fenced {needed : Bool} {body : List Instruction} (h : ∀ i ∈ body, i.IsPlain) :
    ∀ i ∈ Instruction.fenced needed body, i.IsPlain := by
  cases needed with
  | true => exact isPlain_enclosing h
  | false => exact h

theorem isPlain_sign (sign : Sign) : sign.instruction.IsPlain := by
  cases sign with
  | plusMinus => exact .sign
  | _ => exact .append _

theorem isPlain (e : Formula) : ∀ i ∈ e.instructions, i.IsPlain := by
  induction e with
  | number numeral =>
    intro i hi
    obtain ⟨text, _, rfl⟩ := List.mem_map.1 hi
    exact .append _
  | var name => simp [instructions, Instruction.IsPlain.append]
  | parens body ih => exact isPlain_enclosing ih
  | fraction numerator denominator ih₁ ih₂ =>
    exact isPlain_enclosing (List.forall_mem_append.2 ⟨isPlain_enclosing ih₁,
      List.forall_mem_cons.2 ⟨.append _, isPlain_enclosing ih₂⟩⟩)
  | root body ih => exact isPlain_enclosing ih
  | power _ _ base exponent ih₁ ih₂ =>
    exact isPlain_enclosing (List.forall_mem_append.2 ⟨ih₁,
      List.forall_mem_cons.2 ⟨.append _, ih₂⟩⟩)
  | absolute body ih => exact isPlain_enclosing ih
  | sum limits body ih => exact isPlain_enclosing (isPlain_enclosing ih)
  | turned turn body ih => exact isPlain_enclosing (isPlain_enclosing ih)
  | signed sign body ih => exact List.forall_mem_cons.2 ⟨isPlain_sign sign, isPlain_fenced ih⟩
  | joined join left right ih₁ ih₂ =>
    exact List.forall_mem_append.2 ⟨isPlain_fenced ih₁,
      List.forall_mem_cons.2 ⟨.append _, isPlain_fenced ih₂⟩⟩
  | added sign left right ih₁ ih₂ =>
    exact List.forall_mem_append.2 ⟨ih₁,
      List.forall_mem_cons.2 ⟨isPlain_sign sign, isPlain_fenced ih₂⟩⟩

@[simp] theorem signCount_enclosing (opening : Fragment) (body : List Instruction) :
    signCount (enclosing opening body) = signCount body := by
  simp [enclosing, signCount]

@[simp] theorem signCount_fenced (needed : Bool) (body : List Instruction) :
    signCount (Instruction.fenced needed body) = signCount body := by
  cases needed with
  | true => exact signCount_enclosing _ body
  | false => rfl

@[simp] theorem signCount_sign (sign : Sign) (rest : List Instruction) :
    signCount (sign.instruction :: rest) = sign.count + signCount rest := by
  cases sign <;> simp [Sign.instruction, Sign.count, signCount, Nat.add_comm]

theorem signCount_instructions (e : Formula) : signCount e.instructions = e.signs := by
  induction e with
  | number numeral =>
    have hpieces : ∀ texts : List String,
        signCount (texts.map fun text => Instruction.append (.number text)) = 0 := by
      intro texts
      induction texts with
      | nil => rfl
      | cons text texts ih => exact ih
    exact hpieces numeral.pieces
  | var name => rfl
  | _ => simp_all [instructions, signs, signCount, Nat.add_assoc]

/-! ### Code in parts -/

variable (σ : Nat → Bool) (j : Nat)

theorem joined_enclosing {opening : Fragment} (hopening : ∀ text, opening ≠ .number text)
    {body : List Instruction} (h : ∀ i ∈ body, i.IsPlain) :
    Fragment.joined (select σ j (enclosing opening body)) =
      opening :: (Fragment.joined (select σ j body) ++ [.close]) := by
  have hselect : select σ j (enclosing opening body) =
      opening :: (select σ j body ++ [.close]) := by
    rw [enclosing, select, select_append h]
    rfl
  have hclose := Fragment.joined_append_cons (f := .close) (by simp) (select σ j body) []
  rw [hselect, Fragment.joined_cons hopening, hclose]
  rfl

theorem joined_apart {fragment : Fragment} (hfragment : ∀ text, fragment ≠ .number text)
    {before : List Instruction} (h : ∀ i ∈ before, i.IsPlain) (behind : List Instruction) :
    Fragment.joined (select σ j (before ++ .append fragment :: behind)) =
      Fragment.joined (select σ j before) ++
        fragment :: Fragment.joined (select σ (j + signCount before) behind) := by
  rw [select_append h, select, Fragment.joined_append_cons hfragment]

theorem select_sign (sign : Sign) (behind : List Instruction) :
    select σ j (sign.instruction :: behind) =
      .operator (sign.operator (σ j)) :: select σ (j + sign.count) behind := by
  cases sign <;> rfl

/-- The code of an operand in parentheses where it needs them. -/
theorem derives_fenced {e : Formula} {σ : Nat → Bool} {j : Nat} {tree : Expression Float}
    (h : Derives e.level (Fragment.joined (select σ j e.instructions)) tree) {place : Nat}
    (hplace : place ≤ 3) :
    Derives place (Fragment.joined (select σ j
      (Instruction.fenced (e.level < place) e.instructions))) tree := by
  by_cases hneeded : e.level < place
  · have hcode : Fragment.joined (select σ j
        (Instruction.fenced (e.level < place) e.instructions)) =
          .openParen :: (Fragment.joined (select σ j e.instructions) ++ [.close]) := by
      rw [decide_eq_true hneeded]
      exact joined_enclosing σ j (by simp) e.isPlain
    have hoperand : Derives 3 (.openParen :: (Fragment.joined (select σ j e.instructions) ++
        [.close])) tree := IsOperand.parens (h.lower (Nat.zero_le _))
    rw [hcode]
    exact hoperand.lower hplace
  · rw [decide_eq_false hneeded]
    exact h.lower (Nat.le_of_not_lt hneeded)

theorem isOperand_call {f : Function} (hf : f.arity = 1) {code : List Fragment}
    {e : Expression Float} (h : IsSum code e) :
    IsOperand (.call f :: (code ++ [.close])) (.call f [e]) :=
  .call f (.some (.last h)) hf.symm

/-- The code of a formula derives its tree. -/
theorem derives (e : Formula) :
    Derives e.level (Fragment.joined (select σ j e.instructions)) (e.tree σ j) := by
  induction e generalizing j with
  | number numeral =>
    have hselect : select σ j (numeral.pieces.map fun text => .append (.number text)) =
        numeral.pieces.map .number := by
      induction numeral.pieces with
      | nil => rfl
      | cons text texts ih => exact congrArg _ ih
    change IsOperand (Fragment.joined (select σ j (numeral.pieces.map _))) _
    rw [hselect, Fragment.joined_pieces numeral.pieces_ne_nil]
    exact .number numeral.reads
  | var name => exact IsOperand.var name
  | parens body ih =>
    rw [instructions, joined_enclosing σ j (by simp) body.isPlain]
    exact IsOperand.parens ((ih j).lower (Nat.zero_le _))
  | fraction numerator denominator ih₁ ih₂ =>
    have h₁ : IsOperand (.openParen :: (Fragment.joined (select σ j numerator.instructions) ++
        [.close])) (numerator.tree σ j) := .parens ((ih₁ j).lower (Nat.zero_le _))
    have h₂ : IsOperand (.openParen :: (Fragment.joined (select σ (j + numerator.signs)
        denominator.instructions) ++ [.close])) (denominator.tree σ (j + numerator.signs)) :=
      .parens ((ih₂ _).lower (Nat.zero_le _))
    have hparts : ∀ i ∈ enclosing .openParen numerator.instructions ++
        .append (.operator .divide) :: enclosing .openParen denominator.instructions,
        i.IsPlain :=
      List.forall_mem_append.2 ⟨isPlain_enclosing numerator.isPlain,
        List.forall_mem_cons.2 ⟨.append _, isPlain_enclosing denominator.isPlain⟩⟩
    rw [instructions, joined_enclosing σ j (by simp) hparts,
      joined_apart σ j (by simp) (isPlain_enclosing numerator.isPlain),
      joined_enclosing σ j (by simp) numerator.isPlain,
      joined_enclosing σ _ (by simp) denominator.isPlain, signCount_enclosing,
      signCount_instructions]
    exact IsOperand.parens (.product (.more (.signed (.operand h₁)) rfl (.operand h₂)))
  | root body ih =>
    rw [instructions, joined_enclosing σ j (by simp) body.isPlain]
    exact isOperand_call rfl ((ih j).lower (Nat.zero_le _))
  | power groupedBase groupedExponent base exponent ih₁ ih₂ =>
    have h₁ : IsSum (Fragment.joined (select σ j base.instructions)) (base.tree σ j) :=
      (ih₁ j).lower (Nat.zero_le _)
    have h₂ : IsSum (Fragment.joined (select σ (j + base.signs) exponent.instructions))
        (exponent.tree σ (j + base.signs)) := (ih₂ _).lower (Nat.zero_le _)
    have hparts : ∀ i ∈ base.instructions ++ .append .separator :: exponent.instructions,
        i.IsPlain :=
      List.forall_mem_append.2 ⟨base.isPlain,
        List.forall_mem_cons.2 ⟨.append _, exponent.isPlain⟩⟩
    rw [instructions, joined_enclosing σ j (by simp) hparts,
      joined_apart σ j (by simp) base.isPlain, signCount_instructions, List.append_assoc,
      List.cons_append]
    exact IsOperand.call .power (.some (.more h₁ (.last h₂))) rfl
  | absolute body ih =>
    rw [instructions, joined_enclosing σ j (by simp) body.isPlain]
    exact isOperand_call rfl ((ih j).lower (Nat.zero_le _))
  | sum limits body ih =>
    rw [instructions, joined_enclosing σ j (by simp) (isPlain_enclosing body.isPlain),
      joined_enclosing σ j (by simp) body.isPlain]
    exact IsOperand.sum _ _ _ (.product (.signed (.operand (.parens
      ((ih j).lower (Nat.zero_le _))))))
  | turned turn body ih =>
    have harity : turn.function.arity = 1 := by
      have hreads := turn.reads
      cases hname : turn.name <;> rw [hname] at hreads <;>
        simp [OperatorName.turning?] at hreads <;> rw [← hreads] <;> rfl
    rw [instructions, joined_enclosing σ j (by simp) (isPlain_enclosing body.isPlain),
      joined_enclosing σ j (by simp) body.isPlain]
    exact isOperand_call harity (.product (.signed (.operand (.parens
      ((ih j).lower (Nat.zero_le _))))))
  | signed sign body ih =>
    have hbody : IsSigned _ (body.tree σ (j + sign.count)) :=
      derives_fenced (ih (j + sign.count)) (by decide : 2 ≤ 3)
    have hoperator : sign.operator (σ j) = .add ∨ sign.operator (σ j) = .subtract := by
      cases sign <;> cases σ j <;> simp [Sign.operator]
    rw [instructions, select_sign, Fragment.joined_cons (by simp), tree, Sign.applied]
    rcases hoperator with hadd | hsubtract
    · rw [hadd, if_neg (by decide)]
      exact IsSigned.plus hbody
    · rw [hsubtract, if_pos rfl]
      exact IsSigned.minus hbody
  | joined join left right ih₁ ih₂ =>
    have hplace : 2 ≤ join.level ∧ join.level ≤ 3 := by
      cases join <;> decide
    have hleft : IsProduct _ (left.tree σ j) := derives_fenced (ih₁ j) (by decide : 1 ≤ 3)
    have hright : IsSigned _ (right.tree σ (j + left.signs)) :=
      (derives_fenced (ih₂ (j + left.signs)) hplace.2).lower hplace.1
    have hmultiplicative : join.operator.isMultiplicative = true := by
      cases join <;> rfl
    rw [instructions, joined_apart σ j (by simp) (isPlain_fenced left.isPlain), signCount_fenced,
      signCount_instructions]
    exact IsProduct.more hleft hmultiplicative hright
  | added sign left right ih₁ ih₂ =>
    have hleft : IsSum _ (left.tree σ j) := (ih₁ j).lower (Nat.zero_le _)
    have hright : IsProduct _ (right.tree σ (j + left.signs + sign.count)) :=
      derives_fenced (ih₂ (j + left.signs + sign.count)) (by decide : 1 ≤ 3)
    have hadditive : (sign.operator (σ (j + left.signs))).isMultiplicative = false := by
      cases sign <;> cases σ (j + left.signs) <;> rfl
    rw [instructions, select_append left.isPlain, select_sign,
      Fragment.joined_append_cons (by simp), signCount_instructions]
    exact IsSum.more hleft hadditive hright

/-! ## Compiling a formula -/

theorem isEquality_fenced {S : Spelling} {nodes : List Node}
    (h : ∀ n ∈ nodes, n.isEquality = false) (needed : Bool) :
    ∀ n ∈ S.fenced needed nodes, n.isEquality = false := by
  unfold Spelling.fenced
  split
  · refine List.forall_mem_cons.2 ⟨by simp [Node.isEquality], List.forall_mem_append.2 ⟨h, ?_⟩⟩
    exact List.forall_mem_singleton.2 (by simp [Node.isEquality])
  · exact h

theorem isEquality_nodes (S : Spelling) (e : Formula) :
    ∀ n ∈ e.nodes S, n.isEquality = false := by
  induction e with
  | number numeral =>
    intro n hn
    obtain ⟨text, _, rfl⟩ := List.mem_map.1 hn
    rfl
  | parens body ih => exact isEquality_fenced ih true
  | absolute body ih =>
    refine List.forall_mem_cons.2 ⟨rfl, List.forall_mem_append.2 ⟨ih, ?_⟩⟩
    exact List.forall_mem_singleton.2 rfl
  | sum limits body ih => exact List.forall_mem_cons.2 ⟨rfl, isEquality_fenced ih true⟩
  | turned turn body ih => exact List.forall_mem_cons.2 ⟨rfl, isEquality_fenced ih true⟩
  | signed sign body ih =>
    refine List.forall_mem_cons.2 ⟨?_, isEquality_fenced ih _⟩
    cases sign <;> simp [Node.isEquality, Sign.mark]
  | joined join left right ih₁ ih₂ =>
    refine List.forall_mem_append.2 ⟨isEquality_fenced ih₁ _,
      List.forall_mem_append.2 ⟨?_, isEquality_fenced ih₂ _⟩⟩
    cases join <;> simp [Join.nodes, Node.isEquality]
  | added sign left right ih₁ ih₂ =>
    refine List.forall_mem_append.2 ⟨ih₁, List.forall_mem_cons.2 ⟨?_, isEquality_fenced ih₂ _⟩⟩
    cases sign <;> simp [Node.isEquality, Sign.mark]
  | _ => exact List.forall_mem_singleton.2 rfl

/-- A formula compiles, with one branch for each choice of its two-valued signs. Branch `k` is the
tree of the formula in which sign `j` is a minus if bit `j` of `k` is set. -/
theorem compile_formula (S : Spelling) (config : Config) (e : Formula) (h : e.Proper S) :
    ∃ equation, ((Session.fresh config).compile (e.nodes S)).outcome = .ok equation ∧
      equation.branches.length = 2 ^ e.signs ∧
      ∀ k < 2 ^ e.signs, equation.branches[k]? = some (e.tree k.testBit 0) := by
  have hsides := Session.splitSides_eq_none (isEquality_nodes S e)
  obtain ⟨es, d, hes, hvisits⟩ :=
    (passes (Session.resolve_fresh config) h).visits 0 (Session.declaredBy none)
  let branches := (List.range (2 ^ e.signs)).map fun k => e.tree k.testBit 0
  have hbranch : ∀ k < 2 ^ e.signs, branches[k]? = some (e.tree k.testBit 0) := by
    intro k hk
    rw [List.getElem?_map, List.getElem?_range hk, Option.map_some]
  have hlength : branches.length = 2 ^ e.signs := by
    rw [List.length_map, List.length_range]
  have hread : Session.readBranches (Emission.instructions es) = .ok branches := by
    rw [hes, Session.readBranches_plain e.isPlain, signCount_instructions]
    refine ⟨hlength, ?_⟩
    intro k tree hk
    have hlt : k < 2 ^ e.signs := by
      rw [← hlength]
      exact (List.getElem?_eq_some_iff.1 hk).1
    rw [hbranch k hlt] at hk
    obtain rfl := Option.some.inj hk
    exact (e.derives k.testBit 0).lower (Nat.zero_le _)
  exact ⟨_, Session.compile_outcome_eq_ok_iff.2
    ⟨none, e.nodes S, es, d, branches, hsides, hvisits, hread, rfl⟩, hlength, hbranch⟩

open Expression in
/-- The formula `12x ± y`. -/
theorem compile_twelve_x_plus_minus_y :
    (added .plusMinus (joined .juxtaposition (number (.ofLiteral ["1", "2"] (.finite false 12 0)
      (by decide) (by decide) (by decide))) (var "x")) (var "y")).Proper .standard ∧
    ∃ equation,
      ((Session.fresh {}).compile
        [.literal "1", .literal "2", .var "x", .atom "±", .var "y"]).outcome = .ok equation ∧
      equation.branches.length = 2 ∧
      equation.branches[0]? = some (.binary .add
        (.binary .multiply (.number (Decimal.Literal.finite false 12 0).toFloat) (.var "x"))
        (.var "y")) ∧
      equation.branches[1]? = some (.binary .subtract
        (.binary .multiply (.number (Decimal.Literal.finite false 12 0).toFloat) (.var "x"))
        (.var "y")) := by
  have hproper : (added .plusMinus (joined .juxtaposition (number (.ofLiteral ["1", "2"]
      (.finite false 12 0) (by decide) (by decide) (by decide))) (var "x")) (var "y")).Proper
      .standard := by
    refine ⟨⟨trivial, trivial, ?_⟩, trivial⟩
    rintro - ⟨-, hnumeric⟩
    cases hnumeric
  obtain ⟨equation, hcompile, hlength, hbranch⟩ := compile_formula .standard {} _ hproper
  exact ⟨hproper, equation, hcompile, hlength, hbranch 0 (by decide), hbranch 1 (by decide)⟩

end Formula

end Formulary
