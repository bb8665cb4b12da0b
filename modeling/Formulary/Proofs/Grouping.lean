import Formulary.Proofs.Insertion
import Formulary.Proofs.OpenRuns

/-!
# Parentheses before a factor

What nodes in parentheses compile to when a factor stands behind them. The factor multiplies the
whole group unless operand runs inside stay open past the closing parenthesis; then it multiplies
the end of the innermost of them.
-/

namespace Formulary

open Expression (IsSum IsEnclosed closes withFactor)

/-! ## The walk over a group and a factor -/

/-- The code of a group and a factor in front of the parentheses of the runs that stay open. -/
def Instruction.groupFactor (front : List Instruction) (name : String) (n : Nat) :
    List Instruction :=
  .append .openParen :: (front ++ (factor name ++ List.replicate n (.append .close)))

section Walk

variable {s : Session} {d d' : Declared} {es : List Emission} {nodes : List Node}

/-- Nothing is put in behind an opening parenthesis. -/
theorem Visits.behind_opening {depth : Nat} (S : Spelling)
    (h : Visits s depth (.siblings none nodes) d es d') :
    Visits s depth (.siblings (some (S.atom .opening)) nodes) d es d' := by
  apply h.behind
  intro node
  have hopening : (S.atom .opening).isOpen = true := by simp [Node.isOpen]
  simp [Walk.joint, Node.juxtaposed, hopening]

theorem Visits.group_factor (S : Spelling) (name : String) (hs : ∀ name, s.resolve name = none)
    (h : Visits s 0 (.siblings none nodes) d es d') :
    ∃ front es' d'',
      Visits s 0 (.siblings none (S.enclosed nodes ++ [S.atom .times, .var name])) d es' d'' ∧
      Emission.instructions es = front ++ List.replicate (openRuns nodes) (.append .close) ∧
      Emission.instructions es' = Instruction.groupFactor front name (openRuns nodes) := by
  obtain ⟨es', d'', hvisits, front, hes, hes'⟩ := (h.behind_opening S).append_factor S name hs
  have hopening : Visits s 0 (.single (S.atom .opening) (nodes ++ S.factor name) 0) d
      [.instruction (.append .openParen)] d := by
    have hsymbol : Entry.ofSymbol? (S.symbol .opening) = some (.single .openParen) := by
      rw [Entry.ofSymbol?, S.reads]
      rfl
    exact .atom hsymbol
  have hnodes : S.enclosed nodes ++ [S.atom .times, .var name] =
      S.atom .opening :: (nodes ++ S.factor name) := by
    simp [Spelling.enclosed, Spelling.factor]
  rw [hnodes]
  refine ⟨front, _, d'', .cons hopening hvisits, hes, ?_⟩
  rw [instructions_cons, hes']
  rfl

end Walk

/-! ## The code of a group and a factor -/

/-- The branch code of a closing parenthesis with a factor behind it. -/
def Fragment.factor (name : String) : List Fragment :=
  [.close, .operator .multiply, .var name]

theorem select_closes (σ : Nat → Bool) (j n : Nat) :
    select σ j (List.replicate n (.append .close)) = closes n := by
  induction n with
  | zero => rfl
  | succ n ih => exact congrArg _ ih

theorem signCount_closes (n : Nat) :
    signCount (List.replicate n (.append .close)) = 0 := by
  induction n with
  | zero => rfl
  | succ n ih => exact ih

theorem signCount_groupFactor (front : List Instruction) (name : String) (n : Nat) :
    signCount (Instruction.groupFactor front name n) = signCount front := by
  have hfactor : signCount (Instruction.factor name) = 0 := rfl
  show signCount (front ++ _) = signCount front
  rw [signCount_append, signCount_append, signCount_closes, hfactor]
  rfl

theorem select_groupFactor {front : List Instruction} (h : ∀ i ∈ front, i.IsPlain)
    (σ : Nat → Bool) (name : String) (n : Nat) :
    select σ 0 (Instruction.groupFactor front name n) =
      .openParen :: (select σ 0 front ++ (Fragment.factor name ++ closes n)) := by
  have hfactor : ∀ j, select σ j (Instruction.factor name ++
      List.replicate n (.append .close)) = Fragment.factor name ++ closes n := by
    intro j
    rw [← select_closes σ j n]
    rfl
  rw [Instruction.groupFactor, select, select_append h, hfactor]

theorem joined_closes (code : List Fragment) (n : Nat) :
    Fragment.joined (code ++ closes n) = Fragment.joined code ++ closes n := by
  induction n with
  | zero => simp [closes]
  | succ n ih =>
    rw [Expression.closes_succ, ← List.append_assoc, Fragment.joined_append_cons (by simp), ih,
      Fragment.joined_nil, List.append_assoc]

theorem joined_group_factor (code : List Fragment) (name : String) (n : Nat) :
    Fragment.joined (.openParen :: (code ++ (Fragment.factor name ++ closes n))) =
      .openParen :: (Fragment.joined code ++ (Fragment.factor name ++ closes n)) := by
  have hcloses := joined_closes [] n
  rw [List.nil_append, Fragment.joined_nil, List.nil_append] at hcloses
  rw [Fragment.factor, Fragment.joined_cons (by simp), List.cons_append,
    Fragment.joined_append_cons (by simp), List.cons_append, Fragment.joined_cons (by simp),
    List.cons_append, Fragment.joined_cons (by simp), List.nil_append, hcloses]

/-- Whether a factor behind the parentheses around this code multiplies all of it, with so many runs
open at its end. -/
def StandsAsUnit : Nat → List Fragment → Prop
  | 0, _ => True
  | n + 1, code => IsEnclosed n code

/-- With a factor behind the parentheses around it, the code of a sum derives a product with the
whole sum exactly when it stands as a unit. -/
theorem isSum_group_factor {front : List Fragment} {n : Nat} {e : Expression Float}
    (h : IsSum (front ++ closes n) e) (name : String) :
    ∃ e', IsSum (.openParen :: (front ++ (Fragment.factor name ++ closes n))) e' ∧
      (e' = .binary .multiply e (.var name) ↔ StandsAsUnit n (front ++ closes n)) := by
  cases n with
  | zero =>
    have hcode : front ++ closes 0 = front := List.append_nil front
    rw [hcode] at h
    have hproduct : Expression.IsProduct
        (Fragment.openParen :: (front ++ [Fragment.close]) ++
          Fragment.operator .multiply :: [Fragment.var name])
        (.binary .multiply e (.var name)) :=
      .more (.signed (.operand (.parens h))) rfl (.operand (.var name))
    refine ⟨_, .product ?_, iff_of_true rfl trivial⟩
    simpa [closes, Fragment.factor] using hproduct
  | succ n =>
    let closed : List Fragment := front ++ [Fragment.close]
    have hcode : front ++ closes (n + 1) = closed ++ closes n := by
      rw [closes, List.replicate_succ, List.append_assoc]
      rfl
    obtain ⟨e', he', hiff⟩ := IsSum.factor name h closed n hcode (.inr (by simp [closed]))
    have hparens : Expression.IsOperand
        (Fragment.openParen :: (withFactor closed name n ++ [Fragment.close])) e' := .parens he'
    have hgroup : front ++ (Fragment.factor name ++ closes (n + 1)) =
        withFactor closed name n ++ [Fragment.close] := by
      simp [closed, withFactor, Fragment.factor, Expression.closes_succ]
    rw [hgroup]
    exact ⟨e', .product (.signed (.operand hparens)), hiff⟩

/-! ## Compiling a group and a factor -/

namespace Session

/-- Where nodes compile in a fresh session, they compile in parentheses with a factor behind them,
into as many branches. A branch is the product of the branch of the nodes and the factor exactly
when the code of that branch stands as a unit. -/
theorem compile_group_times (S : Spelling) (config : Config) {nodes : List Node} (name : String)
    (hnodes : ∀ n ∈ nodes, n.isEquality = false) {equation : Equation Float}
    (h : ((fresh config).compile nodes).outcome = .ok equation) :
    ∃ product, ((fresh config).compile
        (S.enclosed nodes ++ [S.atom .times, .var name])).outcome = .ok product ∧
      product.branches.length = equation.branches.length ∧
      ∀ (k : Nat) (e), equation.branches[k]? = some e →
        ∃ code, ((fresh config).codes nodes)[k]? = some code ∧
          (product.branches[k]? = some (.binary .multiply e (.var name)) ↔
            StandsAsUnit (openRuns nodes) code) := by
  obtain ⟨binding, right, es, d, branches, hsides, hvisits, hread, rfl⟩ :=
    compile_outcome_eq_ok_iff.1 h
  obtain ⟨rfl, rfl⟩ : none = binding ∧ nodes = right := by
    simpa [splitSides_eq_none hnodes] using hsides
  obtain ⟨front, es', d'', hvisits', hes, hes'⟩ :=
    hvisits.group_factor S name (resolve_fresh config)
  have hplain := hvisits.isPlain (resolve_fresh config)
  have hfront : ∀ i ∈ front, i.IsPlain := fun i hi => hplain i (by simp [hes, hi])
  have hcount : signCount (Emission.instructions es) = signCount front := by
    rw [hes, signCount_append, signCount_closes, Nat.add_zero]
  have hcount' : signCount (Emission.instructions es') = signCount front := by
    rw [hes', signCount_groupFactor]
  obtain ⟨hlength, hderives⟩ := (readBranches_plain hplain).1 hread
  have hbefore : ∀ k : Nat, Fragment.joined (select k.testBit 0 (Emission.instructions es)) =
      Fragment.joined (select k.testBit 0 front) ++ closes (openRuns nodes) := by
    intro k
    rw [hes, select_append hfront, select_closes, joined_closes]
  have hbehind : ∀ k : Nat, Fragment.joined (select k.testBit 0 (Emission.instructions es')) =
      .openParen :: (Fragment.joined (select k.testBit 0 front) ++
        (Fragment.factor name ++ closes (openRuns nodes))) := by
    intro k
    rw [hes', select_groupFactor hfront, joined_group_factor]
  have hbranch : ∀ (k : Nat) (e), branches[k]? = some e → ∃ e',
      IsSum (Fragment.joined (select k.testBit 0 (Emission.instructions es'))) e' ∧
        (e' = .binary .multiply e (.var name) ↔ StandsAsUnit (openRuns nodes)
          (Fragment.joined (select k.testBit 0 (Emission.instructions es)))) := by
    intro k e hk
    have hsum := hderives k e hk
    rw [hbefore] at hsum
    rw [hbefore, hbehind]
    exact isSum_group_factor hsum name
  have hgroup : ∀ n ∈ S.enclosed nodes ++ [S.atom .times, .var name], n.isEquality = false := by
    intro n hn
    have hcases : n = S.atom .opening ∨ n ∈ nodes ∨ n = S.atom .closing ∨ n = S.atom .times ∨
        n = .var name := by
      simpa [Spelling.enclosed, or_assoc] using hn
    rcases hcases with rfl | hn | rfl | rfl | rfl
    · simp [Node.isEquality]
    · exact hnodes n hn
    · simp [Node.isEquality]
    · simp [Node.isEquality]
    · rfl
  obtain ⟨product, hproduct⟩ := exists_compile_plain (resolve_fresh config) hgroup hvisits' (by
    intro k hk
    obtain ⟨e, he⟩ : ∃ e, branches[k]? = some e := by
      rw [hcount', ← hcount, ← hlength] at hk
      exact ⟨_, List.getElem?_eq_getElem hk⟩
    obtain ⟨e', hsum, -⟩ := hbranch k e he
    exact ⟨e', hsum⟩)
  obtain ⟨-, hlength', hderives'⟩ :=
    (compile_eq_ok_iff_plain (resolve_fresh config) hgroup hvisits').1 hproduct
  have hsame : product.branches.length = branches.length := by
    rw [hlength', hlength, hcount, hcount']
  refine ⟨product, hproduct, hsame, ?_⟩
  intro k e hk
  obtain ⟨hlt, -⟩ := List.getElem?_eq_some_iff.1 hk
  refine ⟨_, codes_plain (resolve_fresh config) hnodes hvisits (hlength ▸ hlt), ?_⟩
  obtain ⟨e', hsum, hiff⟩ := hbranch k e hk
  obtain ⟨e'', hk'⟩ : ∃ e'', product.branches[k]? = some e'' := by
    rw [← hsame] at hlt
    exact ⟨_, List.getElem?_eq_getElem hlt⟩
  obtain rfl := (hderives' k e'' hk').unique hsum
  rw [hk', Option.some.injEq]
  exact hiff

/-- In `(x + \sin(z)) * y` the sine has parentheses of its own. -/
theorem compile_group_of_fenced_sine :
    (∀ n ∈ [.var "x", .atom "+", .named .sin none none, .atom "(", .var "z", .atom ")"],
      Node.isEquality n = false) ∧
    ∃ equation product,
      ((fresh {}).compile [.var "x", .atom "+", .named .sin none none, .atom "(", .var "z",
        .atom ")"]).outcome = .ok equation ∧
      ((fresh {}).compile [.atom "(", .var "x", .atom "+", .named .sin none none, .atom "(",
        .var "z", .atom ")", .atom ")", .atom "*", .var "y"]).outcome = .ok product ∧
      equation.branches = [.binary .add (.var "x") (.call .sine [.var "z"])] ∧
      product.branches[0]? = some (.binary .multiply
        (.binary .add (.var "x") (.call .sine [.var "z"])) (.var "y")) := by
  have hnodes : ∀ n ∈ [.var "x", .atom "+", .named .sin none none, .atom "(", .var "z",
      .atom ")"], Node.isEquality n = false := by decide
  have hrun : (Operand.following false
      [.named .sin none none, .atom "(", .var "z", .atom ")"]).nodes ≠ [] := by decide
  have hvisits : Visits (fresh {}) 0 (.siblings none [.var "x", .atom "+", .named .sin none none,
      .atom "(", .var "z", .atom ")"]) (declaredBy none) _ _ :=
    .cons (.name (.inr rfl)) (.cons (.atom rfl) (.cons (.turned rfl hrun (.cons (.atom rfl)
      (.cons (.name (.inr rfl)) (.cons (.atom rfl) .nil)))) .nil))
  have hparse : Expression.parse [.var "x", .operator .add, .call .sine, .openParen, .var "z",
      .close, .close] = .ok (.binary .add (.var "x") (.call .sine [.var "z"])) :=
    Expression.parse_eq_ok_iff_ofCode.2 (by cbv)
  have hruns : openRuns [.var "x", .atom "+", .named .sin none none, .atom "(", .var "z",
      .atom ")"] = 0 := by
    have hsine : (OperatorName.sin == OperatorName.integral) = false := rfl
    have hcloses : Operand.staysOpen false (.named .sin none none)
        [.atom "(", .var "z", .atom ")"] = false := by decide
    have htakes : (Operand.following false
        [.named .sin none none, .atom "(", .var "z", .atom ")"]).consumed = 3 := by decide
    simp [openRuns, Node.marking?, Node.isBar, hsine, hcloses, htakes]
  obtain ⟨equation, hequation, hbranches⟩ :=
    compile_single (resolve_fresh {}) hnodes hvisits rfl hparse
  obtain ⟨product, hproduct, -, hunit⟩ := compile_group_times .standard {} "y" hnodes hequation
  obtain ⟨code, -, hiff⟩ := hunit 0 _ (by rw [hbranches]; rfl)
  refine ⟨hnodes, equation, product, hequation, hproduct, hbranches, hiff.2 ?_⟩
  rw [hruns]
  trivial

/-- The run of the sine in `x + \sin z` takes in the parenthesis that closes the group, and the
factor behind it. -/
theorem sine_takes_factor_of_group :
    ¬∀ (nodes : List Node) (name : String) (equation : Equation Float),
      (∀ n ∈ nodes, n.isEquality = false) →
      ((fresh {}).compile nodes).outcome = .ok equation →
      ∃ product, ((fresh {}).compile (Spelling.standard.enclosed nodes ++
          [Spelling.standard.atom .times, .var name])).outcome = .ok product ∧
        product.branches.length = equation.branches.length ∧
        ∀ (k : Nat) (e), equation.branches[k]? = some e →
          product.branches[k]? = some (.binary .multiply e (.var name)) := by
  intro hunit
  let nodes : List Node := [.var "x", .atom "+", .named .sin none none, .var "z"]
  have hnodes : ∀ n ∈ nodes, n.isEquality = false := by decide
  have hgroup : ∀ n ∈ Spelling.standard.enclosed nodes ++ [Spelling.standard.atom .times, .var "y"],
      n.isEquality = false := by decide
  have hrun : (Operand.following false [.named .sin none none, .var "z"]).nodes ≠ [] := by decide
  have hvisits : Visits (fresh {}) 0 (.siblings none nodes) (declaredBy none) _ _ :=
    .cons (.name (.inr rfl)) (.cons (.atom rfl)
      (.cons (.turned rfl hrun (.cons (.name (.inr rfl)) .nil)) .nil))
  have hrun' : (Operand.following false
      [.named .sin none none, .var "z", .atom ")", .atom "*", .var "y"]).nodes ≠ [] := by decide
  have hvisits' : Visits (fresh {}) 0 (.siblings none
      (Spelling.standard.enclosed nodes ++ [Spelling.standard.atom .times, .var "y"]))
      (declaredBy none) _ _ :=
    .cons (.atom rfl) (.cons (.name (.inr rfl)) (.cons (.atom rfl)
      (.cons (.turned rfl hrun' (.cons (.name (.inr rfl)) (.cons (.atom rfl)
        (.cons (.atom rfl) (.cons (.name (.inr rfl)) .nil))))) .nil)))
  have hparse : Expression.parse
      [.var "x", .operator .add, .call .sine, .var "z", .close] =
      .ok (.binary .add (.var "x") (.call .sine [.var "z"])) :=
    Expression.parse_eq_ok_iff_ofCode.2 (by cbv)
  have hparse' : Expression.parse [.openParen, .var "x", .operator .add, .call .sine, .var "z",
      .close, .operator .multiply, .var "y", .close] =
      .ok (.binary .add (.var "x")
        (.binary .multiply (.call .sine [.var "z"]) (.var "y"))) :=
    Expression.parse_eq_ok_iff_ofCode.2 (by cbv)
  obtain ⟨equation, hequation, hbranches⟩ :=
    compile_single (resolve_fresh {}) hnodes hvisits rfl hparse
  obtain ⟨product, hproduct, hbranches'⟩ :=
    compile_single (resolve_fresh {}) hgroup hvisits' rfl hparse'
  obtain ⟨product', hproduct', -, hbranch⟩ := hunit nodes "y" equation hnodes hequation
  obtain rfl : product = product' := Except.ok.inj (hproduct.symm.trans hproduct')
  have hfirst := hbranch 0 _ (by rw [hbranches]; rfl)
  rw [hbranches'] at hfirst
  cases hfirst

end Session

end Formulary
