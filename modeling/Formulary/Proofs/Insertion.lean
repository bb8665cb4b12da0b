import Formulary.Proofs.Grammar

/-!
# A factor put in before closing parentheses

Code that derives a sum still derives one when a factor is put in behind one of its operands. Where
that operand ends with the last parentheses of the code, it is told when the factor multiplies the
whole sum all the same: when nothing but those parentheses, and plus signs, stands around a product.
-/

namespace Formulary.Expression

/-! ## Sums are no products, products are no signed operands -/

private theorem additive_append {back right : List Fragment} {o : Operator}
    (hback : ∀ o tail, back = .operator o :: tail → o.isMultiplicative = false)
    (ho : o.isMultiplicative = false) (o' : Operator) (tail : List Fragment)
    (heq : back ++ .operator o :: right = .operator o' :: tail) :
    o'.isMultiplicative = false := by
  cases back with
  | nil =>
    obtain rfl : o = o' := by simpa using (List.cons.inj heq).1
    exact ho
  | cons f back =>
    obtain ⟨rfl, -⟩ := List.cons.inj heq
    exact hback o' back rfl

theorem IsSum.first_product {code : List Fragment} {e : Expression Float} (h : IsSum code e) :
    ∃ front back e₁, code = front ++ back ∧ IsProduct front e₁ ∧
      ∀ o tail, back = .operator o :: tail → o.isMultiplicative = false := by
  cases h with
  | product h => exact ⟨code, [], e, (List.append_nil _).symm, h, by simp⟩
  | @more left right o l r hl ho hr =>
    obtain ⟨front, back, e₁, rfl, hfront, hback⟩ := hl.first_product
    exact ⟨front, back ++ .operator o :: right, e₁, by simp, hfront, additive_append hback ho⟩

theorem IsProduct.first_signed {code : List Fragment} {e : Expression Float}
    (h : IsProduct code e) : ∃ front back e₁, code = front ++ back ∧ IsSigned front e₁ := by
  cases h with
  | signed h => exact ⟨code, [], e, (List.append_nil _).symm, h⟩
  | @more left right o l r hl ho hr =>
    obtain ⟨front, back, e₁, rfl, hfront⟩ := hl.first_signed
    exact ⟨front, back ++ .operator o :: right, e₁, by simp, hfront⟩

theorem not_isProduct_more {left right : List Fragment} {o : Operator} {l : Expression Float}
    (hl : IsSum left l) (ho : o.isMultiplicative = false) (e : Expression Float) :
    ¬IsProduct (left ++ .operator o :: right) e := by
  intro h
  obtain ⟨front, back, e₁, rfl, hfront, hback⟩ := hl.first_product
  -- the reader of a product takes all of the code, and only its first product
  have hall := h.read []
  have hfirst := hfront.read (back ++ .operator o :: right)
  rw [plain_readFactors_stop e [] (by simp)] at hall
  rw [plain_readFactors_stop e₁ _ (additive_append hback ho), ← List.append_assoc] at hfirst
  rw [List.append_nil, hfirst] at hall
  simp at hall

theorem not_isSigned_more {left right : List Fragment} {o : Operator} {l : Expression Float}
    (hl : IsProduct left l) (e : Expression Float) :
    ¬IsSigned (left ++ .operator o :: right) e := by
  intro h
  obtain ⟨front, back, e₁, rfl, hfront⟩ := hl.first_signed
  have hall := h.read []
  have hfirst := hfront.read (back ++ .operator o :: right)
  rw [← List.append_assoc] at hfirst
  rw [List.append_nil, hfirst] at hall
  simp at hall

/-! ## Products in parentheses -/

/-- A product in so many parentheses, plus signs before any of them aside. -/
inductive IsEnclosed : Nat → List Fragment → Prop
  | product {code : List Fragment} {e : Expression Float} : IsProduct code e → IsEnclosed 0 code
  | parens {n : Nat} {code : List Fragment} :
      IsEnclosed n code → IsEnclosed (n + 1) (.openParen :: (code ++ [Fragment.close]))
  | plus {n : Nat} {code : List Fragment} :
      IsEnclosed (n + 1) code → IsEnclosed (n + 1) (.operator .add :: code)

private theorem IsEnclosed.derives {n : Nat} {code : List Fragment} (h : IsEnclosed n code) :
    (∃ e, IsProduct code e) ∧ (0 < n → ∃ e, IsSigned code e) := by
  induction h with
  | product h => exact ⟨⟨_, h⟩, by simp⟩
  | parens _ ih =>
    obtain ⟨⟨e, he⟩, -⟩ := ih
    have hsigned : IsSigned _ e := .operand (.parens (.product he))
    exact ⟨⟨e, .signed hsigned⟩, fun _ => ⟨e, hsigned⟩⟩
  | plus _ ih =>
    obtain ⟨e, he⟩ := ih.2 (Nat.succ_pos _)
    exact ⟨⟨e, .signed he.plus⟩, fun _ => ⟨e, he.plus⟩⟩

theorem IsEnclosed.isProduct {n : Nat} {code : List Fragment} (h : IsEnclosed n code) :
    ∃ e, IsProduct code e :=
  h.derives.1

theorem IsEnclosed.isSigned {n : Nat} {code : List Fragment} (h : IsEnclosed (n + 1) code) :
    ∃ e, IsSigned code e :=
  h.derives.2 (Nat.succ_pos n)

theorem isEnclosed_parens {n : Nat} {code : List Fragment} :
    IsEnclosed (n + 1) (.openParen :: (code ++ [Fragment.close])) ↔ IsEnclosed n code := by
  refine ⟨fun h => ?_, .parens⟩
  generalize hwhole : Fragment.openParen :: (code ++ [Fragment.close]) = whole at h
  cases h with
  | parens h =>
    have hcode := List.append_cancel_right (List.cons.inj hwhole).2
    rwa [hcode]
  | plus h => cases hwhole

theorem isEnclosed_plus {n : Nat} {code : List Fragment} :
    IsEnclosed (n + 1) (.operator .add :: code) ↔ IsEnclosed (n + 1) code := by
  refine ⟨fun h => ?_, .plus⟩
  cases h with
  | plus h => exact h

/-! ## Where the closing parentheses are -/

def closes (n : Nat) : List Fragment := List.replicate n .close

theorem closes_succ (n : Nat) : closes (n + 1) = closes n ++ [Fragment.close] :=
  List.replicate_succ'

/-- Closing parentheses at the end of the code are at the end of what follows any other fragment. -/
theorem behind_of_closes (left : List Fragment) {right front : List Fragment} {f : Fragment}
    {n : Nat} (hf : f ≠ .close) (hcode : left ++ f :: right = front ++ closes n)
    (hend : n = 0 ∨ front.getLast? = some .close) :
    ∃ before, front = left ++ f :: before ∧ right = before ++ closes n ∧
      (n = 0 ∨ before.getLast? = some .close) := by
  have hmem : ∀ g ∈ closes n, g = .close := fun g hg => List.eq_of_mem_replicate hg
  rcases List.append_eq_append_iff.1 hcode with ⟨as, hfront, has⟩ | ⟨bs, -, hbs⟩
  · cases as with
    | nil =>
      have hclose : f ∈ closes n := by
        rw [List.nil_append] at has
        rw [← has]
        exact List.mem_cons_self ..
      exact absurd (hmem f hclose) hf
    | cons g before =>
      obtain ⟨rfl, rfl⟩ := List.cons.inj has
      refine ⟨before, hfront, rfl, ?_⟩
      rcases hend with hn | hlast
      · exact .inl hn
      · right
        rw [hfront, List.getLast?_append] at hlast
        cases before with
        | nil => simp [hf] at hlast
        | cons g before => simpa using hlast
  · have hclose : f ∈ closes n := by
      rw [hbs]
      simp
    exact absurd (hmem f hclose) hf

/-- The last parenthesis is one of those at the end. -/
theorem inside_of_closes {inside front : List Fragment} {n : Nat}
    (hcode : inside ++ [Fragment.close] = front ++ closes (n + 1)) :
    inside = front ++ closes n := by
  rw [closes_succ, ← List.append_assoc] at hcode
  exact List.append_cancel_right hcode

/-! ## A factor put in -/

/-- The code with a factor put in before its last `n` closing parentheses. -/
def withFactor (front : List Fragment) (name : String) (n : Nat) : List Fragment :=
  front ++ .operator .multiply :: .var name :: closes n

theorem withFactor_behind (left before : List Fragment) (f : Fragment) (name : String) (n : Nat) :
    withFactor (left ++ f :: before) name n = left ++ f :: withFactor before name n := by
  simp [withFactor]

theorem withFactor_succ (front : List Fragment) (name : String) (n : Nat) :
    withFactor front name (n + 1) = withFactor front name n ++ [Fragment.close] := by
  simp [withFactor, closes_succ]

theorem single_ne_closes {f : Fragment} (hf : f ≠ .close) (front : List Fragment) (n : Nat) :
    [f] ≠ front ++ closes (n + 1) := by
  intro h
  have hlast := congrArg List.getLast? h
  rw [closes_succ, ← List.append_assoc, List.getLast?_concat] at hlast
  exact hf (Option.some.inj hlast)

/-- The body between an opening fragment and its `close`. -/
theorem body_of_closes {f : Fragment} {body front : List Fragment} {n : Nat} (hf : f ≠ .close)
    (hcode : f :: (body ++ [Fragment.close]) = front ++ closes (n + 1))
    (hend : front.getLast? = some .close) :
    ∃ before, body = before ++ closes n ∧ (n = 0 ∨ before.getLast? = some .close) ∧
      ∀ name,
        withFactor front name (n + 1) = f :: (withFactor before name n ++ [Fragment.close]) := by
  have hinside : f :: body = front ++ closes n := inside_of_closes hcode
  obtain ⟨before, rfl, hbody, hbefore⟩ := behind_of_closes [] hf hinside (.inr hend)
  refine ⟨before, hbody, hbefore, ?_⟩
  intro name
  rw [withFactor_behind, withFactor_succ]
  rfl

theorem arguments_of_closes {f : Fragment} {code front : List Fragment} {n : Nat} (hf : f ≠ .close)
    (hcode : f :: code = front ++ closes (n + 1)) (hend : front.getLast? = some .close) :
    ∃ before, code = before ++ closes (n + 1) ∧ front = [] ++ f :: before ∧
      before.getLast? = some .close := by
  obtain ⟨before, rfl, hbehind, hbefore⟩ := behind_of_closes [] hf hcode (.inr hend)
  exact ⟨before, hbehind, rfl, by simpa using hbefore⟩

section Factor

variable (name : String)

/-- The factor multiplies the whole. -/
def Multiplies (e : Expression Float) (name : String) (e' : Expression Float) : Prop :=
  e' = .binary .multiply e (.var name)

theorem not_multiplies_more {o : Operator} {l r r' : Expression Float} :
    ¬Multiplies (.binary o l r) name (.binary o l r') := by
  intro h
  obtain ⟨-, hleft, -⟩ := Expression.binary.inj h
  have hsize := congrArg sizeOf hleft
  simp at hsize
  omega

theorem not_multiplies_additive {o : Operator} (ho : o.isMultiplicative = false)
    {e l r : Expression Float} : ¬Multiplies e name (.binary o l r) := by
  intro h
  obtain ⟨rfl, -⟩ := Expression.binary.inj h
  cases ho

mutual

theorem IsSum.factor {code : List Fragment} {e : Expression Float} :
    IsSum code e → ∀ front n, code = front ++ closes n →
      (n = 0 ∨ front.getLast? = some .close) →
      ∃ e', IsSum (withFactor front name n) e' ∧ (Multiplies e name e' ↔ IsEnclosed n code)
  | .product h, front, n, hcode, hend => by
    obtain ⟨e', he', hiff⟩ := h.factor front n hcode hend
    exact ⟨e', .product he', hiff⟩
  | @IsSum.more left right o l r hl ho hr, front, n, hcode, hend => by
    obtain ⟨before, rfl, hright, hbefore⟩ := behind_of_closes _ (by simp) hcode hend
    obtain ⟨r', hr', -⟩ := hr.factor before n hright hbefore
    refine ⟨.binary o l r', ?_, ?_⟩
    · rw [withFactor_behind]
      exact .more hl ho hr'
    · refine iff_of_false (not_multiplies_additive name ho) ?_
      intro henclosed
      obtain ⟨e, he⟩ := henclosed.isProduct
      exact not_isProduct_more hl ho e he

theorem IsProduct.factor {code : List Fragment} {e : Expression Float} :
    IsProduct code e → ∀ front n, code = front ++ closes n →
      (n = 0 ∨ front.getLast? = some .close) →
      ∃ e', IsProduct (withFactor front name n) e' ∧ (Multiplies e name e' ↔ IsEnclosed n code)
  | h, front, 0, hcode, _ => by
    obtain rfl : code = front := by simpa [closes] using hcode
    exact ⟨_, h.more rfl (.operand (.var name)), iff_of_true rfl (.product h)⟩
  | .signed h, front, n + 1, hcode, hend => by
    obtain ⟨e', he', hiff⟩ := h.factor front n hcode (by simpa using hend)
    exact ⟨e', .signed he', hiff⟩
  | @IsProduct.more left right o l r hl ho hr, front, n + 1, hcode, hend => by
    obtain ⟨before, rfl, hright, hbefore⟩ := behind_of_closes _ (by simp) hcode hend
    obtain ⟨r', hr', -⟩ := hr.factor before n hright (by simpa using hbefore)
    refine ⟨.binary o l r', ?_, ?_⟩
    · rw [withFactor_behind]
      exact .more hl ho hr'
    · refine iff_of_false (not_multiplies_more name) ?_
      intro henclosed
      obtain ⟨e, he⟩ := henclosed.isSigned
      exact not_isSigned_more hl e he

theorem IsSigned.factor {code : List Fragment} {e : Expression Float} :
    IsSigned code e → ∀ front n, code = front ++ closes (n + 1) →
      front.getLast? = some .close →
      ∃ e', IsSigned (withFactor front name (n + 1)) e' ∧
        (Multiplies e name e' ↔ IsEnclosed (n + 1) code)
  | .operand h, front, n, hcode, hend => by
    obtain ⟨e', he', hiff⟩ := h.factor front n hcode hend
    exact ⟨e', .operand he', hiff⟩
  | @IsSigned.plus code e h, front, n, hcode, hend => by
    obtain ⟨before, rfl, hbehind, hbefore⟩ :=
      behind_of_closes [] (by simp) hcode (.inr hend)
    obtain ⟨e', he', hiff⟩ := h.factor before n hbehind (by simpa using hbefore)
    exact ⟨e', by rw [withFactor_behind]; exact he'.plus, hiff.trans isEnclosed_plus.symm⟩
  | @IsSigned.minus code e h, front, n, hcode, hend => by
    obtain ⟨before, rfl, hbehind, hbefore⟩ :=
      behind_of_closes [] (by simp) hcode (.inr hend)
    obtain ⟨e', he', -⟩ := h.factor before n hbehind (by simpa using hbefore)
    refine ⟨.negate e', by rw [withFactor_behind]; exact he'.minus, iff_of_false nofun ?_⟩
    nofun

theorem IsOperand.factor {code : List Fragment} {e : Expression Float} :
    IsOperand code e → ∀ front n, code = front ++ closes (n + 1) →
      front.getLast? = some .close →
      ∃ e', IsOperand (withFactor front name (n + 1)) e' ∧
        (Multiplies e name e' ↔ IsEnclosed (n + 1) code)
  | .number h, front, n, hcode, hend => absurd hcode (single_ne_closes (by simp) front n)
  | .var other, front, n, hcode, hend => absurd hcode (single_ne_closes (by simp) front n)
  | .reference external branch, front, n, hcode, hend =>
    absurd hcode (single_ne_closes (by simp) front n)
  | .parens h, front, n, hcode, hend => by
    obtain ⟨before, rfl, hbefore, hbehind⟩ := body_of_closes (by simp) hcode hend
    obtain ⟨e', he', hiff⟩ := h.factor before n rfl hbefore
    exact ⟨e', by rw [hbehind]; exact .parens he', hiff.trans isEnclosed_parens.symm⟩
  | .call f h harity, front, n, hcode, hend => by
    obtain ⟨before, hbehind, rfl, hbefore⟩ := arguments_of_closes (by simp) hcode hend
    obtain ⟨es', hes', hlength⟩ := h.factor before n hbehind hbefore
    refine ⟨.call f es', ?_, iff_of_false nofun nofun⟩
    rw [withFactor_behind []]
    exact .call f hes' (hlength.trans harity)
  | .sum index lower upper h, front, n, hcode, hend => by
    obtain ⟨before, rfl, hbefore, hbehind⟩ := body_of_closes (by simp) hcode hend
    obtain ⟨e', he', -⟩ := h.factor before n rfl hbefore
    refine ⟨.sum index lower upper e', ?_, iff_of_false nofun nofun⟩
    rw [hbehind]
    exact .sum index lower upper he'
  | .integral index start width partitions rule h, front, n, hcode, hend => by
    obtain ⟨before, rfl, hbefore, hbehind⟩ := body_of_closes (by simp) hcode hend
    obtain ⟨e', he', -⟩ := h.factor before n rfl hbefore
    refine ⟨.integral index start width partitions rule e', ?_, iff_of_false nofun nofun⟩
    rw [hbehind]
    exact .integral index start width partitions rule he'
  | .apply external branch h, front, n, hcode, hend => by
    obtain ⟨before, hbehind, rfl, hbefore⟩ := arguments_of_closes (by simp) hcode hend
    obtain ⟨es', hes', -⟩ := h.factor before n hbehind hbefore
    refine ⟨.apply external branch es', ?_, iff_of_false nofun nofun⟩
    rw [withFactor_behind []]
    exact .apply external branch hes'
  | .derivative external branch step h, front, n, hcode, hend => by
    obtain ⟨before, hbehind, rfl, hbefore⟩ := arguments_of_closes (by simp) hcode hend
    obtain ⟨es', hes', -⟩ := h.factor before n hbehind hbefore
    refine ⟨.derivative external branch step es', ?_, iff_of_false nofun nofun⟩
    rw [withFactor_behind []]
    exact .derivative external branch step hes'

theorem IsArguments.factor {code : List Fragment} {es : List (Expression Float)} :
    IsArguments code es → ∀ front n, code = front ++ closes (n + 1) →
      front.getLast? = some .close →
      ∃ es', IsArguments (withFactor front name (n + 1)) es' ∧ es'.length = es.length
  | .none, front, n, hcode, hend => by
    have hinside : [] = front ++ closes n := inside_of_closes hcode
    obtain ⟨rfl, -⟩ := List.append_eq_nil_iff.1 hinside.symm
    cases hend
  | .some h, front, n, hcode, hend => by
    obtain ⟨es', hes', hlength⟩ := h.factor front n hcode hend
    exact ⟨es', .some hes', hlength⟩

theorem IsListed.factor {code : List Fragment} {es : List (Expression Float)} :
    IsListed code es → ∀ front n, code = front ++ closes (n + 1) →
      front.getLast? = some .close →
      ∃ es', IsListed (withFactor front name (n + 1)) es' ∧ es'.length = es.length
  | .last h, front, n, hcode, hend => by
    obtain ⟨e', he', -⟩ := h.factor front n (inside_of_closes hcode) (.inr hend)
    exact ⟨[e'], by rw [withFactor_succ]; exact .last he', rfl⟩
  | .more h hmore, front, n, hcode, hend => by
    obtain ⟨before, rfl, hbehind, hbefore⟩ := behind_of_closes _ (by simp) hcode (.inr hend)
    obtain ⟨es', hes', hlength⟩ := hmore.factor before n hbehind (by simpa using hbefore)
    exact ⟨_ :: es', by rw [withFactor_behind]; exact .more h hes', by simp [hlength]⟩

end

end Factor

end Formulary.Expression
