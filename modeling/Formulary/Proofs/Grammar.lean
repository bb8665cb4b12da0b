import Formulary.Expression.Parser

/-!
# The grammar of code

The derivations of a list of fragments, level by level: a sum of products of signed operands, both
operator levels associated to the left. The reader accepts a list exactly when it derives a sum,
and its tree is the only one the list has.
-/

namespace Formulary.Expression

mutual

inductive IsSum : List Fragment → Expression Float → Prop
  | product {code : List Fragment} {e : Expression Float} : IsProduct code e → IsSum code e
  | more {left right : List Fragment} {o : Operator} {l r : Expression Float} :
      IsSum left l → o.isMultiplicative = false → IsProduct right r →
        IsSum (left ++ .operator o :: right) (.binary o l r)

inductive IsProduct : List Fragment → Expression Float → Prop
  | signed {code : List Fragment} {e : Expression Float} : IsSigned code e → IsProduct code e
  | more {left right : List Fragment} {o : Operator} {l r : Expression Float} :
      IsProduct left l → o.isMultiplicative = true → IsSigned right r →
        IsProduct (left ++ .operator o :: right) (.binary o l r)

/-- A plus sign leaves no trace in the tree. -/
inductive IsSigned : List Fragment → Expression Float → Prop
  | operand {code : List Fragment} {e : Expression Float} : IsOperand code e → IsSigned code e
  | plus {code : List Fragment} {e : Expression Float} :
      IsSigned code e → IsSigned (.operator .add :: code) e
  | minus {code : List Fragment} {e : Expression Float} :
      IsSigned code e → IsSigned (.operator .subtract :: code) (.negate e)

inductive IsOperand : List Fragment → Expression Float → Prop
  | number {text : String} {value : Float} :
      Decimal.float? text = some value → IsOperand [.number text] (.number value)
  | var (name : String) : IsOperand [.var name] (.var name)
  | parens {code : List Fragment} {e : Expression Float} :
      IsSum code e → IsOperand (.openParen :: (code ++ [.close])) e
  | call {code : List Fragment} {es : List (Expression Float)} (f : Function) :
      IsArguments code es → es.length = f.arity → IsOperand (.call f :: code) (.call f es)
  | sum {code : List Fragment} {e : Expression Float} (index : String)
      (lower upper : Bound Float) :
      IsSum code e →
        IsOperand (.sum index lower upper :: (code ++ [.close])) (.sum index lower upper e)
  | integral {code : List Fragment} {e : Expression Float} (name : String)
      (start width : Float) (partitions : Nat) (rule : IntegralRule) :
      IsSum code e →
        IsOperand (.integral name start width partitions rule :: (code ++ [.close]))
          (.integral name start width partitions rule e)
  | reference (external branch : Nat) :
      IsOperand [.reference external branch] (.reference external branch)
  | apply {code : List Fragment} {es : List (Expression Float)} (external branch : Nat) :
      IsArguments code es → IsOperand (.apply external branch :: code) (.apply external branch es)
  | derivative {code : List Fragment} {es : List (Expression Float)} (external branch : Nat)
      (step : Float) :
      IsArguments code es →
        IsOperand (.derivative external branch step :: code) (.derivative external branch step es)

/-- Arguments with the `close` behind them. -/
inductive IsArguments : List Fragment → List (Expression Float) → Prop
  | none : IsArguments [.close] []
  | some {code : List Fragment} {es : List (Expression Float)} :
      IsListed code es → IsArguments code es

/-- One argument at least. -/
inductive IsListed : List Fragment → List (Expression Float) → Prop
  | last {code : List Fragment} {e : Expression Float} :
      IsSum code e → IsListed (code ++ [.close]) [e]
  | more {code rest : List Fragment} {e : Expression Float} {es : List (Expression Float)} :
      IsSum code e → IsListed rest es → IsListed (code ++ .separator :: rest) (e :: es)

end

/-! ## The reader without its lengths -/

section Plain

variable {β γ : Type} {p q : List Fragment → Prop}

/-- A reading and the code behind it, without the proof about its length. -/
def plain (reading : Except Flaw (β × { rest : List Fragment // p rest })) :
    Except Flaw (β × List Fragment) :=
  reading.map fun (b, rest) => (b, rest.val)

theorem rest_of_plain_eq_ok {reading : Except Flaw (β × { rest : List Fragment // p rest })}
    {b : β} {rest : List Fragment} (h : plain reading = .ok (b, rest)) : p rest := by
  rcases reading with flaw | ⟨c, rest', h'⟩
  · simp [plain, Except.map] at h
  · obtain ⟨-, rfl⟩ : c = b ∧ rest' = rest := by simpa [plain, Except.map] using h
    exact h'

private theorem plain_bind {reading : Except Flaw (γ × { rest : List Fragment // q rest })}
    {next : γ × { rest : List Fragment // q rest } →
      Except Flaw (β × { rest : List Fragment // p rest })}
    {next' : γ × List Fragment → Except Flaw (β × List Fragment)}
    (h : ∀ c rest hrest, plain (next (c, ⟨rest, hrest⟩)) = next' (c, rest)) :
    plain (reading >>= next) = plain reading >>= next' := by
  rcases reading with flaw | ⟨c, rest, hrest⟩
  · rfl
  · exact h c rest hrest

private theorem plain_return {reading : Except Flaw (β × { rest : List Fragment // q rest })}
    {next : β × { rest : List Fragment // q rest } →
      Except Flaw (β × { rest : List Fragment // p rest })}
    (h : ∀ b rest hrest, plain (next (b, ⟨rest, hrest⟩)) = .ok (b, rest)) :
    plain (reading >>= next) = plain reading := by
  rcases reading with flaw | ⟨b, rest, hrest⟩
  · rfl
  · exact h b rest hrest

end Plain

section Equations

variable (left : Expression Float) (code rest : List Fragment)

theorem plain_readSum :
    plain (readSum code) = plain (readProduct code) >>= fun x => plain (readTerms x.1 x.2) := by
  rw [readSum]
  apply plain_bind
  intro left rest _
  exact plain_return fun _ _ _ => rfl

theorem plain_readTerms_additive {o : Operator} (ho : o.isMultiplicative = false) :
    plain (readTerms left (.operator o :: rest)) =
      plain (readProduct rest) >>= fun x => plain (readTerms (.binary o left x.1) x.2) := by
  rw [readTerms]
  simp only [ho]
  apply plain_bind
  intro right rest' _
  exact plain_return fun _ _ _ => rfl

theorem plain_readTerms_stop
    (h : ∀ o tail, code = .operator o :: tail → o.isMultiplicative = true) :
    plain (readTerms left code) = .ok (left, code) := by
  unfold readTerms
  split
  · next o tail => simp only [h o tail rfl]; rfl
  · rfl

theorem plain_readProduct :
    plain (readProduct code) =
      plain (readSigned code) >>= fun x => plain (readFactors x.1 x.2) := by
  rw [readProduct]
  apply plain_bind
  intro left rest _
  exact plain_return fun _ _ _ => rfl

theorem plain_readFactors_multiplicative {o : Operator} (ho : o.isMultiplicative = true) :
    plain (readFactors left (.operator o :: rest)) =
      plain (readSigned rest) >>= fun x => plain (readFactors (.binary o left x.1) x.2) := by
  rw [readFactors]
  simp only [ho]
  apply plain_bind
  intro right rest' _
  exact plain_return fun _ _ _ => rfl

theorem plain_readFactors_stop
    (h : ∀ o tail, code = .operator o :: tail → o.isMultiplicative = false) :
    plain (readFactors left code) = .ok (left, code) := by
  unfold readFactors
  split
  · next o tail => simp only [h o tail rfl]; rfl
  · rfl

theorem plain_readSigned_plus :
    plain (readSigned (.operator .add :: rest)) = plain (readSigned rest) := by
  rw [readSigned]
  exact plain_return fun _ _ _ => rfl

theorem plain_readSigned_minus :
    plain (readSigned (.operator .subtract :: rest)) =
      plain (readSigned rest) >>= fun x => .ok (.negate x.1, x.2) := by
  rw [readSigned]
  exact plain_bind fun _ _ _ => rfl

theorem plain_readSigned_operand (hadd : ∀ tail, code ≠ .operator .add :: tail)
    (hsubtract : ∀ tail, code ≠ .operator .subtract :: tail) :
    plain (readSigned code) = plain (readOperand code) := by
  unfold readSigned
  split
  · next tail => exact absurd rfl (hadd tail)
  · next tail => exact absurd rfl (hsubtract tail)
  · rfl

theorem plain_readBody :
    plain (readBody code) = plain (readSum code) >>= fun x =>
      match x.2 with
      | .close :: rest => .ok (x.1, rest)
      | _ => .error .unbalanced := by
  rw [readBody]
  apply plain_bind
  rintro e (_ | ⟨_ | _, rest⟩) _ <;> rfl

theorem plain_readArguments_close :
    plain (readArguments (.close :: rest)) = .ok ([], rest) := by
  rw [readArguments]
  rfl

theorem plain_readArguments_listed (h : ∀ tail, code ≠ .close :: tail) :
    plain (readArguments code) = plain (readList code) := by
  unfold readArguments
  split
  · next tail => exact absurd rfl (h tail)
  · rfl

theorem plain_readList :
    plain (readList code) = plain (readSum code) >>= fun x =>
      match x.2 with
      | .close :: rest => .ok ([x.1], rest)
      | .separator :: rest => plain (readList rest) >>= fun y => .ok (x.1 :: y.1, y.2)
      | _ => .error .unterminated := by
  rw [readList]
  apply plain_bind
  rintro e (_ | ⟨_ | _, rest⟩) _
  case cons.separator => exact plain_bind fun _ _ _ => rfl
  all_goals rfl

/-- Each kind of operand, told by its first fragment. -/
theorem plain_readOperand_cons (f : Fragment) :
    plain (readOperand (f :: rest)) =
      match f with
      | .number text =>
        match Decimal.float? text with
        | some value => .ok (.number value, rest)
        | none => .error (.notNumber text)
      | .var name => .ok (.var name, rest)
      | .openParen => plain (readBody rest)
      | .call f => plain (readArguments rest) >>= fun x =>
        if x.1.length = f.arity then .ok (.call f x.1, x.2) else .error (.arity f x.1.length)
      | .sum index lower upper => plain (readBody rest) >>= fun x =>
        .ok (.sum index lower upper x.1, x.2)
      | .integral name start width partitions rule => plain (readBody rest) >>= fun x =>
        .ok (.integral name start width partitions rule x.1, x.2)
      | .reference external branch => .ok (.reference external branch, rest)
      | .apply external branch => plain (readArguments rest) >>= fun x =>
        .ok (.apply external branch x.1, x.2)
      | .derivative external branch step => plain (readArguments rest) >>= fun x =>
        .ok (.derivative external branch step x.1, x.2)
      | .operator o => .error (.unexpected (Fragment.operator o).text)
      | .close => .error (.unexpected Fragment.close.text)
      | .separator => .error (.unexpected Fragment.separator.text) := by
  cases f with
  | number text =>
    rw [readOperand]
    dsimp only
    cases Decimal.float? text <;> rfl
  | openParen =>
    rw [readOperand]
    exact plain_return fun _ _ _ => rfl
  | call f =>
    rw [readOperand]
    apply plain_bind
    intro es rest' _
    by_cases h : es.length = f.arity
    · simp only [h]; rfl
    · simp only [h]; rfl
  | sum index lower upper =>
    rw [readOperand]
    exact plain_bind fun _ _ _ => rfl
  | integral name start width partitions rule =>
    rw [readOperand]
    exact plain_bind fun _ _ _ => rfl
  | apply external branch =>
    rw [readOperand]
    exact plain_bind fun _ _ _ => rfl
  | derivative external branch step =>
    rw [readOperand]
    exact plain_bind fun _ _ _ => rfl
  | _ =>
    rw [readOperand]
    rfl

end Equations

/-! ## Every derivation is read -/

/-- An operand does not start with a sign, nor do arguments start with their `close`. -/
theorem IsOperand.head {code : List Fragment} {e : Expression Float} (h : IsOperand code e) :
    ∃ f tail, code = f :: tail ∧ (∀ o, f ≠ .operator o) ∧ f ≠ .close := by
  cases h <;> exact ⟨_, _, rfl, by simp, by simp⟩

mutual

theorem IsSum.head {code : List Fragment} {e : Expression Float} :
    IsSum code e → ∃ f tail, code = f :: tail ∧ f ≠ .close
  | .product h => h.head
  | .more h _ _ => by
    obtain ⟨f, tail, rfl, hf⟩ := h.head
    exact ⟨f, _, rfl, hf⟩

theorem IsProduct.head {code : List Fragment} {e : Expression Float} :
    IsProduct code e → ∃ f tail, code = f :: tail ∧ f ≠ .close
  | .signed h => h.head
  | .more h _ _ => by
    obtain ⟨f, tail, rfl, hf⟩ := h.head
    exact ⟨f, _, rfl, hf⟩

theorem IsSigned.head {code : List Fragment} {e : Expression Float} :
    IsSigned code e → ∃ f tail, code = f :: tail ∧ f ≠ .close
  | .operand h => by
    obtain ⟨f, tail, hcode, -, hf⟩ := h.head
    exact ⟨f, tail, hcode, hf⟩
  | .plus _ => ⟨_, _, rfl, by simp⟩
  | .minus _ => ⟨_, _, rfl, by simp⟩

end

theorem IsListed.head {code : List Fragment} {es : List (Expression Float)}
    (h : IsListed code es) : ∃ f tail, code = f :: tail ∧ f ≠ .close := by
  cases h with
  | last h =>
    obtain ⟨f, tail, rfl, hf⟩ := h.head
    exact ⟨f, _, rfl, hf⟩
  | more h _ =>
    obtain ⟨f, tail, rfl, hf⟩ := h.head
    exact ⟨f, _, rfl, hf⟩

private theorem plain_readSum_stop {code rest : List Fragment} {e : Expression Float}
    (h : plain (readSum (code ++ rest)) = plain (readTerms e rest))
    (hrest : ∀ o tail, rest ≠ .operator o :: tail) :
    plain (readSum (code ++ rest)) = .ok (e, rest) := by
  rw [h, plain_readTerms_stop e rest fun o tail heq => absurd heq (hrest o tail)]

private theorem plain_readBody_close {code rest : List Fragment} {e : Expression Float}
    (h : plain (readSum (code ++ .close :: rest)) = plain (readTerms e (.close :: rest))) :
    plain (readBody (code ++ [.close] ++ rest)) = .ok (e, rest) := by
  rw [List.append_assoc, plain_readBody, List.singleton_append, plain_readSum_stop h (by simp)]
  rfl

mutual

theorem IsSum.read {code : List Fragment} {e : Expression Float} (rest : List Fragment)
    (hrest : ∀ o tail, rest = .operator o :: tail → o.isMultiplicative = false) :
    IsSum code e → plain (readSum (code ++ rest)) = plain (readTerms e rest)
  | .product h => by
    rw [plain_readSum, h.read rest, plain_readFactors_stop e rest hrest]
    rfl
  | @IsSum.more _ right o l _ hl ho hr => by
    rw [List.append_assoc, hl.read (.operator o :: right ++ rest) (by simp_all),
      List.cons_append, plain_readTerms_additive l _ ho, hr.read rest,
      plain_readFactors_stop _ rest hrest]
    rfl

theorem IsProduct.read {code : List Fragment} {e : Expression Float} (rest : List Fragment) :
    IsProduct code e → plain (readProduct (code ++ rest)) = plain (readFactors e rest)
  | .signed h => by
    rw [plain_readProduct, h.read rest]
    rfl
  | @IsProduct.more _ right o l _ hl ho hr => by
    rw [List.append_assoc, hl.read (.operator o :: right ++ rest), List.cons_append,
      plain_readFactors_multiplicative l _ ho, hr.read rest]
    rfl

theorem IsSigned.read {code : List Fragment} {e : Expression Float} (rest : List Fragment) :
    IsSigned code e → plain (readSigned (code ++ rest)) = .ok (e, rest)
  | .operand h => by
    have hread := h.read rest
    obtain ⟨f, tail, rfl, hf, -⟩ := h.head
    rw [plain_readSigned_operand _ (by simp [hf]) (by simp [hf])]
    exact hread
  | .plus h => by
    rw [List.cons_append, plain_readSigned_plus]
    exact h.read rest
  | .minus h => by
    rw [List.cons_append, plain_readSigned_minus, h.read rest]
    rfl

theorem IsOperand.read {code : List Fragment} {e : Expression Float} (rest : List Fragment) :
    IsOperand code e → plain (readOperand (code ++ rest)) = .ok (e, rest)
  | @IsOperand.number text _ h => by
    simp only [List.singleton_append, plain_readOperand_cons, h]
  | .var name => plain_readOperand_cons rest (.var name)
  | .parens h => by
    rw [List.cons_append, plain_readOperand_cons]
    exact plain_readBody_close (h.read (.close :: rest) (by simp))
  | .call f h harity => by
    rw [List.cons_append, plain_readOperand_cons, h.read rest]
    exact if_pos harity
  | .sum index lower upper h => by
    rw [List.cons_append, plain_readOperand_cons,
      plain_readBody_close (h.read (.close :: rest) (by simp))]
    rfl
  | .integral name start width partitions rule h => by
    rw [List.cons_append, plain_readOperand_cons,
      plain_readBody_close (h.read (.close :: rest) (by simp))]
    rfl
  | .reference external branch => plain_readOperand_cons rest (.reference external branch)
  | .apply external branch h => by
    rw [List.cons_append, plain_readOperand_cons, h.read rest]
    rfl
  | .derivative external branch step h => by
    rw [List.cons_append, plain_readOperand_cons, h.read rest]
    rfl

theorem IsArguments.read {code : List Fragment} {es : List (Expression Float)}
    (rest : List Fragment) :
    IsArguments code es → plain (readArguments (code ++ rest)) = .ok (es, rest)
  | .none => plain_readArguments_close rest
  | .some h => by
    have hread := h.read rest
    obtain ⟨f, tail, rfl, hf⟩ := h.head
    rw [plain_readArguments_listed _ (by simp [hf])]
    exact hread

theorem IsListed.read {code : List Fragment} {es : List (Expression Float)}
    (rest : List Fragment) :
    IsListed code es → plain (readList (code ++ rest)) = .ok (es, rest)
  | .last h => by
    rw [List.append_assoc, plain_readList, List.singleton_append,
      plain_readSum_stop (h.read (.close :: rest) (by simp)) (by simp)]
    rfl
  | @IsListed.more _ more _ _ h hmore => by
    rw [List.append_assoc, plain_readList, List.cons_append,
      plain_readSum_stop (h.read (.separator :: (more ++ rest)) (by simp)) (by simp)]
    change plain (readList (more ++ rest)) >>= _ = _
    rw [hmore.read rest]
    rfl

end

/-! ## Every reading is a derivation -/

private theorem bind_eq_ok {β γ : Type} {reading : Except Flaw β} {next : β → Except Flaw γ} {c : γ}
    (h : reading >>= next = .ok c) : ∃ b, reading = .ok b ∧ next b = .ok c := by
  rcases reading with flaw | b
  · cases h
  · exact ⟨b, rfl, h⟩

/-- What the nine readers take off the front of the code derives what they stand for. -/
theorem derivation_of_read :
    (∀ code e rest, plain (readSum code) = .ok (e, rest) →
      ∃ front, code = front ++ rest ∧ IsSum front e) ∧
    (∀ left code front e rest, IsSum front left → plain (readTerms left code) = .ok (e, rest) →
      ∃ more, code = more ++ rest ∧ IsSum (front ++ more) e) ∧
    (∀ code e rest, plain (readProduct code) = .ok (e, rest) →
      ∃ front, code = front ++ rest ∧ IsProduct front e) ∧
    (∀ left code front e rest, IsProduct front left →
      plain (readFactors left code) = .ok (e, rest) →
      ∃ more, code = more ++ rest ∧ IsProduct (front ++ more) e) ∧
    (∀ code e rest, plain (readSigned code) = .ok (e, rest) →
      ∃ front, code = front ++ rest ∧ IsSigned front e) ∧
    (∀ code e rest, plain (readOperand code) = .ok (e, rest) →
      ∃ front, code = front ++ rest ∧ IsOperand front e) ∧
    (∀ code es rest, plain (readArguments code) = .ok (es, rest) →
      ∃ front, code = front ++ rest ∧ IsArguments front es) ∧
    (∀ code es rest, plain (readList code) = .ok (es, rest) →
      ∃ front, code = front ++ rest ∧ IsListed front es) ∧
    (∀ code e rest, plain (readBody code) = .ok (e, rest) →
      ∃ front, code = front ++ .close :: rest ∧ IsSum front e) := by
  have hstep := @readSum.mutual_induct
    (fun code => ∀ e rest, plain (readSum code) = .ok (e, rest) →
      ∃ front, code = front ++ rest ∧ IsSum front e)
    (fun left code => ∀ front e rest, IsSum front left →
      plain (readTerms left code) = .ok (e, rest) →
      ∃ more, code = more ++ rest ∧ IsSum (front ++ more) e)
    (fun code => ∀ e rest, plain (readProduct code) = .ok (e, rest) →
      ∃ front, code = front ++ rest ∧ IsProduct front e)
    (fun left code => ∀ front e rest, IsProduct front left →
      plain (readFactors left code) = .ok (e, rest) →
      ∃ more, code = more ++ rest ∧ IsProduct (front ++ more) e)
    (fun code => ∀ e rest, plain (readSigned code) = .ok (e, rest) →
      ∃ front, code = front ++ rest ∧ IsSigned front e)
    (fun code => ∀ e rest, plain (readOperand code) = .ok (e, rest) →
      ∃ front, code = front ++ rest ∧ IsOperand front e)
    (fun code => ∀ es rest, plain (readArguments code) = .ok (es, rest) →
      ∃ front, code = front ++ rest ∧ IsArguments front es)
    (fun code => ∀ es rest, plain (readList code) = .ok (es, rest) →
      ∃ front, code = front ++ rest ∧ IsListed front es)
    (fun code => ∀ e rest, plain (readBody code) = .ok (e, rest) →
      ∃ front, code = front ++ .close :: rest ∧ IsSum front e)
  apply hstep <;> clear hstep
  case case1 => -- a sum
    intro code ihproduct ihterms e rest h
    rw [plain_readSum] at h
    obtain ⟨⟨left, rest'⟩, hleft, hterms⟩ := bind_eq_ok h
    obtain ⟨front, hcode, hfront⟩ := ihproduct left rest' hleft
    obtain ⟨more, rfl, hmore⟩ :=
      ihterms left rest' (rest_of_plain_eq_ok hleft) front e rest (.product hfront) hterms
    exact ⟨front ++ more, by rw [hcode, List.append_assoc], hmore⟩
  case case2 => -- terms, a multiplicative operator
    intro left o rest ho front e rest' hfront h
    rw [plain_readTerms_stop _ _ (by simp [ho])] at h
    cases h
    exact ⟨[], rfl, by rwa [List.append_nil]⟩
  case case3 => -- terms, an additive operator
    intro left o tail ho ihproduct ihterms front e rest hfront h
    have ho' : o.isMultiplicative = false := by simpa using ho
    rw [plain_readTerms_additive left tail ho'] at h
    obtain ⟨⟨right, rest'⟩, hright, hterms⟩ := bind_eq_ok h
    obtain ⟨middle, hcode, hmiddle⟩ := ihproduct right rest' hright
    obtain ⟨more, rfl, hmore⟩ := ihterms right rest' (rest_of_plain_eq_ok hright)
      (front ++ .operator o :: middle) e rest (.more hfront ho' hmiddle) hterms
    refine ⟨.operator o :: middle ++ more, ?_, ?_⟩
    · rw [hcode, List.append_assoc, List.cons_append]
    · rwa [List.append_assoc] at hmore
  case case4 => -- terms, no operator
    intro left code hcode front e rest hfront h
    rw [plain_readTerms_stop _ _ fun o tail heq => absurd heq (hcode o tail)] at h
    cases h
    exact ⟨[], rfl, by rwa [List.append_nil]⟩
  case case5 => -- a product
    intro code ihsigned ihfactors e rest h
    rw [plain_readProduct] at h
    obtain ⟨⟨left, rest'⟩, hleft, hfactors⟩ := bind_eq_ok h
    obtain ⟨front, hcode, hfront⟩ := ihsigned left rest' hleft
    obtain ⟨more, rfl, hmore⟩ :=
      ihfactors left rest' (rest_of_plain_eq_ok hleft) front e rest (.signed hfront) hfactors
    exact ⟨front ++ more, by rw [hcode, List.append_assoc], hmore⟩
  case case6 => -- factors, a multiplicative operator
    intro left o tail ho ihsigned ihfactors front e rest hfront h
    rw [plain_readFactors_multiplicative left tail ho] at h
    obtain ⟨⟨right, rest'⟩, hright, hfactors⟩ := bind_eq_ok h
    obtain ⟨middle, hcode, hmiddle⟩ := ihsigned right rest' hright
    obtain ⟨more, rfl, hmore⟩ := ihfactors right rest' (rest_of_plain_eq_ok hright)
      (front ++ .operator o :: middle) e rest (.more hfront ho hmiddle) hfactors
    refine ⟨.operator o :: middle ++ more, ?_, ?_⟩
    · rw [hcode, List.append_assoc, List.cons_append]
    · rwa [List.append_assoc] at hmore
  case case7 => -- factors, an additive operator
    intro left o rest ho front e rest' hfront h
    rw [plain_readFactors_stop _ _ (by simpa using ho)] at h
    cases h
    exact ⟨[], rfl, by rwa [List.append_nil]⟩
  case case8 => -- factors, no operator
    intro left code hcode front e rest hfront h
    rw [plain_readFactors_stop _ _ fun o tail heq => absurd heq (hcode o tail)] at h
    cases h
    exact ⟨[], rfl, by rwa [List.append_nil]⟩
  case case9 => -- a plus sign
    intro tail ih e rest h
    rw [plain_readSigned_plus] at h
    obtain ⟨front, rfl, hfront⟩ := ih e rest h
    exact ⟨.operator .add :: front, rfl, .plus hfront⟩
  case case10 => -- a minus sign
    intro tail ih e rest h
    rw [plain_readSigned_minus] at h
    obtain ⟨⟨operand, rest'⟩, hoperand, heq⟩ := bind_eq_ok h
    cases heq
    obtain ⟨front, rfl, hfront⟩ := ih operand rest' hoperand
    exact ⟨.operator .subtract :: front, rfl, .minus hfront⟩
  case case11 => -- no sign
    intro code hadd hsubtract ih e rest h
    rw [plain_readSigned_operand code hadd hsubtract] at h
    obtain ⟨front, hcode, hfront⟩ := ih e rest h
    exact ⟨front, hcode, .operand hfront⟩
  case case12 => -- no operand
    intro e rest h
    rw [readOperand] at h
    cases h
  case case13 => -- a number
    intro text tail value hvalue e rest h
    simp only [plain_readOperand_cons, hvalue] at h
    cases h
    exact ⟨[.number text], rfl, .number hvalue⟩
  case case14 => -- no number
    intro text tail hvalue e rest h
    simp only [plain_readOperand_cons, hvalue] at h
    cases h
  case case15 => -- a variable
    intro name tail e rest h
    rw [plain_readOperand_cons] at h
    cases h
    exact ⟨[.var name], rfl, .var name⟩
  case case16 => -- parentheses
    intro tail ih e rest h
    rw [plain_readOperand_cons] at h
    obtain ⟨front, rfl, hfront⟩ := ih e rest h
    exact ⟨.openParen :: (front ++ [.close]), by simp, .parens hfront⟩
  case case17 => -- a call
    intro f tail ih e rest h
    rw [plain_readOperand_cons] at h
    obtain ⟨⟨es, rest'⟩, hes, heq⟩ := bind_eq_ok h
    by_cases harity : es.length = f.arity
    · rw [if_pos harity] at heq
      cases heq
      obtain ⟨front, rfl, hfront⟩ := ih es rest' hes
      exact ⟨.call f :: front, rfl, .call f hfront harity⟩
    · rw [if_neg harity] at heq
      cases heq
  case case18 => -- a sum over an index
    intro index lower upper tail ih e rest h
    rw [plain_readOperand_cons] at h
    obtain ⟨⟨body, rest'⟩, hbody, heq⟩ := bind_eq_ok h
    cases heq
    obtain ⟨front, rfl, hfront⟩ := ih body rest' hbody
    exact ⟨.sum index lower upper :: (front ++ [.close]), by simp, .sum index lower upper hfront⟩
  case case19 => -- an integral
    intro name start width partitions rule tail ih e rest h
    rw [plain_readOperand_cons] at h
    obtain ⟨⟨body, rest'⟩, hbody, heq⟩ := bind_eq_ok h
    cases heq
    obtain ⟨front, rfl, hfront⟩ := ih body rest' hbody
    exact ⟨.integral name start width partitions rule :: (front ++ [.close]), by simp,
      .integral name start width partitions rule hfront⟩
  case case20 => -- a reference
    intro external branch tail e rest h
    rw [plain_readOperand_cons] at h
    cases h
    exact ⟨[.reference external branch], rfl, .reference external branch⟩
  case case21 => -- an application
    intro external branch tail ih e rest h
    rw [plain_readOperand_cons] at h
    obtain ⟨⟨es, rest'⟩, hes, heq⟩ := bind_eq_ok h
    cases heq
    obtain ⟨front, rfl, hfront⟩ := ih es rest' hes
    exact ⟨.apply external branch :: front, rfl, .apply external branch hfront⟩
  case case22 => -- a derivative
    intro external branch step tail ih e rest h
    rw [plain_readOperand_cons] at h
    obtain ⟨⟨es, rest'⟩, hes, heq⟩ := bind_eq_ok h
    cases heq
    obtain ⟨front, rfl, hfront⟩ := ih es rest' hes
    exact ⟨.derivative external branch step :: front, rfl, .derivative external branch step hfront⟩
  case case23 => -- an operator where an operand should be
    intro o tail e rest h
    rw [plain_readOperand_cons] at h
    cases h
  case case24 =>
    intro tail e rest h
    rw [plain_readOperand_cons] at h
    cases h
  case case25 =>
    intro tail e rest h
    rw [plain_readOperand_cons] at h
    cases h
  case case26 => -- no arguments
    intro tail es rest h
    rw [plain_readArguments_close] at h
    cases h
    exact ⟨[.close], rfl, .none⟩
  case case27 => -- arguments
    intro code hcode ih es rest h
    rw [plain_readArguments_listed code hcode] at h
    obtain ⟨front, hfront, hlisted⟩ := ih es rest h
    exact ⟨front, hfront, .some hlisted⟩
  case case28 => -- a list of arguments
    intro code ihsum ihlist es rest h
    rw [plain_readList] at h
    obtain ⟨⟨e, rest'⟩, he, hnext⟩ := bind_eq_ok h
    obtain ⟨front, hcode, hfront⟩ := ihsum e rest' he
    have hlength : rest'.length < code.length := rest_of_plain_eq_ok he
    rcases rest' with _ | ⟨f, tail⟩
    · cases hnext
    · cases f
      case close =>
        cases hnext
        exact ⟨front ++ [.close], by simp [hcode], .last hfront⟩
      case separator =>
        obtain ⟨⟨more, rest'⟩, hmore, heq⟩ := bind_eq_ok hnext
        cases heq
        obtain ⟨behind, rfl, hbehind⟩ := ihlist tail tail hlength more rest' hmore
        exact ⟨front ++ .separator :: behind, by simp [hcode], .more hfront hbehind⟩
      all_goals cases hnext
  case case29 => -- a body
    intro code ih e rest h
    rw [plain_readBody] at h
    obtain ⟨⟨body, rest'⟩, hbody, hnext⟩ := bind_eq_ok h
    obtain ⟨front, hcode, hfront⟩ := ih body rest' hbody
    rcases rest' with _ | ⟨f, tail⟩
    · cases hnext
    · cases f
      case close =>
        cases hnext
        exact ⟨front, hcode, hfront⟩
      all_goals cases hnext

theorem ofCode_eq (code : List Fragment) :
    ofCode code = plain (readSum code) >>= fun x =>
      if x.2.isEmpty then .ok x.1 else .error .unbalanced := by
  rw [ofCode]
  rcases readSum code with flaw | ⟨e, rest, h⟩ <;> rfl

theorem ofCode_eq_ok_iff {code : List Fragment} {e : Expression Float} :
    ofCode code = .ok e ↔ IsSum code e := by
  rw [ofCode_eq]
  constructor
  · intro h
    obtain ⟨⟨e', rest⟩, hread, hrest⟩ := bind_eq_ok h
    cases rest with
    | nil =>
      cases hrest
      obtain ⟨front, rfl, hfront⟩ := derivation_of_read.1 code e' [] hread
      rwa [List.append_nil]
    | cons f tail => cases hrest
  · intro h
    have hread := h.read [] (by simp)
    rw [List.append_nil, plain_readTerms_stop e [] (by simp)] at hread
    rw [hread]
    rfl

theorem parse_eq_ok_iff_ofCode {code : List Fragment} {e : Expression Float} :
    parse code = .ok e ↔ ofCode code = .ok e := by
  rw [parse]
  cases ofCode code with
  | error flaw => exact iff_of_false nofun nofun
  | ok e' =>
    constructor
    · intro h
      cases h
      rfl
    · intro h
      cases h
      rfl

theorem parse_eq_ok_iff {code : List Fragment} {e : Expression Float} :
    parse code = .ok e ↔ IsSum code e :=
  parse_eq_ok_iff_ofCode.trans ofCode_eq_ok_iff

/-- A list of fragments has one tree at most. -/
theorem IsSum.unique {code : List Fragment} {e e' : Expression Float} (h : IsSum code e)
    (h' : IsSum code e') : e = e' := by
  have heq := (parse_eq_ok_iff.2 h).symm.trans (parse_eq_ok_iff.2 h')
  injection heq

/-- The reader accepts exactly the lists that derive a sum, each with its only tree; any other list
is malformed, with itself as the subject. -/
theorem parse_accepts_exactly_sums (code : List Fragment) :
    (∀ e, parse code = .ok e ↔ IsSum code e) ∧
      (∀ e e', IsSum code e → IsSum code e' → e = e') ∧
      ((¬∃ e, IsSum code e) →
        ∃ flaw, parse code = .error (.malformed (Fragment.textAll code) flaw)) := by
  refine ⟨fun e => parse_eq_ok_iff, fun e e' h h' => h.unique h', fun hnone => ?_⟩
  rcases hcode : ofCode code with flaw | e
  · exact ⟨flaw, by rw [parse, hcode]; rfl⟩
  · exact absurd ⟨e, ofCode_eq_ok_iff.1 hcode⟩ hnone

end Formulary.Expression
