import Formulary.Proofs.Unfolding.References

/-!
# Reading unfolded code

Unfolded code is read as the code it comes from, with the trees of the definition for the
references: a definition in parentheses is an operand, as a reference is. Code that is no sum is
none when it is unfolded.
-/

namespace Formulary

/-! ## Numbers in pieces -/

namespace Fragment

variable {place : Nat} {definition : Nat → List Fragment}

theorem joined_append_singleton (before : List Fragment) (f : Fragment) :
    joined (before ++ [f]) =
      (Branch.append ⟨(joined before).reverse,
        (Branch.appendAll {} before).pairings⟩ f).code.reverse := by
  rw [joined, joined, Branch.appendAll_append, Branch.fragments, Branch.fragments,
    List.reverse_reverse]
  rfl

/-- A piece behind a number joins it. -/
theorem joined_piece {before pieces : List Fragment} {text first : String}
    (h : joined before = pieces ++ [number first]) :
    joined (before ++ [number text]) = pieces ++ [number (first ++ text)] := by
  simp [joined_append_singleton, h, Branch.append]

/-- A piece behind anything else starts a number. -/
theorem joined_piece_new {before : List Fragment} {text : String}
    (h : ∀ pieces first, joined before ≠ pieces ++ [number first]) :
    joined (before ++ [number text]) = joined before ++ [number text] := by
  rw [joined_append_singleton]
  unfold Branch.append
  split
  · next first code _ hcode =>
    have hjoined := congrArg List.reverse hcode
    rw [List.reverse_reverse, List.reverse_cons] at hjoined
    exact absurd hjoined (h _ _)
  · simp

/-- Unfolded code ends in a number only if the code does. -/
private theorem not_number_of_unfoldAll {code pieces : List Fragment} {first : String}
    (h : ∀ pieces first, code ≠ pieces ++ [number first])
    (heq : unfoldAll place definition code = pieces ++ [number first]) : False := by
  have hlast := congrArg List.getLast? heq
  rw [List.getLast?_concat] at hlast
  rcases List.eq_nil_or_concat code with rfl | ⟨code, f, rfl⟩
  · cases hlast
  · have hsingle : unfoldAll place definition [f] = f.unfold place definition :=
      List.append_nil _
    rw [List.concat_eq_append] at h
    rw [List.concat_eq_append, unfoldAll_append, hsingle] at hlast
    by_cases hself : ∃ branch, f = .reference place branch
    · obtain ⟨branch, rfl⟩ := hself
      rw [unfold_self, ← List.cons_append, ← List.append_assoc, List.getLast?_concat] at hlast
      cases hlast
    · rw [unfold_of_ne fun branch heq => hself ⟨branch, heq⟩, List.getLast?_concat] at hlast
      cases f with
      | number text => exact h code text rfl
      | _ => simp [skip] at hlast

/-- Joining the pieces of unfolded code is unfolding the joined code. -/
theorem joined_unfoldAll (code : List Fragment) :
    joined (unfoldAll place definition code) =
      unfoldAll place (fun branch => joined (definition branch)) (joined code) := by
  have hsingle : ∀ (definition : Nat → List Fragment) (f : Fragment),
      unfoldAll place definition [f] = f.unfold place definition := fun _ _ => List.append_nil _
  induction code using List.reverseRecOn with
  | nil => rfl
  | append_singleton code f ih =>
    rw [unfoldAll_append, hsingle]
    by_cases hnumber : ∃ text, f = .number text
    · obtain ⟨text, rfl⟩ := hnumber
      have hpiece : (number text).unfold place definition = [number text] := rfl
      rw [hpiece]
      by_cases hbehind : ∃ pieces first, joined code = pieces ++ [number first]
      · obtain ⟨pieces, first, hcode⟩ := hbehind
        rw [hcode, unfoldAll_append] at ih
        rw [joined_piece ih, joined_piece hcode, unfoldAll_append]
        rfl
      · have hnew := fun pieces first heq => hbehind ⟨pieces, first, heq⟩
        rw [joined_piece_new hnew, unfoldAll_append, ← ih]
        refine joined_piece_new fun pieces first heq => ?_
        rw [ih] at heq
        exact not_number_of_unfoldAll hnew heq
    · have hf := fun text heq => hnumber ⟨text, heq⟩
      rw [joined_append_cons hf code [], joined_nil, unfoldAll_append, hsingle, ← ih]
      by_cases hself : ∃ branch, f = .reference place branch
      · obtain ⟨branch, rfl⟩ := hself
        rw [unfold_self, unfold_self, joined_append_cons (by simp), joined_append_cons (by simp),
          joined_nil]
      · have hne := fun branch heq => hself ⟨branch, heq⟩
        have hskip : ∀ text, f.skip place ≠ number text := by
          cases f with
          | number text => exact absurd rfl (hf text)
          | _ => rintro _ ⟨⟩
        rw [unfold_of_ne hne, unfold_of_ne hne, joined_append_cons hskip, joined_nil]

end Fragment

namespace Expression

section Unfold

variable {α : Type} (place : Nat) (trees : Nat → Expression α)

mutual

/-- What becomes of an expression when one external gives way to the trees of its branches. -/
def unfold : Expression α → Expression α
  | number value => number value
  | var name => var name
  | negate operand => negate operand.unfold
  | binary operator left right => binary operator left.unfold right.unfold
  | call function arguments => call function (unfoldAll arguments)
  | sum index lower upper body => sum index lower upper body.unfold
  | integral name start width partitions rule body =>
    integral name start width partitions rule body.unfold
  | reference external branch =>
    if external = place then trees branch else reference (skip place external) branch
  | apply external branch arguments => apply (skip place external) branch (unfoldAll arguments)
  | derivative external branch step arguments =>
    derivative (skip place external) branch step (unfoldAll arguments)

def unfoldAll : List (Expression α) → List (Expression α)
  | [] => []
  | e :: rest => e.unfold :: unfoldAll rest

end

theorem length_unfoldAll (es : List (Expression α)) :
    (unfoldAll place trees es).length = es.length := by
  induction es with
  | nil => rfl
  | cons e es ih => rw [unfoldAll, List.length_cons, ih, List.length_cons]

end Unfold

/-! ## Two readings side by side -/

section Reading

variable {place : Nat} {definition : Nat → List Fragment} {trees : Nat → Expression Float}
  {β γ : Type} {g : β → β} {g' : γ → γ}

variable (place definition) in
/-- Both readings fail, or the second has what the first has, unfolded, and as much left. -/
inductive Mirrors (g : β → β) : Except Flaw (β × List Fragment) →
    Except Flaw (β × List Fragment) → Prop
  | ok (b : β) (rest : List Fragment) :
      Mirrors g (.ok (b, rest)) (.ok (g b, Fragment.unfoldAll place definition rest))
  | error (flaw flaw' : Flaw) : Mirrors g (.error flaw) (.error flaw')

theorem Mirrors.bind {x x' : Except Flaw (β × List Fragment)} (h : Mirrors place definition g x x')
    {next next' : β × List Fragment → Except Flaw (γ × List Fragment)}
    (hnext : ∀ b rest, x = .ok (b, rest) → Mirrors place definition g' (next (b, rest))
      (next' (g b, Fragment.unfoldAll place definition rest))) :
    Mirrors place definition g' (x >>= next) (x' >>= next') := by
  cases h with
  | ok b rest => exact hnext b rest rfl
  | error flaw flaw' => exact .error flaw flaw'

/-- What is read is only wrapped. -/
theorem Mirrors.map {x x' : Except Flaw (β × List Fragment)} (h : Mirrors place definition g x x')
    {wrap wrap' : β → γ} (hwrap : ∀ b, wrap' (g b) = g' (wrap b)) :
    Mirrors place definition g' (x >>= fun x => .ok (wrap x.1, x.2))
      (x' >>= fun x => .ok (wrap' x.1, x.2)) := by
  refine h.bind fun b rest _ => ?_
  rw [hwrap]
  exact .ok _ _

/-- A fragment that stays what it is stands at the head of unfolded code only if it stood there. -/
theorem head_of_unfoldAll {code tail : List Fragment} {f : Fragment}
    (h : Fragment.unfoldAll place definition code = f :: tail) (hf : f.external? = none)
    (hopen : f ≠ .openParen) :
    ∃ rest, code = f :: rest ∧ tail = Fragment.unfoldAll place definition rest := by
  cases code with
  | nil => cases h
  | cons first rest =>
    rw [Fragment.unfoldAll_cons] at h
    by_cases hself : ∃ branch, first = .reference place branch
    · obtain ⟨branch, rfl⟩ := hself
      rw [Fragment.unfold_self] at h
      exact absurd (List.cons.inj h).1.symm hopen
    · rw [Fragment.unfold_of_ne fun branch heq => hself ⟨branch, heq⟩] at h
      obtain ⟨rfl, rfl⟩ := List.cons.inj h
      refine ⟨rest, ?_, rfl⟩
      cases first with
      | reference | apply | derivative => cases hf
      | _ => rfl

variable (place definition trees) in
/-- Each reader takes from the unfolded code what it takes from the code. -/
structure ReadsUnfolded (code : List Fragment) : Prop where
  sum : Mirrors place definition (unfold place trees) (plain (readSum code))
    (plain (readSum (Fragment.unfoldAll place definition code)))
  terms : ∀ left, Mirrors place definition (unfold place trees) (plain (readTerms left code))
    (plain (readTerms (left.unfold place trees) (Fragment.unfoldAll place definition code)))
  product : Mirrors place definition (unfold place trees) (plain (readProduct code))
    (plain (readProduct (Fragment.unfoldAll place definition code)))
  factors : ∀ left, Mirrors place definition (unfold place trees) (plain (readFactors left code))
    (plain (readFactors (left.unfold place trees) (Fragment.unfoldAll place definition code)))
  signed : Mirrors place definition (unfold place trees) (plain (readSigned code))
    (plain (readSigned (Fragment.unfoldAll place definition code)))
  operand : Mirrors place definition (unfold place trees) (plain (readOperand code))
    (plain (readOperand (Fragment.unfoldAll place definition code)))
  body : Mirrors place definition (unfold place trees) (plain (readBody code))
    (plain (readBody (Fragment.unfoldAll place definition code)))
  arguments : Mirrors place definition (unfoldAll place trees) (plain (readArguments code))
    (plain (readArguments (Fragment.unfoldAll place definition code)))
  list : Mirrors place definition (unfoldAll place trees) (plain (readList code))
    (plain (readList (Fragment.unfoldAll place definition code)))

variable {code : List Fragment}

/-- An operand is told by its first fragment. -/
theorem operand_unfolded (hdefinition : ∀ branch, IsSum (definition branch) (trees branch))
    (ih : ∀ shorter : List Fragment, shorter.length < code.length →
      ReadsUnfolded place definition trees shorter) :
    Mirrors place definition (unfold place trees) (plain (readOperand code))
      (plain (readOperand (Fragment.unfoldAll place definition code))) := by
  cases code with
  | nil =>
    have hnone : plain (readOperand []) = .error .missingOperand := by
      rw [readOperand]
      rfl
    rw [Fragment.unfoldAll, List.flatMap_nil, hnone]
    exact .error _ _
  | cons f rest =>
    have hrest := ih rest (Nat.lt_succ_self _)
    by_cases hself : ∃ branch, f = .reference place branch
    · obtain ⟨branch, rfl⟩ := hself
      have hparens := (IsOperand.parens (hdefinition branch)).read
        (Fragment.unfoldAll place definition rest)
      have htree : trees branch = (reference place branch).unfold place trees := (if_pos rfl).symm
      rw [Fragment.unfoldAll_cons, Fragment.unfold_self, hparens, plain_readOperand_cons, htree]
      exact .ok _ _
    · have hne := fun branch heq => hself ⟨branch, heq⟩
      rw [Fragment.unfoldAll_cons, Fragment.unfold_of_ne hne, List.singleton_append,
        plain_readOperand_cons, plain_readOperand_cons]
      cases f with
      | number text =>
        simp only [Fragment.skip]
        cases Decimal.float? text with
        | some value => exact .ok (Expression.number value) rest
        | none => exact .error _ _
      | var name => exact .ok (Expression.var name) rest
      | openParen => exact hrest.body
      | call function =>
        refine hrest.arguments.bind fun arguments rest' _ => ?_
        simp only [length_unfoldAll]
        split
        · exact .ok (Expression.call function arguments) rest'
        · exact .error _ _
      | sum index lower upper => exact hrest.body.map fun _ => rfl
      | integral name start width partitions rule => exact hrest.body.map fun _ => rfl
      | reference external branch =>
        have hother : external ≠ place := fun heq => hne branch (by rw [heq])
        have htree : (reference external branch).unfold place trees =
            reference (skip place external) branch := if_neg hother
        have hread : Mirrors place definition (unfold place trees)
            (.ok (reference external branch, rest)) _ := .ok _ rest
        rw [htree] at hread
        exact hread
      | apply external branch => exact hrest.arguments.map fun _ => rfl
      | derivative external branch step => exact hrest.arguments.map fun _ => rfl
      | operator o => exact .error _ _
      | close => exact .error _ _
      | separator => exact .error _ _

/-- Signs stay where they are. -/
theorem signed_unfolded
    (ih : ∀ shorter : List Fragment, shorter.length < code.length →
      ReadsUnfolded place definition trees shorter)
    (hoperand : Mirrors place definition (unfold place trees) (plain (readOperand code))
      (plain (readOperand (Fragment.unfoldAll place definition code)))) :
    Mirrors place definition (unfold place trees) (plain (readSigned code))
      (plain (readSigned (Fragment.unfoldAll place definition code))) := by
  by_cases hplus : ∃ rest, code = .operator .add :: rest
  · obtain ⟨rest, rfl⟩ := hplus
    have hrest := (ih rest (Nat.lt_succ_self _)).signed
    rw [plain_readSigned_plus]
    exact (plain_readSigned_plus (Fragment.unfoldAll place definition rest)).symm ▸ hrest
  · by_cases hminus : ∃ rest, code = .operator .subtract :: rest
    · obtain ⟨rest, rfl⟩ := hminus
      have hrest := (ih rest (Nat.lt_succ_self _)).signed
      rw [plain_readSigned_minus]
      exact (plain_readSigned_minus (Fragment.unfoldAll place definition rest)).symm ▸
        hrest.map fun _ => rfl
    · have hnot : ∀ o, (∀ rest, code ≠ .operator o :: rest) → ∀ tail,
          Fragment.unfoldAll place definition code ≠ .operator o :: tail := by
        intro o hcode tail htail
        obtain ⟨rest, hrest, -⟩ := head_of_unfoldAll htail rfl (by simp)
        exact hcode rest hrest
      have hadd := fun rest heq => hplus ⟨rest, heq⟩
      have hsubtract := fun rest heq => hminus ⟨rest, heq⟩
      rw [plain_readSigned_operand code hadd hsubtract,
        plain_readSigned_operand _ (hnot .add hadd) (hnot .subtract hsubtract)]
      exact hoperand

theorem factors_unfolded
    (ih : ∀ shorter : List Fragment, shorter.length < code.length →
      ReadsUnfolded place definition trees shorter) (left : Expression Float) :
    Mirrors place definition (unfold place trees) (plain (readFactors left code))
      (plain (readFactors (left.unfold place trees)
        (Fragment.unfoldAll place definition code))) := by
  by_cases hmore : ∃ o rest, code = .operator o :: rest ∧ o.isMultiplicative = true
  · obtain ⟨o, rest, rfl, ho⟩ := hmore
    rw [plain_readFactors_multiplicative left rest ho]
    refine (plain_readFactors_multiplicative (left.unfold place trees)
      (Fragment.unfoldAll place definition rest) ho).symm ▸ ?_
    refine (ih rest (Nat.lt_succ_self _)).signed.bind fun right rest' hright => ?_
    have hshorter := rest_of_plain_eq_ok hright
    exact (ih rest' (Nat.lt_succ_of_lt hshorter)).factors (.binary o left right)
  · have hstop : ∀ o rest, code = .operator o :: rest → o.isMultiplicative = false :=
      fun o rest hcode => Bool.eq_false_iff.2 fun ho => hmore ⟨o, rest, hcode, ho⟩
    have hstop' : ∀ o tail, Fragment.unfoldAll place definition code = .operator o :: tail →
        o.isMultiplicative = false := by
      intro o tail htail
      obtain ⟨rest, hrest, -⟩ := head_of_unfoldAll htail rfl (by simp)
      exact hstop o rest hrest
    rw [plain_readFactors_stop left code hstop, plain_readFactors_stop _ _ hstop']
    exact .ok left code

theorem terms_unfolded
    (ih : ∀ shorter : List Fragment, shorter.length < code.length →
      ReadsUnfolded place definition trees shorter) (left : Expression Float) :
    Mirrors place definition (unfold place trees) (plain (readTerms left code))
      (plain (readTerms (left.unfold place trees) (Fragment.unfoldAll place definition code))) := by
  by_cases hmore : ∃ o rest, code = .operator o :: rest ∧ o.isMultiplicative = false
  · obtain ⟨o, rest, rfl, ho⟩ := hmore
    rw [plain_readTerms_additive left rest ho]
    refine (plain_readTerms_additive (left.unfold place trees)
      (Fragment.unfoldAll place definition rest) ho).symm ▸ ?_
    refine (ih rest (Nat.lt_succ_self _)).product.bind fun right rest' hright => ?_
    have hshorter := rest_of_plain_eq_ok hright
    exact (ih rest' (Nat.lt_succ_of_lt hshorter)).terms (.binary o left right)
  · have hstop : ∀ o rest, code = .operator o :: rest → o.isMultiplicative = true :=
      fun o rest hcode => Bool.not_eq_false _ ▸ fun ho => hmore ⟨o, rest, hcode, ho⟩
    have hstop' : ∀ o tail, Fragment.unfoldAll place definition code = .operator o :: tail →
        o.isMultiplicative = true := by
      intro o tail htail
      obtain ⟨rest, hrest, -⟩ := head_of_unfoldAll htail rfl (by simp)
      exact hstop o rest hrest
    rw [plain_readTerms_stop left code hstop, plain_readTerms_stop _ _ hstop']
    exact .ok left code

/-- What stands behind an argument is a `close`, a separator, or neither in both codes. -/
private theorem behind_unfolded (rest : List Fragment) :
    (∃ tail, rest = .close :: tail) ∨ (∃ tail, rest = .separator :: tail) ∨
      (∀ tail, rest ≠ .close :: tail ∧ rest ≠ .separator :: tail) ∧
        ∀ tail, Fragment.unfoldAll place definition rest ≠ .close :: tail ∧
          Fragment.unfoldAll place definition rest ≠ .separator :: tail := by
  by_cases hclose : ∃ tail, rest = .close :: tail
  · exact .inl hclose
  · by_cases hseparator : ∃ tail, rest = .separator :: tail
    · exact .inr (.inl hseparator)
    · refine .inr (.inr ⟨fun tail => ⟨fun heq => hclose ⟨tail, heq⟩,
        fun heq => hseparator ⟨tail, heq⟩⟩, fun tail => ⟨fun heq => ?_, fun heq => ?_⟩⟩)
      · obtain ⟨tail', hrest, -⟩ := head_of_unfoldAll heq rfl (by simp)
        exact hclose ⟨tail', hrest⟩
      · obtain ⟨tail', hrest, -⟩ := head_of_unfoldAll heq rfl (by simp)
        exact hseparator ⟨tail', hrest⟩

theorem body_unfolded (hsum : Mirrors place definition (unfold place trees) (plain (readSum code))
      (plain (readSum (Fragment.unfoldAll place definition code)))) :
    Mirrors place definition (unfold place trees) (plain (readBody code))
      (plain (readBody (Fragment.unfoldAll place definition code))) := by
  rw [plain_readBody, plain_readBody]
  refine hsum.bind fun e rest _ => ?_
  rcases @behind_unfolded place definition rest with ⟨tail, rfl⟩ | ⟨tail, rfl⟩ | ⟨hrest, hrest'⟩
  · exact .ok e tail
  · exact .error _ _
  · generalize Fragment.unfoldAll place definition rest = rest' at hrest' ⊢
    dsimp only
    split
    · exact absurd rfl (hrest _).1
    · split
      · exact absurd rfl (hrest' _).1
      · exact .error _ _

theorem list_unfolded
    (ih : ∀ shorter : List Fragment, shorter.length < code.length →
      ReadsUnfolded place definition trees shorter)
    (hsum : Mirrors place definition (unfold place trees) (plain (readSum code))
      (plain (readSum (Fragment.unfoldAll place definition code)))) :
    Mirrors place definition (unfoldAll place trees) (plain (readList code))
      (plain (readList (Fragment.unfoldAll place definition code))) := by
  rw [plain_readList, plain_readList]
  refine hsum.bind fun e rest hread => ?_
  have hshorter : rest.length < code.length := rest_of_plain_eq_ok hread
  rcases @behind_unfolded place definition rest with ⟨tail, rfl⟩ | ⟨tail, rfl⟩ | ⟨hrest, hrest'⟩
  · exact .ok [e] tail
  · have hmore := (ih tail (Nat.lt_of_succ_lt hshorter)).list
    exact hmore.bind fun es rest _ => .ok (e :: es) rest
  · generalize Fragment.unfoldAll place definition rest = rest' at hrest' ⊢
    dsimp only
    split
    · exact absurd rfl (hrest _).1
    · exact absurd rfl (hrest _).2
    · split
      · exact absurd rfl (hrest' _).1
      · exact absurd rfl (hrest' _).2
      · exact .error _ _

theorem arguments_unfolded
    (hlist : Mirrors place definition (unfoldAll place trees) (plain (readList code))
      (plain (readList (Fragment.unfoldAll place definition code)))) :
    Mirrors place definition (unfoldAll place trees) (plain (readArguments code))
      (plain (readArguments (Fragment.unfoldAll place definition code))) := by
  by_cases hclose : ∃ rest, code = .close :: rest
  · obtain ⟨rest, rfl⟩ := hclose
    rw [plain_readArguments_close]
    exact (plain_readArguments_close (Fragment.unfoldAll place definition rest)).symm ▸ .ok [] rest
  · have hnot : ∀ tail, Fragment.unfoldAll place definition code ≠ .close :: tail := by
      intro tail htail
      obtain ⟨rest, hrest, -⟩ := head_of_unfoldAll htail rfl (by simp)
      exact hclose ⟨rest, hrest⟩
    rw [plain_readArguments_listed code fun rest heq => hclose ⟨rest, heq⟩,
      plain_readArguments_listed _ hnot]
    exact hlist

theorem reads_unfolded (hdefinition : ∀ branch, IsSum (definition branch) (trees branch))
    (code : List Fragment) : ReadsUnfolded place definition trees code := by
  induction hlength : code.length using Nat.strongRecOn generalizing code with
  | ind n ih =>
    subst hlength
    have ih : ∀ shorter : List Fragment, shorter.length < code.length →
        ReadsUnfolded place definition trees shorter := fun shorter hlt => ih _ hlt shorter rfl
    have hoperand := operand_unfolded hdefinition ih
    have hsigned := signed_unfolded ih hoperand
    have hproduct : Mirrors place definition (unfold place trees) (plain (readProduct code))
        (plain (readProduct (Fragment.unfoldAll place definition code))) := by
      rw [plain_readProduct, plain_readProduct]
      exact hsigned.bind fun left rest hleft => (ih rest (rest_of_plain_eq_ok hleft)).factors left
    have hsum : Mirrors place definition (unfold place trees) (plain (readSum code))
        (plain (readSum (Fragment.unfoldAll place definition code))) := by
      rw [plain_readSum, plain_readSum]
      exact hproduct.bind fun left rest hleft => (ih rest (rest_of_plain_eq_ok hleft)).terms left
    have hlist := list_unfolded ih hsum
    exact
      { sum := hsum
        terms := terms_unfolded ih
        product := hproduct
        factors := factors_unfolded ih
        signed := hsigned
        operand := hoperand
        body := body_unfolded hsum
        arguments := arguments_unfolded hlist
        list := hlist }

/-- Unfolded code is a sum where the code is one, and its tree is the unfolded tree. -/
theorem isSum_unfoldAll_iff (hdefinition : ∀ branch, IsSum (definition branch) (trees branch))
    {code : List Fragment} {e' : Expression Float} :
    IsSum (Fragment.unfoldAll place definition code) e' ↔
      ∃ e, IsSum code e ∧ e' = e.unfold place trees := by
  have hempty : ∀ rest : List Fragment,
      (Fragment.unfoldAll place definition rest).isEmpty = rest.isEmpty := by
    intro rest
    cases rest with
    | nil => rfl
    | cons f rest =>
      rw [Fragment.unfoldAll_cons]
      by_cases hself : ∃ branch, f = .reference place branch
      · obtain ⟨branch, rfl⟩ := hself
        rw [Fragment.unfold_self]
        rfl
      · rw [Fragment.unfold_of_ne fun branch heq => hself ⟨branch, heq⟩]
        rfl
  have hread := (@reads_unfolded place definition trees hdefinition code).sum
  simp only [← ofCode_eq_ok_iff, ofCode_eq]
  generalize plain (readSum code) = x at hread
  generalize plain (readSum (Fragment.unfoldAll place definition code)) = x' at hread
  cases hread with
  | error flaw flaw' => exact iff_of_false (by rintro ⟨⟩) (by rintro ⟨_, ⟨⟩, _⟩)
  | ok e rest =>
    simp only [bind, Except.bind, hempty]
    split
    · constructor
      · rintro ⟨⟩
        exact ⟨e, rfl, rfl⟩
      · rintro ⟨_, ⟨⟩, rfl⟩
        rfl
    · exact iff_of_false (by rintro ⟨⟩) (by rintro ⟨_, ⟨⟩, _⟩)

end Reading

end Expression

end Formulary
