import Formulary.Proofs.Delimiters
import Formulary.Proofs.Insertion
import Formulary.Proofs.OpenRuns
import Formulary.Proofs.Relocation
import Formulary.Proofs.Rendering

/-!
# What encloses its children

A fraction and a root put the code of their children between brackets, and the code of all siblings
is read together. A child that closes no bracket it has not opened cannot leave these brackets: it
is read as if it stood alone. Code that is a sum by itself is of this kind.
-/

namespace Formulary

/-! ## Brackets of code -/

theorem Pending.length_touch (stack : List Pending) : (touch stack).length = stack.length := by
  unfold touch
  split <;> rfl

namespace Delimiter

/-- How many brackets are open behind the delimiters when `depth` are open before them. There is no
answer when more are closed than are open. -/
def depthBehind : Nat → List Delimiter → Option Nat
  | depth, [] => some depth
  | depth, opening _ :: rest => depthBehind (depth + 1) rest
  | 0, close :: _ => none
  | depth + 1, close :: rest => depthBehind depth rest
  | depth, _ :: rest => depthBehind depth rest

theorem depthBehind_append (depth : Nat) (first second : List Delimiter) :
    depthBehind depth (first ++ second) =
      (depthBehind depth first).bind fun depth => depthBehind depth second := by
  induction first generalizing depth with
  | nil => rfl
  | cons b first ih =>
    cases b with
    | close => cases depth <;> simp [depthBehind, ih]
    | _ => simp [depthBehind, ih]

/-- Brackets that are open around the delimiters stay open. -/
theorem depthBehind_add {depth depth' : Nat} {ds : List Delimiter}
    (h : depthBehind depth ds = some depth') (n : Nat) :
    depthBehind (depth + n) ds = some (depth' + n) := by
  induction ds generalizing depth with
  | nil =>
    obtain rfl := Option.some.inj h
    rfl
  | cons b ds ih =>
    cases b with
    | opening pending =>
      have hrest : depthBehind (depth + 1) ds = some depth' := h
      have hopen : depth + 1 + n = depth + n + 1 := by omega
      have hraised := ih hrest
      rw [hopen] at hraised
      exact hraised
    | close =>
      cases depth with
      | zero => cases h
      | succ depth =>
        have hclose : depth + 1 + n = depth + n + 1 := by omega
        rw [hclose]
        exact @ih depth h
    | part => exact @ih depth h
    | separator => exact @ih depth h

/-- The stack of a reader is as high as there are open brackets. -/
theorem depthBehind_of_readAll {ds : List Delimiter} {stack stack' : List Pending}
    {counts : List (Nat × Nat)} (h : readAll ds stack = some (stack', counts)) :
    depthBehind stack.length ds = some stack'.length := by
  induction ds generalizing stack counts with
  | nil =>
    obtain ⟨rfl, -⟩ : stack = stack' ∧ [] = counts := by simpa [readAll] using h
    rfl
  | cons b ds ih =>
    obtain ⟨⟨stack₁, counts₁⟩, hread, hrest⟩ := Option.bind_eq_some_iff.1 h
    obtain ⟨⟨stack₂, counts₂⟩, hall, heq⟩ := Option.map_eq_some_iff.1 hrest
    obtain ⟨rfl, -⟩ : stack₂ = stack' ∧ counts₁ ++ counts₂ = counts := by simpa using heq
    have hdepth := ih hall
    cases b with
    | part =>
      obtain ⟨rfl, -⟩ : Pending.touch stack = stack₁ ∧ [] = counts₁ := by simpa [read] using hread
      rwa [Pending.length_touch] at hdepth
    | opening pending =>
      obtain ⟨rfl, -⟩ : pending :: Pending.touch stack = stack₁ ∧ [] = counts₁ := by
        simpa [read] using hread
      rwa [List.length_cons, Pending.length_touch] at hdepth
    | close =>
      cases stack with
      | nil => cases hread
      | cons pending stack =>
        obtain ⟨rfl, -⟩ : stack = stack₁ ∧ pending.counted = counts₁ := by
          simpa [read] using hread
        exact hdepth
    | separator =>
      have hlength : stack₁.length = stack.length := by
        unfold read at hread
        split at hread
        all_goals simp_all
        rw [← hread.1, List.length_cons]
      rwa [hlength] at hdepth

end Delimiter

namespace Fragment

/-- The code closes no bracket that it has not opened. -/
def StaysInside (code : List Fragment) : Prop :=
  (Delimiter.depthBehind 0 (code.map delimiter)).isSome

instance (code : List Fragment) : Decidable (StaysInside code) :=
  inferInstanceAs (Decidable (_ = true))

/-- The code closes the brackets that it opens, and no others. -/
def IsBalanced (code : List Fragment) : Prop :=
  Delimiter.depthBehind 0 (code.map delimiter) = some 0

theorem IsBalanced.staysInside {code : List Fragment} (h : IsBalanced code) : StaysInside code := by
  rw [StaysInside, h]
  rfl

/-- What balanced code stands before is behind every bracket of the code. -/
theorem IsBalanced.depthBehind {code : List Fragment} (h : IsBalanced code) (depth : Nat)
    (behind : List Fragment) :
    Delimiter.depthBehind depth ((code ++ behind).map delimiter) =
      Delimiter.depthBehind depth (behind.map delimiter) := by
  have hraised := Delimiter.depthBehind_add h depth
  rw [Nat.zero_add] at hraised
  rw [List.map_append, Delimiter.depthBehind_append, hraised, Option.bind_some]

theorem IsBalanced.append {first second : List Fragment} (h₁ : IsBalanced first)
    (h₂ : IsBalanced second) : IsBalanced (first ++ second) :=
  (h₁.depthBehind 0 second).trans h₂

theorem StaysInside.append {first second : List Fragment} (h₁ : StaysInside first)
    (h₂ : StaysInside second) : StaysInside (first ++ second) := by
  obtain ⟨n, hn⟩ := Option.isSome_iff_exists.1 h₁
  obtain ⟨m, hm⟩ := Option.isSome_iff_exists.1 h₂
  have hraised := Delimiter.depthBehind_add hm n
  rw [Nat.zero_add] at hraised
  rw [StaysInside, List.map_append, Delimiter.depthBehind_append, hn, Option.bind_some, hraised]
  rfl

/-- The code in parentheses. -/
def parens (code : List Fragment) : List Fragment := openParen :: (code ++ [close])

theorem StaysInside.parens {code : List Fragment} (h : StaysInside code) :
    StaysInside (parens code) := by
  obtain ⟨n, hn⟩ := Option.isSome_iff_exists.1 h
  have hraised := Delimiter.depthBehind_add hn 1
  rw [Nat.zero_add] at hraised
  have hdepth : Delimiter.depthBehind 0 ((Fragment.parens code).map delimiter) =
      Delimiter.depthBehind 1 ((code ++ [close]).map delimiter) := rfl
  rw [StaysInside, hdepth, List.map_append, Delimiter.depthBehind_append, hraised]
  rfl

/-- Code that stays inside and is balanced with brackets around it is balanced itself. -/
theorem StaysInside.isBalanced {opening : Fragment} {code behind : List Fragment}
    {pending : Pending} (h : StaysInside code) (hopening : opening.delimiter = .opening pending)
    (hbehind : StaysInside behind)
    (hall : IsBalanced (opening :: (code ++ .close :: behind))) :
    IsBalanced code ∧ IsBalanced behind := by
  obtain ⟨n, hn⟩ := Option.isSome_iff_exists.1 h
  obtain ⟨m, hm⟩ := Option.isSome_iff_exists.1 hbehind
  have hcode := Delimiter.depthBehind_add hn 1
  have hrest := Delimiter.depthBehind_add hm n
  rw [Nat.zero_add] at hcode hrest
  have hdepth : Delimiter.depthBehind 1 ((code ++ .close :: behind).map delimiter) = some 0 := by
    rw [IsBalanced, List.map_cons, hopening] at hall
    exact hall
  rw [List.map_append, Delimiter.depthBehind_append, hcode, Option.bind_some] at hdepth
  have hsum : some (m + n) = some 0 := hrest.symm.trans hdepth
  obtain ⟨rfl, rfl⟩ : m = 0 ∧ n = 0 := by simpa using hsum
  exact ⟨hn, hm⟩

/-- The first bracket that is closed and was not opened is in one place only. -/
theorem IsBalanced.eq_of_close {code code' behind behind' : List Fragment} (h : IsBalanced code)
    (h' : IsBalanced code') (heq : code ++ .close :: behind = code' ++ .close :: behind') :
    code = code' ∧ behind = behind' := by
  have hleaves : ∀ {code : List Fragment} (behind : List Fragment), IsBalanced code →
      ¬IsBalanced (code ++ .close :: behind) := by
    intro code behind hcode hall
    have hdepth : Delimiter.depthBehind 0 ((Fragment.close :: behind).map delimiter) = some 0 :=
      (hcode.depthBehind 0 _).symm.trans hall
    cases hdepth
  rcases List.append_eq_append_iff.1 heq with ⟨as, rfl, has⟩ | ⟨as, rfl, has⟩
  · cases as with
    | nil => exact ⟨(List.append_nil _).symm, (List.cons.inj has).2⟩
    | cons f as =>
      obtain ⟨rfl, -⟩ := List.cons.inj has
      exact absurd h' (hleaves as h)
  · cases as with
    | nil => exact ⟨List.append_nil _, (List.cons.inj has).2.symm⟩
    | cons f as =>
      obtain ⟨rfl, -⟩ := List.cons.inj has
      exact absurd h (hleaves as h')

end Fragment

/-! ## Operands in brackets -/

namespace Expression

open Fragment

theorem IsSum.isBalanced {code : List Fragment} {e : Expression Float} (h : IsSum code e) :
    IsBalanced code :=
  Delimiter.depthBehind_of_readAll (h.readAll [])

theorem IsListed.exists_close {code : List Fragment} {es : List (Expression Float)}
    (h : IsListed code es) :
    ∃ inside, code = inside ++ [Fragment.close] ∧ IsBalanced inside := by
  cases h with
  | last h => exact ⟨_, rfl, h.isBalanced⟩
  | more h hrest =>
    obtain ⟨inside, rfl, hinside⟩ := hrest.exists_close
    refine ⟨_ ++ .separator :: inside, by simp, h.isBalanced.append ?_⟩
    exact hinside

theorem IsArguments.exists_close {code : List Fragment} {es : List (Expression Float)}
    (h : IsArguments code es) :
    ∃ inside, code = inside ++ [Fragment.close] ∧ IsBalanced inside := by
  cases h with
  | none => exact ⟨[], rfl, rfl⟩
  | some h => exact h.exists_close

/-- An operand that opens a bracket ends where the bracket is closed. -/
theorem IsOperand.exists_close {f : Fragment} {code : List Fragment} {e : Expression Float}
    {pending : Pending} (h : IsOperand (f :: code) e) (hf : f.delimiter = .opening pending) :
    ∃ inside, code = inside ++ [Fragment.close] ∧ IsBalanced inside := by
  cases h with
  | parens h => exact ⟨_, rfl, h.isBalanced⟩
  | sum _ _ _ h => exact ⟨_, rfl, h.isBalanced⟩
  | integral _ _ _ _ _ h => exact ⟨_, rfl, h.isBalanced⟩
  | call _ h => exact h.exists_close
  | apply _ _ h => exact h.exists_close
  | derivative _ _ _ h => exact h.exists_close
  | _ => cases hf

/-- What is signed and opens a bracket is an operand. -/
theorem IsSigned.isOperand {f : Fragment} {code : List Fragment} {e : Expression Float}
    {pending : Pending} (h : IsSigned (f :: code) e) (hf : f.delimiter = .opening pending) :
    IsOperand (f :: code) e := by
  cases h with
  | operand h => exact h
  | plus _ => cases hf
  | minus _ => cases hf

/-- A signed operand in front of the code that opens a bracket ends where it is closed. -/
theorem IsSigned.eq_of_close {f : Fragment} {inside behind front back : List Fragment}
    {e : Expression Float} {pending : Pending} (h : IsSigned front e)
    (hf : f.delimiter = .opening pending) (hinside : IsBalanced inside)
    (hcode : f :: (inside ++ .close :: behind) = front ++ back) :
    front = f :: (inside ++ [Fragment.close]) ∧ IsOperand front e := by
  cases front with
  | nil =>
    obtain ⟨_, _, hnil, -⟩ := h.head
    cases hnil
  | cons g front =>
    rw [List.cons_append] at hcode
    obtain ⟨rfl, hrest⟩ := List.cons.inj hcode
    have hoperand := h.isOperand hf
    obtain ⟨inside', rfl, hinside'⟩ := hoperand.exists_close hf
    rw [List.append_assoc, List.singleton_append] at hrest
    obtain ⟨rfl, -⟩ := hinside.eq_of_close hinside' hrest
    exact ⟨rfl, hoperand⟩

/-- Where the first bracket of a sum is closed, its first operand ends. -/
theorem IsSum.first_operand {f : Fragment} {inside behind : List Fragment} {e : Expression Float}
    {pending : Pending} (h : IsSum (f :: (inside ++ .close :: behind)) e)
    (hf : f.delimiter = .opening pending) (hinside : IsBalanced inside) :
    ∃ e₁, IsOperand (f :: (inside ++ [Fragment.close])) e₁ := by
  obtain ⟨product, _, e₁, hcode, hproduct, -⟩ := h.first_product
  obtain ⟨front, back, e₂, rfl, hsigned⟩ := hproduct.first_signed
  rw [List.append_assoc] at hcode
  obtain ⟨rfl, hoperand⟩ := hsigned.eq_of_close hf hinside hcode
  exact ⟨e₂, hoperand⟩

/-- A sum between brackets is an operand when what is inside leaves no bracket. -/
theorem IsSum.isOperand {f : Fragment} {inside : List Fragment} {e : Expression Float}
    {pending : Pending} (h : IsSum (f :: (inside ++ [Fragment.close])) e)
    (hf : f.delimiter = .opening pending) (hinside : StaysInside inside) :
    IsOperand (f :: (inside ++ [Fragment.close])) e := by
  have hbehind : StaysInside [] := rfl
  obtain ⟨hbalanced, -⟩ := hinside.isBalanced hf hbehind h.isBalanced
  obtain ⟨e₁, hoperand⟩ := h.first_operand hf hbalanced
  obtain rfl := (IsSum.product (.signed (.operand hoperand))).unique h
  exact hoperand

/-- What stands behind a signed operand and a multiplicative operator starts with another. -/
theorem IsSum.second_signed {left right : List Fragment} {o : Operator} {l e : Expression Float}
    (h : IsSum (left ++ .operator o :: right) e) (hl : IsSigned left l)
    (ho : o.isMultiplicative = true) :
    ∃ front back r, right = front ++ back ∧ IsSigned front r := by
  have hread := h.read [] (by simp)
  have hterms : plain (readTerms e []) = .ok (e, []) := plain_readTerms_stop e [] (by simp)
  rw [List.append_nil, hterms, plain_readSum, plain_readProduct, hl.read] at hread
  cases hright : plain (readSigned right) with
  | ok reading =>
    obtain ⟨front, hcode, hfront⟩ := derivation_of_read.2.2.2.2.1 right reading.1 reading.2 hright
    exact ⟨front, reading.2, reading.1, hcode, hfront⟩
  | error flaw =>
    change plain (readFactors l (.operator o :: right)) >>= _ = _ at hread
    rw [plain_readFactors_multiplicative l right ho, hright] at hread
    cases hread

theorem isOperand_parens {code : List Fragment} {e : Expression Float}
    (h : IsOperand (parens code) e) : IsSum code e := by
  generalize hwhole : parens code = whole at h
  cases h with
  | parens h =>
    obtain rfl := List.append_cancel_right (List.cons.inj hwhole).2
    exact h
  | _ => cases hwhole

theorem isSum_parens {code : List Fragment} {e : Expression Float} (h : StaysInside code) :
    IsSum (parens code) e ↔ IsSum code e := by
  constructor
  · intro hsum
    exact isOperand_parens (hsum.isOperand rfl h)
  · intro hsum
    exact .product (.signed (.operand (.parens hsum)))

/-- A function of one operand is read as a call on what the operand is read as alone. -/
theorem isSum_call {f : Function} (hf : f.arity = 1) {code : List Fragment} {e : Expression Float}
    (h : StaysInside code) :
    IsSum (.call f :: (code ++ [Fragment.close])) e ↔ ∃ c, IsSum code c ∧ e = .call f [c] := by
  constructor
  · intro hsum
    have hcall : (Fragment.call f).delimiter = .opening .single := congrArg _ (if_pos hf)
    have hoperand := hsum.isOperand hcall h
    generalize hwhole : code ++ [Fragment.close] = whole at hoperand
    cases hoperand with
    | call f harguments hcount =>
      cases harguments with
      | none =>
        rw [hf] at hcount
        cases hcount
      | some hlisted =>
        cases hlisted with
        | last hcode =>
          obtain rfl := List.append_cancel_right hwhole
          exact ⟨_, hcode, rfl⟩
        | more _ hrest =>
          have hpos := hrest.length_pos
          rw [List.length_cons, hf] at hcount
          omega
  · rintro ⟨c, hcode, rfl⟩
    exact .product (.signed (.operand (Formula.isOperand_call hf hcode)))

/-- A fraction is read as the quotient of what its parts are read as alone. -/
theorem isSum_fraction {num den : List Fragment} {e : Expression Float} (hnum : StaysInside num)
    (hden : StaysInside den) :
    IsSum (parens (parens num ++ .operator .divide :: parens den)) e ↔
      ∃ n d, IsSum num n ∧ IsSum den d ∧ e = .binary .divide n d := by
  have hderives : ∀ {n d}, IsSum num n → IsSum den d →
      IsSum (parens num ++ .operator .divide :: parens den) (.binary .divide n d) := by
    intro n d hn hd
    exact .product (.more (.signed (.operand (.parens hn))) rfl (.operand (.parens hd)))
  constructor
  · intro hsum
    have hbehind : StaysInside (.operator .divide :: parens den) := hden.parens
    have hinside := hnum.parens.append hbehind
    have hquotient := (isSum_parens hinside).1 hsum
    have hwhole : parens num ++ .operator .divide :: parens den =
        .openParen :: (num ++ .close :: .operator .divide :: parens den) := by
      simp [parens]
    rw [hwhole] at hquotient
    obtain ⟨hnum', hbehind'⟩ := hnum.isBalanced rfl hbehind hquotient.isBalanced
    have hopening : Fragment.openParen.delimiter = .opening .single := rfl
    have hend : StaysInside [] := rfl
    obtain ⟨hden', -⟩ := hden.isBalanced hopening hend hbehind'
    obtain ⟨n, hleft⟩ := hquotient.first_operand rfl hnum'
    rw [← hwhole] at hquotient
    obtain ⟨front, back, d, hfront, hright⟩ := hquotient.second_signed (.operand hleft) rfl
    obtain ⟨rfl, hright⟩ := hright.eq_of_close hopening hden' hfront
    have hn : IsSum num n := isOperand_parens hleft
    have hd : IsSum den d := isOperand_parens hright
    exact ⟨n, d, hn, hd, hquotient.unique (hderives hn hd)⟩
  · rintro ⟨n, d, hn, hd, rfl⟩
    exact .product (.signed (.operand (.parens (hderives hn hd))))

end Expression

/-! ## The walk over children -/

/-- Where no name stands for an equation, a stretch is walked the same at every depth and whatever
is declared. -/
theorem Visits.replay {s : Session} (hs : ∀ name, s.resolve name = none) {depth : Nat}
    {stretch : Stretch} {d d' : Declared} {es : List Emission} (h : Visits s depth stretch d es d')
    (depth₁ : Nat) (d₁ : Declared) :
    ∃ es₁ d₁', Visits s depth₁ stretch d₁ es₁ d₁' ∧
      Emission.instructions es₁ = Emission.instructions es := by
  have hspares : d.Spares s d₁ := fun name _ => .inr (hs name)
  obtain ⟨es₁, d₁', hvisits, hes₁, -⟩ := h.relocate (h.isPlain hs) depth₁ hspares
  exact ⟨es₁, d₁', hvisits, hes₁⟩

/-- The instructions that a walk over the nodes emits where no name stands for an equation. -/
def Emits (s : Session) (nodes : List Node) (is : List Instruction) : Prop :=
  ∃ es d, Visits s 0 (.siblings none nodes) (Session.declaredBy none) es d ∧
    Emission.instructions es = is

section Children

variable {s : Session} {is : List Instruction}

theorem Emits.visits (hs : ∀ name, s.resolve name = none) {nodes : List Node}
    (h : Emits s nodes is) (depth : Nat) (d : Declared) :
    ∃ es d', Visits s depth (.siblings none nodes) d es d' ∧ Emission.instructions es = is := by
  obtain ⟨es, d₁, hvisits, rfl⟩ := h
  exact hvisits.replay hs depth d

theorem emits_of_visits (hs : ∀ name, s.resolve name = none) {nodes : List Node} {depth : Nat}
    {d d' : Declared} {es : List Emission} (h : Visits s depth (.siblings none nodes) d es d') :
    Emits s nodes (Emission.instructions es) :=
  h.replay hs 0 _

theorem Emits.unique {nodes : List Node} {js : List Instruction} (h : Emits s nodes is)
    (h' : Emits s nodes js) : is = js := by
  obtain ⟨es, d, hvisits, rfl⟩ := h
  obtain ⟨es', d', hvisits', rfl⟩ := h'
  obtain ⟨rfl, -⟩ := hvisits.unique hvisits'
  rfl

theorem Emits.isPlain (hs : ∀ name, s.resolve name = none) {nodes : List Node}
    (h : Emits s nodes is) : ∀ i ∈ is, i.IsPlain := by
  obtain ⟨es, d, hvisits, rfl⟩ := h
  exact hvisits.isPlain hs

/-- A node alone, with nothing to take behind it. -/
theorem visits_single {node : Node} {depth : Nat} {d d' : Declared} {es : List Emission} :
    Visits s depth (.siblings none [node]) d es d' ↔
      ∃ consumed es', Visits s depth (.single node [] consumed) d es' d' ∧
        es = .visit depth node :: es' := by
  constructor
  · intro h
    cases h with
    | cons hnode hrest =>
      rw [List.drop_nil] at hrest
      obtain ⟨rfl, rfl⟩ := hrest.nil_inv
      exact ⟨_, _, hnode, by simp [Walk.joint]⟩
  · rintro ⟨consumed, es', hnode, rfl⟩
    have hrest : Visits s depth (.siblings (node :: List.take consumed []).getLast?
        (List.drop consumed [])) d' [] d' := by
      rw [List.drop_nil]
      exact .nil
    have hall : Visits s depth (.siblings none [node]) d _ d' := .cons hnode hrest
    simpa [Walk.joint] using hall

/-- The instructions of a root, from those of its body. -/
def Instruction.root (is : List Instruction) : List Instruction :=
  .append (.call .squareRoot) :: (is ++ [.append .close])

/-- The instructions of a fraction, from those of its parts. -/
def Instruction.fraction (is js : List Instruction) : List Instruction :=
  .append .openParen :: .append .openParen :: (is ++
    .append .close :: .append (.operator .divide) :: .append .openParen ::
      (js ++ [.append .close, .append .close]))

theorem emits_root (hs : ∀ name, s.resolve name = none) {body : List Node}
    {js : List Instruction} :
    Emits s [.root body] js ↔ body ≠ [] ∧ ∃ is, Emits s body is ∧ js = Instruction.root is := by
  constructor
  · rintro ⟨es, d, hvisits, rfl⟩
    obtain ⟨consumed, es', hnode, rfl⟩ := visits_single.1 hvisits
    cases hnode with
    | root hbody hinside =>
      exact ⟨hbody, _, emits_of_visits hs hinside, by simp [Instruction.root]⟩
  · rintro ⟨hbody, is, hemits, rfl⟩
    obtain ⟨es, d, hinside, rfl⟩ := hemits.visits hs 1 (Session.declaredBy none)
    exact ⟨_, d, visits_single.2 ⟨0, _, .root hbody hinside, rfl⟩,
      by simp [Instruction.root]⟩

theorem emits_fraction (hs : ∀ name, s.resolve name = none) {num den : List Node}
    {ks : List Instruction} :
    Emits s [.fraction num den] ks ↔ num ≠ [] ∧ den ≠ [] ∧ ∃ is js, Emits s num is ∧
      Emits s den js ∧ ks = Instruction.fraction is js := by
  constructor
  · rintro ⟨es, d, hvisits, rfl⟩
    obtain ⟨consumed, es', hnode, rfl⟩ := visits_single.1 hvisits
    cases hnode with
    | fraction hnum hden h₁ h₂ =>
      exact ⟨hnum, hden, _, _, emits_of_visits hs h₁, emits_of_visits hs h₂,
        by simp [Instruction.fraction]⟩
  · rintro ⟨hnum, hden, is, js, hemits₁, hemits₂, rfl⟩
    obtain ⟨es₁, d₁, h₁, rfl⟩ := hemits₁.visits hs 1 (Session.declaredBy none)
    obtain ⟨es₂, d₂, h₂, rfl⟩ := hemits₂.visits hs 1 d₁
    exact ⟨_, d₂, visits_single.2 ⟨0, _, .fraction hnum hden h₁ h₂, rfl⟩,
      by simp [Instruction.fraction]⟩

end Children

/-! ## The code of children -/

/-- The code of a branch, told by its number. -/
def branchCode (is : List Instruction) (k : Nat) : List Fragment :=
  Fragment.joined (select k.testBit 0 is)

/-- The branches are those that the instructions grow, each read as the whole of its code. -/
def Reads (is : List Instruction) (branches : List (Expression Float)) : Prop :=
  branches.length = 2 ^ signCount is ∧
    ∀ (k : Nat) (e), branches[k]? = some e → Expression.IsSum (branchCode is k) e

theorem Reads.unique {is : List Instruction} {branches branches' : List (Expression Float)}
    (h : Reads is branches) (h' : Reads is branches') : branches = branches' := by
  apply List.ext_getElem (h.1.trans h'.1.symm)
  intro k hk hk'
  have hsum := h.2 k _ (List.getElem?_eq_getElem hk)
  exact hsum.unique (h'.2 k _ (List.getElem?_eq_getElem hk'))

theorem exists_reads {is : List Instruction}
    (h : ∀ k < 2 ^ signCount is, ∃ e, Expression.IsSum (branchCode is k) e) :
    ∃ branches, Reads is branches :=
  Session.exists_list_of_forall_lt h

theorem Reads.exists_isSum {is : List Instruction} {branches : List (Expression Float)}
    (h : Reads is branches) {k : Nat} (hk : k < 2 ^ signCount is) :
    ∃ e, Expression.IsSum (branchCode is k) e := by
  rw [← h.1] at hk
  exact ⟨branches[k], h.2 k _ (List.getElem?_eq_getElem hk)⟩

section Code

open Expression Fragment

variable {is js : List Instruction}

theorem signCount_fraction (is js : List Instruction) :
    signCount (Instruction.fraction is js) = signCount is + signCount js := by
  simp [Instruction.fraction, signCount]

theorem joined_between {f : Fragment} (hf : ∀ text, f ≠ .number text) (code : List Fragment) :
    joined (f :: (code ++ [Fragment.close])) = f :: (joined code ++ [Fragment.close]) := by
  rw [joined_cons hf, joined_append_cons (by simp)]
  rfl

theorem branchCode_enclosing {opening : Fragment} (hopening : ∀ text, opening ≠ .number text)
    (his : ∀ i ∈ is, i.IsPlain) (k : Nat) :
    branchCode (Instruction.enclosing opening is) k = opening :: (branchCode is k ++ [.close]) :=
  Formula.joined_enclosing _ 0 hopening his

/-- The signs of the numerator are the lower digits of the number of the branch. -/
theorem branchCode_fraction (his : ∀ i ∈ is, i.IsPlain) (hjs : ∀ i ∈ js, i.IsPlain) (k : Nat) :
    branchCode (Instruction.fraction is js) k =
      parens (parens (branchCode is (k % 2 ^ signCount is)) ++
        .operator .divide :: parens (branchCode js (k / 2 ^ signCount is))) := by
  have hselect : select k.testBit 0 (Instruction.fraction is js) =
      parens (parens (select k.testBit 0 is) ++
        .operator .divide :: parens (select k.testBit (signCount is) js)) := by
    simp [Instruction.fraction, select, select_append his, select_append hjs, parens]
  have hhigh : select k.testBit (signCount is) js =
      select (k / 2 ^ signCount is).testBit 0 js := by
    apply select_congr hjs
    intro n _
    rw [Nat.zero_add, Nat.testBit_div_two_pow, Nat.add_comm]
  rw [branchCode, hselect, parens, joined_between (by simp), joined_append_cons (by simp),
    parens, joined_between (by simp), parens, joined_between (by simp), select_mod his, hhigh]
  rfl

/-- The branches of a function of one operand are calls on the branches of the operand. -/
theorem Reads.called {f : Function} (hf : f.arity = 1) (his : ∀ i ∈ is, i.IsPlain)
    {branches : List (Expression Float)} (h : Reads is branches) :
    Reads (Instruction.enclosing (.call f) is) (branches.map fun e => .call f [e]) := by
  refine ⟨by rw [List.length_map, h.1, Formula.signCount_enclosing], ?_⟩
  intro k e' hk
  rw [List.getElem?_map] at hk
  obtain ⟨e, he, rfl⟩ := Option.map_eq_some_iff.1 hk
  have hsum := h.2 k e he
  rw [branchCode_enclosing (by simp) his]
  exact (isSum_call hf hsum.isBalanced.staysInside).2 ⟨e, hsum, rfl⟩

theorem Reads.of_called {f : Function} (hf : f.arity = 1) (his : ∀ i ∈ is, i.IsPlain)
    {branches : List (Expression Float)}
    (h : Reads (Instruction.enclosing (.call f) is) branches)
    (hstays : ∀ k < 2 ^ signCount is, StaysInside (branchCode is k)) :
    ∃ inner, Reads is inner := by
  apply exists_reads
  intro k hk
  rw [← Formula.signCount_enclosing (.call f)] at hk
  obtain ⟨e, he⟩ := h.exists_isSum hk
  rw [Formula.signCount_enclosing] at hk
  rw [branchCode_enclosing (by simp) his] at he
  obtain ⟨c, hc, -⟩ := (isSum_call hf (hstays k hk)).1 he
  exact ⟨c, hc⟩

/-- The branches of a fraction are the quotients of all branches of its parts; those of the
numerator vary fastest. -/
theorem Reads.fraction (his : ∀ i ∈ is, i.IsPlain) (hjs : ∀ i ∈ js, i.IsPlain)
    {nums dens : List (Expression Float)} (hnum : Reads is nums) (hden : Reads js dens) :
    Reads (Instruction.fraction is js) (dens.flatMap fun d => nums.map fun n => .binary .divide n d) := by
  have hlength : (dens.flatMap fun d => nums.map fun n => Expression.binary .divide n d).length =
      2 ^ signCount (Instruction.fraction is js) := by
    rw [signCount_fraction, Nat.pow_add, ← hnum.1, ← hden.1, Nat.mul_comm]
    simp [List.length_flatMap, List.map_const']
  refine ⟨hlength, ?_⟩
  intro k e hk
  rw [getElem?_flatMap_map (fun d n => Expression.binary .divide n d)] at hk
  obtain ⟨d, hd, hk⟩ := Option.bind_eq_some_iff.1 hk
  obtain ⟨n, hn, rfl⟩ := Option.map_eq_some_iff.1 hk
  have hsum₁ := hnum.2 _ n hn
  have hsum₂ := hden.2 _ d hd
  rw [hnum.1] at hsum₁ hsum₂
  rw [branchCode_fraction his hjs]
  exact (isSum_fraction hsum₁.isBalanced.staysInside hsum₂.isBalanced.staysInside).2
    ⟨n, d, hsum₁, hsum₂, rfl⟩

theorem Reads.of_fraction (his : ∀ i ∈ is, i.IsPlain) (hjs : ∀ i ∈ js, i.IsPlain)
    {branches : List (Expression Float)} (h : Reads (Instruction.fraction is js) branches)
    (hnum : ∀ k < 2 ^ signCount is, StaysInside (branchCode is k))
    (hden : ∀ k < 2 ^ signCount js, StaysInside (branchCode js k)) :
    (∃ nums, Reads is nums) ∧ ∃ dens, Reads js dens := by
  have hparts : ∀ i < 2 ^ signCount is, ∀ j < 2 ^ signCount js,
      ∃ n d, IsSum (branchCode is i) n ∧ IsSum (branchCode js j) d := by
    intro i hi j hj
    have hk : i + 2 ^ signCount is * j < 2 ^ signCount (Instruction.fraction is js) := by
      rw [signCount_fraction, Nat.pow_add]
      calc i + 2 ^ signCount is * j < 2 ^ signCount is * (j + 1) := by rw [Nat.mul_succ]; omega
        _ ≤ 2 ^ signCount is * 2 ^ signCount js := Nat.mul_le_mul_left _ hj
    obtain ⟨e, he⟩ := h.exists_isSum hk
    rw [branchCode_fraction his hjs, Nat.add_mul_mod_self_left, Nat.mod_eq_of_lt hi,
      Nat.add_mul_div_left _ _ (Nat.two_pow_pos _), Nat.div_eq_of_lt hi, Nat.zero_add] at he
    obtain ⟨n, d, hn, hd, -⟩ := (isSum_fraction (hnum i hi) (hden j hj)).1 he
    exact ⟨n, d, hn, hd⟩
  constructor
  · apply exists_reads
    intro i hi
    obtain ⟨n, -, hn, -⟩ := hparts i hi 0 (Nat.two_pow_pos _)
    exact ⟨n, hn⟩
  · apply exists_reads
    intro j hj
    obtain ⟨-, d, -, hd⟩ := hparts 0 (Nat.two_pow_pos _) j hj
    exact ⟨d, hd⟩

end Code

/-! ## Compiling a child and what encloses it -/

namespace Session

variable {s : Session} {nodes : List Node} {is : List Instruction}

theorem exists_emits_of_compile (hs : ∀ name, s.resolve name = none)
    (hnodes : ∀ n ∈ nodes, n.isEquality = false) {equation : Equation Float}
    (h : (s.compile nodes).outcome = .ok equation) :
    ∃ is, Emits s nodes is ∧ Reads is equation.branches := by
  obtain ⟨binding, right, es, d, branches, hsides, hvisits, hread, rfl⟩ :=
    compile_outcome_eq_ok_iff.1 h
  obtain ⟨rfl, rfl⟩ : none = binding ∧ nodes = right := by
    simpa [splitSides_eq_none hnodes] using hsides
  exact ⟨_, ⟨es, d, hvisits, rfl⟩, (readBranches_plain (hvisits.isPlain hs)).1 hread⟩

theorem exists_compile_of_reads (hs : ∀ name, s.resolve name = none)
    (hnodes : ∀ n ∈ nodes, n.isEquality = false) (hemits : Emits s nodes is)
    {branches : List (Expression Float)} (h : Reads is branches) :
    ∃ equation, (s.compile nodes).outcome = .ok equation ∧ equation.branches = branches := by
  obtain ⟨es, d, hvisits, rfl⟩ := hemits
  exact ⟨⟨none, d.symbols.arguments, d.symbols.bound, branches, d.externals⟩,
    (compile_eq_ok_iff_plain hs hnodes hvisits).2 ⟨rfl, h⟩, rfl⟩

theorem mem_codes (hs : ∀ name, s.resolve name = none)
    (hnodes : ∀ n ∈ nodes, n.isEquality = false) (hemits : Emits s nodes is)
    {code : List Fragment} :
    code ∈ s.codes nodes ↔ ∃ k < 2 ^ signCount is, branchCode is k = code := by
  obtain ⟨es, d, hvisits, rfl⟩ := hemits
  constructor
  · intro hcode
    obtain ⟨k, hk⟩ := List.getElem?_of_mem hcode
    rw [getElem?_codes hs hnodes hvisits] at hk
    obtain ⟨hlt, hcode⟩ := Option.ite_none_right_eq_some.1 hk
    exact ⟨k, hlt, Option.some.inj hcode⟩
  · rintro ⟨k, hk, rfl⟩
    exact List.mem_of_getElem? (codes_plain hs hnodes hvisits hk)

theorem staysInside_of_reads (hs : ∀ name, s.resolve name = none)
    (hnodes : ∀ n ∈ nodes, n.isEquality = false) (hemits : Emits s nodes is)
    {branches : List (Expression Float)} (h : Reads is branches) :
    ∀ code ∈ s.codes nodes, Fragment.StaysInside code := by
  intro code hcode
  obtain ⟨k, hk, rfl⟩ := (mem_codes hs hnodes hemits).1 hcode
  obtain ⟨e, he⟩ := h.exists_isSum hk
  exact he.isBalanced.staysInside

theorem ne_nil_of_reads (hemits : Emits s nodes is) {branches : List (Expression Float)}
    (h : Reads is branches) : nodes ≠ [] := by
  rintro rfl
  obtain ⟨es, d, hvisits, rfl⟩ := hemits
  obtain ⟨rfl, rfl⟩ := hvisits.nil_inv
  obtain ⟨e, he⟩ := h.exists_isSum Nat.one_pos
  obtain ⟨f, tail, hcode, -⟩ := he.head
  cases hcode

theorem isEquality_root (body : List Node) : ∀ n ∈ [Node.root body], n.isEquality = false := by
  intro n hn
  rw [List.mem_singleton.1 hn]
  rfl

theorem isEquality_fraction (num den : List Node) :
    ∀ n ∈ [Node.fraction num den], n.isEquality = false := by
  intro n hn
  rw [List.mem_singleton.1 hn]
  rfl

section Root

variable {body : List Node}

/-- A root compiles, with a body that closes no bracket it has not opened, exactly when the body is
not empty and compiles alone. -/
theorem compile_root_iff (hs : ∀ name, s.resolve name = none)
    (hbody : ∀ n ∈ body, n.isEquality = false) :
    ((∃ equation, (s.compile [.root body]).outcome = .ok equation) ∧
        ∀ code ∈ s.codes body, Fragment.StaysInside code) ↔
      body ≠ [] ∧ ∃ inner, (s.compile body).outcome = .ok inner := by
  constructor
  · rintro ⟨⟨equation, h⟩, hstays⟩
    obtain ⟨js, hemits', hreads⟩ := exists_emits_of_compile hs (isEquality_root body) h
    obtain ⟨hempty, is, hemits, rfl⟩ := (emits_root hs).1 hemits'
    obtain ⟨branches, hinner⟩ := hreads.of_called rfl (hemits.isPlain hs) fun k hk =>
      hstays _ ((mem_codes hs hbody hemits).2 ⟨k, hk, rfl⟩)
    obtain ⟨inner, h', -⟩ := exists_compile_of_reads hs hbody hemits hinner
    exact ⟨hempty, inner, h'⟩
  · rintro ⟨hempty, inner, h⟩
    obtain ⟨is, hemits, hreads⟩ := exists_emits_of_compile hs hbody h
    obtain ⟨equation, h', -⟩ := exists_compile_of_reads hs (isEquality_root body)
      ((emits_root hs).2 ⟨hempty, is, hemits, rfl⟩) (hreads.called rfl (hemits.isPlain hs))
    exact ⟨⟨equation, h'⟩, staysInside_of_reads hs hbody hemits hreads⟩

theorem branches_of_root (hs : ∀ name, s.resolve name = none)
    (hbody : ∀ n ∈ body, n.isEquality = false) {inner equation : Equation Float}
    (h : (s.compile body).outcome = .ok inner)
    (h' : (s.compile [.root body]).outcome = .ok equation) :
    equation.branches = inner.branches.map fun e => .call .squareRoot [e] := by
  obtain ⟨is, hemits, hreads⟩ := exists_emits_of_compile hs hbody h
  obtain ⟨js, hemits', hreads'⟩ := exists_emits_of_compile hs (isEquality_root body) h'
  obtain ⟨-, is', his', rfl⟩ := (emits_root hs).1 hemits'
  obtain rfl := hemits.unique his'
  exact hreads'.unique (hreads.called rfl (hemits.isPlain hs))

end Root

section Fraction

variable {num den : List Node}

/-- A fraction compiles, with parts that close no bracket they have not opened, exactly when both
parts compile alone. -/
theorem compile_fraction_iff (hs : ∀ name, s.resolve name = none)
    (hnum : ∀ n ∈ num, n.isEquality = false) (hden : ∀ n ∈ den, n.isEquality = false) :
    ((∃ equation, (s.compile [.fraction num den]).outcome = .ok equation) ∧
        (∀ code ∈ s.codes num, Fragment.StaysInside code) ∧
        ∀ code ∈ s.codes den, Fragment.StaysInside code) ↔
      (∃ upper, (s.compile num).outcome = .ok upper) ∧
        ∃ lower, (s.compile den).outcome = .ok lower := by
  constructor
  · rintro ⟨⟨equation, h⟩, hstays₁, hstays₂⟩
    obtain ⟨ks, hemits, hreads⟩ := exists_emits_of_compile hs (isEquality_fraction num den) h
    obtain ⟨-, -, is, js, hemits₁, hemits₂, rfl⟩ := (emits_fraction hs).1 hemits
    obtain ⟨⟨nums, hreads₁⟩, dens, hreads₂⟩ :=
      hreads.of_fraction (hemits₁.isPlain hs) (hemits₂.isPlain hs)
        (fun k hk => hstays₁ _ ((mem_codes hs hnum hemits₁).2 ⟨k, hk, rfl⟩))
        (fun k hk => hstays₂ _ ((mem_codes hs hden hemits₂).2 ⟨k, hk, rfl⟩))
    obtain ⟨upper, h₁, -⟩ := exists_compile_of_reads hs hnum hemits₁ hreads₁
    obtain ⟨lower, h₂, -⟩ := exists_compile_of_reads hs hden hemits₂ hreads₂
    exact ⟨⟨upper, h₁⟩, lower, h₂⟩
  · rintro ⟨⟨upper, h₁⟩, lower, h₂⟩
    obtain ⟨is, hemits₁, hreads₁⟩ := exists_emits_of_compile hs hnum h₁
    obtain ⟨js, hemits₂, hreads₂⟩ := exists_emits_of_compile hs hden h₂
    have hemits := (emits_fraction hs).2 ⟨ne_nil_of_reads hemits₁ hreads₁,
      ne_nil_of_reads hemits₂ hreads₂, is, js, hemits₁, hemits₂, rfl⟩
    obtain ⟨equation, h, -⟩ := exists_compile_of_reads hs (isEquality_fraction num den) hemits
      (hreads₁.fraction (hemits₁.isPlain hs) (hemits₂.isPlain hs) hreads₂)
    exact ⟨⟨equation, h⟩, staysInside_of_reads hs hnum hemits₁ hreads₁,
      staysInside_of_reads hs hden hemits₂ hreads₂⟩

theorem branches_of_fraction (hs : ∀ name, s.resolve name = none)
    (hnum : ∀ n ∈ num, n.isEquality = false) (hden : ∀ n ∈ den, n.isEquality = false)
    {upper lower equation : Equation Float} (h₁ : (s.compile num).outcome = .ok upper)
    (h₂ : (s.compile den).outcome = .ok lower)
    (h : (s.compile [.fraction num den]).outcome = .ok equation) :
    equation.branches =
      lower.branches.flatMap fun e' => upper.branches.map fun e => .binary .divide e e' := by
  obtain ⟨is, hemits₁, hreads₁⟩ := exists_emits_of_compile hs hnum h₁
  obtain ⟨js, hemits₂, hreads₂⟩ := exists_emits_of_compile hs hden h₂
  obtain ⟨ks, hemits, hreads⟩ := exists_emits_of_compile hs (isEquality_fraction num den) h
  obtain ⟨-, -, is', js', his', hjs', rfl⟩ := (emits_fraction hs).1 hemits
  obtain rfl := hemits₁.unique his'
  obtain rfl := hemits₂.unique hjs'
  exact hreads.unique (hreads₁.fraction (hemits₁.isPlain hs) (hemits₂.isPlain hs) hreads₂)

end Fraction

/-- A child that closes no bracket it has not opened does not leave the node that holds it, and one
that compiles alone is of this kind. So a root and a fraction of such children compile in a fresh
session exactly when the children do, into calls on the branches of the body and into the quotients
of the branches of both parts. -/
theorem compile_enclosed (config : Config) :
    (∀ body : List Node, (∀ n ∈ body, n.isEquality = false) →
      (((∃ equation, ((fresh config).compile [.root body]).outcome = .ok equation) ∧
          ∀ code ∈ (fresh config).codes body, Fragment.StaysInside code) ↔
        body ≠ [] ∧ ∃ inner, ((fresh config).compile body).outcome = .ok inner) ∧
      ∀ inner equation, ((fresh config).compile body).outcome = .ok inner →
        ((fresh config).compile [.root body]).outcome = .ok equation →
        equation.branches = inner.branches.map fun e => .call .squareRoot [e]) ∧
    ∀ num den : List Node, (∀ n ∈ num, n.isEquality = false) →
      (∀ n ∈ den, n.isEquality = false) →
      (((∃ equation, ((fresh config).compile [.fraction num den]).outcome = .ok equation) ∧
          (∀ code ∈ (fresh config).codes num, Fragment.StaysInside code) ∧
          ∀ code ∈ (fresh config).codes den, Fragment.StaysInside code) ↔
        (∃ upper, ((fresh config).compile num).outcome = .ok upper) ∧
          ∃ lower, ((fresh config).compile den).outcome = .ok lower) ∧
      ∀ upper lower equation, ((fresh config).compile num).outcome = .ok upper →
        ((fresh config).compile den).outcome = .ok lower →
        ((fresh config).compile [.fraction num den]).outcome = .ok equation →
        equation.branches =
          lower.branches.flatMap fun e' => upper.branches.map fun e => .binary .divide e e' := by
  have hs := resolve_fresh config
  constructor
  · intro body hbody
    exact ⟨compile_root_iff hs hbody, fun _ _ h h' => branches_of_root hs hbody h h'⟩
  · intro num den hnum hden
    exact ⟨compile_fraction_iff hs hnum hden,
      fun _ _ _ h₁ h₂ h => branches_of_fraction hs hnum hden h₁ h₂ h⟩

/-- The root of `x + y`, and its quotient by `z`. -/
theorem compile_enclosed_sum :
    (∀ n ∈ [.var "x", .atom "+", .var "y"], Node.isEquality n = false) ∧
    (∀ n ∈ [.var "z"], Node.isEquality n = false) ∧
    (∃ equation,
      ((fresh {}).compile [.root [.var "x", .atom "+", .var "y"]]).outcome = .ok equation ∧
      equation.branches = [.call .squareRoot [.binary .add (.var "x") (.var "y")]]) ∧
    ∃ equation, ((fresh {}).compile
        [.fraction [.var "x", .atom "+", .var "y"] [.var "z"]]).outcome = .ok equation ∧
      equation.branches =
        [.binary .divide (.binary .add (.var "x") (.var "y")) (.var "z")] := by
  have hbody : ∀ n ∈ [.var "x", .atom "+", .var "y"], Node.isEquality n = false := by decide
  have hden : ∀ n ∈ [.var "z"], Node.isEquality n = false := by decide
  have hvisits : Visits (fresh {}) 0 (.siblings none [.var "x", .atom "+", .var "y"])
      (declaredBy none) _ _ :=
    .cons (.name (.inr rfl)) (.cons (.atom rfl) (.cons (.name (.inr rfl)) .nil))
  have hvisits' : Visits (fresh {}) 0 (.siblings none [.var "z"]) (declaredBy none) _ _ :=
    .cons (.name (.inr rfl)) .nil
  have hparse : Expression.parse [.var "x", .operator .add, .var "y"] =
      .ok (.binary .add (.var "x") (.var "y")) := Expression.parse_eq_ok_iff_ofCode.2 (by cbv)
  have hparse' : Expression.parse [.var "z"] = .ok (.var "z") :=
    Expression.parse_eq_ok_iff_ofCode.2 (by cbv)
  obtain ⟨upper, h, hupper⟩ := compile_single (resolve_fresh {}) hbody hvisits rfl hparse
  obtain ⟨lower, h', hlower⟩ := compile_single (resolve_fresh {}) hden hvisits' rfl hparse'
  obtain ⟨hroot, hroots⟩ := (compile_enclosed {}).1 _ hbody
  obtain ⟨hfraction, hfractions⟩ := (compile_enclosed {}).2 _ _ hbody hden
  obtain ⟨⟨root, hcompiled⟩, -⟩ := hroot.2 ⟨by simp, upper, h⟩
  obtain ⟨⟨fraction, hcompiled'⟩, -⟩ := hfraction.2 ⟨⟨upper, h⟩, lower, h'⟩
  refine ⟨hbody, hden, ⟨root, hcompiled, ?_⟩, fraction, hcompiled', ?_⟩
  · rw [hroots _ _ h hcompiled, hupper]
    rfl
  · rw [hfractions _ _ _ h h' hcompiled', hupper, hlower]
    rfl

/-- The body `a ) + ( b` leaves the root that holds it, though it does not compile alone. -/
theorem root_left_by_its_body :
    (∃ equation, ((fresh {}).compile
        [.root [.var "a", .atom ")", .atom "+", .atom "(", .var "b"]]).outcome = .ok equation ∧
      equation.branches = [.binary .add (.call .squareRoot [.var "a"]) (.var "b")]) ∧
    ¬∃ inner, ((fresh {}).compile
        [.var "a", .atom ")", .atom "+", .atom "(", .var "b"]).outcome = .ok inner := by
  let body : List Node := [.var "a", .atom ")", .atom "+", .atom "(", .var "b"]
  have hempty : body ≠ [] := List.cons_ne_nil _ _
  have hbody : ∀ n ∈ body, n.isEquality = false := by decide
  have hvisits : ∀ depth, Visits (fresh {}) depth (.siblings none body) (declaredBy none) _ _ :=
    fun _ => .cons (.name (.inr rfl)) (.cons (.atom rfl) (.cons (.atom rfl) (.cons (.atom rfl)
      (.cons (.name (.inr rfl)) .nil))))
  have hparse : Expression.parse [.call .squareRoot, .var "a", .close, .operator .add, .openParen,
      .var "b", .close] = .ok (.binary .add (.call .squareRoot [.var "a"]) (.var "b")) :=
    Expression.parse_eq_ok_iff_ofCode.2 (by cbv)
  constructor
  · exact compile_single (resolve_fresh {}) (isEquality_root body)
      (.cons (.root hempty (hvisits 1)) .nil) rfl hparse
  · rintro ⟨inner, h⟩
    obtain ⟨-, hstays⟩ :=
      (compile_root_iff (resolve_fresh {}) hbody).2 ⟨hempty, inner, h⟩
    have hfirst := codes_plain (resolve_fresh {}) hbody (hvisits 0) Nat.one_pos
    have hcode : [Fragment.var "a", .close, .operator .add, .openParen, .var "b"] ∈
        (fresh {}).codes body := List.mem_of_getElem? hfirst
    exact absurd (hstays _ hcode) (by decide)

end Session

end Formulary
