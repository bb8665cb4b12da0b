import Formulary.Proofs.Unfolding.Walk

/-!
# One reference

Where a name stands once at most, its equation is paired right before the only reference to it. So
the digit of a branch that chooses the branch of the equation is the digits that choose the signs of
its definition, and the unfolded code has the same branches, each with the definition in it.
-/

namespace Formulary

/-! ## Fragments -/

namespace Fragment

/-- The external that a fragment names. -/
def external? : Fragment → Option Nat
  | reference external _ | apply external _ | derivative external _ _ => some external
  | _ => none

/-- What becomes of a fragment when one external gives way to the code of its branches. -/
def unfold (place : Nat) (definition : Nat → List Fragment) : Fragment → List Fragment
  | reference external branch =>
    if external = place then openParen :: (definition branch ++ [close])
    else [reference (Formulary.skip place external) branch]
  | f => [f.skip place]

def unfoldAll (place : Nat) (definition : Nat → List Fragment) (code : List Fragment) :
    List Fragment :=
  code.flatMap (unfold place definition)

variable {place : Nat} {definition : Nat → List Fragment} {f : Fragment}

theorem unfold_self (place branch : Nat) (definition : Nat → List Fragment) :
    (reference place branch).unfold place definition =
      openParen :: (definition branch ++ [close]) :=
  if_pos rfl

/-- A fragment that is no reference to the external stays one fragment. -/
theorem unfold_of_ne (h : ∀ branch, f ≠ reference place branch) :
    f.unfold place definition = [f.skip place] := by
  cases f with
  | reference external branch =>
    have hne : external ≠ place := fun heq => h branch (by rw [heq])
    rw [unfold, if_neg hne, skip]
  | _ => rfl

theorem skip_of_external? (h : f.external? = none) : f.skip place = f := by
  cases f with
  | reference _ _ => cases h
  | apply _ _ => cases h
  | derivative _ _ _ => cases h
  | _ => rfl

theorem unfold_of_external? {external : Option Nat} (h : f.external? = external)
    (hne : external ≠ some place) : f.unfold place definition = [f.skip place] := by
  apply unfold_of_ne
  rintro branch rfl
  exact hne h.symm

theorem unfoldAll_cons (place : Nat) (definition : Nat → List Fragment) (f : Fragment)
    (code : List Fragment) :
    unfoldAll place definition (f :: code) =
      f.unfold place definition ++ unfoldAll place definition code :=
  List.flatMap_cons

theorem unfoldAll_append (place : Nat) (definition : Nat → List Fragment)
    (first second : List Fragment) :
    unfoldAll place definition (first ++ second) =
      unfoldAll place definition first ++ unfoldAll place definition second :=
  List.flatMap_append

end Fragment

/-! ## Instructions with at most so many references -/

namespace Instruction

/-- No more than `n` references are made to the external at `place`, each of them after a pairing
of its own, and nothing else names that external. -/
inductive Refers (place count : Nat) : Nat → List Instruction → Prop
  | nil (n : Nat) : Refers place count n []
  | code {n : Nat} {fragment : Fragment} {is : List Instruction} :
      fragment.external? = none → Refers place count n is →
        Refers place count n (.append fragment :: is)
  | sign {n : Nat} {is : List Instruction} : Refers place count n is →
      Refers place count n (.choose [.operator .add, .operator .subtract] :: is)
  | other {n external choices : Nat} {make : Nat → Fragment} {is : List Instruction} :
      external ≠ place → (∀ branch, (make branch).external? = some external) →
        Refers place count n is →
          Refers place count n (.pair external choices :: .appendPaired external make :: is)
  | self {n : Nat} {is : List Instruction} : Refers place count n is →
      Refers place count (n + 1)
        (.pair place count :: .appendPaired place (.reference place) :: is)

namespace Refers

variable {place count m n : Nat} {is is' : List Instruction}

theorem mono (h : Refers place count n is) (hle : n ≤ m) : Refers place count m is := by
  induction h generalizing m with
  | nil => exact .nil m
  | code hfragment _ ih => exact .code hfragment (ih hle)
  | sign _ ih => exact .sign (ih hle)
  | other hne hmake _ ih => exact .other hne hmake (ih hle)
  | self _ ih =>
    obtain ⟨m, rfl⟩ := Nat.exists_eq_add_of_le' (Nat.one_le_of_lt hle)
    exact .self (ih (Nat.le_of_succ_le_succ hle))

theorem append (h : Refers place count n is) (h' : Refers place count m is') :
    Refers place count (n + m) (is ++ is') := by
  induction h with
  | nil n => exact h'.mono (Nat.le_add_left m n)
  | code hfragment _ ih => exact .code hfragment ih
  | sign _ ih => exact .sign ih
  | other hne hmake _ ih => exact .other hne hmake ih
  | @self n _ _ ih =>
    rw [Nat.add_right_comm]
    exact .self ih

/-- What is put behind names no external. -/
theorem concat (h : Refers place count n is) {fragment : Fragment}
    (hfragment : fragment.external? = none) :
    Refers place count n (is ++ [.append fragment]) :=
  h.append (.code hfragment (.nil 0))

theorem between {es : List Emission} (h : Refers place count n (Emission.instructions es))
    {opening : Fragment} (hopening : opening.external? = none) :
    Refers place count n (Emission.instructions (Walk.between opening es)) := by
  rw [Walk.instructions_between]
  exact .code hopening (h.concat rfl)

end Refers

end Instruction

/-! ## Names and references -/

namespace Node

theorem namesAll_append (first second : List Node) :
    namesAll (first ++ second) = namesAll first ++ namesAll second := by
  induction first with
  | nil => rfl
  | cons node rest ih => rw [List.cons_append, namesAll, namesAll, ih, List.append_assoc]

theorem namesAll_sublist {nodes part : List Node} (h : part.Sublist nodes) :
    (namesAll part).Sublist (namesAll nodes) := by
  induction h with
  | slnil => exact .slnil
  | cons node _ ih => exact ih.trans (List.sublist_append_right _ _)
  | cons_cons node _ ih => exact ih.append_left node.names

theorem namesAll_simple (base : Node) : (namesAll (Walk.simple base)).Sublist base.names := by
  cases base with
  | literal text =>
    rw [Walk.simple]
    split <;> exact List.nil_sublist _
  | var name => exact List.Sublist.refl _
  | group body => exact List.Sublist.refl _
  | _ => exact List.nil_sublist _

end Node

/-- The names in what is visited. -/
def Stretch.names : Stretch → List String
  | siblings _ nodes => Node.namesAll nodes
  | single node rest consumed => node.names ++ Node.namesAll (rest.take consumed)

theorem Stretch.names_following (marked : Bool) (anchor : Node) (rest : List Node) :
    (Node.namesAll (Operand.following marked (anchor :: rest)).nodes).Sublist
      (single anchor rest (Operand.following marked (anchor :: rest)).consumed).names := by
  rw [Stretch.names, Operand.take_following]
  exact (Node.namesAll_sublist (List.sublist_append_left _ _)).trans (List.sublist_append_right _ _)

theorem Stretch.names_inner (anchor : Node) (rest : List Node) :
    (Node.namesAll (Operand.following false (anchor :: rest)).inner).Sublist
      (single anchor rest (Operand.following false (anchor :: rest)).consumed).names :=
  (Node.namesAll_sublist (Operand.inner_isInfix _).sublist).trans (names_following ..)

theorem Entry.external?_instruction {symbol : String} {entry : Entry}
    (h : Entry.ofSymbol? symbol = some entry) {fragment : Fragment}
    (hcode : entry.instruction = .append fragment) : fragment.external? = none := by
  obtain ⟨mark, _, hmark⟩ := Option.bind_eq_some_iff.1 h
  cases mark with
  | equality => cases hmark
  | plusMinus =>
    obtain rfl := Option.some.inj hmark
    cases hcode
  | _ =>
    obtain rfl := Option.some.inj hmark
    cases hcode
    rfl

theorem Stretch.names_cons (previous : Option Node) (node : Node) (rest : List Node)
    (consumed : Nat) : (siblings previous (node :: rest)).names =
      (single node rest consumed).names ++ Node.namesAll (rest.drop consumed) := by
  rw [names, names, Node.namesAll, List.append_assoc, ← Node.namesAll_append,
    List.take_append_drop]

section Refers

variable {s : Session} {name : String} {equation : Equation Float} {place : Nat} {d : Declared}

/-- A function that is applied is not the variable `name`. -/
theorem Declared.placeOf_function_ne (hs : s.NamesBind) (hresolve : s.resolve name = some equation)
    (hvariable : equation.isFunction = false) {other : String} {e : Equation Float}
    (hother : s.resolve other = some e) (hfunction : e.isFunction = true)
    (hkeeps : (d.declaring e).Keeps name place) : d.placeOf e ≠ place := by
  have hne : other ≠ name := by
    rintro rfl
    rw [hresolve] at hother
    rw [Option.some.inj hother, hfunction] at hvariable
    cases hvariable
  exact Declared.placeOf_ne hkeeps (hs.name?_of_resolve hother) hne

namespace Instruction

theorem Refers.applied {count n : Nat} {e : Equation Float} {es warnings : List Emission}
    {make : Nat → Nat → Fragment} (hplace : d.placeOf e ≠ place)
    (hmake : ∀ external branch, (make external branch).external? = some external)
    (hwarnings : Emission.instructions warnings = [])
    (hes : Refers place count n (Emission.instructions es)) :
    Refers place count n (Emission.instructions (Walk.pairing d e make ++ es ++
      .instruction (.append .close) :: warnings)) := by
  rw [List.append_assoc, Emission.instructions_append, Emission.instructions_append,
    Emission.instructions_cons_instruction, hwarnings]
  exact .other hplace (hmake _) (hes.concat rfl)

end Instruction

open Instruction in
/-- A name is referred to no more often than it stands in the nodes. -/
theorem Visits.refers (hs : s.NamesBind) (hresolve : s.resolve name = some equation)
    (hvariable : equation.isFunction = false) {depth : Nat} {stretch : Stretch} {d d' : Declared}
    {es : List Emission} (h : Visits s depth stretch d es d') (hplace : d'.Keeps name place) :
    Refers place equation.branchCount (stretch.names.count name) (Emission.instructions es) := by
  induction h with
  | nil => exact .nil _
  | @cons _ consumed _ _ _ _ _ _ _ _ _ hrest ihnode ihrest =>
    have hboth := (ihnode (hplace.of_grow hrest.externals_grow)).append (ihrest hplace)
    rw [← List.count_append] at hboth
    rw [Stretch.names_cons _ _ _ consumed, Emission.instructions_append,
      Emission.instructions_cons_visit, Emission.instructions_append, Walk.instructions_joint]
    split
    · exact .code rfl hboth
    · exact hboth
  | bars hclosed _ _ ih =>
    rw [Stretch.names, Operand.take_absolute hclosed, Node.namesAll_append]
    refine (Refers.between (ih hplace) rfl).mono (List.Sublist.count_le _ ?_)
    exact (List.sublist_append_left _ _).trans (List.sublist_append_right _ _)
  | piece => exact .code rfl (.nil _)
  | name => exact .code rfl (.nil _)
  | @reference _ other _ d e _ hother _ =>
    by_cases hne : other = name
    · subst hne
      obtain rfl := Option.some.inj (hother.symm.trans hresolve)
      have hself := Declared.placeOf_self (d := d) hplace (hs.name?_of_resolve hresolve)
      have hpairing : Emission.instructions (Walk.pairing d e .reference) =
          [.pair place e.branchCount, .appendPaired place (.reference place)] := by
        rw [← hself]
        rfl
      rw [hpairing, Stretch.names, List.take_zero, Node.names, Node.namesAll, List.append_nil,
        List.count_singleton_self]
      exact .self (.nil 0)
    · have hdifferent := Declared.placeOf_ne hplace (hs.name?_of_resolve hother) hne
      exact .other hdifferent (fun _ => rfl) (.nil _)
  | application _ hother hfunction _ _ hbody ih =>
    have hinside := (ih hplace).mono (List.Sublist.count_le name (Stretch.names_inner _ _))
    have hdifferent := Declared.placeOf_function_ne hs hresolve hvariable hother hfunction
      (hplace.of_grow hbody.externals_grow)
    exact .applied hdifferent (fun _ _ => rfl) Emission.instructions_nil hinside
  | atom hentry =>
    rcases Entry.instruction_cases hentry with hsign | ⟨fragment, -, -, hcode⟩
    · rw [hsign]
      exact .sign (.nil _)
    · have hnone := Entry.external?_instruction hentry hcode
      rw [hcode]
      exact .code hnone (.nil _)
  | power _ _ h₁ h₂ ih₁ ih₂ =>
    refine Refers.between ?_ rfl
    rw [Emission.instructions_append, Emission.instructions_cons_instruction]
    refine Refers.mono
      (.append (ih₁ (hplace.of_grow h₂.externals_grow)) (.code rfl (ih₂ hplace))) ?_
    rw [← List.count_append]
    refine List.Sublist.count_le _ ?_
    exact ((Node.namesAll_simple _).append (Node.namesAll_simple _)).trans
      (List.sublist_append_left _ _)
  | angle _ _ ih =>
    exact (ih hplace).mono (List.Sublist.count_le _
      ((Node.namesAll_simple _).trans (List.sublist_append_left _ _)))
  | derivative hother _ _ hbody ih =>
    have hinside := (ih hplace).mono (List.Sublist.count_le name (Stretch.names_inner _ _))
    obtain ⟨hother, hfunction⟩ := Option.filter_eq_some_iff.1 hother
    have hdifferent := Declared.placeOf_function_ne hs hresolve hvariable hother hfunction
      (hplace.of_grow hbody.externals_grow)
    have hmake : ∀ external branch,
        (Fragment.derivative external branch s.config.step).external? = some external :=
      fun _ _ => rfl
    exact .applied hdifferent hmake rfl hinside
  | fraction _ _ h₁ h₂ ih₁ ih₂ =>
    refine Refers.between ?_ rfl
    rw [Emission.instructions_append, Emission.instructions_cons_instruction]
    refine Refers.mono (.append (.between (ih₁ (hplace.of_grow h₂.externals_grow)) rfl)
      (.code rfl (.between (ih₂ hplace) rfl))) ?_
    rw [← List.count_append]
    exact List.Sublist.count_le _ (List.sublist_append_left _ _)
  | root _ _ ih =>
    exact ((ih hplace).between rfl).mono (List.Sublist.count_le _ (List.sublist_append_left _ _))
  | group _ ih =>
    exact (ih hplace).mono (List.Sublist.count_le _ (List.sublist_append_left _ _))
  | sum _ _ _ ih =>
    exact ((ih hplace).between rfl).mono (List.Sublist.count_le _ (Stretch.names_following _ _ _))
  | integral _ _ _ _ ih =>
    exact ((ih hplace).between rfl).mono (List.Sublist.count_le _ (Stretch.names_following _ _ _))
  | turned _ _ _ ih =>
    exact ((ih hplace).between rfl).mono (List.Sublist.count_le _ (Stretch.names_following _ _ _))

end Refers

/-! ## The branches of unfolded code -/

section Script

variable {place : Nat} {pairings pairings' : List (Nat × Nat)}

theorem skip_inj {i j : Nat} (hi : i ≠ place) (hj : j ≠ place) :
    skip place i = skip place j ↔ i = j := by
  unfold skip
  split <;> split <;> omega

/-- The branches chosen of the other externals, which have moved up. -/
def Moved (place : Nat) (pairings pairings' : List (Nat × Nat)) : Prop :=
  ∀ external, external ≠ place →
    pairings'.lookup (skip place external) = pairings.lookup external

theorem Moved.enter (h : Moved place pairings pairings') {external : Nat} (hne : external ≠ place)
    (branch : Nat) : Moved place (Branch.enter external branch pairings)
      (Branch.enter (skip place external) branch pairings') := by
  intro other hother
  rw [Branch.lookup_enter, Branch.lookup_enter, h other hother]
  simp only [skip_inj hother hne]

theorem Moved.enter_self (h : Moved place pairings pairings') (branch : Nat) :
    Moved place (Branch.enter place branch pairings) pairings' := by
  intro other hother
  rw [Branch.lookup_enter, if_neg hother, h other hother]

private theorem map_unfoldAll_cons {definition : Nat → List Fragment} {f f' : Fragment}
    (hf : f.unfold place definition = [f']) (script : Option (List Fragment)) :
    (script.map (f :: ·)).map (Fragment.unfoldAll place definition) =
      (script.map (Fragment.unfoldAll place definition)).map (f' :: ·) := by
  rw [Option.map_map, Option.map_map]
  congr 1
  funext fs
  exact (Fragment.unfoldAll_cons ..).trans (by rw [hf]; rfl)

/-- Branch `k` of the unfolded code is branch `k` with its branch of the definition in the place of
the reference. The branch of the definition is not chosen yet where a reference is still to come. -/
def ScriptsUnfold (place : Nat) (code : List Instruction) (n : Nat) (is : List Instruction) :
    Prop :=
  ∀ pairings pairings' : List (Nat × Nat), Moved place pairings pairings' →
    (n = 1 → pairings.lookup place = none) → ∀ k,
      script? pairings' (Instruction.unfoldAll place code is) k =
        (script? pairings is k).map
          (Fragment.unfoldAll place fun branch => select branch.testBit 0 code)

namespace ScriptsUnfold

variable {code is : List Instruction} {n : Nat}

theorem append {fragment : Fragment} (hfragment : fragment.external? = none)
    (h : ScriptsUnfold place code n is) : ScriptsUnfold place code n (.append fragment :: is) := by
  intro pairings pairings' hmoved hnew k
  have hsame : fragment.unfold place (fun branch => select branch.testBit 0 code) =
      [fragment.skip place] := Fragment.unfold_of_external? hfragment (by simp)
  rw [Fragment.skip_of_external? hfragment] at hsame
  rw [script?_append, map_unfoldAll_cons hsame, ← h _ _ hmoved hnew k]
  rfl

theorem sign (h : ScriptsUnfold place code n is) :
    ScriptsUnfold place code n (.choose [.operator .add, .operator .subtract] :: is) := by
  intro pairings pairings' hmoved hnew k
  have hchoose : Instruction.unfoldAll place code
      (.choose [.operator .add, .operator .subtract] :: is) =
        .choose [.operator .add, .operator .subtract] :: Instruction.unfoldAll place code is := rfl
  rw [hchoose, script?_choose, script?_choose, h _ _ hmoved hnew]
  cases hsign : [Fragment.operator .add, .operator .subtract][
      k % [Fragment.operator .add, .operator .subtract].length]? with
  | none => rfl
  | some sign =>
    have hsame : sign.unfold place (fun branch => select branch.testBit 0 code) = [sign] := by
      rcases Fragment.sign_cases hsign with rfl | rfl <;> rfl
    exact (map_unfoldAll_cons hsame _).symm

theorem other {external choices : Nat} {make : Nat → Fragment} (hne : external ≠ place)
    (hmake : ∀ branch, (make branch).external? = some external)
    (h : ScriptsUnfold place code n is) :
    ScriptsUnfold place code n (.pair external choices :: .appendPaired external make :: is) := by
  intro pairings pairings' hmoved hnew k
  have hother : Instruction.unfoldAll place code
      (.pair external choices :: .appendPaired external make :: is) =
        .pair (skip place external) choices :: .appendPaired (skip place external)
          (fun branch => (make branch).skip place) :: Instruction.unfoldAll place code is := by
    simp [Instruction.unfoldAll, Instruction.unfold, hne]
  have hpaired : ∀ {pairings pairings' : List (Nat × Nat)} (k : Nat),
      Moved place pairings pairings' → (n = 1 → pairings.lookup place = none) →
      script? pairings' (.appendPaired (skip place external)
          (fun branch => (make branch).skip place) :: Instruction.unfoldAll place code is) k =
        (script? pairings (.appendPaired external make :: is) k).map
          (Fragment.unfoldAll place fun branch => select branch.testBit 0 code) := by
    intro pairings pairings' k hmoved hnew
    rw [script?_appendPaired, script?_appendPaired, hmoved external hne, Option.map_bind]
    congr 1
    funext branch
    have hsame : (make branch).unfold place (fun branch => select branch.testBit 0 code) =
        [(make branch).skip place] :=
      Fragment.unfold_of_external? (hmake branch) fun heq => hne (Option.some.inj heq)
    rw [Function.comp_apply, map_unfoldAll_cons hsame, h _ _ hmoved hnew k]
  rw [hother, script?_pair, script?_pair, hmoved external hne]
  split
  · exact hpaired k hmoved hnew
  · split
    · rfl
    · refine hpaired _ (hmoved.enter hne _) fun h => ?_
      rw [Branch.lookup_enter, if_neg hne.symm]
      exact hnew h

/-- The one reference: the digit that chooses the branch is made of the digits that choose the
signs. -/
theorem self (hcode : ∀ i ∈ code, i.IsPlain) (h : ScriptsUnfold place code 0 is) :
    ScriptsUnfold place code 1
      (.pair place (2 ^ signCount code) :: .appendPaired place (.reference place) :: is) := by
  intro pairings pairings' hmoved hnew k
  have hpositive : 2 ^ signCount code ≠ 0 := Nat.ne_of_gt (Nat.two_pow_pos _)
  have hself : Instruction.unfoldAll place code (.pair place (2 ^ signCount code) ::
      .appendPaired place (.reference place) :: is) =
        .append .openParen :: (code ++ .append .close :: Instruction.unfoldAll place code is) := by
    simp [Instruction.unfoldAll, Instruction.unfold]
  have hrest := h _ _ (hmoved.enter_self (k % 2 ^ signCount code)) (by simp)
    (k / 2 ^ signCount code)
  rw [hself, script?_append, script?_append_plain hcode, script?_append, hrest]
  simp only [script?_pair, script?_appendPaired, hnew rfl, hpositive, Option.isSome_none,
    Bool.false_eq_true, if_false, Branch.lookup_enter, if_true, Option.bind_some, Option.map_map]
  congr 1
  funext fs
  simp only [Function.comp_apply, Fragment.unfoldAll_cons, Fragment.unfold_self]
  rw [← select_mod hcode]
  simp

end ScriptsUnfold

theorem Instruction.Refers.scriptsUnfold {code : List Instruction} (hcode : ∀ i ∈ code, i.IsPlain)
    {n : Nat} {is : List Instruction} (h : Instruction.Refers place (2 ^ signCount code) n is)
    (hn : n ≤ 1) : ScriptsUnfold place code n is := by
  induction h with
  | nil =>
    intro pairings pairings' _ _ k
    rw [Instruction.unfoldAll, List.flatMap_nil, script?_nil, script?_nil]
    split <;> rfl
  | code hfragment _ ih => exact (ih hn).append hfragment
  | sign _ ih => exact (ih hn).sign
  | other hne hmake _ ih => exact (ih hn).other hne hmake
  | @self n _ _ ih =>
    obtain rfl : n = 0 := Nat.le_zero.1 (Nat.le_of_succ_le_succ hn)
    exact .self hcode (ih (Nat.zero_le 1))

/-- The external that a fragment applies. -/
def Fragment.applied? : Fragment → Option Nat
  | apply external _ | derivative external _ _ => some external
  | _ => none

theorem Fragment.external?_of_applied? {f : Fragment} {external : Nat}
    (h : f.applied? = some external) : f.external? = some external := by
  cases f with
  | apply _ _ => exact h
  | derivative _ _ _ => exact h
  | _ => cases h

/-- The external at `place` is only referred to, not applied. -/
theorem Instruction.Refers.applied? {count n : Nat} {is : List Instruction}
    (h : Refers place count n is) : some place ∉ is.filterMap (put? Fragment.applied?) := by
  have hput : ∀ {i : Instruction} {is : List Instruction} {applied : Option Nat},
      i.put? Fragment.applied? = some applied → applied ≠ some place →
        some place ∉ is.filterMap (put? Fragment.applied?) →
          some place ∉ (i :: is).filterMap (put? Fragment.applied?) := by
    intro i is applied hi hne his
    rw [List.filterMap_cons_some hi, List.mem_cons, not_or]
    exact ⟨hne.symm, his⟩
  have hpair : ∀ (external choices : Nat) (is : List Instruction),
      (pair external choices :: is).filterMap (put? Fragment.applied?) =
        is.filterMap (put? Fragment.applied?) := fun _ _ _ => List.filterMap_cons_none rfl
  induction h with
  | nil => exact List.not_mem_nil
  | code hfragment _ ih =>
    refine hput rfl (fun heq => ?_) ih
    rw [Fragment.external?_of_applied? heq] at hfragment
    cases hfragment
  | sign _ ih => exact hput rfl (by rintro ⟨⟩) ih
  | other hne hmake _ ih =>
    rw [hpair]
    refine hput rfl (fun heq => hne ?_) ih
    exact Option.some.inj ((hmake 0).symm.trans (Fragment.external?_of_applied? heq))
  | self _ ih =>
    rw [hpair]
    exact hput rfl (by rintro ⟨⟩) ih

end Script

end Formulary
