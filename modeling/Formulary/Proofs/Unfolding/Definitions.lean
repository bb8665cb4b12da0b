import Mathlib.Data.List.Nodup
import Formulary.Proofs.Cardinality
import Formulary.Proofs.Unfolding.Values

/-!
# A reference means its definition

An equation in which one name gives way to its definition compiles where the equation does, with the
same arguments and as many branches, and each of its branches has the same values.
-/

namespace Formulary

open Evaluation Expression

/-! ## Both sides of the equality -/

namespace Binding

theorem Separated.names {parameters : List String} {nodes : List Node}
    (h : Separated parameters nodes) : parameters ⊆ Node.namesAll nodes := by
  induction h with
  | nil => exact List.Subset.refl _
  | single name => exact List.Subset.refl _
  | @cons name second names separator nodes _ _ ih =>
    have hmore : second :: names ⊆ Node.namesAll (separator :: nodes) :=
      List.subset_append_of_subset_right _ ih
    exact List.cons_subset_cons _ hmore

/-- Parameters are names on the left side. -/
theorem parameters_of_ofNodes {nodes : List Node} {binding : Binding}
    (h : ofNodes nodes = .ok binding) : binding.parameters ⊆ Node.namesAll nodes := by
  cases ofNodes_eq_ok_iff.1 h with
  | plain name => exact List.nil_subset _
  | @parameterized name parameters opening closing inner _ _ hseparated _ =>
    have hinner := Node.namesAll_sublist
      ((List.sublist_append_left inner [closing]).trans (List.sublist_cons_self opening _))
    exact List.subset_cons_of_subset _ (List.Subset.trans hseparated.names hinner.subset)

end Binding

namespace Session

variable {name : String} {nodes : List Node}

/-- What is named on the right side only is not named left of the equality. -/
private theorem not_mem_left {i : Nat} (honly : (Node.namesAll nodes).count name =
      (Node.namesAll (nodes.drop (i + 1))).count name) : name ∉ Node.namesAll (nodes.take i) := by
  have hcount := honly
  rw [← List.take_append_drop (i + 1) nodes, Node.namesAll_append, List.count_append] at hcount
  have hzero : (Node.namesAll (nodes.take (i + 1))).count name = 0 := by
    simpa using hcount
  have hprefix : nodes.take i <+: nodes.take (i + 1) := List.take_prefix_take_left (Nat.le_succ i)
  have hleft := Node.namesAll_sublist hprefix.sublist
  exact fun hmem => List.count_eq_zero.1 hzero (hleft.subset hmem)

theorem splitSides_unfold (definition : List Node) (honly : (Node.namesAll nodes).count name =
      (Node.namesAll (Node.rightSide nodes)).count name) :
    splitSides (Node.unfoldAll name definition nodes) = (splitSides nodes).map fun sides =>
      (sides.1, Node.unfoldAll name definition sides.2) := by
  have hindex : (Node.unfoldAll name definition nodes).findIdx? Node.isEquality =
      nodes.findIdx? Node.isEquality := by
    have hsame : Node.isEquality ∘ Node.unfold name definition = Node.isEquality := by
      funext node
      exact Node.isEquality_unfold name definition node
    rw [Node.unfoldAll_eq_map, List.findIdx?_map, hsame]
  rw [splitSides, splitSides, hindex]
  cases hfound : nodes.findIdx? Node.isEquality with
  | none => rfl
  | some i =>
    rw [Node.rightSide, hfound] at honly
    have hleft := Node.unfoldAll_of_not_mem definition _ (not_mem_left honly)
    rw [Node.unfoldAll_eq_map] at hleft
    simp only [Node.unfoldAll_eq_map, ← List.map_take, ← List.map_drop, hleft]
    cases Binding.ofNodes (nodes.take i) <;> rfl

theorem isLocal_declaredBy {right : List Node} {binding : Option Binding}
    (hsides : splitSides nodes = .ok (binding, right))
    (honly : (Node.namesAll nodes).count name = (Node.namesAll (Node.rightSide nodes)).count name) :
    (declaredBy binding).symbols.isLocal name = false := by
  rw [splitSides] at hsides
  cases hfound : nodes.findIdx? Node.isEquality with
  | none =>
    rw [hfound] at hsides
    obtain ⟨rfl, -⟩ := Prod.mk.inj (Except.ok.inj hsides)
    rfl
  | some i =>
    rw [Node.rightSide, hfound] at honly
    rw [hfound] at hsides
    cases hbinding : Binding.ofNodes (nodes.take i) with
    | error e => simp [hbinding, Except.map] at hsides
    | ok b =>
      obtain ⟨rfl, -⟩ : some b = binding ∧ nodes.drop (i + 1) = right := by
        simpa [hbinding, Except.map] using hsides
      have hnot : name ∉ b.parameters := fun hmem =>
        not_mem_left honly (Binding.parameters_of_ofNodes hbinding hmem)
      rw [declaredBy, Option.elim_some, Declared.symbols_addArguments, Symbols.isLocal_addArguments]
      simpa [Symbols.isLocal, Symbols.isArgument, Symbols.isBound] using hnot

end Session

/-! ## The place of the name -/

section Place

variable {name : String} {d d' : Declared}

/-- Where names are entered once, each has one place. -/
theorem Declared.keeps_findIdx (h : (d.externals.map Equation.name?).Nodup) (name : String) :
    d.Keeps name (d.externals.findIdx (·.name? == some name)) := by
  intro i e he
  obtain ⟨hlt, rfl⟩ := List.getElem?_eq_some_iff.1 he
  constructor
  · intro hname
    have hfirst : d.externals.findIdx (·.name? == some name) < d.externals.length :=
      List.findIdx_lt_length.2 ⟨_, List.getElem_mem hlt, by simp [hname]⟩
    have hfound := List.findIdx_getElem (w := hfirst)
    have hsame := (beq_iff_eq.1 hfound).trans hname.symm
    have hlength : (d.externals.map Equation.name?).length = d.externals.length := List.length_map _
    have hplaces := @List.Nodup.getElem_inj_iff _ _ h _ (hlength ▸ hfirst) _ (hlength ▸ hlt)
    rw [List.getElem_map, List.getElem_map] at hplaces
    exact (hplaces.1 hsame).symm
  · rintro rfl
    exact beq_iff_eq.1 (List.findIdx_getElem (w := hlt))

end Place

/-! ## Equations without the external -/

section Equations

variable {α : Type}

/-- The equation with the trees of one external in its branches in the place of that external. -/
def Equation.unfold (place : Nat) (trees : Nat → Expression α) (e : Equation α) : Equation α where
  binding := e.binding
  arguments := e.arguments
  bound := e.bound
  branches := e.branches.map (Expression.unfold place trees)
  externals := e.externals.eraseIdx place

/-- Results that are the same wherever there are any. -/
theorem mapM_ok_congr {β γ ε : Type} {f g : β → Except ε γ} {xs : List β} {ys : List γ}
    (h : ∀ x ∈ xs, ∀ y, f x = .ok y ↔ g x = .ok y) : xs.mapM f = .ok ys ↔ xs.mapM g = .ok ys := by
  rw [Session.mapM_eq_ok_iff, Session.mapM_eq_ok_iff]
  induction xs generalizing ys with
  | nil => rfl
  | cons x xs ih =>
    obtain ⟨hx, hxs⟩ := List.forall_mem_cons.1 h
    cases ys with
    | nil => exact iff_of_false (by rintro ⟨⟩) (by rintro ⟨⟩)
    | cons y ys =>
      rw [List.map_cons, List.map_cons, List.map_cons, List.cons.injEq, List.cons.injEq, hx y,
        ih hxs]

theorem Equation.branchValues_unfold [Quantity α] {place : Nat} {trees : Nat → Expression α}
    {e : Equation α} (h : ∀ branch ∈ e.branches, ∀ part ∈ branch.parts,
      part.Unfoldable (e.externals.map callable) ((e.externals.eraseIdx place).map callable) place
        trees) (values vs : List α) :
    e.branchValues values = .ok vs ↔ (e.unfold place trees).branchValues values = .ok vs := by
  have hxs : ∀ i, i ≠ place → ((e.externals.eraseIdx place).map callable)[skip place i]? =
      (e.externals.map callable)[i]? := by
    intro i hi
    rw [List.getElem?_map, List.getElem?_map, getElem?_eraseIdx_skip _ hi]
  have hunfold : (e.unfold place trees).arguments = e.arguments := rfl
  rw [branchValues, branchValues, hunfold]
  split
  · exact iff_of_false (by rintro ⟨⟩) (by rintro ⟨⟩)
  · simp only [Equation.unfold, List.mapM_map]
    refine mapM_ok_congr fun branch hbranch value => ?_
    obtain ⟨r, r', hr, hr', hsame⟩ := evaluate_unfold hxs branch (h branch hbranch)
      (e.arguments.zip values).reverse
    rw [Function.comp_apply, hr, hr']
    exact hsame value

end Equations

theorem Symbols.mem_arguments_addArguments {names : List String} {name : String} :
    name ∈ (addArguments {} names).arguments ↔ name ∈ names := by
  have hbound : ∀ (s : Symbols) (names : List String), (s.addArguments names).bound = s.bound := by
    intro s names
    induction names generalizing s with
    | nil => rfl
    | cons other names ih => rw [addArguments_cons, ih, addArgument_bound]
  have hlocal : (addArguments {} names).isLocal name = _ := isLocal_addArguments {} names
  simpa [isLocal, isArgument, isBound, hbound] using hlocal

/-! ## Compiling with the definition -/

namespace Session

variable {s : Session} {name : String} {right : List Node} {bound : Equation Float}
  {code : List Instruction} {trees : Nat → Expression Float} {place : Nat}

/-- Where what stands for the image of a value is the image of what stands for the value, lists
that stand for images are images. -/
theorem forall_rel_map_iff {β β' γ γ' : Type} {p : β → γ → Prop} {q : β' → γ' → Prop}
    {g : β → β'} {f : γ → γ'} (h : ∀ b y, q (g b) y ↔ ∃ x, p b x ∧ y = f x)
    {source : Nat → Option β} {ys : List γ'} :
    (∀ k : Nat, Option.Rel q ((source k).map g) ys[k]?) ↔
      ∃ xs : List γ, (∀ k : Nat, Option.Rel p (source k) xs[k]?) ∧ ys = xs.map f := by
  constructor
  · intro hrel
    induction ys generalizing source with
    | nil =>
      refine ⟨[], fun k => ?_, rfl⟩
      have hk := hrel k
      rw [List.getElem?_nil] at hk ⊢
      cases hsource : source k with
      | none => exact .none
      | some b =>
        rw [hsource] at hk
        cases hk
    | cons y ys ih =>
      obtain ⟨xs, hxs, rfl⟩ := ih fun k => hrel (k + 1)
      have hfirst := hrel 0
      rw [List.getElem?_cons_zero] at hfirst
      cases hsource : source 0 with
      | none =>
        rw [hsource] at hfirst
        cases hfirst
      | some b =>
        rw [hsource] at hfirst
        cases hfirst with
        | some hy =>
          obtain ⟨x, hx, rfl⟩ := (h b y).1 hy
          refine ⟨x :: xs, fun k => ?_, rfl⟩
          cases k with
          | zero =>
            rw [hsource]
            exact .some hx
          | succ k => exact hxs k
  · rintro ⟨xs, hrel, rfl⟩ k
    have hk := hrel k
    rw [List.getElem?_map]
    generalize source k = b at hk
    generalize xs[k]? = x at hk
    cases hk with
    | none => exact .none
    | some hx => exact .some ((h _ _).2 ⟨_, hx, rfl⟩)

/-- The branches of unfolded code are the unfolded branches. -/
theorem readBranches_unfoldAll (hcode : ∀ i ∈ code, i.IsPlain)
    (htrees : ∀ branch, IsSum (branchCode code branch) (trees branch)) {is : List Instruction}
    (hrefers : Instruction.Refers place (2 ^ signCount code) 1 is)
    (hruns : (BranchSet.runAll {} is).isSome)
    (hruns' : (BranchSet.runAll {} (Instruction.unfoldAll place code is)).isSome)
    (branches' : List (Expression Float)) :
    readBranches (Instruction.unfoldAll place code is) = .ok branches' ↔
      ∃ branches, readBranches is = .ok branches ∧
        branches' = branches.map (Expression.unfold place trees) := by
  have hscript : ∀ k, script? [] (Instruction.unfoldAll place code is) k = (script? [] is k).map
      (Fragment.unfoldAll place fun branch => select branch.testBit 0 code) :=
    hrefers.scriptsUnfold hcode (Nat.le_refl 1) [] [] (fun _ _ => rfl) fun _ => rfl
  simp only [readBranches_eq_ok_iff, hruns, hruns', true_and, hscript]
  refine forall_rel_map_iff fun fs e' => ?_
  rw [Fragment.joined_unfoldAll]
  exact isSum_unfoldAll_iff htrees

theorem outcome_of_visits {nodes right : List Node} {binding : Option Binding}
    {es : List Emission} {d : Declared} (hsides : splitSides nodes = .ok (binding, right))
    (hvisits : Visits s 0 (.siblings none right) (declaredBy binding) es d)
    {equation : Equation Float} :
    (s.compile nodes).outcome = .ok equation ↔
      ∃ branches, readBranches (Emission.instructions es) = .ok branches ∧
        equation = ⟨binding, d.symbols.arguments, d.symbols.bound, branches, d.externals⟩ := by
  rw [compile_outcome_eq_ok_iff]
  constructor
  · rintro ⟨binding', right', es', d', branches, hsides', hvisits', hread, rfl⟩
    obtain ⟨rfl, rfl⟩ := Prod.mk.inj (Except.ok.inj (hsides'.symm.trans hsides))
    obtain ⟨rfl, rfl⟩ := hvisits'.unique hvisits
    exact ⟨branches, hread, rfl⟩
  · rintro ⟨branches, hread, rfl⟩
    exact ⟨binding, right, es, d, branches, hsides, hvisits, hread, rfl⟩

theorem outcome_ne_ok_of_fails {nodes right : List Node} {binding : Option Binding}
    (hsides : splitSides nodes = .ok (binding, right))
    (hfails : (Walk.visitAll s 0 none right).Fails (declaredBy binding)) {e : Equation Float} :
    (s.compile nodes).outcome ≠ .ok e := by
  intro hok
  obtain ⟨binding', right', es', d, branches, hsides', hvisits, -, -⟩ :=
    compile_outcome_eq_ok_iff.1 hok
  obtain ⟨rfl, rfl⟩ := Prod.mk.inj (Except.ok.inj (hsides'.symm.trans hsides))
  obtain ⟨es, error, hfails⟩ := hfails
  have hruns : Walk.visitAll s 0 none right' (declaredBy binding') = (es', .ok ((), d)) :=
    visits_iff.1 hvisits
  cases hruns.symm.trans hfails

/-- Instructions of a walk can be run. -/
theorem isSome_runAll_of_visits {stretch : Stretch} {binding : Option Binding}
    {es : List Emission} {d : Declared} (h : Visits s 0 stretch (declaredBy binding) es d) :
    (BranchSet.runAll {} (Emission.instructions es)).isSome := by
  obtain ⟨set, hrun, -⟩ :=
    BranchSet.exists_multiplies BranchSet.pairedAs_empty h.counts.pairsFirst
  rw [hrun]
  rfl

/-- What a compiled equation says of the definition, its trees say. -/
theorem unfoldable_parts (hs : s.Reachable) (hdefines : s.Defines name right bound)
    (hcode : bound.HasCode code)
    (htrees : ∀ branch, IsSum (branchCode code branch) (trees branch))
    (hbranches : ∀ branch < bound.branchCount, bound.branches[branch]? = some (trees branch))
    {nodes : List Node} {equation : Equation Float}
    (h : (s.compile nodes).outcome = .ok equation) :
    ∀ branch ∈ equation.branches, ∀ part ∈ branch.parts,
      part.Unfoldable (equation.externals.map Equation.callable)
        ((equation.externals.eraseIdx
          (equation.externals.findIdx (·.name? == some name))).map Equation.callable)
        (equation.externals.findIdx (·.name? == some name)) trees := by
  intro branch hbranch part hpart
  have hlinked := (isLinked_of_compile hs h).heads branch hbranch part hpart
  obtain ⟨binding, r, es, d, branches, -, hvisits, hread, rfl⟩ := compile_outcome_eq_ok_iff.1 h
  have hresolved := hvisits.resolved hs.namesBind (resolved_declaredBy s binding)
  constructor
  · rintro index rfl scope
    obtain ⟨x, hx, hlt, -⟩ := hlinked _ rfl
    obtain rfl := hresolved.eq_of_findIdx hdefines.resolve hx
    have hparameters := (hs.isLinked x (mem_of_resolve hdefines.resolve)).parameters
      hdefines.isVariable
    have huses : ∀ name, .var name ∈ (trees index).uses ↔ name ∈ x.arguments := by
      intro name
      rw [uses_of_code hcode.isArithmetic (htrees index), hcode.arguments,
        Symbols.mem_arguments_addArguments]
      simp
    rw [evaluate, Equation.external_found hx]
    exact callable_agree hdefines.externals hparameters (hbranches index hlt)
      (isArithmetic_of_code hcode.isArithmetic (htrees index)) huses _
  · rintro external found happlied rfl
    have hkeeps := Declared.keeps_findIdx (hvisits.nodup_externals List.nodup_nil) name
    have hrefers := hvisits.refers hs.namesBind hdefines.resolve hdefines.isVariable hkeeps
    obtain ⟨k, fs, hscript, hsum⟩ := exists_script_of_mem hread hbranch
    obtain ⟨f, hhead, hf⟩ : ∃ f, part.head? = some f ∧
        f.applied? = some (d.externals.findIdx (·.name? == some name)) := by
      cases part with
      | apply external index arguments => exact ⟨_, rfl, congrArg (Option.map Prod.fst) happlied⟩
      | derivative external index step arguments =>
        exact ⟨_, rfl, congrArg (Option.map Prod.fst) happlied⟩
      | _ => cases happlied
    have hnumber : ∀ text, f ≠ .number text := by
      rintro text rfl
      cases hf
    have hmem := Fragment.mem_of_mem_joined hnumber
      (hsum.heads (List.mem_filterMap.2 ⟨part, hpart, hhead⟩))
    have hput : ∀ i ∈ Emission.instructions es, i.IsLinked (fun _ => True) d.externals :=
      hvisits.isLinked hs.namesBind (resolved_declaredBy s binding) (fun _ _ => trivial)
        List.prefix_rfl
    have hmap := map_script (g := Fragment.applied?) rfl (fun _ _ => rfl) (fun _ _ => rfl)
      (fun _ _ _ => rfl) hput hscript
    apply hrefers.applied?
    rw [← hmap, ← hf]
    exact List.mem_map_of_mem hmem

/-- Where both walks end well, the code of one is read where the code of the other is. -/
theorem outcome_unfoldAll_of_visits (hs : s.Reachable) (hdefines : s.Defines name right bound)
    (hcode : bound.HasCode code)
    (htrees : ∀ branch, IsSum (branchCode code branch) (trees branch)) {nodes : List Node}
    (honce : (Node.namesAll (Node.rightSide nodes)).count name = 1) {binding : Option Binding}
    (hsides : splitSides nodes = .ok (binding, Node.rightSide nodes))
    (hsides' : splitSides (Node.unfoldAll name right nodes) =
      .ok (binding, Node.unfoldAll name right (Node.rightSide nodes)))
    {es es' : List Emission} {d : Declared}
    (hvisits : Visits s 0 (.siblings none (Node.rightSide nodes)) (declaredBy binding) es d)
    (hvisits' : Visits s 0 (.siblings none (Node.unfoldAll name right (Node.rightSide nodes)))
      (declaredBy binding) es' (d.without name))
    (hes' : ∀ place, d.Keeps name place →
      Emission.instructions es' = Instruction.unfoldAll place code (Emission.instructions es))
    (equation' : Equation Float) :
    (s.compile (Node.unfoldAll name right nodes)).outcome = .ok equation' ↔
      ∃ equation, (s.compile nodes).outcome = .ok equation ∧
        equation' = equation.unfold (equation.externals.findIdx (·.name? == some name)) trees := by
  have hkeeps := Declared.keeps_findIdx (hvisits.nodup_externals List.nodup_nil) name
  have hplain := fun i hi => (hcode.isArithmetic i hi).isPlain
  have hcount : bound.branchCount = 2 ^ signCount code :=
    ((readBranches_plain hplain).1 hcode.read).1
  have hrefers := hvisits.refers hs.namesBind hdefines.resolve hdefines.isVariable hkeeps
  rw [Stretch.names, honce, hcount] at hrefers
  have hruns' := isSome_runAll_of_visits hvisits'
  rw [hes' _ hkeeps] at hruns'
  have hread := readBranches_unfoldAll hplain htrees hrefers (isSome_runAll_of_visits hvisits)
    hruns'
  rw [← hes' _ hkeeps] at hread
  rw [outcome_of_visits hsides' hvisits']
  simp only [outcome_of_visits hsides hvisits, hread]
  constructor
  · rintro ⟨_, ⟨branches, hbranches, rfl⟩, rfl⟩
    refine ⟨_, ⟨branches, hbranches, rfl⟩, ?_⟩
    rw [Equation.unfold, Declared.externals_without hkeeps]
    rfl
  · rintro ⟨_, ⟨branches, hbranches, rfl⟩, rfl⟩
    refine ⟨_, ⟨branches, hbranches, rfl⟩, ?_⟩
    rw [Equation.unfold, Declared.externals_without hkeeps]
    rfl

/-- An equation compiles with the definition where it compiles with the name. -/
theorem compile_unfoldAll (hs : s.Reachable) (hdefines : s.Defines name right bound)
    (hcode : bound.HasCode code)
    (hvisits : ∀ depth d, ∃ es, Visits s depth (.siblings none (Node.parenthesized right)) d es
        (d.addArguments bound.arguments) ∧
      Emission.instructions es = .append .openParen :: (code ++ [.append .close]))
    (htrees : ∀ branch, IsSum (branchCode code branch) (trees branch))
    (hmarker : name ≠ "d") (hdifferential : name ≠ s.config.differential)
    (harguments : ∀ e ∈ s.equations.toList, name ∉ e.arguments) {nodes : List Node}
    (honce : (Node.namesAll (Node.rightSide nodes)).count name = 1)
    (honly : (Node.namesAll nodes).count name = 1)
    (hfree : Node.standFree name (Node.rightSide nodes) = true) (equation' : Equation Float) :
    (s.compile (Node.unfoldAll name right nodes)).outcome = .ok equation' ↔
      ∃ equation, (s.compile nodes).outcome = .ok equation ∧
        equation' = equation.unfold (equation.externals.findIdx (·.name? == some name)) trees := by
  have hcounts := honly.trans honce.symm
  have hunfolded := splitSides_unfold right hcounts
  cases hsides : splitSides nodes with
  | error error =>
    rw [hsides] at hunfolded
    refine iff_of_false (fun h => ?_) fun ⟨_, h, _⟩ => ?_
    · obtain ⟨_, _, _, _, _, hok, -⟩ := compile_outcome_eq_ok_iff.1 h
      cases hunfolded.symm.trans hok
    · obtain ⟨_, _, _, _, _, hok, -⟩ := compile_outcome_eq_ok_iff.1 h
      cases hsides.symm.trans hok
  | ok sides =>
    obtain ⟨binding, r⟩ := sides
    obtain rfl := eq_rightSide_of_splitSides hsides
    rw [hsides] at hunfolded
    have hbrought : ∀ other e, s.resolve other = some e → name ∉ e.arguments :=
      fun _ e he => harguments e (mem_of_resolve he)
    have hwalks := (Walk.visitAll_unfolds hs.namesBind hbrought hdefines.resolve
      hdefines.isVariable hmarker hdifferential hvisits).1 0 none _ hfree (declaredBy binding)
      (isLocal_declaredBy hsides hcounts)
    rw [← Node.unfoldAll_eq_map] at hwalks
    rcases hwalks with ⟨⟨es, error, hfails⟩, es', error', hfails'⟩ |
      ⟨es, ⟨⟩, d, es', hruns, hruns', -, -, hes'⟩
    · exact iff_of_false (outcome_ne_ok_of_fails hunfolded ⟨es', error', hfails'⟩) fun ⟨e, he, _⟩ =>
        outcome_ne_ok_of_fails hsides ⟨es, error, hfails⟩ he
    · exact outcome_unfoldAll_of_visits hs hdefines hcode htrees honce hsides hunfolded
        (visits_iff.2 hruns) (visits_iff.2 hruns') hes' equation'

/-- A name means its definition: where it stands once, and free, the definition in parentheses may
stand for it. The equation compiles or not as before, with the same symbols and as many branches,
and whatever values it is called with, each branch has the value that it had. -/
theorem compile_definition (hs : s.Reachable) (hdefines : s.Defines name right bound)
    (hmarker : name ≠ "d") (hdifferential : name ≠ s.config.differential)
    (harguments : ∀ e ∈ s.equations.toList, name ∉ e.arguments) {nodes : List Node}
    (honce : (Node.namesAll (Node.rightSide nodes)).count name = 1)
    (honly : (Node.namesAll nodes).count name = 1)
    (hfree : Node.standFree name (Node.rightSide nodes) = true) :
    ((∃ e, (s.compile nodes).outcome = .ok e) ↔
      ∃ e', (s.compile (Node.unfoldAll name right nodes)).outcome = .ok e') ∧
    ∀ e e', (s.compile nodes).outcome = .ok e →
      (s.compile (Node.unfoldAll name right nodes)).outcome = .ok e' →
        e.arguments = e'.arguments ∧ e.bound = e'.bound ∧ e.branchCount = e'.branchCount ∧
          ∀ values vs, e.branchValues values = .ok vs ↔ e'.branchValues values = .ok vs := by
  obtain ⟨code, hcode, hvisits⟩ := hdefines.exists_code
  obtain ⟨trees, htrees, hbranches⟩ := hcode.exists_trees
  have hcompile := compile_unfoldAll hs hdefines hcode hvisits htrees hmarker hdifferential
    harguments honce honly hfree
  constructor
  · constructor
    · rintro ⟨e, he⟩
      exact ⟨_, (hcompile _).2 ⟨e, he, rfl⟩⟩
    · rintro ⟨e', he'⟩
      obtain ⟨e, he, -⟩ := (hcompile e').1 he'
      exact ⟨e, he⟩
  · intro e e' he he'
    obtain ⟨e₁, he₁, rfl⟩ := (hcompile e').1 he'
    obtain rfl := Except.ok.inj (he.symm.trans he₁)
    have hparts := unfoldable_parts hs hdefines hcode htrees hbranches he
    exact ⟨rfl, rfl, (List.length_map _).symm, Equation.branchValues_unfold hparts⟩

/-- After `b = m ± n`, the product `k b` has the values of `k (m ± n)`. -/
theorem product_with_signed_definition : ∃ (s : Session) (e e' : Equation Float), s.Reachable ∧
    (s.compile [.var "k", .var "b"]).outcome = .ok e ∧
    (s.compile [.var "k", .group [.atom "(", .var "m", .atom "±", .var "n", .atom ")"]]).outcome =
      .ok e' ∧
    e.arguments = ["k", "m", "n"] ∧ e.arguments = e'.arguments ∧ e.bound = e'.bound ∧
    e.branchCount = 2 ∧ e.branchCount = e'.branchCount ∧
    ∀ values vs, e.branchValues values = .ok vs ↔ e'.branchValues values = .ok vs := by
  have hsigned : ∀ o : Operator, o.isMultiplicative = false →
      Expression.parse [.var "m", .operator o, .var "n"] =
        .ok (.binary o (.var "m") (.var "n")) := by
    intro o ho
    have hm := Expression.IsSum.product (.signed (.operand (.var "m")))
    exact Expression.parse_eq_ok_iff.2 (hm.more ho (.signed (.operand (.var "n"))))
  have htwo : readBranches [.append (.var "m"), .choose [.operator .add, .operator .subtract],
      .append (.var "n")] =
        .ok [.binary .add (.var "m") (.var "n"), .binary .subtract (.var "m") (.var "n")] :=
    mapM_eq_ok_iff.2 (congrArg₂ ([·, ·]) (hsigned .add rfl) (hsigned .subtract rfl))
  have hfirst : ((fresh {}).compile [.var "b", .atom "=", .var "m", .atom "±", .var "n"]).outcome =
      .ok ⟨some ⟨"b", .variable, []⟩, ["m", "n"], [], [.binary .add (.var "m") (.var "n"),
        .binary .subtract (.var "m") (.var "n")], []⟩ :=
    compile_outcome_eq_ok_iff.2 ⟨_, _, _, _, _, rfl, .cons (.name (.inr rfl)) (.cons (.atom rfl)
      (.cons (.name (.inr rfl)) .nil)), htwo, rfl⟩
  have hs : ((fresh {}).compile
      [.var "b", .atom "=", .var "m", .atom "±", .var "n"]).session.Reachable :=
    .compile _ (.fresh {})
  rw [session_compile_of_ok hfirst] at hs
  have hproduct : ∀ k, Expression.parse [.var "k", .operator .multiply, .reference 0 k] =
      .ok (.binary .multiply (.var "k") (.reference 0 k)) := by
    intro k
    have hleft := Expression.IsProduct.signed (.operand (.var "k"))
    exact Expression.parse_eq_ok_iff.2
      (.product (hleft.more rfl (.operand (.reference 0 k))))
  have hread : readBranches [.append (.var "k"), .append (.operator .multiply), .pair 0 2,
      .appendPaired 0 (.reference 0)] = .ok [.binary .multiply (.var "k") (.reference 0 0),
        .binary .multiply (.var "k") (.reference 0 1)] :=
    mapM_eq_ok_iff.2 (congrArg₂ ([·, ·]) (hproduct 0) (hproduct 1))
  have hsecond : ∃ e, (((fresh {}).register ⟨some ⟨"b", .variable, []⟩, ["m", "n"], [],
      [.binary .add (.var "m") (.var "n"), .binary .subtract (.var "m") (.var "n")],
        []⟩).compile [.var "k", .var "b"]).outcome = .ok e ∧
      e.arguments = ["k", "m", "n"] ∧ e.branchCount = 2 :=
    ⟨_, compile_outcome_eq_ok_iff.2 ⟨none, _, _, _, _, rfl, .cons (.name (.inr rfl))
      (.cons (.reference rfl rfl rfl) .nil), hread, rfl⟩, rfl, rfl⟩
  obtain ⟨e, he, harguments, hcount⟩ := hsecond
  obtain ⟨hcompiles, hsame⟩ := @compile_definition _ "b" _ _ hs
    ⟨⟨_, _, hfirst, rfl⟩, rfl, rfl, rfl, rfl, by decide⟩ (by decide) (by decide) (by decide)
    [.var "k", .var "b"] (by decide) (by decide) (by decide)
  obtain ⟨e', he'⟩ := hcompiles.1 ⟨e, he⟩
  obtain ⟨hsymbols, hbound, hcounts, hvalues⟩ := hsame e e' he he'
  exact ⟨_, e, e', hs, he, he', harguments, hsymbols, hbound, hcount, hcounts, hvalues⟩

end Session

end Formulary
