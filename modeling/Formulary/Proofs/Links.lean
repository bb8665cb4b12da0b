import Formulary.Proofs.Histories
import Formulary.Proofs.Signatures

/-!
# Links

Whatever an expression names is there: its variables are arguments or bound names of its equation,
and the branches it refers to stand at their places among the externals.
-/

namespace Formulary

/-! ## The parts of an expression -/

namespace Expression

mutual

/-- An expression and all that it is made of, each behind its own parts. -/
def parts {α : Type} : Expression α → List (Expression α)
  | number value => [number value]
  | var name => [var name]
  | negate operand => operand.parts ++ [negate operand]
  | binary operator left right => left.parts ++ right.parts ++ [binary operator left right]
  | call function arguments => partsAll arguments ++ [call function arguments]
  | sum index lower upper body => body.parts ++ [sum index lower upper body]
  | integral name start width partitions rule body =>
    body.parts ++ [integral name start width partitions rule body]
  | reference external branch => [reference external branch]
  | apply external branch arguments =>
    partsAll arguments ++ [apply external branch arguments]
  | derivative external branch step arguments =>
    partsAll arguments ++ [derivative external branch step arguments]

def partsAll {α : Type} : List (Expression α) → List (Expression α)
  | [] => []
  | e :: es => e.parts ++ partsAll es

end

/-- The fragment that an expression begins with, if it names something. -/
def head? : Expression Float → Option Fragment
  | var name => some (.var name)
  | sum index lower upper _ => some (.sum index lower upper)
  | reference external branch => some (.reference external branch)
  | apply external branch _ => some (.apply external branch)
  | derivative external branch step _ => some (.derivative external branch step)
  | number _ | negate _ | binary _ _ _ | call _ _ | integral _ _ _ _ _ _ => none

private theorem heads_binary {l r : Expression Float} {left right : List Fragment}
    (hl : l.parts.filterMap head? ⊆ left) (hr : r.parts.filterMap head? ⊆ right) (o : Operator) :
    (binary o l r).parts.filterMap head? ⊆ left ++ .operator o :: right := by
  have hparts : (binary o l r).parts.filterMap head? =
      l.parts.filterMap head? ++ r.parts.filterMap head? := by
    rw [parts, List.filterMap_append, List.filterMap_append]
    exact List.append_nil _
  rw [hparts]
  exact List.append_subset.2 ⟨List.subset_append_of_subset_left _ hl,
    List.subset_append_of_subset_right _ (List.subset_cons_of_subset _ hr)⟩

/-- What begins with its own fragment names what that fragment does, and what its parts do. -/
private theorem heads_behind {e : Expression Float} {inside : List (Expression Float)}
    {opening : Fragment} {code : List Fragment} (hparts : e.parts = inside ++ [e])
    (hhead : ∀ f, e.head? = some f → f = opening) (h : inside.filterMap head? ⊆ code) :
    e.parts.filterMap head? ⊆ opening :: code := by
  rw [hparts, List.filterMap_append]
  refine List.append_subset.2 ⟨List.subset_cons_of_subset _ h, ?_⟩
  intro f hf
  obtain ⟨e', he', hf'⟩ := List.mem_filterMap.1 hf
  rw [List.mem_singleton.1 he'] at hf'
  exact List.mem_cons.2 (.inl (hhead f hf'))

mutual

/-- What an expression names its code does. -/
theorem IsSum.heads {code : List Fragment} {e : Expression Float} :
    IsSum code e → e.parts.filterMap head? ⊆ code
  | .product h => h.heads
  | .more hl _ hr => heads_binary hl.heads hr.heads _

theorem IsProduct.heads {code : List Fragment} {e : Expression Float} :
    IsProduct code e → e.parts.filterMap head? ⊆ code
  | .signed h => h.heads
  | .more hl _ hr => heads_binary hl.heads hr.heads _

theorem IsSigned.heads {code : List Fragment} {e : Expression Float} :
    IsSigned code e → e.parts.filterMap head? ⊆ code
  | .operand h => h.heads
  | .plus h => List.subset_cons_of_subset _ h.heads
  | .minus h => heads_behind rfl (by simp [head?]) h.heads

theorem IsOperand.heads {code : List Fragment} {e : Expression Float} :
    IsOperand code e → e.parts.filterMap head? ⊆ code
  | .number _ => by simp [parts, head?]
  | .var _ => List.Subset.refl _
  | .parens h => List.subset_cons_of_subset _ (List.subset_append_of_subset_left _ h.heads)
  | .call _ h _ => heads_behind rfl (by simp [head?]) h.heads
  | .sum _ _ _ h =>
    heads_behind rfl (by simp [head?]) (List.subset_append_of_subset_left _ h.heads)
  | .integral _ _ _ _ _ h =>
    heads_behind rfl (by simp [head?]) (List.subset_append_of_subset_left _ h.heads)
  | .reference _ _ => List.Subset.refl _
  | .apply _ _ h => heads_behind rfl (by simp [head?]) h.heads
  | .derivative _ _ _ h => heads_behind rfl (by simp [head?]) h.heads

theorem IsArguments.heads {code : List Fragment} {es : List (Expression Float)} :
    IsArguments code es → (partsAll es).filterMap head? ⊆ code
  | .none => List.nil_subset _
  | .some h => h.heads

theorem IsListed.heads {code : List Fragment} {es : List (Expression Float)} :
    IsListed code es → (partsAll es).filterMap head? ⊆ code
  | .last h => by
    rw [partsAll, partsAll, List.append_nil]
    exact List.subset_append_of_subset_left _ h.heads
  | .more h hrest => by
    rw [partsAll, List.filterMap_append]
    exact List.append_subset.2 ⟨List.subset_append_of_subset_left _ h.heads,
      List.subset_append_of_subset_right _ (List.subset_cons_of_subset _ hrest.heads)⟩

end

end Expression

/-! ## From the walk to the branches -/

def Fragment.unnumbered? : Fragment → Option Fragment
  | number _ => none
  | f => some f

theorem Fragment.eq_of_unnumbered? {f f' : Fragment} (h : f'.unnumbered? = some f) : f' = f := by
  cases f' with
  | number text => cases h
  | _ => exact Option.some.inj h

/-- Joining leaves all fragments but the numbers. -/
theorem Fragment.mem_of_mem_joined {f : Fragment} (hf : ∀ text, f ≠ .number text)
    {code : List Fragment} (h : f ∈ joined code) : f ∈ code := by
  have hkeeps : f.unnumbered? = some f := by
    cases f with
    | number text => exact absurd rfl (hf text)
    | _ => rfl
  have hmem : f ∈ (joined code).filterMap unnumbered? := List.mem_filterMap.2 ⟨f, h, hkeeps⟩
  rw [filterMap_joined (fun _ => rfl)] at hmem
  obtain ⟨f', hf', hsame⟩ := List.mem_filterMap.1 hmem
  exact eq_of_unnumbered? hsame ▸ hf'

theorem Fragment.sign_cases {k : Nat} {sign : Fragment}
    (h : [Fragment.operator .add, .operator .subtract][k]? = some sign) :
    sign = .operator .add ∨ sign = .operator .subtract := by
  simpa using List.mem_of_getElem? h

section Script

variable {known : String → Prop} {externals : List (Equation Float)}

/-- The branches of externals that have been chosen are there. -/
def PairsLinked (externals : List (Equation Float)) (pairings : List (Nat × Nat)) : Prop :=
  ∀ external branch, pairings.lookup external = some branch →
    ∃ e, externals[external]? = some e ∧ branch < e.branchCount

theorem PairsLinked.enter {pairings : List (Nat × Nat)} (h : PairsLinked externals pairings)
    {external branch : Nat} {e : Equation Float} (he : externals[external]? = some e)
    (hlt : branch < e.branchCount) :
    PairsLinked externals (Branch.enter external branch pairings) := by
  intro other branch' hlookup
  rw [Branch.lookup_enter] at hlookup
  split at hlookup
  · next hsame =>
    obtain rfl := Option.some.inj hlookup
    exact ⟨e, hsame ▸ he, hlt⟩
  · exact h other branch' hlookup

theorem PairsLinked.branch_lt {pairings : List (Nat × Nat)} (h : PairsLinked externals pairings)
    {external branch : Nat} {e : Equation Float} (he : externals[external]? = some e)
    (hbranch : pairings.lookup external = some branch) : branch < e.branchCount := by
  obtain ⟨e', he', hlt⟩ := h external branch hbranch
  obtain rfl := Option.some.inj (he.symm.trans he')
  exact hlt

/-- Whatever a branch names is there. -/
theorem isLinked_script {pairings : List (Nat × Nat)} {instructions : List Instruction}
    (hpairings : PairsLinked externals pairings)
    (h : ∀ i ∈ instructions, i.IsLinked known externals) {k : Nat} {code : List Fragment}
    (hcode : script? pairings instructions k = some code) :
    ∀ f ∈ code, f.IsLinked known externals := by
  induction instructions generalizing pairings k code with
  | nil =>
    rw [script?_nil] at hcode
    split at hcode
    · obtain rfl := Option.some.inj hcode
      intro f hf
      cases hf
    · cases hcode
  | cons i rest ih =>
    obtain ⟨hi, hrest⟩ := List.forall_mem_cons.1 h
    cases hi with
    | code _ hlinked =>
      obtain ⟨code', hcode', rfl⟩ := Option.map_eq_some_iff.1 hcode
      exact List.forall_mem_cons.2 ⟨hlinked, ih hpairings hrest hcode'⟩
    | var hknown =>
      obtain ⟨code', hcode', rfl⟩ := Option.map_eq_some_iff.1 hcode
      exact List.forall_mem_cons.2 ⟨hknown, ih hpairings hrest hcode'⟩
    | sign =>
      obtain ⟨sign, hsign, hmore⟩ := Option.bind_eq_some_iff.1 hcode
      obtain ⟨code', hcode', rfl⟩ := Option.map_eq_some_iff.1 hmore
      have hoperator : sign.IsLinked known externals := by
        rcases Fragment.sign_cases hsign with rfl | rfl <;> trivial
      exact List.forall_mem_cons.2 ⟨hoperator, ih hpairings hrest hcode'⟩
    | @pair external e he =>
      -- An external keeps the branch it is paired with; a new one has the next digit of `k`.
      rw [script?_pair] at hcode
      split at hcode
      · exact ih hpairings hrest hcode
      · split at hcode
        · cases hcode
        · next hcount =>
          have hlt := Nat.mod_lt k (Nat.pos_of_ne_zero hcount)
          exact ih (hpairings.enter he hlt) hrest hcode
    | reference he hfree hvariable =>
      obtain ⟨branch, hbranch, hmore⟩ := Option.bind_eq_some_iff.1 hcode
      obtain ⟨code', hcode', rfl⟩ := Option.map_eq_some_iff.1 hmore
      have hlt := hpairings.branch_lt he hbranch
      exact List.forall_mem_cons.2 ⟨⟨_, he, hlt, hfree, hvariable⟩, ih hpairings hrest hcode'⟩
    | application he hfree =>
      obtain ⟨branch, hbranch, hmore⟩ := Option.bind_eq_some_iff.1 hcode
      obtain ⟨code', hcode', rfl⟩ := Option.map_eq_some_iff.1 hmore
      have hlt := hpairings.branch_lt he hbranch
      exact List.forall_mem_cons.2 ⟨⟨_, he, hlt, hfree⟩, ih hpairings hrest hcode'⟩
    | derivative step he hfree =>
      obtain ⟨branch, hbranch, hmore⟩ := Option.bind_eq_some_iff.1 hcode
      obtain ⟨code', hcode', rfl⟩ := Option.map_eq_some_iff.1 hmore
      have hlt := hpairings.branch_lt he hbranch
      exact List.forall_mem_cons.2 ⟨⟨_, he, hlt, hfree⟩, ih hpairings hrest hcode'⟩

/-- What an instruction puts into every branch, as far as `g` tells. -/
def Instruction.put? {β : Type} (g : Fragment → β) : Instruction → Option β
  | append fragment => some (g fragment)
  | choose alternatives => alternatives.head?.map g
  | pair _ _ => none
  | appendPaired _ make => some (g (make 0))

/-- The instruction puts the same into every branch, as far as `g` tells. -/
def Instruction.PutsAlike {β : Type} (g : Fragment → β) : Instruction → Prop
  | append _ | pair _ _ => True
  | choose alternatives => ∀ f ∈ alternatives, alternatives.head?.map g = some (g f)
  | appendPaired _ make => ∀ branch, g (make 0) = g (make branch)

/-- What is put alike into all branches is told by the instructions. -/
theorem map_script_of_putsAlike {β : Type} {g : Fragment → β} {pairings : List (Nat × Nat)}
    {instructions : List Instruction} (h : ∀ i ∈ instructions, i.PutsAlike g) {k : Nat}
    {code : List Fragment} (hcode : script? pairings instructions k = some code) :
    code.map g = instructions.filterMap (Instruction.put? g) := by
  induction instructions generalizing pairings k code with
  | nil =>
    rw [script?_nil] at hcode
    split at hcode
    · obtain rfl := Option.some.inj hcode
      rfl
    · cases hcode
  | cons i rest ih =>
    obtain ⟨hi, hrest⟩ := List.forall_mem_cons.1 h
    have hput : ∀ (f : Fragment) (pairings : List (Nat × Nat)) (k : Nat),
        (script? pairings rest k).map (f :: ·) = some code → i.put? g = some (g f) →
        code.map g = (i :: rest).filterMap (Instruction.put? g) := by
      intro f pairings k hmore hf
      obtain ⟨code', hcode', rfl⟩ := Option.map_eq_some_iff.1 hmore
      rw [List.map_cons, ih hrest hcode', List.filterMap_cons_some hf]
    cases i with
    | append fragment => exact hput _ _ _ hcode rfl
    | choose alternatives =>
      obtain ⟨f, hf, hmore⟩ := Option.bind_eq_some_iff.1 hcode
      exact hput f _ _ hmore (hi f (List.mem_of_getElem? hf))
    | pair external count =>
      rw [List.filterMap_cons_none rfl]
      rw [script?_pair] at hcode
      split at hcode
      · exact ih hrest hcode
      · split at hcode
        · cases hcode
        · exact ih hrest hcode
    | appendPaired external make =>
      obtain ⟨branch, -, hmore⟩ := Option.bind_eq_some_iff.1 hcode
      exact hput _ _ _ hmore (congrArg some (hi branch))

/-- A property of fragments that tells neither signs nor branches apart is the same in all
branches. -/
theorem map_script {β : Type} {g : Fragment → β}
    (hsign : g (.operator .add) = g (.operator .subtract))
    (hreference : ∀ external branch, g (.reference external 0) = g (.reference external branch))
    (happly : ∀ external branch, g (.apply external 0) = g (.apply external branch))
    (hderivative : ∀ external branch step,
      g (.derivative external 0 step) = g (.derivative external branch step))
    {pairings : List (Nat × Nat)} {instructions : List Instruction}
    (h : ∀ i ∈ instructions, i.IsLinked known externals) {k : Nat} {code : List Fragment}
    (hcode : script? pairings instructions k = some code) :
    code.map g = instructions.filterMap (Instruction.put? g) := by
  refine map_script_of_putsAlike (fun i hi => ?_) hcode
  cases h i hi with
  | code _ _ => trivial
  | var _ => trivial
  | sign => exact List.forall_mem_cons.2 ⟨rfl, List.forall_mem_singleton.2 (congrArg some hsign)⟩
  | pair _ => trivial
  | reference _ _ _ => exact fun branch => hreference _ branch
  | application _ _ => exact fun branch => happly _ branch
  | derivative step _ _ => exact fun branch => hderivative _ branch step

end Script

/-! ## What the left side declares -/

namespace Binding

/-- A left side declares each parameter once, and a variable none. -/
theorem of_ofNodes {nodes : List Node} {binding : Binding} (h : ofNodes nodes = .ok binding) :
    binding.parameters.Nodup ∧ (binding.kind ≠ .function → binding.parameters = []) := by
  cases ofNodes_eq_ok_iff.1 h with
  | plain name => exact ⟨List.nodup_nil, fun _ => rfl⟩
  | parameterized _ _ _ hnodup => exact ⟨hnodup, fun hkind => absurd rfl hkind⟩

end Binding

theorem Session.binding_of_splitSides {nodes right : List Node} {binding : Binding}
    (h : splitSides nodes = .ok (some binding, right)) :
    binding.parameters.Nodup ∧ (binding.kind ≠ .function → binding.parameters = []) := by
  unfold splitSides at h
  split at h
  · next i _ =>
    cases hbinding : Binding.ofNodes (nodes.take i) with
    | error e => simp [hbinding, Except.map] at h
    | ok b =>
      obtain ⟨rfl, -⟩ : b = binding ∧ nodes.drop (i + 1) = right := by
        simpa [hbinding, Except.map] using h
      exact Binding.of_ofNodes hbinding
  · simp at h

/-- Arguments are only ever added, behind those there are. -/
theorem Visits.arguments_grow {s : Session} {depth : Nat} {stretch : Stretch} {d d' : Declared}
    {es : List Emission} (h : Visits s depth stretch d es d') :
    d.symbols.arguments <+: d'.symbols.arguments := by
  apply h.declares (R := fun d d' => d.symbols.arguments <+: d'.symbols.arguments)
  · intro d
    exact List.prefix_rfl
  · intro d₁ d₂ d₃ h₁ h₂
    exact h₁.trans h₂
  · intro d names
    exact d.symbols.arguments_isPrefix names
  · intro d name
    have hsame : (d.addBound name).symbols.arguments = d.symbols.arguments := by
      rw [Declared.symbols_addBound, Symbols.addBound_arguments]
    exact hsame ▸ List.prefix_rfl
  · intro d name equation _
    have hsame : (d.declaring equation).symbols.arguments = d.symbols.arguments := by
      rw [Declared.symbols_declaring]
    exact hsame ▸ List.prefix_rfl

/-! ## Linked equations -/

namespace Equation

/-- The names that an equation gives values to, its parameters first, or binds itself. -/
def Knows (e : Equation Float) (name : String) : Prop := name ∈ e.arguments ∨ name ∈ e.bound

structure IsLinked (e : Equation Float) : Prop where
  arguments : e.parameters ++ e.freeArguments = e.arguments
  parameters : e.isFunction = false → e.parameters = []
  heads : ∀ branch ∈ e.branches, ∀ part ∈ branch.parts, ∀ f, part.head? = some f →
    f.IsLinked e.Knows e.externals

end Equation

namespace Session

theorem isLinked_of_compile {s : Session} (hs : s.Reachable) {nodes : List Node}
    {equation : Equation Float} (h : (s.compile nodes).outcome = .ok equation) :
    equation.IsLinked := by
  obtain ⟨binding, right, es, d, branches, hsides, hvisits, hread, rfl⟩ :=
    compile_outcome_eq_ok_iff.1 h
  have hbinding : (binding.elim [] (·.parameters)).Nodup ∧
      ((⟨binding, d.symbols.arguments, d.symbols.bound, branches, d.externals⟩ :
        Equation Float).isFunction = false → binding.elim [] (·.parameters) = []) := by
    cases binding with
    | none => exact ⟨List.nodup_nil, fun _ => rfl⟩
    | some binding =>
      obtain ⟨hnodup, hvariable⟩ := binding_of_splitSides hsides
      refine ⟨hnodup, fun hfunction => hvariable fun hkind => ?_⟩
      simp [Equation.isFunction, Equation.kind?, hkind] at hfunction
  have hparameters : ∀ e : Equation Float, e.binding = binding →
      e.parameters = binding.elim [] (·.parameters) := by
    rintro e rfl
    unfold Equation.parameters
    cases e.binding <;> rfl
  refine ⟨?_, ?_, ?_⟩
  · have hfirst : (declaredBy binding).symbols.arguments = binding.elim [] (·.parameters) :=
      Symbols.arguments_of_nodup hbinding.1
    have hprefix := hvisits.arguments_grow
    rw [hfirst, ← hparameters ⟨binding, d.symbols.arguments, d.symbols.bound, branches,
      d.externals⟩ rfl] at hprefix
    exact List.prefix_iff_eq_append.1 hprefix
  · intro hfunction
    rw [hparameters _ rfl]
    exact hbinding.2 hfunction
  · intro branch hbranch part hpart f hf
    have hresolved := resolved_declaredBy s binding
    have hknown : ∀ name, d.symbols.isLocal name = true →
        name ∈ d.symbols.arguments ∨ name ∈ d.symbols.bound := by
      intro name hname
      simpa [Symbols.isLocal, Symbols.isArgument, Symbols.isBound] using hname
    have hlinked := hvisits.isLinked hs.namesBind hresolved hknown List.prefix_rfl
    obtain ⟨k, code, hscript, hsum⟩ := exists_script_of_mem hread hbranch
    have hmem : f ∈ Fragment.joined code :=
      hsum.heads (List.mem_filterMap.2 ⟨part, hpart, hf⟩)
    have hnumber : ∀ text, f ≠ .number text := by
      rintro text rfl
      cases part <;> simp [Expression.head?] at hf
    exact isLinked_script (fun _ _ h => by cases h) hlinked hscript f
      (Fragment.mem_of_mem_joined hnumber hmem)

theorem Reachable.isLinked {s : Session} (hs : s.Reachable) :
    ∀ e ∈ s.equations.toList, e.IsLinked :=
  hs.reachableBy.forall_equations fun _ _ _ hs _ h _ => isLinked_of_compile hs.reachable h

end Session

end Formulary
