import Formulary.Proofs.Externals

/-!
# Names and references in a branch

What becomes of a name in one branch: wherever it was compiled to a variable that variable stands,
and wherever it was compiled to a reference, one branch of its external does.
-/

namespace Formulary

/-- The name as a variable, or a reference to its external. -/
def Use.isOf (name : String) (external : Nat) : Use → Bool
  | var other => other == name
  | reference other _ => other == external

def Use.ofName (name : String) (external branch : Nat) : Bool → Use
  | true => .var name
  | false => .reference external branch

/-- Whether an instruction appends the name as a variable or as a reference to its external. -/
def Instruction.naming? (name : String) (external : Nat) : Instruction → Option Bool
  | .append (.var other) => if other = name then some true else none
  | .appendPaired other make =>
    if other = external ∧ (make 0).use?.isSome then some false else none
  | _ => none

/-- What a script makes of a name when it is paired with branch `b` of the external. -/
structure ReadsAs (name : String) (external b : Nat) (instructions : List Instruction)
    (code : List Fragment) : Prop where
  uses : (code.filterMap Fragment.use?).filter (·.isOf name external) =
    (instructions.filterMap (·.naming? name external)).map (.ofName name external b)

theorem ReadsAs.skip {name : String} {external b : Nat} {rest : List Instruction}
    {code : List Fragment} (h : ReadsAs name external b rest code) {i : Instruction}
    {fragment : Fragment} (hi : i.naming? name external = none)
    (hfragment : ∀ use, fragment.use? = some use → use.isOf name external = false) :
    ReadsAs name external b (i :: rest) (fragment :: code) := by
  constructor
  rw [List.filterMap_cons_none hi, ← h.uses]
  cases huse : fragment.use? with
  | none => rw [List.filterMap_cons_none huse]
  | some use =>
    rw [List.filterMap_cons_some huse, List.filter_cons_of_neg (by simp [hfragment use huse])]

theorem ReadsAs.take {name : String} {external b : Nat} {rest : List Instruction}
    {code : List Fragment} (h : ReadsAs name external b rest code) {i : Instruction}
    {fragment : Fragment} {isVar : Bool} (hi : i.naming? name external = some isVar)
    (hfragment : fragment.use? = some (.ofName name external b isVar)) :
    ReadsAs name external b (i :: rest) (fragment :: code) := by
  constructor
  have hof : (Use.ofName name external b isVar).isOf name external = true := by
    cases isVar <;> simp [Use.ofName, Use.isOf]
  rw [List.filterMap_cons_some hi, List.filterMap_cons_some hfragment,
    List.filter_cons_of_pos hof, h.uses, List.map_cons]

/-! ## Scripts with pairings before them -/

/-- A script makes of a name what it does with the branch that the external is paired with before
it, or else with the one that it is paired with in the script. -/
structure ReadsBehind (externals : List (Equation Float)) (pairings : List (Nat × Nat))
    (name : String) (external b : Nat) (instructions : List Instruction)
    (code : List Fragment) : Prop extends ReadsAs name external b instructions code where
  eq_of_lookup : ∀ b', pairings.lookup external = some b' → b' = b
  branch_of_naming : false ∈ instructions.filterMap (·.naming? name external) →
    pairings.lookup external = some b ∨
      ∃ e, externals[external]? = some e ∧ b < e.branchCount

namespace ReadsBehind

variable {externals : List (Equation Float)} {pairings : List (Nat × Nat)} {name : String}
  {external b k : Nat} {rest : List Instruction} {code : List Fragment}

theorem exists_nil (externals : List (Equation Float)) (pairings : List (Nat × Nat)) (name : String)
    (external : Nat) : ∃ b, ReadsBehind externals pairings name external b [] [] := by
  refine ⟨(pairings.lookup external).getD 0, ⟨rfl⟩, ?_, by simp⟩
  intro b' hb'
  rw [hb']
  rfl

theorem skip (h : ReadsBehind externals pairings name external b rest code) {i : Instruction}
    {fragment : Fragment} (hi : i.naming? name external = none)
    (hfragment : ∀ use, fragment.use? = some use → use.isOf name external = false) :
    ReadsBehind externals pairings name external b (i :: rest) (fragment :: code) := by
  refine ⟨h.toReadsAs.skip hi hfragment, h.eq_of_lookup, ?_⟩
  rw [List.filterMap_cons_none hi]
  exact h.branch_of_naming

/-- What uses no name is passed over. -/
theorem pass (h : ReadsBehind externals pairings name external b rest code) {i : Instruction}
    {fragment : Fragment} (hi : i.naming? name external = none) (hfragment : fragment.use? = none) :
    ReadsBehind externals pairings name external b (i :: rest) (fragment :: code) := by
  apply h.skip hi
  intro use huse
  rw [hfragment] at huse
  cases huse

theorem var (h : ReadsBehind externals pairings name external b rest code) (other : String) :
    ReadsBehind externals pairings name external b (.append (.var other) :: rest)
      (.var other :: code) := by
  by_cases hother : other = name
  · have hnaming : Instruction.naming? name external (.append (.var other)) = some true := by
      simp [Instruction.naming?, hother]
    refine ⟨h.toReadsAs.take hnaming (by rw [hother]; rfl), h.eq_of_lookup, ?_⟩
    rw [List.filterMap_cons_some hnaming]
    simpa using h.branch_of_naming
  · apply h.skip
    · simp [Instruction.naming?, hother]
    · intro use huse
      obtain rfl := Option.some.inj huse
      simpa [Use.isOf] using hother

/-- A reference is to the branch that its external is paired with. -/
theorem reference (h : ReadsBehind externals pairings name external b rest code)
    {other branch : Nat} (hbranch : pairings.lookup other = some branch) :
    ReadsBehind externals pairings name external b (.appendPaired other (.reference other) :: rest)
      (.reference other branch :: code) := by
  by_cases hother : other = external
  · subst hother
    obtain rfl := h.eq_of_lookup branch hbranch
    have hnaming : Instruction.naming? name other (.appendPaired other (.reference other)) =
        some false := by
      simp [Instruction.naming?, Fragment.use?]
    exact ⟨h.toReadsAs.take hnaming rfl, h.eq_of_lookup, fun _ => .inl hbranch⟩
  · apply h.skip
    · simp [Instruction.naming?, hother]
    · intro use huse
      obtain rfl := Option.some.inj huse
      simpa [Use.isOf] using hother

/-- What an external has just been paired with is one of its branches. -/
theorem pair {other : Nat} {equation : Equation Float}
    (hequation : externals[other]? = some equation)
    (hpaired : (pairings.lookup other).isSome = false) (hcount : 0 < equation.branchCount)
    (h : ReadsBehind externals (Branch.enter other (k % equation.branchCount) pairings) name
      external b rest code) :
    ReadsBehind externals pairings name external b (.pair other equation.branchCount :: rest)
      code := by
  obtain ⟨hreads, hlookup, hbranch⟩ := h
  simp only [Branch.lookup_enter] at hlookup hbranch
  by_cases hother : external = other
  · subst hother
    have hb := hlookup (k % equation.branchCount) (by simp)
    have hlt : b < equation.branchCount := by
      rw [← hb]
      exact Nat.mod_lt _ hcount
    refine ⟨⟨hreads.uses⟩, ?_, fun _ => .inr ⟨equation, hequation, hlt⟩⟩
    intro b' hb'
    simp [hb'] at hpaired
  · rw [if_neg hother] at hlookup hbranch
    exact ⟨⟨hreads.uses⟩, hlookup, hbranch⟩

end ReadsBehind

/-- A branch refers to one branch of an external throughout. -/
theorem exists_readsBehind {externals : List (Equation Float)} (name : String) (external : Nat)
    {instructions : List Instruction} (h : ∀ i ∈ instructions, i.IsEmitted externals)
    {pairings : List (Nat × Nat)} {k : Nat} {code : List Fragment}
    (hcode : script? pairings instructions k = some code) :
    ∃ b, ReadsBehind externals pairings name external b instructions code := by
  induction instructions generalizing pairings k code with
  | nil =>
    obtain rfl : [] = code := by
      rw [script?_nil] at hcode
      split at hcode
      · exact Option.some.inj hcode
      · cases hcode
    exact ReadsBehind.exists_nil externals pairings name external
  | cons i rest ih =>
    have hrest : ∀ i ∈ rest, i.IsEmitted externals := fun i hi => h i (List.mem_cons_of_mem _ hi)
    cases h i (List.mem_cons_self ..) with
    | @code fragment huse =>
      rw [script?_append] at hcode
      obtain ⟨behind, hbehind, rfl⟩ := Option.map_eq_some_iff.1 hcode
      obtain ⟨b, hreads⟩ := ih hrest hbehind
      have hnaming : Instruction.naming? name external (.append fragment) = none := by
        cases fragment <;> first | rfl | cases huse
      exact ⟨b, hreads.pass hnaming huse⟩
    | var other =>
      rw [script?_append] at hcode
      obtain ⟨behind, hbehind, rfl⟩ := Option.map_eq_some_iff.1 hcode
      obtain ⟨b, hreads⟩ := ih hrest hbehind
      exact ⟨b, hreads.var other⟩
    | sign =>
      rw [script?_choose] at hcode
      obtain ⟨fragment, hfragment, hcode⟩ := Option.bind_eq_some_iff.1 hcode
      obtain ⟨behind, hbehind, rfl⟩ := Option.map_eq_some_iff.1 hcode
      obtain ⟨b, hreads⟩ := ih hrest hbehind
      have huse : fragment.use? = none := by
        have hmem := List.mem_of_getElem? hfragment
        simp only [List.mem_cons, List.not_mem_nil, or_false] at hmem
        rcases hmem with rfl | rfl <;> rfl
      exact ⟨b, hreads.pass rfl huse⟩
    | @pair other equation hequation =>
      rw [script?_pair] at hcode
      by_cases hpaired : (pairings.lookup other).isSome = true
      · rw [if_pos hpaired] at hcode
        obtain ⟨b, hreads⟩ := ih hrest hcode
        exact ⟨b, ⟨hreads.uses⟩, hreads.eq_of_lookup, hreads.branch_of_naming⟩
      · rw [if_neg hpaired] at hcode
        by_cases hcount : equation.branchCount = 0
        · simp [hcount] at hcode
        · rw [if_neg hcount] at hcode
          obtain ⟨b, hreads⟩ := ih hrest hcode
          exact ⟨b, .pair hequation (Bool.eq_false_iff.2 hpaired) (Nat.pos_of_ne_zero hcount)
            hreads⟩
    | @reference other equation hequation =>
      rw [script?_appendPaired] at hcode
      obtain ⟨branch, hbranch, hcode⟩ := Option.bind_eq_some_iff.1 hcode
      obtain ⟨behind, hbehind, rfl⟩ := Option.map_eq_some_iff.1 hcode
      obtain ⟨b, hreads⟩ := ih hrest hbehind
      exact ⟨b, hreads.reference hbranch⟩
    | @opening other make huse =>
      rw [script?_appendPaired] at hcode
      obtain ⟨branch, hbranch, hcode⟩ := Option.bind_eq_some_iff.1 hcode
      obtain ⟨behind, hbehind, rfl⟩ := Option.map_eq_some_iff.1 hcode
      obtain ⟨b, hreads⟩ := ih hrest hbehind
      have hnaming : Instruction.naming? name external (.appendPaired other make) = none := by
        simp [Instruction.naming?, huse]
      exact ⟨b, hreads.pass hnaming (huse branch)⟩

/-- Only what is an external is referred to. -/
theorem exists_external_of_naming {externals : List (Equation Float)} {name : String}
    {external : Nat} {instructions : List Instruction}
    (h : ∀ i ∈ instructions, i.IsEmitted externals)
    (hfalse : false ∈ instructions.filterMap (·.naming? name external)) :
    ∃ e, externals[external]? = some e := by
  obtain ⟨i, hmem, hi⟩ := List.mem_filterMap.1 hfalse
  cases h i hmem with
  | @code fragment huse => cases fragment <;> first | cases hi | cases huse
  | var other =>
    rw [Instruction.naming?] at hi
    split at hi
    · cases hi
    · cases hi
  | sign => cases hi
  | pair => cases hi
  | @reference other equation hequation =>
    rw [Instruction.naming?] at hi
    split at hi
    · next hsame => exact ⟨equation, hsame.1 ▸ hequation⟩
    · cases hi
  | @opening other make huse => simp [Instruction.naming?, huse] at hi

end Formulary
