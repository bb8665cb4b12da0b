import Formulary.Proofs.Unfolding.Elsewhere

/-!
# Walking past a definition

A walk over unfolded nodes goes the same way as one over the nodes with the name: both fail, or
both declare the same names and emit the same code, but for the definition in the place of the
reference and for the places of the other externals, which have moved up.
-/

namespace Formulary

/-! ## Externals that move up -/

/-- The place of an external when the one at `place` is left out. -/
def skip (place external : Nat) : Nat := if external < place then external else external - 1

theorem findIdx_eraseIdx {α : Type} {p : α → Bool} {l : List α} {place : Nat}
    (h : l.findIdx p ≠ place) : (l.eraseIdx place).findIdx p = skip place (l.findIdx p) := by
  induction l generalizing place with
  | nil =>
    rw [List.eraseIdx_nil, List.findIdx_nil, skip]
    split <;> rfl
  | cons x l ih =>
    rw [List.findIdx_cons] at h ⊢
    cases hx : p x with
    | true =>
      simp only [hx, cond_true] at h
      obtain ⟨p, rfl⟩ := Nat.exists_eq_succ_of_ne_zero h.symm
      rw [List.eraseIdx_cons_succ, List.findIdx_cons, hx]
      rfl
    | false =>
      simp only [hx, cond_false] at h ⊢
      cases place with
      | zero => rfl
      | succ place =>
        rw [List.eraseIdx_cons_succ, List.findIdx_cons, hx, cond_false,
          ih fun heq => h (congrArg Nat.succ heq)]
        unfold skip
        split <;> split <;> omega

theorem getElem?_eraseIdx_skip {α : Type} (l : List α) {place i : Nat} (hi : i ≠ place) :
    (l.eraseIdx place)[skip place i]? = l[i]? := by
  rw [List.getElem?_eraseIdx]
  by_cases hlt : i < place
  · rw [skip, if_pos hlt, if_pos hlt]
  · have hskip : skip place i + 1 = i := by
      rw [skip, if_neg hlt]
      omega
    rw [if_neg (by omega), hskip]

/-- A filter that leaves out what stands at one place. -/
theorem filter_eq_eraseIdx {α : Type} {p : α → Bool} {l : List α} {place : Nat}
    (h : ∀ i x, l[i]? = some x → (p x = false ↔ i = place)) : l.filter p = l.eraseIdx place := by
  induction l generalizing place with
  | nil => rfl
  | cons x l ih =>
    have hx := h 0 x rfl
    cases place with
    | zero =>
      rw [List.filter_cons_of_neg (by simp [hx.2 rfl]), List.eraseIdx_zero, List.tail_cons,
        List.filter_eq_self]
      intro y hy
      obtain ⟨i, hi⟩ := List.getElem?_of_mem hy
      simpa using (h (i + 1) y hi).not.2 (Nat.succ_ne_zero i)
    | succ place =>
      have hpos : p x = true := by simpa using hx.not.2 (Nat.succ_ne_zero place).symm
      rw [List.filter_cons_of_pos hpos, List.eraseIdx_cons_succ,
        ih fun i y hy => (h (i + 1) y hy).trans Nat.succ_inj]

/-- The code with one external left out. -/
def Fragment.skip (place : Nat) : Fragment → Fragment
  | reference external branch => reference (Formulary.skip place external) branch
  | apply external branch => apply (Formulary.skip place external) branch
  | derivative external branch step => derivative (Formulary.skip place external) branch step
  | f => f

/-- What becomes of an instruction when one external gives way to its definition. -/
def Instruction.unfold (place : Nat) (code : List Instruction) :
    Instruction → List Instruction
  | append fragment => [append fragment]
  | choose alternatives => [choose alternatives]
  | pair external count =>
    if external = place then [] else [pair (skip place external) count]
  | appendPaired external make =>
    if external = place then append .openParen :: (code ++ [append .close])
    else [appendPaired (skip place external) fun branch => (make branch).skip place]

def Instruction.unfoldAll (place : Nat) (code is : List Instruction) : List Instruction :=
  is.flatMap (unfold place code)

theorem Instruction.unfoldAll_append (place : Nat) (code first second : List Instruction) :
    unfoldAll place code (first ++ second) =
      unfoldAll place code first ++ unfoldAll place code second :=
  List.flatMap_append

namespace Declared

variable {name : String} {place : Nat} {d d' : Declared} {equation : Equation Float}

/-- What is declared when the equation of the name is left out. -/
def without (name : String) (d : Declared) : Declared :=
  { d with externals := d.externals.filter (·.name? != some name) }

/-- The equation of the name is entered at this place and nowhere else, if it is entered. -/
def Keeps (name : String) (place : Nat) (d : Declared) : Prop :=
  ∀ (i : Nat) (e : Equation Float), d.externals[i]? = some e → (e.name? = some name ↔ i = place)

theorem Keeps.of_grow (h : d'.Keeps name place) (hgrows : d.externals <+: d'.externals) :
    d.Keeps name place := by
  intro i e he
  obtain ⟨hlt, he⟩ := List.getElem?_eq_some_iff.1 he
  exact h i e (by rw [List.prefix_iff_getElem?.1 hgrows i hlt, he])

theorem externals_without (h : d.Keeps name place) :
    (d.without name).externals = d.externals.eraseIdx place := by
  apply filter_eq_eraseIdx
  intro i e he
  rw [← h i e he]
  simp

theorem placeOf_eq_findIdx (d : Declared) (equation : Equation Float) :
    d.placeOf equation = d.externals.findIdx (·.name? == equation.name?) := by
  unfold placeOf
  cases hplace : d.externals.findIdx? (·.name? == equation.name?) with
  | some i => exact (List.findIdx?_eq_some_iff_findIdx_eq.1 hplace).2.symm
  | none => exact (List.findIdx_eq_length.2 (List.findIdx?_eq_none_iff.1 hplace)).symm

variable {other : String}

/-- The equation of another name is declared as if the one of the name were not there. -/
theorem without_declaring (hname : equation.name? = some other) (hother : other ≠ name) :
    (d.declaring equation).without name = (d.without name).declaring equation := by
  have hkept : (equation.name? != some name) = true := by simpa [hname] using hother
  have hfound : ((d.without name).externals.findIdx? (·.name? == equation.name?)).isSome =
      (d.externals.findIdx? (·.name? == equation.name?)).isSome := by
    rw [List.findIdx?_isSome, List.findIdx?_isSome, without, List.any_filter]
    congr 1
    funext e
    by_cases he : e.name? = equation.name?
    · simp [he, hkept]
    · simp [he]
  rw [declaring, declaring, hfound]
  split
  · rfl
  · simp [without, List.filter_append, hkept]

theorem without_declaring_self (hname : equation.name? = some name) :
    (d.declaring equation).without name = d.without name := by
  unfold declaring
  split
  · rfl
  · simp [without, List.filter_append, hname]

theorem placeOf_ne (h : (d.declaring equation).Keeps name place)
    (hname : equation.name? = some other) (hother : other ≠ name) : d.placeOf equation ≠ place := by
  obtain ⟨e, he, hfound⟩ := exists_at_place d equation
  apply (h _ e he).not.1
  rw [hfound, hname]
  simpa using hother

/-- Behind the equation of the name, the others have moved up. -/
theorem placeOf_without (h : (d.declaring equation).Keeps name place)
    (hname : equation.name? = some other) (hother : other ≠ name) :
    (d.without name).placeOf equation = skip place (d.placeOf equation) := by
  have hkeeps := h.of_grow (externals_declaring_grow d equation)
  have hplace := placeOf_ne h hname hother
  rw [placeOf_eq_findIdx, hname] at hplace
  rw [placeOf_eq_findIdx, placeOf_eq_findIdx, hname]
  rw [externals_without hkeeps]
  exact findIdx_eraseIdx hplace

/-- The equation of the name is at its place. -/
theorem placeOf_self (h : (d.declaring equation).Keeps name place)
    (hname : equation.name? = some name) : d.placeOf equation = place := by
  obtain ⟨e, he, hfound⟩ := exists_at_place d equation
  exact (h _ e he).1 (hfound.trans hname)

end Declared

/-! ## Names in limits -/

theorem Node.mem_namesAll_of_bound? {nodes : List Node} {name : String}
    (h : bound? nodes = some (.var name)) : name ∈ namesAll nodes := by
  rw [← apply_ungrouped namesAll (fun _ => List.append_nil _)]
  unfold bound? at h
  split at h
  · next other hnodes =>
    obtain rfl : other = name := by simpa using h
    rw [hnodes]
    exact List.mem_singleton_self _
  · simp [Option.bind_eq_some_iff] at h

/-- The names in a range are names in its limits. -/
theorem SumRange.names_of_ofLimits {lower upper : Option (List Node)} {range : SumRange}
    (h : ofLimits lower upper = .ok range) :
    range.index ∈ Node.limitNames lower ∧
      range.names ⊆ Node.limitNames lower ++ Node.limitNames upper := by
  unfold ofLimits at h
  split at h
  · next index equality first =>
    split at h
    · split at h
      · next lowest highest hlowest hhighest =>
        obtain rfl := Except.ok.inj h
        refine ⟨List.mem_cons_self, ?_⟩
        intro name hname
        obtain ⟨bound, hbound, hvar⟩ := List.mem_filterMap.1 hname
        cases bound with
        | number value => cases hvar
        | var other =>
          obtain rfl : other = name := Option.some.inj hvar
          rcases List.mem_cons.1 hbound with rfl | hbound
          · have hfirst := Node.mem_namesAll_of_bound? hlowest
            exact List.mem_append_left _
              (List.mem_cons_of_mem _ (List.mem_append_right equality.names hfirst))
          · obtain rfl := List.mem_singleton.1 hbound
            obtain ⟨nodes, rfl, hnodes⟩ := Option.bind_eq_some_iff.1 hhighest
            exact List.mem_append_right _ (Node.mem_namesAll_of_bound? hnodes)
      · cases h
      · cases h
    · cases h
  · cases h

/-! ## Two walks side by side -/

namespace Walk

section Rules

variable {β γ : Type} {name : String} {code : List Instruction} {w w' : Walk β}

def Fails (w : Walk β) (d : Declared) : Prop := ∃ es e, w d = (es, .error e)

variable (name code) in
/-- Both walks fail, or both end well. The second is without the equation of the name and emits its
definition where the first refers to it. -/
def Unfolds (w w' : Walk β) : Prop := ∀ d, d.symbols.isLocal name = false →
  w.Fails d ∧ w'.Fails (d.without name) ∨
    ∃ es b d₁ es', w.Runs d es b d₁ ∧ w'.Runs (d.without name) es' b (d₁.without name) ∧
      d₁.symbols.isLocal name = false ∧ d.externals <+: d₁.externals ∧
      ∀ place, d₁.Keeps name place →
        Emission.instructions es' = Instruction.unfoldAll place code (Emission.instructions es)

namespace Unfolds

theorem bind {next next' : β → Walk γ} (h : Unfolds name code w w')
    (hnext : ∀ b, Unfolds name code (next b) (next' b)) :
    Unfolds name code (w >>= next) (w' >>= next') := by
  intro d hd
  have hfails : ∀ {w : Walk β} {next : β → Walk γ} {d : Declared}, w.Fails d →
      (w >>= next).Fails d := by
    rintro w next d ⟨es, e, hw⟩
    exact ⟨es, e, by rw [bind_apply, hw]⟩
  have hgoesOn : ∀ {w : Walk β} {next : β → Walk γ} {d d₁ : Declared} {es : List Emission} {b : β},
      w.Runs d es b d₁ → (next b).Fails d₁ → (w >>= next).Fails d := by
    rintro w next d d₁ es b hw ⟨es₁, e, hnext⟩
    have hw : w d = (es, .ok (b, d₁)) := hw
    exact ⟨es ++ es₁, e, by simp only [bind_apply, hw, hnext]⟩
  rcases h d hd with ⟨hw, hw'⟩ | ⟨es, b, d₁, es', hw, hw', hlocal, hgrows, hes'⟩
  · exact .inl ⟨hfails hw, hfails hw'⟩
  · rcases hnext b d₁ hlocal with ⟨hn, hn'⟩ | ⟨fs, c, d₂, fs', hn, hn', hlocal', hgrows', hfs'⟩
    · exact .inl ⟨hgoesOn hw hn, hgoesOn hw' hn'⟩
    · refine .inr ⟨es ++ fs, c, d₂, es' ++ fs', runs_bind.2 ⟨_, _, _, _, hw, hn, rfl⟩,
        runs_bind.2 ⟨_, _, _, _, hw', hn', rfl⟩, hlocal', hgrows.trans hgrows', ?_⟩
      intro place hplace
      rw [Emission.instructions_append, Emission.instructions_append,
        Instruction.unfoldAll_append, hes' place (hplace.of_grow hgrows'), hfs' place hplace]

theorem fails (h : ∀ d, w.Fails d) (h' : ∀ d, w'.Fails d) : Unfolds name code w w' :=
  fun d _ => .inl ⟨h d, h' (d.without name)⟩

theorem malformed (subject subject' : List Node) (flaw flaw' : Flaw) :
    Unfolds name code (Walk.malformed subject flaw : Walk β)
      (Walk.malformed subject' flaw') :=
  fails (fun _ => ⟨_, _, rfl⟩) fun _ => ⟨_, _, rfl⟩

theorem fail (e e' : CompileError) :
    Unfolds name code (Walk.fail e : Walk β) (Walk.fail e') :=
  fails (fun _ => ⟨_, _, rfl⟩) fun _ => ⟨_, _, rfl⟩

/-- A step that declares nothing. -/
theorem silent {es es' : List Emission} (b : β)
    (hw : ∀ d, w d = (es, .ok (b, d))) (hw' : ∀ d, w' d = (es', .ok (b, d)))
    (h : ∀ place, Emission.instructions es' =
      Instruction.unfoldAll place code (Emission.instructions es)) : Unfolds name code w w' :=
  fun d hd => .inr ⟨es, b, d, es', hw d, hw' _, hd, List.prefix_rfl, fun place _ => h place⟩

theorem done (b : β) : Unfolds name code (Walk.done b) (Walk.done b) :=
  silent b (fun _ => rfl) (fun _ => rfl) fun _ => rfl

theorem pure (b : β) : Unfolds name code (Pure.pure b : Walk β) (Pure.pure b) := done b

theorem append (fragment : Fragment) :
    Unfolds name code (Walk.append fragment) (Walk.append fragment) :=
  silent () (fun _ => rfl) (fun _ => rfl) fun _ => rfl

theorem visit (depth depth' : Nat) (node node' : Node) :
    Unfolds name code (emit (.visit depth node)) (emit (.visit depth' node')) :=
  silent () (fun _ => rfl) (fun _ => rfl) fun _ => rfl

theorem warn (subject subject' : List Node) (approximation : Approximation) :
    Unfolds name code (Walk.warn subject approximation)
      (Walk.warn subject' approximation) :=
  silent () (fun _ => rfl) (fun _ => rfl) fun _ => rfl

theorem operated (symbol : String) :
    Unfolds name code (Walk.operated symbol) (Walk.operated symbol) := by
  unfold Walk.operated
  split
  · exact append _
  · exact silent () (fun _ => rfl) (fun _ => rfl) fun _ => rfl
  · exact fail _ _

theorem reading (subject subject' : List Node) {result : Except Flaw β} {next next' : β → Walk γ}
    (h : ∀ b, result = .ok b → Unfolds name code (next b) (next' b)) :
    Unfolds name code (Walk.reading subject result >>= next)
      (Walk.reading subject' result >>= next') := by
  cases result with
  | ok b =>
    have hdone : ∀ next : β → Walk γ, Walk.done b >>= next = next b := pure_bind b
    rw [Walk.reading, Walk.reading, hdone, hdone]
    exact h b rfl
  | error flaw => exact fails (fun _ => ⟨_, _, rfl⟩) fun _ => ⟨_, _, rfl⟩

theorem symbols : Unfolds name code Walk.symbols Walk.symbols :=
  fun d hd => .inr ⟨[], d.symbols, d, [], rfl, rfl, hd, List.prefix_rfl, fun _ _ => rfl⟩

theorem changeSymbols {f : Symbols → Symbols}
    (hf : ∀ symbols, symbols.isLocal name = false → (f symbols).isLocal name = false) :
    Unfolds name code (Walk.changeSymbols f) (Walk.changeSymbols f) :=
  fun d hd => .inr ⟨[], (), { d with symbols := f d.symbols }, [], rfl, rfl, hf _ hd,
    List.prefix_rfl, fun _ _ => rfl⟩

theorem addArguments {names : List String} (h : name ∉ names) :
    Unfolds name code (Walk.changeSymbols (·.addArguments names))
      (Walk.changeSymbols (·.addArguments names)) := by
  apply changeSymbols
  intro symbols hlocal
  rw [Symbols.isLocal_addArguments, hlocal]
  simpa using h

theorem addBound {other : String} (h : other ≠ name) :
    Unfolds name code (Walk.changeSymbols (·.addBound other))
      (Walk.changeSymbols (·.addBound other)) := by
  apply changeSymbols
  intro symbols hlocal
  rw [Symbols.isLocal_addBound, hlocal]
  simpa using h.symm

/-- The equation of another name. -/
theorem paired {equation : Equation Float} {other : String}
    (hname : equation.name? = some other) (hother : other ≠ name)
    {make : (external branch : Nat) → Fragment}
    (hmake : ∀ place external branch,
      (make external branch).skip place = make (skip place external) branch) :
    Unfolds name code (Walk.paired equation make) (Walk.paired equation make) := by
  intro d hd
  have hruns' := paired_apply equation make (d.without name)
  rw [← Declared.without_declaring hname hother] at hruns'
  refine .inr ⟨_, (), _, _, paired_apply equation make d, hruns', ?_,
    Declared.externals_declaring_grow d equation, ?_⟩
  · rw [Declared.symbols_declaring]
    exact hd
  · intro place hplace
    have hne := Declared.placeOf_ne hplace hname hother
    have hmoved := Declared.placeOf_without hplace hname hother
    have hinstructions : ∀ d : Declared, Emission.instructions (pairing d equation make) =
        [.pair (d.placeOf equation) equation.branchCount,
          .appendPaired (d.placeOf equation) (make (d.placeOf equation))] := fun _ => rfl
    rw [hinstructions, hinstructions, hmoved]
    simp [Instruction.unfoldAll, Instruction.unfold, hne, hmake]

theorem enclosed (opening : Fragment) {body body' : Walk Unit}
    (h : Unfolds name code body body') :
    Unfolds name code (Walk.enclosed opening body) (Walk.enclosed opening body') :=
  (append opening).bind fun _ => h.bind fun _ => append .close

theorem then_return {w w' : Walk Unit} (h : Unfolds name code w w') (b : β) :
    Unfolds name code (w >>= fun _ => Pure.pure b) (w' >>= fun _ => Pure.pure b) :=
  h.bind fun _ => pure b

theorem called (function : Function) {subject subject' : Node} {operand operand' : List Node}
    (hempty : operand'.isEmpty = operand.isEmpty) {body body' : Walk Unit}
    (h : Unfolds name code body body') :
    Unfolds name code (Walk.called function subject operand body)
      (Walk.called function subject' operand' body') := by
  unfold Walk.called
  rw [hempty]
  split
  · exact malformed _ _ _ _
  · exact enclosed _ h

end Unfolds

end Rules

/-! ## Nodes that take an operand -/

section Operands

variable {s : Session} {name : String} {definition : List Node} {code : List Instruction}
  {equation : Equation Float} {other : String} {anchored anchored' : List Node} {operand : Operand}
  {body body' : Walk Unit}

theorem applied_unfolds (hname : equation.name? = some other) (hother : other ≠ name)
    (hbrought : name ∉ equation.arguments) {make : (external branch : Nat) → Fragment}
    (hmake : ∀ place external branch,
      (make external branch).skip place = make (skip place external) branch)
    (h : Unfolds name code body body') :
    Unfolds name code (applied equation make anchored operand body)
      (applied equation make anchored' (operand.unfold name definition) body') := by
  have hfree : name ∉ equation.freeArguments := fun hmem => hbrought (List.mem_of_mem_drop hmem)
  unfold applied
  rw [Operand.isParenthesized_unfold, Operand.inner_unfold, Operand.argumentCount_unfold]
  dsimp only
  split
  · exact .malformed _ _ _ _
  · split
    · exact .malformed _ _ _ _
    · exact (Unfolds.paired hname hother hmake).bind fun _ => h.bind fun _ =>
        (Unfolds.append .close).bind fun _ => .addArguments hfree

theorem named_unfolds (hs : s.NamesBind)
    (hbrought : ∀ other e, s.resolve other = some e → name ∉ e.arguments)
    (hother : other ≠ name) (h : Unfolds name code body body') :
    Unfolds name code (named s other anchored operand body)
      (named s other anchored' (operand.unfold name definition) body') := by
  refine Unfolds.symbols.bind fun symbols => ?_
  split
  · next equation hresolve =>
    have hresolve : s.resolve other = some equation := by
      split at hresolve
      · cases hresolve
      · exact hresolve
    have hname := hs.name?_of_resolve hresolve
    split
    · exact (applied_unfolds hname hother (hbrought _ _ hresolve) (fun _ _ _ => rfl) h).then_return
        operand.consumed
    · exact ((Unfolds.paired hname hother fun _ _ _ => rfl).bind fun _ =>
        .addArguments (hbrought _ _ hresolve)).then_return 0
  · have hnot : name ∉ [other] := by simpa using hother.symm
    exact (Unfolds.addArguments hnot).bind fun _ => (Unfolds.append (.var other)).then_return 0

theorem primed_unfolds (hs : s.NamesBind)
    (hbrought : ∀ other e, s.resolve other = some e → name ∉ e.arguments)
    (hother : other ≠ name) (h : Unfolds name code body body') :
    Unfolds name code (primed s other anchored operand body)
      (primed s other anchored' (operand.unfold name definition) body') := by
  unfold primed
  split
  · exact .fail _ _
  · next equation hfunction =>
    have hresolve := Option.eq_some_of_filter_eq_some hfunction
    exact (applied_unfolds (hs.name?_of_resolve hresolve) hother (hbrought _ _ hresolve)
      (fun _ _ _ => rfl) h).bind fun _ => (Unfolds.warn _ _ _).then_return operand.consumed

theorem summed_unfolds {subject subject' : Node} {lower upper : Option (List Node)}
    (hlower : name ∉ Node.limitNames lower) (hupper : name ∉ Node.limitNames upper)
    (h : Unfolds name code body body') :
    Unfolds name code (summed subject lower upper operand body)
      (summed subject' lower upper (operand.unfold name definition) body') := by
  have hempty : (operand.unfold name definition).nodes.isEmpty = operand.nodes.isEmpty :=
    List.isEmpty_map
  refine Unfolds.reading _ _ fun range hrange => ?_
  obtain ⟨hindex, hnames⟩ := SumRange.names_of_ofLimits hrange
  have hnot : name ∉ range.names := fun hmem =>
    (List.mem_append.1 (hnames hmem)).elim hlower hupper
  have hbound : range.index ≠ name := fun heq => hlower (heq ▸ hindex)
  rw [hempty]
  refine (Unfolds.addArguments hnot).bind fun _ => (Unfolds.addBound hbound).bind fun _ => ?_
  split
  · exact .malformed _ _ _ _
  · exact (h.enclosed _).then_return operand.consumed

theorem integrated_unfolds {config : Config} {lower upper : Option (List Node)}
    (hvariable : operand.differential.getD config.differential ≠ name)
    (h : Unfolds name code body body') :
    Unfolds name code (integrated config lower upper anchored operand body)
      (integrated config lower upper anchored' (operand.unfold name definition) body') := by
  have hempty : (operand.unfold name definition).nodes.isEmpty = operand.nodes.isEmpty :=
    List.isEmpty_map
  refine Unfolds.reading _ _ fun partition _ => ?_
  rw [hempty]
  split
  · exact .malformed _ _ _ _
  · exact (Unfolds.addBound hvariable).bind fun _ => (Unfolds.warn _ _ _).bind fun _ =>
      (h.enclosed _).then_return operand.consumed

theorem turned_unfolds {operator : OperatorName} {function : Function} {subject subject' : Node}
    {lower upper : Option (List Node)} (h : Unfolds name code body body') :
    Unfolds name code (turned operator function subject lower upper operand body)
      (turned operator function subject' lower upper (operand.unfold name definition) body') := by
  unfold turned
  split
  · exact .malformed _ _ _ _
  · exact (Unfolds.called _ List.isEmpty_map h).then_return operand.consumed

end Operands

/-! ## The nodes -/

section Nodes

variable {s : Session} {name : String} {definition : List Node} {equation : Equation Float}
  {code : List Instruction}

/-- A reference unfolds to the definition in parentheses. -/
theorem referred_unfolds (hname : equation.name? = some name) (hbrought : name ∉ equation.arguments)
    {depth : Nat} (hcode : ∀ d, ∃ es,
      Visits s depth (.siblings none (Node.parenthesized definition)) d es
        (d.addArguments equation.arguments) ∧
      Emission.instructions es = .append .openParen :: (code ++ [.append .close])) :
    Unfolds name code (referred equation)
      (visitAll s depth none (Node.parenthesized definition)) := by
  intro d hd
  obtain ⟨es, hvisits, hes⟩ := hcode (d.without name)
  have hruns : (visitAll s depth none (Node.parenthesized definition)).Runs (d.without name) es ()
      ((d.without name).addArguments equation.arguments) := hvisits.runs
  have hwithout : (d.without name).addArguments equation.arguments =
      ((d.declaring equation).addArguments equation.arguments).without name := by
    rw [← Declared.without_declaring_self (d := d) hname]
    rfl
  rw [hwithout] at hruns
  refine .inr ⟨_, (), _, es, runs_referred.2 ⟨rfl, rfl⟩, hruns, ?_,
    Declared.externals_declaring_grow d equation, ?_⟩
  · rw [Declared.symbols_addArguments, Declared.symbols_declaring, Symbols.isLocal_addArguments, hd]
    simpa using hbrought
  · intro place hplace
    have hself := Declared.placeOf_self (d := d) hplace hname
    rw [hes]
    simp [pairing, Instruction.unfoldAll, Instruction.unfold, hself]

theorem simple_unfold {base : Node} (h : base.isNamed name = false) :
    simple (base.unfold name definition) = (simple base).map (Node.unfold name definition) := by
  cases base with
  | literal text =>
    rw [Node.unfold, simple]
    split <;> rfl
  | var other =>
    have hother : other ≠ name := by simpa [Node.isNamed] using h
    rw [Node.unfold_var _ _ hother, simple, List.map_singleton, Node.unfold_var _ _ hother]
  | group body => rw [Node.unfold, simple, simple, Node.unfoldAll_eq_map]
  | _ => rfl

theorem Unfolds.congr {β : Type} {w v w' : Walk β}
    (h : ∀ d, d.symbols.isLocal name = false → w d = v d) (hv : Unfolds name code v w') :
    Unfolds name code w w' := by
  intro d hd
  have hsame := h d hd
  rcases hv d hd with ⟨⟨es, e, hfails⟩, hfails'⟩ | ⟨es, b, d₁, es', hruns, hrest⟩
  · exact .inl ⟨⟨es, e, hsame.trans hfails⟩, hfails'⟩
  · exact .inr ⟨es, b, d₁, es', hsame.trans hruns, hrest⟩

variable (hs : s.NamesBind)
  (hbrought : ∀ other e, s.resolve other = some e → name ∉ e.arguments)
  (hresolve : s.resolve name = some equation) (hvariable : equation.isFunction = false)
  (hmarker : name ≠ "d") (hdifferential : name ≠ s.config.differential)
  (hcode : ∀ depth d, ∃ es, Visits s depth (.siblings none (Node.parenthesized definition)) d es
      (d.addArguments equation.arguments) ∧
    Emission.instructions es = .append .openParen :: (code ++ [.append .close]))

section Name

include hs hbrought hresolve hvariable hcode

/-- The node of the name, and the group in its place. -/
theorem visit_name_unfolds (depth depth' : Nat) (rest : List Node) :
    Unfolds name code (visit s depth (.var name) rest)
      (visitAll s depth' none (Node.parenthesized definition) >>= fun _ => Pure.pure 0) := by
  have hsame : ∀ d : Declared, d.symbols.isLocal name = false →
      visit s depth (.var name) rest d = (referred equation >>= fun _ => Pure.pure 0) d := by
    intro d hd
    have hvar : (if d.symbols.isLocal name = true then none else s.resolve name) =
        some equation := by
      simpa [hd] using hresolve
    have hsymbols : ∀ next : Symbols → Walk Nat, (Walk.symbols >>= next) d = next d.symbols d :=
      fun _ => rfl
    rw [visit, named, hsymbols, hvar]
    simp only [hvariable, Bool.false_eq_true, if_false]
  exact .congr hsame ((referred_unfolds (hs.name?_of_resolve hresolve) (hbrought _ _ hresolve)
    (hcode depth')).then_return 0)

/-- The list below a power or an angle. -/
theorem simple_unfolds {depth : Nat} {base : Node}
    (h : Unfolds name code (visitAll s depth none (simple base))
      (visitAll s depth none ((simple base).map (Node.unfold name definition)))) :
    Unfolds name code (visitAll s depth none (simple base))
      (visitAll s depth none (simple (base.unfold name definition))) := by
  cases hbase : base.isNamed name with
  | false =>
    rw [simple_unfold hbase]
    exact h
  | true =>
    cases base with
    | var other =>
      obtain rfl : other = name := by simpa [Node.isNamed] using hbase
      have hsimple : simple ((Node.var other).unfold other definition) =
          Node.parenthesized definition := by
        rw [Node.unfold, if_pos rfl, simple]
      have hparts : visitAll s depth none (Node.parenthesized definition) =
          (Pure.pure () >>= fun _ => Pure.pure () >>= fun _ =>
            (visitAll s depth none (Node.parenthesized definition) >>= fun _ => Pure.pure 0) >>=
              fun _ : Nat => Pure.pure ()) := by
        simp
      rw [hsimple, hparts, simple, visitAll_cons]
      refine (Unfolds.pure ()).bind fun _ => ?_
      refine (Unfolds.silent () (fun _ => rfl) (fun _ => rfl) fun _ => rfl).bind fun _ => ?_
      refine (visit_name_unfolds hs hbrought hresolve hvariable hcode _ _ _).bind fun consumed => ?_
      rw [List.drop_nil, visitAll]
      exact .done ()
    | _ => cases hbase

end Name

private theorem siblings_unfolds {depth : Nat} {previous : Option Node} {node : Node}
    {rest : List Node}
    (hnode : Unfolds name code (visit s depth node rest)
      (visit s depth (node.unfold name definition) (rest.map (Node.unfold name definition))))
    (hrest : ∀ consumed, Unfolds name code
      (visitAll s depth (node :: rest.take consumed).getLast? (rest.drop consumed))
      (visitAll s depth ((node :: rest.take consumed).getLast?.map (Node.unfold name definition))
        ((rest.drop consumed).map (Node.unfold name definition)))) :
    Unfolds name code (visitAll s depth previous (node :: rest))
      (visitAll s depth (previous.map (Node.unfold name definition))
        ((node :: rest).map (Node.unfold name definition))) := by
  have hjoint : (previous.map (Node.unfold name definition)).any
      (·.juxtaposed (node.unfold name definition)) = previous.any (·.juxtaposed node) := by
    cases previous <;> simp
  have hlast : ∀ consumed, (node.unfold name definition ::
      (rest.map (Node.unfold name definition)).take consumed).getLast? =
        (node :: rest.take consumed).getLast?.map (Node.unfold name definition) := by
    intro consumed
    rw [← List.getLast?_map, List.map_cons, List.map_take]
  rw [List.map_cons, visitAll_cons, visitAll_cons, hjoint]
  refine Unfolds.bind ?_ fun _ => ?_
  · split
    · exact .append _
    · exact .pure ()
  refine (Unfolds.visit _ _ _ _).bind fun _ => hnode.bind fun consumed => ?_
  rw [hlast, ← List.map_drop]
  exact hrest consumed

private theorem prime_fails {depth : Nat} {base : Node} {rest : List Node}
    (h : ∀ other, base ≠ .var other) (d : Declared) :
    (visit s depth (.prime base) rest).Fails d := by
  refine ⟨[], .malformed (Node.textAll [.prime base]) .primeBase, ?_⟩
  cases base with
  | var other => exact absurd rfl (h other)
  | _ => simp only [visit, Walk.malformed, Walk.fail]

private theorem isEmpty_simple_unfold (base : Node) :
    (simple (base.unfold name definition)).isEmpty = (simple base).isEmpty := by
  cases base with
  | var other =>
    rw [Node.unfold]
    split <;> rfl
  | group body => rw [Node.unfold, simple, simple, Node.unfoldAll_eq_map, List.isEmpty_map]
  | _ => rfl

private theorem standFree_simple {base : Node} (h : base.standsFree name = true) :
    Node.standFree name (simple base) = true := by
  cases base with
  | literal text =>
    rw [simple]
    split <;> rfl
  | var other => simp [simple, Node.standFree, Node.standsFree]
  | group body => exact h
  | _ => rfl

private theorem standFree_operand {marked : Bool} {anchor : Node} {rest : List Node}
    (h : Node.standFree name rest = true) :
    Node.standFree name (Operand.following marked (anchor :: rest)).nodes = true :=
  Node.standFree_of_isInfix h (Operand.following_isPrefix marked (anchor :: rest)).isInfix

omit hs hbrought hresolve hvariable hmarker hcode in
/-- An integral does not bind a name that stands free behind it. -/
private theorem differential_ne {anchor : Node} {rest : List Node}
    (hdifferential : name ≠ s.config.differential) (h : Node.standFree name rest = true) :
    (Operand.following true (anchor :: rest)).differential.getD s.config.differential ≠ name := by
  cases hfound : (Operand.following true (anchor :: rest)).differential with
  | none => exact hdifferential.symm
  | some v =>
    rintro rfl
    have hsplit := Operand.split_following true anchor rest
    have hmarker : (Operand.following true (anchor :: rest)).marker = [.var "d", .var v] := by
      rw [Operand.marker, hfound]
    rw [hmarker] at hsplit
    have hpair : Node.standFree v [.var "d", .var v] = true := by
      refine Node.standFree_of_isInfix h ⟨_, _, hsplit.symm⟩
    simp [Node.standFree, Node.isNamed] at hpair

include hs hbrought hresolve hvariable hmarker hdifferential hcode

/-- The walk over unfolded nodes follows the one over the nodes. -/
theorem visitAll_unfolds :
    (∀ depth previous nodes, Node.standFree name nodes = true →
      Unfolds name code (visitAll s depth previous nodes)
        (visitAll s depth (previous.map (Node.unfold name definition))
          (nodes.map (Node.unfold name definition)))) ∧
    ∀ depth node rest, Node.standFree name (node :: rest) = true →
      Unfolds name code (visit s depth node rest)
        (visit s depth (node.unfold name definition)
          (rest.map (Node.unfold name definition))) := by
  have hbody : ∀ body : List Node,
      Node.unfoldAll name definition body = body.map (Node.unfold name definition) :=
    Node.unfoldAll_eq_map name definition
  have hoperand : ∀ (marked : Bool) (anchor anchor' : Node) (rest : List Node),
      Node.standFree name rest = true →
      Operand.following marked (anchor' :: rest.map (Node.unfold name definition)) =
        (Operand.following marked (anchor :: rest)).unfold name definition :=
    fun marked anchor anchor' rest hrest =>
      Operand.following_unfold name definition marked anchor anchor' hmarker hrest
  apply Walk.visitAll.mutual_induct s
  · intro depth previous hfree
    rw [List.map_nil, visitAll, visitAll]
    exact .done ()
  · intro depth previous node rest hjoint ihnode ihrest hfree
    refine siblings_unfolds (ihnode hfree) fun consumed => ihrest consumed ?_
    exact Node.standFree_of_isInfix (Node.standFree_cons hfree).2
      (List.drop_suffix consumed rest).isInfix
  · intro depth previous node rest hjoint ihnode ihrest hfree
    refine siblings_unfolds (ihnode hfree) fun consumed => ihrest consumed ?_
    exact Node.standFree_of_isInfix (Node.standFree_cons hfree).2
      (List.drop_suffix consumed rest).isInfix
  · intro depth rest operand hclosed ih hfree
    have habsolute := Operand.absolute_unfold name definition (.literal Node.bar)
      (.literal Node.bar) rest
    have hclosed' := (Operand.isClosed_unfold name definition (.literal Node.bar)
      (.literal Node.bar) rest).trans hclosed
    have hinside := ih (Node.standFree_of_isInfix (Node.standFree_cons hfree).2
      (Operand.absolute_isPrefix (.literal Node.bar :: rest)).isInfix)
    rw [Node.unfold, visit, visit, if_pos rfl, if_pos rfl, if_pos hclosed, if_pos hclosed',
      habsolute]
    exact (Unfolds.called _ List.isEmpty_map hinside).then_return _
  · intro depth rest hclosed hfree
    have hclosed' := (Operand.isClosed_unfold name definition (.literal Node.bar)
      (.literal Node.bar) rest).symm ▸ hclosed
    rw [Node.unfold, visit, visit, if_pos rfl, if_pos rfl, if_neg hclosed, if_neg hclosed']
    exact .malformed _ _ _ _
  · intro depth rest text htext hfree
    rw [Node.unfold, visit, visit, if_neg htext, if_neg htext]
    exact (Unfolds.append _).then_return 0
  · intro depth rest other operand ih hfree
    by_cases hother : other = name
    · subst hother
      rw [Node.unfold, if_pos rfl, @visit.eq_def _ _ (.group _)]
      exact visit_name_unfolds hs hbrought hresolve hvariable hcode _ _ _
    · have hrest := (Node.standFree_cons hfree).2
      have hinside := ih (Node.standFree_of_isInfix (standFree_operand hrest)
        (Operand.inner_isInfix _))
      rw [Node.unfold_var _ _ hother, visit, visit, hoperand _ _ _ _ hrest, Operand.inner_unfold]
      exact named_unfolds hs hbrought hother hinside
  · intro depth rest symbol hfree
    rw [Node.unfold, visit, visit]
    exact (Unfolds.operated symbol).then_return 0
  · intro depth rest base exponent hempty hfree
    rw [Node.unfold, visit, visit, if_pos hempty, isEmpty_simple_unfold, isEmpty_simple_unfold,
      if_pos hempty]
    exact .malformed _ _ _ _
  · intro depth rest base exponent hnonempty ihbase ihexponent hfree
    obtain ⟨hbaseFree, hexponentFree⟩ : base.standsFree name = true ∧
        exponent.standsFree name = true := by
      simpa [Node.standsFree] using (Node.standFree_cons hfree).1
    have hbase := simple_unfolds hs hbrought hresolve hvariable hcode
      (ihbase (standFree_simple hbaseFree))
    have hexponent := simple_unfolds hs hbrought hresolve hvariable hcode
      (ihexponent (standFree_simple hexponentFree))
    rw [Node.unfold, visit, visit, if_neg hnonempty, isEmpty_simple_unfold, isEmpty_simple_unfold,
      if_neg hnonempty]
    exact (Unfolds.enclosed _ (hbase.bind fun _ => (Unfolds.append _).bind fun _ =>
      hexponent)).then_return 0
  · intro depth rest base hempty hfree
    rw [Node.unfold, visit, visit, if_pos hempty, isEmpty_simple_unfold, if_pos hempty]
    exact .malformed _ _ _ _
  · intro depth rest base hnonempty ih hfree
    have hbaseFree : base.standsFree name = true := (Node.standFree_cons hfree).1
    have hbase := simple_unfolds hs hbrought hresolve hvariable hcode
      (ih (standFree_simple hbaseFree))
    rw [Node.unfold, visit, visit, if_neg hnonempty, isEmpty_simple_unfold, if_neg hnonempty]
    exact hbase.then_return 0
  · intro depth rest other operand ih hfree
    have hother : other ≠ name := by
      have hbase := (Node.standFree_cons hfree).1
      simp only [Node.standsFree, Node.isNamed, Bool.and_true] at hbase
      simpa using hbase
    have hrest := (Node.standFree_cons hfree).2
    have hinside := ih (Node.standFree_of_isInfix (standFree_operand hrest)
      (Operand.inner_isInfix _))
    rw [Node.unfold, Node.unfold_var _ _ hother, visit, visit, hoperand _ _ _ _ hrest,
      Operand.inner_unfold]
    exact primed_unfolds hs hbrought hother hinside
  · intro depth rest base hbase operand _ hfree
    refine .fails (prime_fails hbase) ?_
    rw [Node.unfold]
    apply prime_fails
    cases base with
    | var other => exact absurd rfl (hbase other)
    | _ => simp [Node.unfold]
  · intro depth rest numerator denominator hempty hfree
    rw [Node.unfold, visit, visit, if_pos hempty, hbody, hbody, List.isEmpty_map, List.isEmpty_map,
      if_pos hempty]
    exact .malformed _ _ _ _
  · intro depth rest numerator denominator hnonempty ih₁ ih₂ hfree
    obtain ⟨hnumerator, hdenominator⟩ : Node.standFree name numerator = true ∧
        Node.standFree name denominator = true := by
      simpa [Node.standsFree] using (Node.standFree_cons hfree).1
    rw [Node.unfold, visit, visit, if_neg hnonempty, hbody, hbody, List.isEmpty_map,
      List.isEmpty_map, if_neg hnonempty]
    exact (Unfolds.enclosed _ ((Unfolds.enclosed _ (ih₁ hnumerator)).bind fun _ =>
      (Unfolds.append _).bind fun _ => .enclosed _ (ih₂ hdenominator))).then_return 0
  · intro depth rest body ih hfree
    have hbodyFree : Node.standFree name body = true := (Node.standFree_cons hfree).1
    rw [Node.unfold, visit, visit, hbody]
    exact (Unfolds.called _ List.isEmpty_map (ih hbodyFree)).then_return 0
  · intro depth rest body ih hfree
    have hbodyFree : Node.standFree name body = true := (Node.standFree_cons hfree).1
    rw [Node.unfold, visit, visit, hbody]
    exact (ih hbodyFree).then_return 0
  · intro depth rest lower upper anchor operand ih hfree
    obtain ⟨hlimits, hrest⟩ := Node.standFree_cons hfree
    obtain ⟨hlower, hupper⟩ : name ∉ Node.limitNames lower ∧ name ∉ Node.limitNames upper := by
      simpa [Node.standsFree] using hlimits
    rw [Node.unfold, visit, visit, hoperand _ _ _ _ hrest]
    exact summed_unfolds hlower hupper (ih (standFree_operand hrest))
  · intro depth rest lower upper anchor operand ih hfree
    have hrest := (Node.standFree_cons hfree).2
    rw [Node.unfold, visit, visit, hoperand _ _ _ _ hrest]
    exact integrated_unfolds (differential_ne hdifferential hrest) (ih (standFree_operand hrest))
  · intro depth rest lower upper anchor operand ih hfree
    have hrest := (Node.standFree_cons hfree).2
    rw [Node.unfold, visit, visit, hoperand _ _ _ _ hrest]
    exact turned_unfolds (ih (standFree_operand hrest))
  · intro depth rest lower upper anchor operand ih hfree
    have hrest := (Node.standFree_cons hfree).2
    rw [Node.unfold, visit, visit, hoperand _ _ _ _ hrest]
    exact turned_unfolds (ih (standFree_operand hrest))
  · intro depth rest lower upper anchor operand ih hfree
    have hrest := (Node.standFree_cons hfree).2
    rw [Node.unfold, visit, visit, hoperand _ _ _ _ hrest]
    exact turned_unfolds (ih (standFree_operand hrest))

end Nodes

end Walk

end Formulary
