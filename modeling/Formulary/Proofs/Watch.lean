import Formulary.Proofs.Naming

/-!
# What a name means inside an equation

A name that stands for an earlier variable is a reference to it wherever it is met, until an
equation that is referred to brings it in as an argument; from there on it is that argument. A
watch over the emissions tells at every visit whether that has happened.
-/

namespace Formulary

/-! ## Names that become local -/

/-- The names that come in with an equation where it is referred to. -/
def Equation.broughtIn {α : Type} (e : Equation α) : List String :=
  if e.isFunction then e.freeArguments else e.arguments

/-- The names that a sum or an integral makes local: its variable, and the limits that are names. -/
def Fragment.localNames : Fragment → List String
  | .sum index lower upper => index :: (SumRange.mk index lower upper).names
  | .integral name _ _ _ _ => [name]
  | _ => []

/-! ## The watch -/

def Node.isNamed (name : String) : Node → Bool
  | var other => other == name
  | _ => false

def Emission.visits (name : String) : Emission → Bool
  | visit _ node => node.isNamed name
  | _ => false

@[simp] theorem Emission.visits_instruction (name : String) (i : Instruction) :
    (instruction i).visits name = false := rfl

/-- What the emissions so far tell about a name. -/
structure Watch where
  /-- The name has come in. -/
  isIn : Bool := false
  /-- The depth of the latest visit. -/
  depth : Nat := 0
  /-- Visits at lower depths are behind a function that brings the name in. -/
  due : Nat := 0

namespace Watch

section Definitions

variable (name : String) (externals : List (Equation Float))

/-- A variable brings its names in at once, a function behind its operand. -/
def bring (w : Watch) (e : Equation Float) : Watch :=
  if e.broughtIn.contains name then
    if e.isFunction then { w with due := max w.due (w.depth + 1) } else { w with isIn := true }
  else w

def see (w : Watch) : Emission → Watch
  | .visit depth _ => { w with isIn := w.isIn || decide (depth < w.due), depth }
  | .instruction (.pair external _) =>
    match externals[external]? with
    | some e => w.bring name e
    | none => w
  | _ => w

def seeAll (w : Watch) (es : List Emission) : Watch := es.foldl (see name externals) w

/-- For every visit of the name in turn, whether the name has come in by then. -/
def tell (w : Watch) : List Emission → List Bool
  | [] => []
  | e :: es =>
    let w := w.see name externals e
    if e.visits name then w.isIn :: w.tell es else w.tell es

end Definitions

section Lemmas

variable {name : String} {externals : List (Equation Float)} {w w₁ w' : Watch} {depth : Nat}
  {d d₁ d' : Declared} {es es' : List Emission}

theorem seeAll_append (w : Watch) (es es' : List Emission) :
    w.seeAll name externals (es ++ es') =
      (w.seeAll name externals es).seeAll name externals es' :=
  List.foldl_append

theorem tell_append (w : Watch) (es es' : List Emission) :
    w.tell name externals (es ++ es') =
      w.tell name externals es ++ (w.seeAll name externals es).tell name externals es' := by
  induction es generalizing w with
  | nil => rfl
  | cons e es ih =>
    rw [List.cons_append, tell, tell]
    by_cases hvisit : e.visits name = true
    · simp only [hvisit, if_true, ih]
      rfl
    · simp only [hvisit, Bool.false_eq_true, if_false, ih]
      rfl

theorem isIn_see (externals : List (Equation Float)) (name : String) (hin : w.isIn = true)
    (e : Emission) : (w.see name externals e).isIn = true := by
  unfold see
  split
  · simp [hin]
  · split
    · unfold bring
      split
      · split <;> simp [hin]
      · exact hin
    · exact hin
  · exact hin

/-- A name that has come in stays in. -/
theorem tell_of_isIn (externals : List (Equation Float)) (name : String) (hin : w.isIn = true)
    (es : List Emission) : ∃ v, w.tell name externals es = List.replicate v true := by
  induction es generalizing w with
  | nil => exact ⟨0, rfl⟩
  | cons e es ih =>
    have hsee := isIn_see externals name hin e
    obtain ⟨v, hv⟩ := ih hsee
    by_cases hvisit : e.visits name = true
    · refine ⟨v + 1, ?_⟩
      simp only [tell, hvisit, if_true, hsee, hv, List.replicate_succ]
    · refine ⟨v, ?_⟩
      simp only [tell, hvisit, Bool.false_eq_true, if_false, hv]

theorem tell_eq_replicate (externals : List (Equation Float)) (name : String) (w : Watch)
    (es : List Emission) :
    ∃ r v, w.tell name externals es = List.replicate r false ++ List.replicate v true := by
  induction es generalizing w with
  | nil => exact ⟨0, 0, rfl⟩
  | cons e es ih =>
    obtain ⟨r, v, hrest⟩ := ih (w.see name externals e)
    by_cases hvisit : e.visits name = true
    · cases hin : (w.see name externals e).isIn with
      | true =>
        obtain ⟨v, hv⟩ := tell_of_isIn externals name hin es
        refine ⟨0, v + 1, ?_⟩
        simp only [tell, hvisit, if_true, hin, hv, List.replicate_succ, List.replicate_zero,
          List.nil_append]
      | false =>
        refine ⟨r + 1, v, ?_⟩
        simp only [tell, hvisit, if_true, hin, hrest, List.replicate_succ, List.cons_append]
    · refine ⟨r, v, ?_⟩
      simp only [tell, hvisit, Bool.false_eq_true, if_false, hrest]

theorem see_of_not_mem (hexternals : ∀ e ∈ externals, name ∉ e.broughtIn)
    (hin : w.isIn = false) (hdue : w.due = 0) (e : Emission) :
    (w.see name externals e).isIn = false ∧ (w.see name externals e).due = 0 := by
  unfold see
  split
  · simp [hin, hdue]
  · split
    · next external hexternal =>
      have hnot : ¬external.broughtIn.contains name = true := by
        simpa using hexternals external (List.mem_of_getElem? hexternal)
      rw [bring, if_neg hnot]
      exact ⟨hin, hdue⟩
    · exact ⟨hin, hdue⟩
  · exact ⟨hin, hdue⟩

/-- A name that no external brings in never comes in. -/
theorem true_not_mem_tell (hexternals : ∀ e ∈ externals, name ∉ e.broughtIn)
    (hin : w.isIn = false) (hdue : w.due = 0) (es : List Emission) :
    true ∉ w.tell name externals es := by
  induction es generalizing w with
  | nil => simp [tell]
  | cons e es ih =>
    obtain ⟨hin', hdue'⟩ := see_of_not_mem hexternals hin hdue e
    have hrest := ih hin' hdue'
    by_cases hvisit : e.visits name = true
    · simp only [tell, hvisit, if_true, hin', List.mem_cons, Bool.true_eq_false, false_or]
      exact hrest
    · simp only [tell, hvisit, Bool.false_eq_true, if_false]
      exact hrest

/-! ## What the watch is right about -/

/-- The watch tells whether the name is local to a visit at this depth. -/
def Agrees (name : String) (w : Watch) (depth : Nat) (d : Declared) : Prop :=
  d.symbols.isLocal name = (w.isIn || decide (depth < w.due))

/-- The watch has just seen a visit at this depth. -/
structure Seen (name : String) (w : Watch) (depth : Nat) (d : Declared) : Prop where
  depth_eq : w.depth = depth
  isLocal_eq : d.symbols.isLocal name = w.isIn
  due_le : w.isIn = true ∨ w.due ≤ depth

/-- The watch has gone on to a state that is right about visits at this depth. -/
structure Follows (name : String) (w w' : Watch) (depth : Nat) (d' : Declared) : Prop where
  agrees : w'.Agrees name depth d'
  due_eq : w'.due = w.due ∨ depth < w'.due
  isIn : w.isIn = true → w'.isIn = true

theorem Agrees.visit (h : w.Agrees name depth d) (externals : List (Equation Float))
    (node : Node) :
    (w.see name externals (.visit depth node)).Seen name depth d := by
  refine ⟨rfl, h, ?_⟩
  rw [see]
  by_cases hdue : depth < w.due
  · left
    simp [hdue]
  · right
    exact Nat.le_of_not_lt hdue

theorem Seen.agrees (h : w.Seen name depth d) : w.Agrees name depth d := by
  rw [Agrees, h.isLocal_eq]
  rcases h.due_le with hin | hdue
  · simp [hin]
  · simp [Nat.not_lt.2 hdue]

/-- Nothing is due for the operand of the node that has been visited. -/
theorem Seen.inside (h : w.Seen name depth d) : w.Agrees name (depth + 1) d := by
  rw [Agrees, h.isLocal_eq]
  rcases h.due_le with hin | hdue
  · simp [hin]
  · have hnot : ¬depth + 1 < w.due := by omega
    simp [hnot]

theorem Seen.congr (h : w.Seen name depth d)
    (hlocal : d₁.symbols.isLocal name = d.symbols.isLocal name) : w.Seen name depth d₁ :=
  ⟨h.depth_eq, hlocal.trans h.isLocal_eq, h.due_le⟩

theorem Agrees.follows (h : w.Agrees name depth d) : Follows name w w depth d :=
  ⟨h, .inl rfl, id⟩

theorem Follows.trans (h₁ : Follows name w w₁ depth d₁) (h₂ : Follows name w₁ w' depth d') :
    Follows name w w' depth d' := by
  refine ⟨h₂.agrees, ?_, fun hin => h₂.isIn (h₁.isIn hin)⟩
  rcases h₂.due_eq with hsame | hdue
  · rw [hsame]
    exact h₁.due_eq
  · exact .inr hdue

/-- What is due for the operand is due for the nodes behind it. -/
theorem Follows.outside (hseen : w.Seen name depth d)
    (h : Follows name w w' (depth + 1) d') : Follows name w w' depth d' := by
  have hagrees := h.agrees
  rw [Agrees] at hagrees
  refine ⟨?_, ?_, h.isIn⟩
  · rw [Agrees, hagrees]
    rcases h.due_eq with hsame | hdue
    · rcases hseen.due_le with hin | hdue
      · simp [h.isIn hin]
      · have hnot : ¬depth + 1 < w'.due := by omega
        have hnot' : ¬depth < w'.due := by omega
        simp [hnot, hnot']
    · have hdue' : depth < w'.due := by omega
      simp [hdue, hdue']
  · rcases h.due_eq with hsame | hdue
    · exact .inl hsame
    · right
      omega

theorem Follows.referred (h : w.Seen name depth d) {e : Equation Float}
    (hvariable : e.isFunction = false) :
    Follows name w (w.bring name e) depth ((d.declaring e).addArguments e.arguments) := by
  have hlocal : ((d.declaring e).addArguments e.arguments).symbols.isLocal name =
      (w.isIn || e.broughtIn.contains name) := by
    rw [Declared.symbols_addArguments, Declared.symbols_declaring, Symbols.isLocal_addArguments,
      h.isLocal_eq, Equation.broughtIn, if_neg (by simp [hvariable])]
  have hbring : w.bring name e = { w with isIn := w.isIn || e.broughtIn.contains name } := by
    rw [bring]
    by_cases hin : e.broughtIn.contains name = true
    · simp only [hin, hvariable, if_true, Bool.or_true, Bool.false_eq_true, if_false]
    · rw [if_neg hin]
      simp only [Bool.not_eq_true] at hin
      rw [hin, Bool.or_false]
  rw [hbring]
  refine ⟨?_, .inl rfl, ?_⟩
  · rw [Agrees, hlocal]
    rcases h.due_le with hin | hdue
    · simp [hin]
    · have hnot : ¬depth < w.due := by omega
      simp [hnot]
  · intro hin
    simp [hin]

/-- Inside the operand of a function, what the function brings in is not due. -/
theorem Seen.bring_inside (h : w.Seen name depth d) {e : Equation Float}
    (hfunction : e.isFunction = true) :
    (w.bring name e).Agrees name (depth + 1) (d.declaring e) := by
  have hinside : w.Agrees name (depth + 1) (d.declaring e) := by
    apply Seen.inside
    exact h.congr (congrArg (Symbols.isLocal · name) (Declared.symbols_declaring d e))
  by_cases hin : e.broughtIn.contains name = true
  · have hdue : (depth + 1 < max w.due (w.depth + 1)) ↔ depth + 1 < w.due := by
      have hdepth := h.depth_eq
      omega
    rw [bring, if_pos hin, if_pos hfunction, Agrees, hinside]
    simp only [hdue]
  · rw [bring, if_neg hin]
    exact hinside

theorem Follows.applied (hseen : w.Seen name depth d) {e : Equation Float}
    (hfunction : e.isFunction = true)
    (h : Follows name (w.bring name e) w' (depth + 1) d') :
    Follows name w w' depth (d'.addArguments e.freeArguments) := by
  have hlocal : (d'.addArguments e.freeArguments).symbols.isLocal name =
      (d'.symbols.isLocal name || e.broughtIn.contains name) := by
    rw [Declared.symbols_addArguments, Symbols.isLocal_addArguments, Equation.broughtIn,
      if_pos hfunction]
  by_cases hin : e.broughtIn.contains name = true
  · have hbring : w.bring name e = { w with due := max w.due (w.depth + 1) } := by
      rw [bring, if_pos hin, if_pos hfunction]
    rw [hbring] at h
    have hdepth := hseen.depth_eq
    have hdue : depth < w'.due := by
      rcases h.due_eq with hsame | hdue
      · simp only at hsame
        omega
      · omega
    refine ⟨?_, .inr hdue, h.isIn⟩
    rw [Agrees, hlocal, hin]
    simp [hdue]
  · have hbring : w.bring name e = w := by
      rw [bring, if_neg hin]
    rw [hbring] at h
    have houtside := h.outside hseen
    refine ⟨?_, houtside.due_eq, houtside.isIn⟩
    rw [Agrees, hlocal, houtside.agrees]
    simp only [Bool.not_eq_true] at hin
    rw [hin, Bool.or_false]

end Lemmas

end Watch

/-! ## Watching a walk -/

/-- What the emissions make of the name in turn: its variable, or else a reference. -/
def Emission.namings (name : String) (externals : List (Equation Float)) (es : List Emission) :
    List Bool :=
  (instructions es).filterMap (·.naming? name (externals.findIdx (·.name? == some name)))

theorem Emission.namings_append (name : String) (externals : List (Equation Float))
    (es es' : List Emission) :
    namings name externals (es ++ es') =
      namings name externals es ++ namings name externals es' := by
  rw [namings, instructions_append, List.filterMap_append]
  rfl

theorem Emission.namings_code (name : String) (externals : List (Equation Float))
    {fragment : Fragment} (h : fragment.use? = none) :
    namings name externals [.instruction (.append fragment)] = [] := by
  cases fragment <;> first | rfl | cases h

/-- Whatever a watch has seen before these emissions, it tells what they make of the name. -/
def Told (name : String) (externals : List (Equation Float)) (depth : Nat) (d : Declared)
    (es : List Emission) (d' : Declared) : Prop :=
  ∀ w : Watch, w.Agrees name depth d →
    w.Follows name (w.seeAll name externals es) depth d' ∧
      Emission.namings name externals es = w.tell name externals es

namespace Told

variable {name : String} {externals : List (Equation Float)} {depth : Nat} {d d₁ d' : Declared}
  {es es' : List Emission}

theorem append (h : Told name externals depth d es d₁) (h' : Told name externals depth d₁ es' d') :
    Told name externals depth d (es ++ es') d' := by
  intro w hw
  obtain ⟨hfollows, hnamings⟩ := h w hw
  obtain ⟨hfollows', hnamings'⟩ := h' _ hfollows.agrees
  rw [Watch.seeAll_append, Watch.tell_append, Emission.namings_append, hnamings, hnamings']
  exact ⟨hfollows.trans hfollows', rfl⟩

theorem code {fragment : Fragment} (h : fragment.use? = none) :
    Told name externals depth d [.instruction (.append fragment)] d := by
  intro w hw
  exact ⟨hw.follows, Emission.namings_code name externals h⟩

theorem between {opening : Fragment} (hopening : opening.use? = none)
    (h : Told name externals depth d es d') :
    Told name externals depth d (Walk.between opening es) d' :=
  (code hopening).append (h.append (code rfl))

theorem warning (warning : Warning) :
    Told name externals depth d [.warning warning] d := by
  intro w hw
  exact ⟨hw.follows, rfl⟩

theorem joint (previous : Option Node) (node : Node) :
    Told name externals depth d (Walk.joint previous node) d := by
  unfold Walk.joint
  split
  · exact code rfl
  · intro w hw
    exact ⟨hw.follows, rfl⟩

theorem visit {node : Node}
    (h : ∀ w : Watch, w.Seen name depth d →
      w.Follows name (w.seeAll name externals es) depth d' ∧
        Emission.namings name externals es =
          (if node.isNamed name then [w.isIn] else []) ++ w.tell name externals es) :
    Told name externals depth d (.visit depth node :: es) d' := by
  intro w hw
  obtain ⟨hfollows, hnamings⟩ := h _ (hw.visit externals node)
  refine ⟨⟨hfollows.agrees, hfollows.due_eq, ?_⟩, ?_⟩
  · intro hin
    exact hfollows.isIn (by simp [Watch.see, hin])
  · have hvisit : Emission.namings name externals (.visit depth node :: es) =
        Emission.namings name externals es := rfl
    rw [hvisit, hnamings, Watch.tell, Emission.visits]
    split
    · rfl
    · rfl

/-- What is told of an operand is told of it behind the node it belongs to. -/
theorem inside (h : Told name externals (depth + 1) d es d') {w : Watch}
    (hw : w.Seen name depth d) :
    w.Follows name (w.seeAll name externals es) depth d' ∧
      Emission.namings name externals es = w.tell name externals es := by
  obtain ⟨hfollows, hnamings⟩ := h w hw.inside
  exact ⟨hfollows.outside hw, hnamings⟩

/-- A function brings its names in behind its operand. -/
theorem applied {e : Equation Float} (hexternal : externals[d.placeOf e]? = some e)
    (hfunction : e.isFunction = true) {make : Nat → Nat → Fragment}
    (hmake : ∀ external branch, (make external branch).use? = none)
    (h : Told name externals (depth + 1) (d.declaring e) es d') {w : Watch}
    (hw : w.Seen name depth d) :
    w.Follows name (w.seeAll name externals (Walk.pairing d e make ++ es)) depth
        (d'.addArguments e.freeArguments) ∧
      Emission.namings name externals (Walk.pairing d e make ++ es) =
        w.tell name externals (Walk.pairing d e make ++ es) := by
  obtain ⟨hfollows, hnamings⟩ := h _ (hw.bring_inside hfunction)
  have hbring : w.seeAll name externals (Walk.pairing d e make) = w.bring name e := by
    simp [Walk.pairing, Watch.seeAll, Watch.see, hexternal]
  have hpairing : Emission.namings name externals (Walk.pairing d e make) = [] := by
    simp [Walk.pairing, Emission.namings, Instruction.naming?, hmake]
  rw [Watch.seeAll_append, Watch.tell_append, Emission.namings_append, hbring, hpairing, hnamings]
  exact ⟨hfollows.applied hw hfunction, rfl⟩

/-- A name that is not referred to is local if it is the one that is watched. -/
theorem named {watched name : String} (hname : name = watched → d.symbols.isLocal name = true)
    {w : Watch} (hw : w.Seen watched depth d) :
    w.Follows watched (w.seeAll watched externals [.instruction (.append (.var name))]) depth
        (d.addArguments [name]) ∧
      Emission.namings watched externals [.instruction (.append (.var name))] =
        (if (Node.var name).isNamed watched then [w.isIn] else []) ++
          w.tell watched externals [.instruction (.append (.var name))] := by
  have hlocal : (d.addArguments [name]).symbols.isLocal watched =
      d.symbols.isLocal watched := by
    rw [Declared.symbols_addArguments, Symbols.isLocal_addArguments]
    by_cases heq : name = watched
    · subst heq
      simp [hname rfl]
    · simp [Ne.symm heq]
  refine ⟨(hw.congr hlocal).agrees.follows, ?_⟩
  by_cases heq : name = watched
  · subst heq
    have hin : w.isIn = true := by rw [← hw.isLocal_eq, hname rfl]
    simp [Emission.namings, Instruction.naming?, Node.isNamed, Watch.tell, hin]
  · simp [Emission.namings, Instruction.naming?, Node.isNamed, Watch.tell, heq]

/-- A variable brings its names in at once. -/
theorem referred {s : Session} (hs : s.NamesBind) (hd : d.Resolved s) {watched name : String}
    {e : Equation Float} (hresolve : s.resolve name = some e) (hvariable : e.isFunction = false)
    (hlocal : name = watched → d.symbols.isLocal name = false)
    (hgrows : (d.declaring e).externals <+: externals) {w : Watch}
    (hw : w.Seen watched depth d) :
    w.Follows watched (w.seeAll watched externals (Walk.pairing d e .reference)) depth
        ((d.declaring e).addArguments e.arguments) ∧
      Emission.namings watched externals (Walk.pairing d e .reference) =
        (if (Node.var name).isNamed watched then [w.isIn] else []) ++
          w.tell watched externals (Walk.pairing d e .reference) := by
  have hexternal := Declared.getElem?_of_grow hs hd hresolve hgrows
  have hplace := Declared.findIdx_eq_placeOf_iff hs hd hresolve hgrows watched
  have hbring : w.seeAll watched externals (Walk.pairing d e .reference) = w.bring watched e := by
    simp [Walk.pairing, Watch.seeAll, Watch.see, hexternal]
  rw [hbring]
  refine ⟨.referred hw hvariable, ?_⟩
  by_cases heq : name = watched
  · have hin : w.isIn = false := by
      rw [← hw.isLocal_eq, ← heq]
      exact hlocal heq
    simp [Emission.namings, Instruction.naming?, Node.isNamed, Watch.tell, Walk.pairing,
      Fragment.use?, hplace.2 heq, heq, hin]
  · have hother : d.placeOf e ≠ externals.findIdx (·.name? == some watched) := by
      intro hsame
      exact heq (hplace.1 hsame.symm)
    simp [Emission.namings, Instruction.naming?, Node.isNamed, Watch.tell, Walk.pairing,
      hother, heq]

end Told

/-- A watch that has seen the visit of a node tells what becomes of the node. -/
def Stretch.Told (name : String) (externals : List (Equation Float)) (depth : Nat) (d : Declared)
    (es : List Emission) (d' : Declared) : Stretch → Prop
  | siblings _ _ => Formulary.Told name externals depth d es d'
  | single node _ _ => ∀ w : Watch, w.Seen name depth d →
      w.Follows name (w.seeAll name externals es) depth d' ∧
        Emission.namings name externals es =
          (if node.isNamed name then [w.isIn] else []) ++ w.tell name externals es

theorem Visits.told {s : Session} (hs : s.NamesBind) {name : String} {equation : Equation Float}
    (hresolve : s.resolve name = some equation) (hvariable : equation.isFunction = false)
    {depth : Nat} {stretch : Stretch} {d d' : Declared} {es : List Emission}
    (h : Visits s depth stretch d es d') (hd : d.Resolved s) {externals : List (Equation Float)}
    (hgrows : d'.externals <+: externals)
    (hlocal : ∀ f, .append f ∈ Emission.instructions es → name ∉ f.localNames) :
    stretch.Told name externals depth d es d' := by
  have hother : ∀ {other e}, s.resolve other = some e → e.isFunction = true → other ≠ name := by
    rintro other e hother hfunction rfl
    obtain rfl : equation = e := Option.some.inj (hresolve.symm.trans hother)
    rw [hvariable] at hfunction
    cases hfunction
  induction h with
  | nil =>
    intro w hw
    exact ⟨hw.follows, rfl⟩
  | cons hnode hrest ihnode ihrest =>
    have htold := ihnode hd (hrest.externals_grow.trans hgrows)
      fun f hf => hlocal f (by simp [hf])
    have htold' := ihrest (hnode.resolved hs hd) hgrows fun f hf => hlocal f (by simp [hf])
    exact (Told.joint _ _).append ((Told.visit htold).append htold')
  | bars _ _ _ ih =>
    intro w hw
    exact ((ih hd hgrows fun f hf => hlocal f (by simp [hf])).between rfl).inside hw
  | piece =>
    intro w hw
    exact ((Told.code rfl) w hw.agrees)
  | @name _ other _ d hname =>
    intro w hw
    exact Told.named (by
      rintro rfl
      rcases hname with hname | hname
      · exact hname
      · rw [hresolve] at hname
        cases hname) hw
  | @reference _ other _ d e hunknown hreference hkind =>
    intro w hw
    exact Told.referred hs hd hreference hkind (fun _ => hunknown) hgrows hw
  | @application _ other _ d _ e _ _ hfunction hkind _ _ hbody ih =>
    intro w hw
    have hexternal := Declared.getElem?_of_grow hs hd hfunction (hbody.externals_grow.trans hgrows)
    have htold := ih (hd.declaring (hs.name?_of_resolve hfunction) hfunction) hgrows
      fun f hf => hlocal f (by simp [hf])
    have hnamed : (Node.var other).isNamed name = false := by
      simp [Node.isNamed, hother hfunction hkind]
    rw [List.append_assoc, hnamed]
    exact (htold.append (Told.code rfl)).applied hexternal hkind (fun _ _ => rfl) hw
  | atom hentry =>
    intro w hw
    rcases Entry.instruction_cases hentry with hsign | ⟨fragment, huse, -, hcode⟩
    · rw [hsign]
      exact ⟨hw.agrees.follows, rfl⟩
    · rw [hcode]
      exact Told.code huse w hw.agrees
  | power _ _ h₁ h₂ ih₁ ih₂ =>
    intro w hw
    have htold₁ := ih₁ hd (h₂.externals_grow.trans hgrows) fun f hf => hlocal f (by simp [hf])
    have htold₂ := ih₂ (h₁.resolved hs hd) hgrows fun f hf => hlocal f (by simp [hf])
    exact ((htold₁.append ((Told.code rfl).append htold₂)).between rfl).inside hw
  | angle _ _ ih =>
    intro w hw
    exact (ih hd hgrows hlocal).inside hw
  | derivative hfunction _ _ hbody ih =>
    intro w hw
    obtain ⟨hresolved, hkind⟩ := Option.filter_eq_some_iff.1 hfunction
    have hexternal :=
      Declared.getElem?_of_grow hs hd hresolved (hbody.externals_grow.trans hgrows)
    have htold := ih (hd.declaring (hs.name?_of_resolve hresolved) hresolved) hgrows
      fun f hf => hlocal f (by simp [hf])
    rw [List.append_assoc]
    exact (htold.append ((Told.code rfl).append (Told.warning _))).applied hexternal hkind
      (fun _ _ => rfl) hw
  | fraction _ _ h₁ h₂ ih₁ ih₂ =>
    intro w hw
    have htold₁ := ih₁ hd (h₂.externals_grow.trans hgrows) fun f hf => hlocal f (by simp [hf])
    have htold₂ := ih₂ (h₁.resolved hs hd) hgrows fun f hf => hlocal f (by simp [hf])
    exact (((htold₁.between rfl).append
      ((Told.code rfl).append (htold₂.between rfl))).between rfl).inside hw
  | root _ _ ih =>
    intro w hw
    exact ((ih hd hgrows fun f hf => hlocal f (by simp [hf])).between rfl).inside hw
  | group _ ih =>
    intro w hw
    exact (ih hd hgrows hlocal).inside hw
  | @sum _ _ _ _ d _ range _ _ _ _ ih =>
    intro w hw
    have hnames : name ∉ (Fragment.sum range.index range.lower range.upper).localNames :=
      hlocal _ (by simp)
    have hsame : ((d.addArguments range.names).addBound range.index).symbols.isLocal name =
        d.symbols.isLocal name := by
      rw [Fragment.localNames, List.mem_cons, not_or] at hnames
      obtain ⟨hindex, hlimits⟩ := hnames
      rw [Declared.symbols_addBound, Symbols.isLocal_addBound, Declared.symbols_addArguments,
        Symbols.isLocal_addArguments]
      simp [hindex, hlimits]
    exact ((ih hd hgrows fun f hf => hlocal f (by simp [hf])).between rfl).inside (hw.congr hsame)
  | @integral _ _ _ _ d _ partition _ differential _ _ _ _ ih =>
    intro w hw
    have hnames : name ∉ (Fragment.integral differential partition.start partition.width
        s.config.partitions s.config.rule).localNames := hlocal _ (by simp)
    have hsame : (d.addBound differential).symbols.isLocal name = d.symbols.isLocal name := by
      have hother : name ≠ differential := by simpa [Fragment.localNames] using hnames
      rw [Declared.symbols_addBound, Symbols.isLocal_addBound]
      simp [hother]
    exact ((Told.warning _).append
      ((ih hd hgrows fun f hf => hlocal f (by simp [hf])).between rfl)).inside (hw.congr hsame)
  | turned _ _ _ ih =>
    intro w hw
    exact ((ih hd hgrows fun f hf => hlocal f (by simp [hf])).between rfl).inside hw

/-! ## Compiling a name -/

namespace Session

/-- What is told of a name is right for every branch: in turn, the name is a reference to one branch
of what it stands for until it has come in, and then it is an argument. -/
theorem compile_name {s : Session} (hs : s.Reachable) {name : String} {bound : Equation Float}
    (hresolve : s.resolve name = some bound) (hvariable : bound.isFunction = false)
    {nodes : List Node} {equation : Equation Float}
    (h : (s.compile nodes).outcome = .ok equation) (hparameter : name ∉ equation.parameters)
    (hlocal : ∀ f : Fragment, .instruction (.append f) ∈ (s.compile nodes).emissions →
      name ∉ f.localNames) :
    ∃ external r v,
      ({} : Watch).tell name equation.externals (s.compile nodes).emissions =
        List.replicate r false ++ List.replicate v true ∧
      (0 < r → equation.externals[external]? = some bound) ∧
      ((∀ e ∈ equation.externals, name ∉ e.broughtIn) → v = 0) ∧
      ∀ e ∈ equation.branches, ∃ b, (0 < r → b < bound.branchCount) ∧
        e.uses.filter (·.isOf name external) =
          List.replicate r (.reference external b) ++ List.replicate v (.var name) := by
  have hemissions := emissions_compile_of_ok h
  obtain ⟨binding, right, es, d, branches, hsides, hvisits, hread, rfl⟩ :=
    compile_outcome_eq_ok_iff.1 h
  rw [assemble_of_visits hsides hvisits] at hemissions
  have hnames := hs.namesBind
  have hresolved : (declaredBy binding).Resolved s := by
    intro e he
    cases he
  have hemitted := hvisits.isEmitted hnames hresolved List.prefix_rfl
  have hdeclared := hvisits.resolved hnames hresolved
  have hagrees : ({} : Watch).Agrees name 0 (declaredBy binding) := by
    have hunknown : (binding.elim [] (·.parameters)).contains name = false := by
      cases binding with
      | none => rfl
      | some binding => simpa [Equation.parameters] using hparameter
    rw [Watch.Agrees, declaredBy, Declared.symbols_addArguments, Symbols.isLocal_addArguments,
      hunknown]
    rfl
  have htold : Emission.namings name d.externals es = ({} : Watch).tell name d.externals es := by
    refine (hvisits.told hnames hresolve hvariable hresolved List.prefix_rfl ?_ _ hagrees).2
    intro f hf
    exact hlocal f ((instruction_mem_emissions hsides hvisits h _).2 hf)
  have htell : ({} : Watch).tell name d.externals (s.compile nodes).emissions =
      ({} : Watch).tell name d.externals es := by
    rw [hemissions, Watch.tell_append]
    exact List.append_nil _
  obtain ⟨r, v, hrv⟩ := Watch.tell_eq_replicate d.externals name {} es
  have hnamings := htold.trans hrv
  have hfalse : 0 < r → false ∈ Emission.namings name d.externals es := by
    intro hr
    rw [hnamings]
    exact List.mem_append_left _ (List.mem_replicate.2 ⟨Nat.ne_of_gt hr, rfl⟩)
  refine ⟨d.externals.findIdx (·.name? == some name), r, v, htell.trans hrv, ?_, ?_, ?_⟩
  · intro hr
    obtain ⟨e, he⟩ := exists_external_of_naming hemitted (hfalse hr)
    rw [he, hdeclared.eq_of_findIdx hresolve he]
  · intro hexternals
    have hnot := Watch.true_not_mem_tell (w := {}) hexternals rfl rfl es
    rw [hrv, List.mem_append, List.mem_replicate, List.mem_replicate] at hnot
    have hnone : ¬v ≠ 0 := fun hv => hnot (.inr ⟨hv, rfl⟩)
    omega
  · intro e he
    obtain ⟨k, hk⟩ := List.getElem?_of_mem he
    have hrel := (readBranches_eq_ok_iff.1 hread).2 k
    rw [hk] at hrel
    cases hscript : script? [] (Emission.instructions es) k with
    | none =>
      rw [hscript] at hrel
      cases hrel
    | some code =>
      rw [hscript] at hrel
      cases hrel with
      | some hsum =>
        obtain ⟨b, hreads⟩ := exists_readsBehind name
          (d.externals.findIdx (·.name? == some name)) hemitted hscript
        refine ⟨b, ?_, ?_⟩
        · intro hr
          rcases hreads.branch_of_naming (hfalse hr) with hpaired | ⟨e', he', hlt⟩
          · cases hpaired
          · rw [← hdeclared.eq_of_findIdx hresolve he']
            exact hlt
        · have huses := hreads.uses
          rw [Emission.namings] at hnamings
          rw [hnamings, List.map_append, List.map_replicate, List.map_replicate] at huses
          rw [hsum.uses, Fragment.filterMap_joined (fun _ => rfl)]
          exact huses

/-- The session after `c = n` and `n = m`. -/
private theorem exists_reachable_variables : ∃ s : Session, s.Reachable ∧
    s.resolve "c" = some ⟨some ⟨"c", .variable, []⟩, ["n"], [], [.var "n"], []⟩ ∧
    s.resolve "n" = some ⟨some ⟨"n", .variable, []⟩, ["m"], [], [.var "m"], []⟩ := by
  have hsides : ∀ left right, splitSides [.var left, .atom "=", .var right] =
      .ok (some ⟨left, .variable, []⟩, [.var right]) := by
    intro left right
    rfl
  have hread : ∀ name, readBranches [.append (.var name)] = .ok [.var name] := by
    intro name
    exact readBranches_single rfl (Expression.parse_eq_ok_iff_ofCode.2 (by cbv))
  have hcompile : ∀ (s : Session) (left right : String), s.resolve right = none →
      (s.compile [.var left, .atom "=", .var right]).outcome =
        .ok ⟨some ⟨left, .variable, []⟩, [right], [], [.var right], []⟩ := by
    intro s left right hnone
    exact compile_outcome_eq_ok_iff.2 ⟨_, _, _, _, _, hsides left right,
      .cons (.name (.inr hnone)) .nil, hread right, rfl⟩
  have hfirst := session_compile_of_ok (hcompile (fresh {}) "c" "n" rfl)
  have hsecond := session_compile_of_ok (hcompile
    ((fresh {}).compile [.var "c", .atom "=", .var "n"]).session "n" "m" (by
      rw [hfirst]
      rfl))
  have hreachable : (((fresh {}).compile [.var "c", .atom "=", .var "n"]).session.compile
      [.var "n", .atom "=", .var "m"]).session.Reachable := .compile _ (.compile _ (.fresh {}))
  rw [hsecond, hfirst] at hreachable
  exact ⟨_, hreachable, rfl, rfl⟩

/-- The reference to `c` in `n + c + n` brings `n` in. -/
private theorem compile_name_brought_in {s : Session}
    (hc : s.resolve "c" = some ⟨some ⟨"c", .variable, []⟩, ["n"], [], [.var "n"], []⟩)
    (hn : s.resolve "n" = some ⟨some ⟨"n", .variable, []⟩, ["m"], [], [.var "m"], []⟩) :
    ∃ equation, (s.compile [.var "n", .atom "+", .var "c", .atom "+", .var "n"]).outcome =
        .ok equation ∧
      "n" ∉ equation.parameters ∧
      (∀ f : Fragment, .instruction (.append f) ∈
          (s.compile [.var "n", .atom "+", .var "c", .atom "+", .var "n"]).emissions →
        "n" ∉ f.localNames) ∧
      ({} : Watch).tell "n" equation.externals
        (s.compile [.var "n", .atom "+", .var "c", .atom "+", .var "n"]).emissions =
          [false, true] ∧
      equation.branches =
        [.binary .add (.binary .add (.reference 0 0) (.reference 1 0)) (.var "n")] := by
  have hnodes : ∀ n ∈ [.var "n", .atom "+", .var "c", .atom "+", .var "n"],
      Node.isEquality n = false := by decide
  have hsides := splitSides_eq_none hnodes
  have hvisits : Visits s 0
      (.siblings none [.var "n", .atom "+", .var "c", .atom "+", .var "n"]) (declaredBy none) _ _ :=
    .cons (.reference rfl hn rfl) (.cons (.atom rfl) (.cons (.reference rfl hc rfl)
      (.cons (.atom rfl) (.cons (.name (.inl rfl)) .nil))))
  have hread : readBranches [.pair 0 1, .appendPaired 0 (.reference 0),
      .append (.operator .add), .pair 1 1, .appendPaired 1 (.reference 1),
      .append (.operator .add), .append (.var "n")] =
      .ok [.binary .add (.binary .add (.reference 0 0) (.reference 1 0)) (.var "n")] :=
    readBranches_single rfl (Expression.parse_eq_ok_iff_ofCode.2 (by cbv))
  have hcompile := compile_outcome_eq_ok_iff.2 ⟨none, _, _, _, _, hsides, hvisits, hread, rfl⟩
  refine ⟨_, hcompile, by simp [Equation.parameters], ?_, ?_, rfl⟩
  · intro f hf
    have hmem : .append f ∈ [Instruction.pair 0 1, .appendPaired 0 (.reference 0),
        .append (.operator .add), .pair 1 1, .appendPaired 1 (.reference 1),
        .append (.operator .add), .append (.var "n")] :=
      (instruction_mem_emissions hsides hvisits hcompile _).1 hf
    have hcases : f = .operator .add ∨ f = .var "n" := by simpa using hmem
    rcases hcases with rfl | rfl
    · simp [Fragment.localNames]
    · simp [Fragment.localNames]
  · rw [emissions_compile_of_ok hcompile, assemble_of_visits hsides hvisits]
    rfl

theorem compile_name_before_and_behind :
    ∃ (s : Session) (bound equation : Equation Float), s.Reachable ∧ s.resolve "n" = some bound ∧
      bound.isFunction = false ∧
      (s.compile [.var "n", .atom "+", .var "c", .atom "+", .var "n"]).outcome = .ok equation ∧
      "n" ∉ equation.parameters ∧
      (∀ f : Fragment, .instruction (.append f) ∈
          (s.compile [.var "n", .atom "+", .var "c", .atom "+", .var "n"]).emissions →
        "n" ∉ f.localNames) ∧
      ∃ external, equation.externals[external]? = some bound ∧
        ∀ e ∈ equation.branches, ∃ b < bound.branchCount,
          e.uses.filter (·.isOf "n" external) = [.reference external b, .var "n"] := by
  obtain ⟨s, hs, hc, hn⟩ := exists_reachable_variables
  obtain ⟨equation, hcompile, hparameter, hlocal, htell, -⟩ := compile_name_brought_in hc hn
  obtain ⟨external, r, v, hcounts, hexternal, -, huses⟩ :=
    compile_name hs hn rfl hcompile hparameter hlocal
  rw [htell] at hcounts
  have hr := congrArg (List.count false) hcounts
  have hv := congrArg (List.count true) hcounts
  rw [List.count_append, List.count_replicate, List.count_replicate] at hr hv
  obtain rfl : 1 = r := hr
  obtain rfl : 1 = v := by simpa using hv
  refine ⟨s, _, equation, hs, hn, rfl, hcompile, hparameter, hlocal, external,
    hexternal Nat.one_pos, ?_⟩
  intro e he
  obtain ⟨b, hlt, hfilter⟩ := huses e he
  exact ⟨b, hlt Nat.one_pos, hfilter⟩

/-- What is said of a name in every branch cannot be said of the whole equation: the last `n` of
`n + c + n` is no reference. -/
theorem name_brought_in_is_argument :
    ¬∀ (s : Session) (name : String) (bound equation : Equation Float) (nodes : List Node),
      s.Reachable → s.resolve name = some bound → bound.isFunction = false →
      (s.compile nodes).outcome = .ok equation → name ∉ equation.parameters →
      (∀ f : Fragment, .instruction (.append f) ∈ (s.compile nodes).emissions →
        name ∉ f.localNames) →
      ∀ e ∈ equation.branches, .var name ∉ e.uses := by
  intro hone
  obtain ⟨s, hs, hc, hn⟩ := exists_reachable_variables
  obtain ⟨equation, hcompile, hparameter, hlocal, -, hbranches⟩ := compile_name_brought_in hc hn
  have hnot := hone s "n" _ equation _ hs hn rfl hcompile hparameter hlocal
  rw [hbranches] at hnot
  have hlast := hnot _ (List.mem_singleton.2 rfl)
  simp [Expression.uses] at hlast

end Session

end Formulary
