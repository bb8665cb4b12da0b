import Formulary.Proofs.Listing

/-!
# Parameters before earlier equations

A parameter is local from the start, so wherever its name is met it is a variable, whatever the
session binds under that name: alone, as a base, as an exponent, as an angle, and inside of whatever
takes it for an argument. A prime is the exception. It asks the session alone, so a name under a
prime is an earlier function even where it is a parameter.
-/

namespace Formulary

/-! ## Where a name is met -/

section Definitions

variable {ν : Type} (name : String) (externals : List (Equation Float))

/-- The name as a variable, or an external that is bound under it. -/
def Leaf.isOf : Leaf ν → Bool
  | var other => other == name
  | reference external | apply external | derivative external =>
    externals[external]?.any (·.name? == some name)
  | number _ => false

/-- A local name is a variable, and under a prime the derivative of the external bound under it. -/
def Leaf.ofLocal : (primed : Bool) → Leaf ν
  | false => .var name
  | true => .derivative (externals.findIdx (·.name? == some name))

/-- Whether the node has the name under a prime, if it is the name at all. -/
def Node.primed? : Node → Option Bool
  | var other => if other = name then some false else none
  | prime (var other) => if other = name then some true else none
  | _ => none

def Emission.primed? : Emission → Option Bool
  | visit _ node => node.primed? name
  | _ => none

/-- The leaf that a token is, if it is of the name. -/
def Token.ofName? : Token → Option (Leaf String)
  | leaf l => if l.isOf name externals then some l else none
  | piece _ | other => none

end Definitions

theorem Declared.any_declaring (d : Declared) (equation : Equation Float) (name : String) :
    (d.declaring equation).externals.any (·.name? == some name) =
      (d.externals.any (·.name? == some name) || equation.name? == some name) := by
  unfold declaring
  split
  · next hfound =>
    by_cases hname : equation.name? = some name
    · rw [List.findIdx?_isSome, hname] at hfound
      rw [hfound, Bool.true_or]
    · rw [beq_eq_false_iff_ne.2 hname, Bool.or_false]
  · simp

section Walk

variable {name : String} {externals : List (Equation Float)}

/-- Only numbers are gathered from several tokens. -/
theorem Token.filter_leaves (ts : List Token) :
    (leaves ts).filter (·.isOf name externals) = ts.filterMap (ofName? name externals) := by
  have hflush : ∀ g : Gathered, (flush g).filter (·.isOf name externals) =
      g.2.filter (·.isOf name externals) := by
    rintro ⟨_ | text, ls⟩
    · rfl
    · exact List.filter_cons_of_neg Bool.false_ne_true
  rw [leaves, hflush]
  induction ts with
  | nil => rfl
  | cons t ts ih =>
    rw [gather_cons]
    cases t with
    | piece text =>
      rw [List.filterMap_cons_none rfl, ← ih]
      rcases gather ts with ⟨_ | behind, ls⟩ <;> rfl
    | leaf l =>
      rw [step, List.filter_cons, hflush, ih]
      by_cases hl : l.isOf name externals = true
      · rw [if_pos hl, List.filterMap_cons, ofName?, if_pos hl]
      · rw [if_neg hl, List.filterMap_cons, ofName?, if_neg hl]
    | other => rw [List.filterMap_cons_none rfl, ← ih, step, hflush]

/-- What a part of a walk makes of a name that is local before it: its leaves are those of the nodes
that it visits, behind that of `own`, the node that it was visited for; and an external is entered
under the name where one of them has a prime. -/
structure Shadows (name : String) (externals : List (Equation Float)) (own : Option Bool)
    (d : Declared) (es : List Emission) (d' : Declared) : Prop where
  leaves_eq : (Emission.tokens es).filterMap (Token.ofName? name externals) =
    (own.toList ++ es.filterMap (Emission.primed? name)).map (Leaf.ofLocal name externals)
  binds_eq : d'.externals.any (·.name? == some name) =
    (d.externals.any (·.name? == some name) ||
      (own.toList ++ es.filterMap (Emission.primed? name)).contains true)

namespace Shadows

variable {own : Option Bool} {depth : Nat} {d d₁ d' : Declared} {es es' : List Emission}

theorem nil : Shadows name externals none d [] d := ⟨rfl, (Bool.or_false _).symm⟩

theorem append (h : Shadows name externals own d es d₁)
    (h' : Shadows name externals none d₁ es' d') :
    Shadows name externals own d (es ++ es') d' := by
  have hown : own.toList ++ (es ++ es').filterMap (Emission.primed? name) =
      (own.toList ++ es.filterMap (Emission.primed? name)) ++
        es'.filterMap (Emission.primed? name) := by
    rw [List.filterMap_append, List.append_assoc]
  constructor
  · have hmap := @List.map_append _ _ (Leaf.ofLocal (ν := String) name externals)
      (own.toList ++ es.filterMap (Emission.primed? name))
      (es'.filterMap (Emission.primed? name))
    rw [Emission.tokens_append, List.filterMap_append, h.leaves_eq, h'.leaves_eq, hown, hmap]
    rfl
  · rw [h'.binds_eq, h.binds_eq, hown, Bool.or_assoc, ← List.contains_append]
    rfl

theorem visit {node : Node} (h : Shadows name externals (node.primed? name) d es d') :
    Shadows name externals none d (.visit depth node :: es) d' := by
  have hcons : List.filterMap (Emission.primed? name) (.visit depth node :: es) =
      (node.primed? name).toList ++ es.filterMap (Emission.primed? name) := by
    rw [List.filterMap_cons, Emission.primed?]
    cases node.primed? name <;> rfl
  refine ⟨?_, ?_⟩
  · rw [Emission.tokens_visit, h.leaves_eq, hcons]
    rfl
  · rw [h.binds_eq, hcons]
    rfl

/-- What is appended is no leaf of the name. -/
theorem code {f : Fragment} (h : f.token.ofName? name externals = none) :
    Shadows name externals none d [.instruction (.append f)] d := by
  refine ⟨?_, (Bool.or_false _).symm⟩
  rw [Emission.tokens_code, Emission.tokens_nil, List.filterMap_cons_none h]
  rfl

theorem warning (w : Warning) : Shadows name externals none d [.warning w] d :=
  ⟨rfl, (Bool.or_false _).symm⟩

theorem between {opening : Fragment} (hopening : opening.token = .other)
    (h : Shadows name externals none d es d') :
    Shadows name externals none d (Walk.between opening es) d' :=
  (code (by rw [hopening]; rfl)).append (h.append (code rfl))

theorem joint (previous : Option Node) (node : Node) :
    Shadows name externals none d (Walk.joint previous node) d := by
  unfold Walk.joint
  split
  · exact code rfl
  · exact nil

/-- An operator is no name. -/
theorem entry {symbol : String} {entry : Entry} (h : Entry.ofSymbol? symbol = some entry) :
    Shadows name externals none d [.instruction entry.instruction] d := by
  refine ⟨?_, (Bool.or_false _).symm⟩
  rw [Emission.tokens_entry h]
  rfl

theorem addArguments (h : Shadows name externals own d es d') (names : List String) :
    Shadows name externals own d es (d'.addArguments names) :=
  ⟨h.leaves_eq, h.binds_eq⟩

theorem var (other : String) :
    Shadows name externals ((Node.var other).primed? name) d
      [.instruction (.append (.var other))] (d.addArguments [other]) := by
  by_cases hother : other = name
  · subst hother
    refine ⟨?_, ?_⟩
    · simp [Node.primed?, Fragment.token, Token.ofName?, Leaf.isOf, Emission.primed?,
        Leaf.ofLocal]
    · simp [Node.primed?, Emission.primed?, Declared.addArguments]
  · have hof : (Leaf.var other).isOf (ν := String) name externals = false := by
      simpa [Leaf.isOf] using hother
    have hcode : (Fragment.var other).token.ofName? name externals = none := by
      simp [Fragment.token, Token.ofName?, hof]
    rw [Node.primed?, if_neg hother]
    exact (code hcode).addArguments _

/-- What stands for an earlier equation is of the name that the equation is bound under. -/
theorem pairing {other : String} {equation : Equation Float} (hname : equation.name? = some other)
    {make : Nat → Nat → Fragment} {l : Leaf String}
    (hmake : (make (d.placeOf equation) 0).token = .leaf l)
    (hof : l.isOf name externals = (other == name))
    (hsame : other = name → l = .ofLocal name externals true) :
    Shadows name externals (if other = name then some true else none) d
      (Walk.pairing d equation make) (d.declaring equation) := by
  have hvisits : (Walk.pairing d equation make).filterMap (Emission.primed? name) = [] := rfl
  refine ⟨?_, ?_⟩
  · rw [Emission.tokens_pairing, hmake, hvisits, List.append_nil, List.filterMap_cons,
      Token.ofName?, hof]
    by_cases hother : other = name
    · simp [hother, hsame hother]
    · simp [hother]
  · rw [Declared.any_declaring, hname, Option.some_beq_some, hvisits, List.append_nil]
    by_cases hother : other = name <;> simp [hother]

end Shadows

/-- Whether the node that a stretch was visited for is the name, and under a prime. -/
def Stretch.primed? (name : String) : Stretch → Option Bool
  | siblings _ _ => none
  | single node _ _ => node.primed? name

/-- A local name stays what it is wherever a walk meets it. -/
theorem Visits.shadows {s : Session} (hs : s.NamesBind) {depth : Nat} {stretch : Stretch}
    {d d' : Declared} {es : List Emission} (h : Visits s depth stretch d es d')
    (hd : d.Resolved s) (hgrows : d'.externals <+: externals)
    (hlocal : d.symbols.isLocal name = true) :
    Shadows name externals (stretch.primed? name) d es d' := by
  have hother : ∀ {d : Declared} {other : String}, d.symbols.isLocal name = true →
      d.symbols.isLocal other = false → other ≠ name := by
    rintro d other hlocal hunknown rfl
    rw [hlocal] at hunknown
    cases hunknown
  have hof : ∀ {d : Declared} {other : String} {equation : Equation Float}, d.Resolved s →
      s.resolve other = some equation → (d.declaring equation).externals <+: externals →
      externals[d.placeOf equation]?.any (·.name? == some name) = (other == name) := by
    intro d other equation hd hresolve hgrows
    rw [Declared.getElem?_of_grow hs hd hresolve hgrows, Option.any_some,
      hs.name?_of_resolve hresolve, Option.some_beq_some]
  induction h with
  | nil => exact .nil
  | cons hnode hrest ihnode ihrest =>
    have hfirst := ihnode hd (hrest.externals_grow.trans hgrows) hlocal
    have hbehind := ihrest (hnode.resolved hs hd) hgrows (hnode.isLocal_grow hlocal)
    exact (Shadows.joint _ _).append ((hfirst.append hbehind).visit)
  | bars _ _ _ ih => exact (ih hd hgrows hlocal).between rfl
  | piece => exact .code rfl
  | name => exact .var _
  | reference hunknown hresolve =>
    have hne := hother hlocal hunknown
    have hpairing := (Shadows.pairing (hs.name?_of_resolve hresolve) rfl (hof hd hresolve hgrows)
      fun hsame => absurd hsame hne : Shadows _ _ _ _ (Walk.pairing _ _ .reference) _)
    rw [if_neg hne] at hpairing
    rw [Stretch.primed?, Node.primed?, if_neg hne]
    exact hpairing.addArguments _
  | application hunknown hresolve _ _ _ hbody ih =>
    have hne := hother hlocal hunknown
    have hpairing := (Shadows.pairing (hs.name?_of_resolve hresolve) rfl
      (hof hd hresolve (hbody.externals_grow.trans hgrows)) fun hsame => absurd hsame hne :
        Shadows _ _ _ _ (Walk.pairing _ _ .apply) _)
    have hinner := ih (hd.declaring (hs.name?_of_resolve hresolve) hresolve) hgrows
      (by rwa [Declared.symbols_declaring])
    rw [if_neg hne] at hpairing
    rw [Stretch.primed?, Node.primed?, if_neg hne]
    exact ((hpairing.append hinner).append (.code rfl)).addArguments _
  | atom hentry => exact .entry hentry
  | power _ _ h₁ h₂ ih₁ ih₂ =>
    have hbase := ih₁ hd (h₂.externals_grow.trans hgrows) hlocal
    have hexponent := ih₂ (h₁.resolved hs hd) hgrows (h₁.isLocal_grow hlocal)
    exact (hbase.append ((Shadows.code rfl).append hexponent)).between rfl
  | angle _ _ ih => exact ih hd hgrows hlocal
  | @derivative _ other _ d _ equation _ hresolve _ _ hbody ih =>
    have hresolve := Option.eq_some_of_filter_eq_some hresolve
    have hname := hs.name?_of_resolve hresolve
    have hgrows' := hbody.externals_grow.trans hgrows
    have hplace := fun hsame => congrArg (Leaf.derivative (ν := String))
      ((Declared.findIdx_eq_placeOf_iff hs hd hresolve hgrows' name).2 hsame).symm
    have hpairing := (Shadows.pairing hname rfl (hof hd hresolve hgrows') hplace :
      Shadows _ _ _ _ (Walk.pairing _ _ (.derivative · · s.config.step)) _)
    have hinner := ih (hd.declaring hname hresolve) hgrows
      (by rwa [Declared.symbols_declaring])
    exact ((hpairing.append hinner).append
      ((Shadows.code rfl).append (.warning _))).addArguments _
  | fraction _ _ h₁ h₂ ih₁ ih₂ =>
    have hnumerator := ih₁ hd (h₂.externals_grow.trans hgrows) hlocal
    have hdenominator := ih₂ (h₁.resolved hs hd) hgrows (h₁.isLocal_grow hlocal)
    exact ((hnumerator.between rfl).append
      ((Shadows.code rfl).append (hdenominator.between rfl))).between rfl
  | root _ _ ih => exact (ih hd hgrows hlocal).between rfl
  | group _ ih => exact ih hd hgrows hlocal
  | @sum _ _ _ _ d _ range _ _ _ _ ih =>
    -- The index and the limits are made local too, and leave the externals alone.
    have hinside : ((d.addArguments range.names).addBound range.index).symbols.isLocal name =
        true := by
      rw [Declared.symbols_addBound, Symbols.isLocal_addBound, Declared.symbols_addArguments,
        Symbols.isLocal_addArguments, hlocal, Bool.true_or, Bool.true_or]
    have hoperand := ih hd hgrows hinside
    have hbody : Shadows name externals none d _ _ := ⟨hoperand.leaves_eq, hoperand.binds_eq⟩
    exact hbody.between rfl
  | @integral _ _ _ _ d _ _ _ differential _ _ _ _ ih =>
    have hinside : (d.addBound differential).symbols.isLocal name = true := by
      rw [Declared.symbols_addBound, Symbols.isLocal_addBound, hlocal, Bool.true_or]
    have hoperand := ih hd hgrows hinside
    have hbody : Shadows name externals none d _ _ := ⟨hoperand.leaves_eq, hoperand.binds_eq⟩
    exact (Shadows.warning _).append (hbody.between rfl)
  | turned _ _ _ ih => exact (ih hd hgrows hlocal).between rfl

end Walk

/-- Reading numbers changes nothing about names. -/
theorem Leaf.ReadsAs.filter {name : String} {externals : List (Equation Float)}
    {ls : List (Leaf String)} {ls' : List (Leaf Float)} (h : List.Forall₂ ReadsAs ls ls') :
    List.Forall₂ ReadsAs (ls.filter (·.isOf name externals))
      (ls'.filter (·.isOf name externals)) := by
  induction h with
  | nil => exact .nil
  | @cons l l' _ _ hl _ ih =>
    have hsame : l.isOf name externals = l'.isOf name externals := by cases hl <;> rfl
    rw [List.filter_cons, List.filter_cons, hsame]
    split
    · exact .cons hl ih
    · exact ih

theorem Leaf.ReadsAs.eq_ofLocal {name : String} {externals : List (Equation Float)}
    {primed : List Bool} {ls : List (Leaf Float)}
    (h : List.Forall₂ ReadsAs (primed.map (ofLocal name externals)) ls) :
    ls = primed.map (ofLocal name externals) := by
  induction primed generalizing ls with
  | nil =>
    cases h
    rfl
  | cons b primed ih =>
    obtain ⟨l, ls, hl, hls, rfl⟩ := List.forall₂_cons_left_iff.1 h
    rw [ih hls, List.map_cons]
    congr 1
    cases b <;> cases hl <;> rfl

theorem Emission.true_mem_primed_iff {name : String} {es : List Emission} :
    true ∈ es.filterMap (primed? name) ↔ ∃ depth, .visit depth (.prime (.var name)) ∈ es := by
  rw [List.mem_filterMap]
  constructor
  · rintro ⟨e, he, hprimed⟩
    unfold primed? Node.primed? at hprimed
    split at hprimed
    · split at hprimed
      · split at hprimed <;> cases hprimed
      · split at hprimed
        · next hname => exact ⟨_, hname ▸ he⟩
        · cases hprimed
      · cases hprimed
    · cases hprimed
  · rintro ⟨depth, hmem⟩
    exact ⟨_, hmem, if_pos rfl⟩

/-! ## Compiling a definition -/

namespace Session

/-- A parameter is a variable in every branch wherever the definition has its name, in order, but
under a prime: there it is the derivative of the earlier function of that name. So an external is
bound under the name of a parameter exactly if that name is met under a prime. -/
theorem parameter_shadows {s : Session} (hs : s.Reachable) {nodes : List Node}
    {equation : Equation Float} (h : (s.compile nodes).outcome = .ok equation) {name : String}
    (hname : name ∈ equation.parameters) :
    ((∃ e ∈ equation.externals, e.name? = some name) ↔
      ∃ depth, .visit depth (.prime (.var name)) ∈ (s.compile nodes).emissions) ∧
    ∀ e ∈ equation.branches, e.leaves.filter (·.isOf name equation.externals) =
      ((s.compile nodes).emissions.filterMap (Emission.primed? name)).map
        (Leaf.ofLocal name equation.externals) := by
  have hemissions := emissions_compile_of_ok h
  obtain ⟨binding, right, es, d, branches, hsides, hvisits, hread, rfl⟩ :=
    compile_outcome_eq_ok_iff.1 h
  rw [assemble_of_visits hsides hvisits] at hemissions
  have hresolved := resolved_declaredBy s binding
  have hlocal : (declaredBy binding).symbols.isLocal name = true := by
    cases binding with
    | none => cases hname
    | some binding =>
      rw [declaredBy, Declared.symbols_addArguments, Symbols.isLocal_addArguments]
      exact Bool.or_eq_true_iff.2 (.inr (List.contains_iff_mem.2 hname))
  have hshadows := hvisits.shadows hs.namesBind hresolved List.prefix_rfl hlocal
  have hprimed : (s.compile nodes).emissions.filterMap (Emission.primed? name) =
      es.filterMap (Emission.primed? name) := by
    rw [hemissions, List.filterMap_append]
    exact List.append_nil _
  refine ⟨?_, fun e he => ?_⟩
  · rw [← Emission.true_mem_primed_iff, hprimed, ← List.contains_iff_mem]
    have hbinds : d.externals.any (·.name? == some name) =
        (es.filterMap (Emission.primed? name)).contains true := hshadows.binds_eq
    rw [← hbinds, List.any_eq_true]
    simp only [beq_iff_eq]
  · have hleaves := leaves_of_mem (hvisits.isLinked hs.namesBind hresolved (fun _ _ => trivial)
      (List.prefix_rfl (l := d.externals))) hread he
    have hnamed := @Leaf.ReadsAs.filter name d.externals _ _ hleaves
    rw [Token.filter_leaves] at hnamed
    rw [hprimed]
    exact Leaf.ReadsAs.eq_ofLocal (hshadows.leaves_eq ▸ hnamed)

/-- The session after `f(x) = x`. -/
private theorem exists_reachable_function : ∃ s : Session, s.Reachable ∧
    s = (fresh {}).register ⟨some ⟨"f", .function, ["x"]⟩, ["x"], [], [.var "x"], []⟩ := by
  refine ⟨_, .compile [.var "f", .atom "(", .var "x", .atom ")", .atom "=", .var "x"] (.fresh {}),
    ?_⟩
  exact session_compile_of_ok compile_identity

/-- In `g(f) = f + f'(f)` the name under the prime is the earlier function. -/
private theorem compile_primed_parameter {s : Session}
    (hs : s = (fresh {}).register ⟨some ⟨"f", .function, ["x"]⟩, ["x"], [], [.var "x"], []⟩) :
    ∃ equation, (s.compile [.var "g", .atom "(", .var "f", .atom ")", .atom "=", .var "f",
        .atom "+", .prime (.var "f"), .atom "(", .var "f", .atom ")"]).outcome = .ok equation ∧
      equation.parameters = ["f"] ∧
      equation.externals = [⟨some ⟨"f", .function, ["x"]⟩, ["x"], [], [.var "x"], []⟩] ∧
      (s.compile [.var "g", .atom "(", .var "f", .atom ")", .atom "=", .var "f", .atom "+",
        .prime (.var "f"), .atom "(", .var "f", .atom ")"]).emissions.filterMap
          (Emission.primed? "f") = [false, true, false] := by
  subst hs
  have hvisits : Visits ((fresh {}).register
      ⟨some ⟨"f", .function, ["x"]⟩, ["x"], [], [.var "x"], []⟩) 0
      (.siblings none [.var "f", .atom "+", .prime (.var "f"), .atom "(", .var "f", .atom ")"])
      (declaredBy (some ⟨"g", .function, ["f"]⟩)) _ _ :=
    .cons (.name (.inl rfl)) (.cons (.atom rfl)
      (.cons (.derivative rfl rfl rfl (.cons (.name (.inl rfl)) .nil)) .nil))
  have hread : ∀ step, readBranches [.append (.var "f"), .append (.operator .add), .pair 0 1,
      .appendPaired 0 (.derivative 0 · step), .append (.var "f"), .append .close] =
        .ok [.binary .add (.var "f") (.derivative 0 0 step [.var "f"])] := by
    intro step
    refine readBranches_single rfl (Expression.parse_eq_ok_iff.2 ?_)
    have hargument := Expression.IsSum.product (.signed (.operand (.var "f")))
    have hright := Expression.IsOperand.derivative 0 0 step (.some (.last hargument))
    exact hargument.more rfl (.signed (.operand hright))
  have hsides : splitSides [.var "g", .atom "(", .var "f", .atom ")", .atom "=", .var "f",
      .atom "+", .prime (.var "f"), .atom "(", .var "f", .atom ")"] =
        .ok (some ⟨"g", .function, ["f"]⟩,
          [.var "f", .atom "+", .prime (.var "f"), .atom "(", .var "f", .atom ")"]) := rfl
  have hcompile := compile_outcome_eq_ok_iff.2 ⟨_, _, _, _, _, hsides, hvisits, hread _, rfl⟩
  refine ⟨_, hcompile, rfl, rfl, ?_⟩
  rw [emissions_compile_of_ok hcompile, assemble_of_visits hsides hvisits]
  rfl

/-- The name is met twice, and the second time under a prime. -/
theorem parameter_shadows_but_for_prime : ∃ (s : Session) (equation : Equation Float),
    s.Reachable ∧
    (s.compile [.var "g", .atom "(", .var "f", .atom ")", .atom "=", .var "f", .atom "+",
      .prime (.var "f"), .atom "(", .var "f", .atom ")"]).outcome = .ok equation ∧
    "f" ∈ equation.parameters ∧
    ∀ e ∈ equation.branches, e.leaves.filter (·.isOf "f" equation.externals) =
      [.var "f", .derivative 0, .var "f"] := by
  obtain ⟨s, hs, hsession⟩ := exists_reachable_function
  obtain ⟨equation, hcompile, hparameters, hexternals, hprimed⟩ :=
    compile_primed_parameter hsession
  have hname : "f" ∈ equation.parameters := hparameters ▸ List.mem_singleton_self _
  refine ⟨s, equation, hs, hcompile, hname, fun e he => ?_⟩
  rw [(parameter_shadows hs hcompile hname).2 e he, hprimed, hexternals]
  rfl

/-- A parameter is not what its name stands for under a prime. -/
theorem prime_is_not_shadowed :
    ¬∀ (s : Session) (nodes : List Node) (equation : Equation Float), s.Reachable →
      (s.compile nodes).outcome = .ok equation → ∀ name ∈ equation.parameters,
        ∀ e ∈ equation.externals, e.name? ≠ some name := by
  intro hall
  obtain ⟨s, hs, hsession⟩ := exists_reachable_function
  obtain ⟨equation, hcompile, hparameters, hexternals, -⟩ := compile_primed_parameter hsession
  have hbound := hall s _ equation hs hcompile "f" (hparameters ▸ List.mem_singleton_self _)
  rw [hexternals] at hbound
  exact hbound _ (List.mem_singleton_self _) rfl

end Session

end Formulary
