import Mathlib.Data.List.Nodup
import Formulary.Proofs.Links

/-!
# Argument lists

Whatever names are taken into a table of symbols, in whatever order, no name is in it twice, and
what a name is first it stays. A walk does nothing else to its symbols, so the names of an equation
are told apart by their places, and its parameters come first.
-/

namespace Formulary

namespace Symbols

/-! ## Taking in names -/

/-- A name that is taken in. -/
inductive Entrant
  | argument (name : String)
  | bound (name : String)
deriving DecidableEq, Repr

def enter (s : Symbols) : Entrant → Symbols
  | .argument name => s.addArgument name
  | .bound name => s.addBound name

def enterAll (s : Symbols) (entrants : List Entrant) : Symbols := entrants.foldl enter s

theorem enterAll_append (s : Symbols) (first second : List Entrant) :
    s.enterAll (first ++ second) = (s.enterAll first).enterAll second :=
  List.foldl_append ..

theorem addArguments_eq_enterAll (s : Symbols) (names : List String) :
    s.addArguments names = s.enterAll (names.map .argument) := by
  rw [enterAll, List.foldl_map]
  rfl

/-! ## What they leave -/

/-- No name is in the table twice. -/
structure IsWellFormed (s : Symbols) : Prop where
  arguments : s.arguments.Nodup
  bound : s.bound.Nodup
  disjoint : s.arguments.Disjoint s.bound

/-- Names are only added, behind those there are. -/
structure Grows (s s' : Symbols) : Prop where
  arguments : s.arguments <+: s'.arguments
  bound : s.bound <+: s'.bound

variable {s s' s'' : Symbols} {name : String}

theorem isWellFormed_empty : IsWellFormed {} :=
  ⟨List.nodup_nil, List.nodup_nil, List.disjoint_nil_left _⟩

theorem Grows.refl (s : Symbols) : s.Grows s := ⟨List.prefix_rfl, List.prefix_rfl⟩

theorem Grows.trans (h : s.Grows s') (h' : s'.Grows s'') : s.Grows s'' :=
  ⟨h.arguments.trans h'.arguments, h.bound.trans h'.bound⟩

theorem isLocal_eq_false :
    s.isLocal name = false ↔ name ∉ s.arguments ∧ name ∉ s.bound := by
  simp [isLocal, isArgument, isBound]

theorem grows_enter (s : Symbols) (entrant : Entrant) : s.Grows (s.enter entrant) := by
  cases entrant with
  | argument name =>
    rw [enter, addArgument]
    split
    · exact .refl s
    · exact ⟨List.prefix_append .., List.prefix_rfl⟩
  | bound name =>
    rw [enter, addBound]
    split
    · exact .refl s
    · exact ⟨List.prefix_rfl, List.prefix_append ..⟩

/-- Only an unknown name is added, so it is in neither list yet. -/
theorem IsWellFormed.enter (h : s.IsWellFormed) (entrant : Entrant) :
    (s.enter entrant).IsWellFormed := by
  have hbehind : ∀ {names : List String} {name : String}, names.Nodup → name ∉ names →
      (names ++ [name]).Nodup := by
    intro names name hnodup hnew
    exact hnodup.append (List.nodup_singleton _) (List.disjoint_singleton.2 hnew)
  cases entrant with
  | argument name =>
    rw [Symbols.enter, addArgument]
    split
    · exact h
    · next hlocal =>
      obtain ⟨harguments, hbound⟩ := isLocal_eq_false.1 (eq_false_of_ne_true hlocal)
      exact ⟨hbehind h.arguments harguments, h.bound,
        List.disjoint_append_left.2 ⟨h.disjoint, List.singleton_disjoint.2 hbound⟩⟩
  | bound name =>
    rw [Symbols.enter, addBound]
    split
    · exact h
    · next hlocal =>
      obtain ⟨harguments, hbound⟩ := isLocal_eq_false.1 (eq_false_of_ne_true hlocal)
      exact ⟨h.arguments, hbehind h.bound hbound,
        List.disjoint_append_right.2 ⟨h.disjoint, List.disjoint_singleton.2 harguments⟩⟩

theorem grows_enterAll (s : Symbols) (entrants : List Entrant) : s.Grows (s.enterAll entrants) := by
  induction entrants generalizing s with
  | nil => exact .refl s
  | cons entrant entrants ih => exact (grows_enter s entrant).trans (ih (s.enter entrant))

theorem IsWellFormed.enterAll (h : s.IsWellFormed) (entrants : List Entrant) :
    (s.enterAll entrants).IsWellFormed := by
  induction entrants generalizing s with
  | nil => exact h
  | cons entrant entrants ih => exact ih (h.enter entrant)

end Symbols

/-! ## The symbols of a walk -/

/-- A walk does nothing to its symbols but take in names. -/
theorem Visits.enters {s : Session} {depth : Nat} {stretch : Stretch} {d d' : Declared}
    {es : List Emission} (h : Visits s depth stretch d es d') :
    ∃ entrants, d'.symbols = d.symbols.enterAll entrants := by
  apply h.declares (R := fun d d' => ∃ entrants, d'.symbols = d.symbols.enterAll entrants)
  · intro d
    exact ⟨[], rfl⟩
  · rintro d₁ d₂ d₃ ⟨first, hfirst⟩ ⟨second, hsecond⟩
    exact ⟨first ++ second, by rw [hsecond, hfirst, Symbols.enterAll_append]⟩
  · intro d names
    exact ⟨names.map .argument, d.symbols.addArguments_eq_enterAll names⟩
  · intro d name
    exact ⟨[.bound name], rfl⟩
  · intro d name equation _
    exact ⟨[], d.symbols_declaring equation⟩

namespace Session

/-- An equation has the names that were taken into an empty table, its parameters first. -/
theorem exists_enterAll_of_compile {s : Session} {nodes : List Node} {equation : Equation Float}
    (h : (s.compile nodes).outcome = .ok equation) :
    ∃ entrants, equation.arguments = (Symbols.enterAll {} entrants).arguments ∧
      equation.bound = (Symbols.enterAll {} entrants).bound ∧
      equation.parameters <+: equation.arguments := by
  obtain ⟨binding, right, es, d, branches, hsides, hvisits, -, rfl⟩ :=
    compile_outcome_eq_ok_iff.1 h
  obtain ⟨entrants, hentrants⟩ := hvisits.enters
  have hall : d.symbols =
      Symbols.enterAll {} ((binding.elim [] (·.parameters)).map .argument ++ entrants) := by
    rw [hentrants, Symbols.enterAll_append, ← Symbols.addArguments_eq_enterAll]
    rfl
  refine ⟨_, congrArg Symbols.arguments hall, congrArg Symbols.bound hall, ?_⟩
  have hgrow := hvisits.arguments_grow
  cases binding with
  | none => exact List.nil_prefix
  | some binding =>
    have hfirst : (declaredBy (some binding)).symbols.arguments = binding.parameters :=
      Symbols.arguments_of_nodup (binding_of_splitSides hsides).1
    rwa [hfirst] at hgrow

/-- Whatever names are taken in, arguments and bound names are told apart and stay what they are,
each list growing at its end only. So no equation has a name twice, and the parameters that its left
side declares are its first arguments, in order. -/
theorem argument_lists_are_well_formed :
    (∀ entrants more : List Symbols.Entrant,
      (Symbols.enterAll {} entrants).IsWellFormed ∧
      (Symbols.enterAll {} entrants).Grows (Symbols.enterAll {} (entrants ++ more)) ∧
      (∀ name ∈ (Symbols.enterAll {} entrants).arguments,
        name ∉ (Symbols.enterAll {} (entrants ++ more)).bound) ∧
      ∀ name ∈ (Symbols.enterAll {} entrants).bound,
        name ∉ (Symbols.enterAll {} (entrants ++ more)).arguments) ∧
    ∀ (s : Session) (nodes : List Node) (equation : Equation Float),
      (s.compile nodes).outcome = .ok equation →
        equation.arguments.Nodup ∧ equation.bound.Nodup ∧
        equation.arguments.Disjoint equation.bound ∧
        equation.parameters <+: equation.arguments := by
  have hwell : ∀ entrants, (Symbols.enterAll {} entrants).IsWellFormed :=
    Symbols.isWellFormed_empty.enterAll
  constructor
  · intro entrants more
    have hgrows := Symbols.grows_enterAll (Symbols.enterAll {} entrants) more
    rw [← Symbols.enterAll_append] at hgrows
    have hapart := (hwell (entrants ++ more)).disjoint
    refine ⟨hwell entrants, hgrows, ?_, ?_⟩
    · intro name hname hbound
      exact hapart (hgrows.arguments.subset hname) hbound
    · intro name hname hargument
      exact hapart hargument (hgrows.bound.subset hname)
  · intro s nodes equation h
    obtain ⟨entrants, harguments, hbound, hparameters⟩ := exists_enterAll_of_compile h
    rw [harguments, hbound]
    exact ⟨(hwell entrants).arguments, (hwell entrants).bound, (hwell entrants).disjoint,
      harguments ▸ hparameters⟩

/-- The limits of the sum in `f(y, x) = Σ_{i=m}^{n} i x` are arguments behind the parameters, and its
index is none. -/
theorem argument_lists_of_sum : ∃ equation, ((fresh {}).compile [.var "f", .atom "(", .var "y",
      .atom ",", .var "x", .atom ")", .atom "=", .named .sum (some [.var "i", .atom "=", .var "m"])
      (some [.var "n"]), .var "i", .var "x"]).outcome = .ok equation ∧
    equation.arguments = ["y", "x", "m", "n"] ∧ equation.bound = ["i"] ∧
    equation.parameters = ["y", "x"] ∧ equation.arguments.Nodup ∧ equation.bound.Nodup ∧
    equation.arguments.Disjoint equation.bound ∧ equation.parameters <+: equation.arguments := by
  have hrange : SumRange.ofLimits (some [.var "i", .atom "=", .var "m"]) (some [.var "n"]) =
      .ok ⟨"i", .var "m", .var "n"⟩ := by
    cbv
  have hread : readBranches [.append (.sum "i" (.var "m") (.var "n")), .append (.var "i"),
      .append (.operator .multiply), .append (.var "x"), .append .close] =
      .ok [.sum "i" (.var "m") (.var "n") (.binary .multiply (.var "i") (.var "x"))] :=
    readBranches_single rfl (Expression.parse_eq_ok_iff_ofCode.2 (by cbv))
  have hcompile : ((fresh {}).compile [.var "f", .atom "(", .var "y", .atom ",", .var "x",
      .atom ")", .atom "=", .named .sum (some [.var "i", .atom "=", .var "m"]) (some [.var "n"]),
      .var "i", .var "x"]).outcome = .ok ⟨some ⟨"f", .function, ["y", "x"]⟩, ["y", "x", "m", "n"],
        ["i"], [.sum "i" (.var "m") (.var "n") (.binary .multiply (.var "i") (.var "x"))], []⟩ :=
    compile_outcome_eq_ok_iff.2 ⟨_, _, _, _, _, rfl, .cons (.sum hrange (by decide)
      (.cons (.name (.inl rfl)) (.cons (.name (.inl rfl)) .nil))) .nil, hread, rfl⟩
  exact ⟨_, hcompile, rfl, rfl, rfl, argument_lists_are_well_formed.2 _ _ _ hcompile⟩

end Session

end Formulary
