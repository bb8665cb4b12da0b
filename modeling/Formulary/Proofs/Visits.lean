import Formulary.Proofs.Runs

/-!
# What a walk has visited

The walks that end well as a relation between a stretch of nodes, the names declared before and
after it, and the emissions. A walk ends well exactly when it has a derivation, so what holds of
every derivation holds of every equation that compiles.
-/

namespace Formulary

/-- The trigonometric function that a named operator stands for. -/
def OperatorName.turning? : OperatorName → Option Function
  | sin => some .sine
  | cos => some .cosine
  | tan => some .tangent
  | sum | integral => none

/-- What a base or an exponent stands for is itself, or what is in its group. -/
theorem Walk.simple_eq_or_group {node : Node} (h : simple node ≠ []) :
    simple node = [node] ∨ node = .group (simple node) := by
  cases node with
  | literal text =>
    rw [simple] at h ⊢
    split
    · next hbar => exact absurd (if_pos hbar) h
    · exact .inl rfl
  | var name => exact .inl rfl
  | group body => exact .inr rfl
  | _ => exact absurd rfl h

/-- A part of a walk: siblings with the node before them, or one node with as many of the nodes
behind it as it takes for itself. -/
inductive Stretch
  | siblings (previous : Option Node) (nodes : List Node)
  | single (node : Node) (rest : List Node) (consumed : Nat)

open Walk in
/-- The walks that end well. -/
inductive Visits (s : Session) : Nat → Stretch → Declared → List Emission → Declared → Prop
  | nil {depth : Nat} {previous : Option Node} {d : Declared} :
      Visits s depth (.siblings previous []) d [] d
  | cons {depth consumed : Nat} {previous : Option Node} {node : Node} {rest : List Node}
      {d d₁ d' : Declared} {es es' : List Emission} :
      Visits s depth (.single node rest consumed) d es d₁ →
      Visits s depth (.siblings (node :: rest.take consumed).getLast? (rest.drop consumed)) d₁
        es' d' →
      Visits s depth (.siblings previous (node :: rest)) d
        (joint previous node ++ .visit depth node :: (es ++ es')) d'
  | bars {depth : Nat} {rest : List Node} {d d' : Declared} {es : List Emission} :
      Operand.isClosed (.literal Node.bar :: rest) = true →
      (Operand.absolute (.literal Node.bar :: rest)).nodes ≠ [] →
      Visits s (depth + 1)
        (.siblings none (Operand.absolute (.literal Node.bar :: rest)).nodes) d es d' →
      Visits s depth
        (.single (.literal Node.bar) rest (Operand.absolute (.literal Node.bar :: rest)).consumed)
        d (between (.call .absolute) es) d'
  | piece {depth : Nat} {text : String} {rest : List Node} {d : Declared} :
      text ≠ Node.bar →
      Visits s depth (.single (.literal text) rest 0) d [.instruction (.append (.number text))] d
  | name {depth : Nat} {name : String} {rest : List Node} {d : Declared} :
      d.symbols.isLocal name = true ∨ s.resolve name = none →
      Visits s depth (.single (.var name) rest 0) d [.instruction (.append (.var name))]
        (d.addArguments [name])
  | reference {depth : Nat} {name : String} {rest : List Node} {d : Declared}
      {equation : Equation Float} :
      d.symbols.isLocal name = false → s.resolve name = some equation →
      equation.isFunction = false →
      Visits s depth (.single (.var name) rest 0) d (pairing d equation .reference)
        ((d.declaring equation).addArguments equation.arguments)
  | application {depth : Nat} {name : String} {rest : List Node} {d d' : Declared}
      {equation : Equation Float} {es : List Emission} :
      d.symbols.isLocal name = false → s.resolve name = some equation →
      equation.isFunction = true →
      (Operand.following false (.var name :: rest)).isParenthesized = true →
      Operand.argumentCount (Operand.following false (.var name :: rest)).inner =
        equation.parameters.length →
      Visits s (depth + 1)
        (.siblings none (Operand.following false (.var name :: rest)).inner)
        (d.declaring equation) es d' →
      Visits s depth
        (.single (.var name) rest (Operand.following false (.var name :: rest)).consumed) d
        (pairing d equation .apply ++ es ++ [.instruction (.append .close)])
        (d'.addArguments equation.freeArguments)
  | atom {depth : Nat} {symbol : String} {rest : List Node} {d : Declared} {entry : Entry} :
      Entry.ofSymbol? symbol = some entry →
      Visits s depth (.single (.atom symbol) rest 0) d [.instruction entry.instruction] d
  | power {depth : Nat} {base exponent : Node} {rest : List Node} {d d₁ d' : Declared}
      {es es' : List Emission} :
      simple base ≠ [] → simple exponent ≠ [] →
      Visits s (depth + 1) (.siblings none (simple base)) d es d₁ →
      Visits s (depth + 1) (.siblings none (simple exponent)) d₁ es' d' →
      Visits s depth (.single (.power base exponent) rest 0) d
        (between (.call .power) (es ++ .instruction (.append .separator) :: es')) d'
  | angle {depth : Nat} {base : Node} {rest : List Node} {d d' : Declared} {es : List Emission} :
      simple base ≠ [] → Visits s (depth + 1) (.siblings none (simple base)) d es d' →
      Visits s depth (.single (.angle base) rest 0) d es d'
  | derivative {depth : Nat} {name : String} {rest : List Node} {d d' : Declared}
      {equation : Equation Float} {es : List Emission} :
      s.resolveFunction name = some equation →
      (Operand.following false (.prime (.var name) :: rest)).isParenthesized = true →
      Operand.argumentCount (Operand.following false (.prime (.var name) :: rest)).inner =
        equation.parameters.length →
      Visits s (depth + 1)
        (.siblings none (Operand.following false (.prime (.var name) :: rest)).inner)
        (d.declaring equation) es d' →
      Visits s depth
        (.single (.prime (.var name)) rest
          (Operand.following false (.prime (.var name) :: rest)).consumed) d
        (pairing d equation (.derivative · · s.config.step) ++ es ++
          [.instruction (.append .close), .warning ⟨Node.textAll ((.prime (.var name) :: rest).take
            ((Operand.following false (.prime (.var name) :: rest)).consumed + 1)),
            .forwardDifference s.config.step⟩])
        (d'.addArguments equation.freeArguments)
  | fraction {depth : Nat} {numerator denominator rest : List Node} {d d₁ d' : Declared}
      {es es' : List Emission} :
      numerator ≠ [] → denominator ≠ [] →
      Visits s (depth + 1) (.siblings none numerator) d es d₁ →
      Visits s (depth + 1) (.siblings none denominator) d₁ es' d' →
      Visits s depth (.single (.fraction numerator denominator) rest 0) d
        (between .openParen (between .openParen es ++
          .instruction (.append (.operator .divide)) :: between .openParen es')) d'
  | root {depth : Nat} {body rest : List Node} {d d' : Declared} {es : List Emission} :
      body ≠ [] → Visits s (depth + 1) (.siblings none body) d es d' →
      Visits s depth (.single (.root body) rest 0) d (between (.call .squareRoot) es) d'
  | group {depth : Nat} {body rest : List Node} {d d' : Declared} {es : List Emission} :
      Visits s (depth + 1) (.siblings none body) d es d' →
      Visits s depth (.single (.group body) rest 0) d es d'
  | sum {depth : Nat} {lower upper : Option (List Node)} {rest : List Node} {d d' : Declared}
      {range : SumRange} {es : List Emission} :
      SumRange.ofLimits lower upper = .ok range →
      (Operand.following false (.named .sum lower upper :: rest)).nodes ≠ [] →
      Visits s (depth + 1)
        (.siblings none (Operand.following false (.named .sum lower upper :: rest)).nodes)
        ((d.addArguments range.names).addBound range.index) es d' →
      Visits s depth
        (.single (.named .sum lower upper) rest
          (Operand.following false (.named .sum lower upper :: rest)).consumed) d
        (between (.sum range.index range.lower range.upper) es) d'
  | integral {depth : Nat} {lower upper : Option (List Node)} {rest : List Node}
      {d d' : Declared} {partition : Partition} {es : List Emission} {name : String} :
      Partition.ofLimits s.config.partitions lower upper = .ok partition →
      (Operand.following true (.named .integral lower upper :: rest)).nodes ≠ [] →
      name = (Operand.following true (.named .integral lower upper :: rest)).differential.getD
        s.config.differential →
      Visits s (depth + 1)
        (.siblings none (Operand.following true (.named .integral lower upper :: rest)).nodes)
        (d.addBound name) es d' →
      Visits s depth
        (.single (.named .integral lower upper) rest
          (Operand.following true (.named .integral lower upper :: rest)).consumed) d
        (.warning ⟨Node.textAll ((.named .integral lower upper :: rest).take
            ((Operand.following true (.named .integral lower upper :: rest)).consumed + 1)),
            .riemannSum s.config.partitions⟩ ::
          between (.integral name partition.start partition.width s.config.partitions
            s.config.rule) es) d'
  | turned {depth : Nat} {operator : OperatorName} {function : Function} {rest : List Node}
      {d d' : Declared} {es : List Emission} :
      operator.turning? = some function →
      (Operand.following false (.named operator none none :: rest)).nodes ≠ [] →
      Visits s (depth + 1)
        (.siblings none (Operand.following false (.named operator none none :: rest)).nodes) d es
        d' →
      Visits s depth
        (.single (.named operator none none) rest
          (Operand.following false (.named operator none none :: rest)).consumed) d
        (between (.call function) es) d'

/-- The walk over a stretch ends well. -/
def Stretch.Runs (s : Session) (depth : Nat) (d : Declared) (es : List Emission) (d' : Declared) :
    Stretch → Prop
  | siblings previous nodes => (Walk.visitAll s depth previous nodes).Runs d es () d'
  | single node rest consumed => (Walk.visit s depth node rest).Runs d es consumed d'

/-! ## From a walk to its derivation -/

section Walk

open Walk

variable {s : Session} {depth consumed : Nat} {rest : List Node} {d d' : Declared}
  {es : List Emission}

theorem visit_turned (s : Session) (depth : Nat) {operator : OperatorName} {function : Function}
    (h : operator.turning? = some function) (lower upper : Option (List Node))
    (rest : List Node) :
    visit s depth (.named operator lower upper) rest =
      turned operator function (.named operator lower upper) lower upper
        (Operand.following false (.named operator lower upper :: rest))
        (visitAll s (depth + 1) none
          (Operand.following false (.named operator lower upper :: rest)).nodes) := by
  cases operator with
  | sum => cases h
  | integral => cases h
  | sin =>
    obtain rfl : Function.sine = function := Option.some.inj h
    rw [visit]
    rfl
  | cos =>
    obtain rfl : Function.cosine = function := Option.some.inj h
    rw [visit]
    rfl
  | tan =>
    obtain rfl : Function.tangent = function := Option.some.inj h
    rw [visit]
    rfl

private theorem visits_cons_of_runs (previous : Option Node) (node : Node)
    (hnode : ∀ d es consumed d', (visit s depth node rest).Runs d es consumed d' →
      Visits s depth (.single node rest consumed) d es d')
    (hrest : ∀ consumed d es d',
      (visitAll s depth (node :: rest.take consumed).getLast? (rest.drop consumed)).Runs d es ()
        d' →
      Visits s depth (.siblings (node :: rest.take consumed).getLast? (rest.drop consumed)) d es d')
    (h : (visitAll s depth previous (node :: rest)).Runs d es () d') :
    Visits s depth (.siblings previous (node :: rest)) d es d' := by
  obtain ⟨n, es₁, d₁, es₂, h₁, h₂, rfl⟩ := runs_visitAll_cons.1 h
  exact .cons (hnode _ _ _ _ h₁) (hrest n _ _ _ h₂)

private theorem visits_var_of_runs {name : String}
    (ih : ∀ d es d', (visitAll s (depth + 1) none
        (Operand.following false (.var name :: rest)).inner).Runs d es () d' →
      Visits s (depth + 1) (.siblings none (Operand.following false (.var name :: rest)).inner) d es
        d')
    (h : (visit s depth (.var name) rest).Runs d es consumed d') :
    Visits s depth (.single (.var name) rest consumed) d es d' := by
  rw [visit, runs_named] at h
  cases hlocal : d.symbols.isLocal name with
  | true =>
    simp only [hlocal, if_true] at h
    obtain ⟨rfl, rfl, rfl⟩ := h
    exact .name (.inl hlocal)
  | false =>
    simp only [hlocal, Bool.false_eq_true, if_false] at h
    cases hresolve : s.resolve name with
    | none =>
      simp only [hresolve] at h
      obtain ⟨rfl, rfl, rfl⟩ := h
      exact .name (.inr hresolve)
    | some equation =>
      simp only [hresolve] at h
      by_cases hfunction : equation.isFunction = true
      · rw [if_pos hfunction, runs_applied] at h
        obtain ⟨⟨hparens, hcount, es', d₁, hbody, rfl, rfl⟩, rfl⟩ := h
        exact .application hlocal hresolve hfunction hparens hcount (ih _ _ _ hbody)
      · rw [if_neg hfunction, runs_referred] at h
        obtain ⟨⟨rfl, rfl⟩, rfl⟩ := h
        exact .reference hlocal hresolve (by simpa using hfunction)

private theorem visits_turned_of_runs {operator : OperatorName} {function : Function}
    (hturning : operator.turning? = some function) {lower upper : Option (List Node)}
    (ih : ∀ d es d', (visitAll s (depth + 1) none
        (Operand.following false (.named operator lower upper :: rest)).nodes).Runs d es () d' →
      Visits s (depth + 1) (.siblings none
        (Operand.following false (.named operator lower upper :: rest)).nodes) d es d')
    (h : (visit s depth (.named operator lower upper) rest).Runs d es consumed d') :
    Visits s depth (.single (.named operator lower upper) rest consumed) d es d' := by
  rw [visit_turned s depth hturning, runs_turned] at h
  obtain ⟨rfl, rfl, hoperand, rfl, es', hbody, rfl⟩ := h
  exact .turned hturning hoperand (ih _ _ _ hbody)

/-- The walks that end well have a derivation. -/
theorem visits_of_runs (s : Session) :
    (∀ depth previous nodes, ∀ d es d',
      (visitAll s depth previous nodes).Runs d es () d' →
        Visits s depth (.siblings previous nodes) d es d') ∧
    (∀ depth node rest, ∀ d es consumed d',
      (visit s depth node rest).Runs d es consumed d' →
        Visits s depth (.single node rest consumed) d es d') := by
  apply Walk.visitAll.mutual_induct s
  · intro depth previous d es d' h
    obtain ⟨rfl, rfl⟩ := runs_visitAll_nil.1 h
    exact .nil
  · intro depth previous node rest _ hnode hrest d es d' h
    exact visits_cons_of_runs previous node hnode hrest h
  · intro depth previous node rest _ hnode hrest d es d' h
    exact visits_cons_of_runs previous node hnode hrest h
  · intro depth rest operand hclosed ih d es consumed d' h
    obtain ⟨_, hoperand, ⟨es', hbody, rfl⟩, rfl⟩ := runs_visit_bars.1 h
    exact .bars hclosed hoperand (ih _ _ _ hbody)
  · intro depth rest hclosed d es consumed d' h
    exact absurd (runs_visit_bars.1 h).1 hclosed
  · intro depth rest text htext d es consumed d' h
    obtain ⟨rfl, rfl, rfl⟩ := (runs_visit_piece htext).1 h
    exact .piece htext
  · intro depth rest name operand ih d es consumed d' h
    exact visits_var_of_runs ih h
  · intro depth rest symbol d es consumed d' h
    obtain ⟨⟨entry, hentry, rfl, rfl⟩, rfl⟩ := runs_visit_atom.1 h
    exact .atom hentry
  · intro depth rest base exponent hempty d es consumed d' h
    obtain ⟨hbase, hexponent, -⟩ := runs_visit_power.1 h
    simp [hbase, hexponent] at hempty
  · intro depth rest base exponent _ ihbase ihexponent d es consumed d' h
    obtain ⟨hbase, hexponent, rfl, es₁, d₁, es₂, h₁, h₂, rfl⟩ := runs_visit_power.1 h
    exact .power hbase hexponent (ihbase _ _ _ h₁) (ihexponent _ _ _ h₂)
  · intro depth rest base hempty d es consumed d' h
    obtain ⟨hbase, -⟩ := runs_visit_angle.1 h
    simp [hbase] at hempty
  · intro depth rest base _ ih d es consumed d' h
    obtain ⟨hbase, hbody, rfl⟩ := runs_visit_angle.1 h
    exact .angle hbase (ih _ _ _ hbody)
  · intro depth rest name operand ih d es consumed d' h
    rw [visit] at h
    obtain ⟨rfl, equation, hresolve, hparens, hcount, es', d₁, hbody, rfl, rfl⟩ := runs_primed.1 h
    exact .derivative hresolve hparens hcount (ih _ _ _ hbody)
  · intro depth rest base hbase operand _ d es consumed d' h
    cases base with
    | var name => exact absurd rfl (hbase name)
    | _ => simp [visit] at h
  · intro depth rest numerator denominator hempty d es consumed d' h
    obtain ⟨hnumerator, hdenominator, -⟩ := runs_visit_fraction.1 h
    simp [hnumerator, hdenominator] at hempty
  · intro depth rest numerator denominator _ ih₁ ih₂ d es consumed d' h
    obtain ⟨hnumerator, hdenominator, rfl, es₁, d₁, es₂, h₁, h₂, rfl⟩ := runs_visit_fraction.1 h
    exact .fraction hnumerator hdenominator (ih₁ _ _ _ h₁) (ih₂ _ _ _ h₂)
  · intro depth rest body ih d es consumed d' h
    obtain ⟨hbody, ⟨es', h', rfl⟩, rfl⟩ := runs_visit_root.1 h
    exact .root hbody (ih _ _ _ h')
  · intro depth rest body ih d es consumed d' h
    obtain ⟨h', rfl⟩ := runs_visit_group.1 h
    exact .group (ih _ _ _ h')
  · intro depth rest lower upper anchor operand ih d es consumed d' h
    rw [visit] at h
    obtain ⟨hoperand, rfl, range, es', hrange, hbody, rfl⟩ := runs_summed.1 h
    exact .sum hrange hoperand (ih _ _ _ hbody)
  · intro depth rest lower upper anchor operand ih d es consumed d' h
    rw [visit] at h
    obtain ⟨hoperand, rfl, partition, es', hpartition, hbody, rfl⟩ := runs_integrated.1 h
    exact .integral hpartition hoperand rfl (ih _ _ _ hbody)
  · intro depth rest lower upper anchor operand ih d es consumed d' h
    exact visits_turned_of_runs rfl ih h
  · intro depth rest lower upper anchor operand ih d es consumed d' h
    exact visits_turned_of_runs rfl ih h
  · intro depth rest lower upper anchor operand ih d es consumed d' h
    exact visits_turned_of_runs rfl ih h

theorem Visits.runs {s : Session} {depth : Nat} {stretch : Stretch} {d d' : Declared}
    {es : List Emission} (h : Visits s depth stretch d es d') : stretch.Runs s depth d es d' := by
  induction h with
  | nil => exact runs_visitAll_nil.2 ⟨rfl, rfl⟩
  | cons _ _ hnode hrest => exact runs_visitAll_cons.2 ⟨_, _, _, _, hnode, hrest, rfl⟩
  | bars hclosed hoperand _ hbody =>
    exact runs_visit_bars.2 ⟨hclosed, hoperand, ⟨_, hbody, rfl⟩, rfl⟩
  | piece htext => exact (runs_visit_piece htext).2 ⟨rfl, rfl, rfl⟩
  | @name depth name rest d hname =>
    rw [Stretch.Runs, visit, runs_named]
    have hnone : (if d.symbols.isLocal name = true then none else s.resolve name) = none := by
      rcases hname with hlocal | hresolve
      · rw [if_pos hlocal]
      · rw [hresolve, ite_self]
    rw [hnone]
    exact ⟨rfl, rfl, rfl⟩
  | reference hlocal hresolve hfunction =>
    rw [Stretch.Runs, visit, runs_named]
    simp only [hlocal, Bool.false_eq_true, if_false, hresolve, hfunction, runs_referred, and_self]
  | application hlocal hresolve hfunction hparens hcount _ hbody =>
    rw [Stretch.Runs, visit, runs_named]
    simp only [hlocal, Bool.false_eq_true, if_false, hresolve, hfunction, if_true]
    exact ⟨runs_applied.2 ⟨hparens, hcount, _, _, hbody, rfl, rfl⟩, trivial⟩
  | atom hentry => exact runs_visit_atom.2 ⟨⟨_, hentry, rfl, rfl⟩, rfl⟩
  | power hbase hexponent _ _ ihbase ihexponent =>
    exact runs_visit_power.2 ⟨hbase, hexponent, rfl, _, _, _, ihbase, ihexponent, rfl⟩
  | angle hbase _ ih => exact runs_visit_angle.2 ⟨hbase, ih, rfl⟩
  | derivative hresolve hparens hcount _ hbody =>
    rw [Stretch.Runs, visit]
    exact runs_primed.2 ⟨rfl, _, hresolve, hparens, hcount, _, _, hbody, rfl, rfl⟩
  | fraction hnumerator hdenominator _ _ ih₁ ih₂ =>
    exact runs_visit_fraction.2 ⟨hnumerator, hdenominator, rfl, _, _, _, ih₁, ih₂, rfl⟩
  | root hbody _ ih => exact runs_visit_root.2 ⟨hbody, ⟨_, ih, rfl⟩, rfl⟩
  | group _ ih => exact runs_visit_group.2 ⟨ih, rfl⟩
  | sum hrange hoperand _ ih =>
    rw [Stretch.Runs, visit]
    exact runs_summed.2 ⟨hoperand, rfl, _, _, hrange, ih, rfl⟩
  | integral hpartition hoperand hname _ ih =>
    subst hname
    rw [Stretch.Runs, visit]
    exact runs_integrated.2 ⟨hoperand, rfl, _, _, hpartition, ih, rfl⟩
  | turned hturning hoperand _ ih =>
    rw [Stretch.Runs, visit_turned _ _ hturning]
    exact runs_turned.2 ⟨rfl, rfl, hoperand, rfl, _, ih, rfl⟩

end Walk

theorem visits_iff {s : Session} {depth : Nat} {stretch : Stretch} {d d' : Declared}
    {es : List Emission} : Visits s depth stretch d es d' ↔ stretch.Runs s depth d es d' := by
  refine ⟨Visits.runs, fun h => ?_⟩
  cases stretch with
  | siblings previous nodes => exact (visits_of_runs s).1 depth previous nodes d es d' h
  | single node rest consumed => exact (visits_of_runs s).2 depth node rest d es consumed d' h

/-- A walk has one result. -/
theorem Visits.unique {s : Session} {depth : Nat} {previous : Option Node} {nodes : List Node}
    {d d₁ d₂ : Declared} {es₁ es₂ : List Emission}
    (h₁ : Visits s depth (.siblings previous nodes) d es₁ d₁)
    (h₂ : Visits s depth (.siblings previous nodes) d es₂ d₂) : es₁ = es₂ ∧ d₁ = d₂ := by
  have hruns₁ : Walk.visitAll s depth previous nodes d = (es₁, .ok ((), d₁)) := h₁.runs
  have hruns₂ : Walk.visitAll s depth previous nodes d = (es₂, .ok ((), d₂)) := h₂.runs
  rw [hruns₁] at hruns₂
  simpa using hruns₂

/-- Where nothing is put in behind a node, siblings are walked behind it as they are alone. -/
theorem Visits.behind {s : Session} {depth : Nat} {previous : Option Node} {nodes : List Node}
    {d d' : Declared} {es : List Emission} (hprevious : ∀ node, Walk.joint previous node = [])
    (h : Visits s depth (.siblings none nodes) d es d') :
    Visits s depth (.siblings previous nodes) d es d' := by
  cases h with
  | nil => exact .nil
  | @cons _ _ _ node rest _ _ _ _ _ hnode hrest =>
    have hjoint : Walk.joint none node = Walk.joint previous node := (hprevious node).symm
    rw [hjoint]
    exact .cons hnode hrest

end Formulary
