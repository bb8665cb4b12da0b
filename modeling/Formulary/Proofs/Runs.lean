import Formulary.Walk.Nodes

/-!
# Walks that end well

For each part of a walk, when it ends well, with which emissions and with what declared. A walk
that ends well passes through parts that do.
-/

namespace Formulary

namespace Declared

/-- The place of an equation among the externals; a new one goes to their end. -/
def placeOf (d : Declared) (equation : Equation Float) : Nat :=
  (d.externals.findIdx? (·.name? == equation.name?)).getD d.externals.length

/-- What is declared once an equation has its place. -/
def declaring (d : Declared) (equation : Equation Float) : Declared :=
  if (d.externals.findIdx? (·.name? == equation.name?)).isSome then d
  else { d with externals := d.externals ++ [equation] }

def addArguments (d : Declared) (names : List String) : Declared :=
  { d with symbols := d.symbols.addArguments names }

def addBound (d : Declared) (name : String) : Declared :=
  { d with symbols := d.symbols.addBound name }

@[simp] theorem symbols_declaring (d : Declared) (equation : Equation Float) :
    (d.declaring equation).symbols = d.symbols := by
  unfold declaring
  split <;> rfl

@[simp] theorem symbols_addArguments (d : Declared) (names : List String) :
    (d.addArguments names).symbols = d.symbols.addArguments names := rfl

@[simp] theorem externals_addArguments (d : Declared) (names : List String) :
    (d.addArguments names).externals = d.externals := rfl

@[simp] theorem symbols_addBound (d : Declared) (name : String) :
    (d.addBound name).symbols = d.symbols.addBound name := rfl

@[simp] theorem externals_addBound (d : Declared) (name : String) :
    (d.addBound name).externals = d.externals := rfl

end Declared

/-- What an entry of the operator table does to the branches. -/
def Entry.instruction : Entry → Instruction
  | single fragment => .append fragment
  | alternatives fragments => .choose fragments

namespace Emission

@[simp] theorem instructions_nil : instructions [] = [] := rfl

@[simp] theorem instructions_cons_visit (depth : Nat) (node : Node) (es : List Emission) :
    instructions (.visit depth node :: es) = instructions es := rfl

@[simp] theorem instructions_cons_instruction (i : Instruction) (es : List Emission) :
    instructions (.instruction i :: es) = i :: instructions es := rfl

@[simp] theorem instructions_cons_warning (w : Warning) (es : List Emission) :
    instructions (.warning w :: es) = instructions es := rfl

end Emission

namespace Walk

variable {β γ : Type} {d d' : Declared} {es : List Emission}

/-- The walk ends well, with these emissions, this result and these declarations. -/
def Runs (w : Walk β) (d : Declared) (es : List Emission) (b : β) (d' : Declared) : Prop :=
  w d = (es, .ok (b, d'))

@[simp] theorem runs_pure {a b : β} :
    (pure a : Walk β).Runs d es b d' ↔ es = [] ∧ b = a ∧ d' = d := by
  simp [Runs, pure_apply, eq_comm]

@[simp] theorem runs_done {a b : β} : (done a).Runs d es b d' ↔ es = [] ∧ b = a ∧ d' = d :=
  runs_pure

theorem runs_bind {w : Walk β} {next : β → Walk γ} {c : γ} :
    (w >>= next).Runs d es c d' ↔
      ∃ es₁ b d₁ es₂, w.Runs d es₁ b d₁ ∧ (next b).Runs d₁ es₂ c d' ∧ es = es₁ ++ es₂ := by
  simp only [Runs, bind_apply]
  rcases hw : w d with ⟨es₁, error | ⟨b, d₁⟩⟩
  · simp
  · constructor
    · intro h
      rcases hnext : next b d₁ with ⟨es₂, result⟩
      obtain ⟨rfl, rfl⟩ : es₁ ++ es₂ = es ∧ result = .ok (c, d') := by simpa [hnext] using h
      exact ⟨es₁, b, d₁, es₂, rfl, hnext, rfl⟩
    · rintro ⟨es₁', b', d₁', es₂, h₁, h₂, rfl⟩
      obtain ⟨rfl, rfl, rfl⟩ : es₁ = es₁' ∧ b = b' ∧ d₁ = d₁' := by simpa using h₁
      simp [h₂]

/-- A step that cannot fail only puts its emissions before those of what comes next. -/
theorem runs_step {w : Walk β} {next : β → Walk γ} {b : β} {c : γ} {d₁ : Declared}
    {es₀ : List Emission} (h : w d = (es₀, .ok (b, d₁))) :
    (w >>= next).Runs d es c d' ↔ ∃ es₁, (next b).Runs d₁ es₁ c d' ∧ es = es₀ ++ es₁ := by
  rw [runs_bind]
  constructor
  · rintro ⟨es₀', b', d₁', es₁, hw, hnext, rfl⟩
    obtain ⟨rfl, rfl, rfl⟩ : es₀ = es₀' ∧ b = b' ∧ d₁ = d₁' := by
      simpa [h] using (show w d = _ from hw)
    exact ⟨es₁, hnext, rfl⟩
  · rintro ⟨es₁, hnext, rfl⟩
    exact ⟨es₀, b, d₁, es₁, h, hnext, rfl⟩

theorem runs_silent {w : Walk β} {next : β → Walk γ} {b : β} {c : γ} {d₁ : Declared}
    (h : w d = ([], .ok (b, d₁))) :
    (w >>= next).Runs d es c d' ↔ (next b).Runs d₁ es c d' := by
  rw [runs_step h]
  simp

theorem runs_return {w : Walk Unit} {m n : Nat} :
    (w >>= fun _ => pure n).Runs d es m d' ↔ w.Runs d es () d' ∧ m = n := by
  rw [runs_bind]
  constructor
  · rintro ⟨es₁, _, d₁, es₂, hw, hpure, rfl⟩
    obtain ⟨rfl, rfl, rfl⟩ := runs_pure.1 hpure
    exact ⟨by rwa [List.append_nil], rfl⟩
  · rintro ⟨hw, rfl⟩
    exact ⟨es, (), d', [], hw, runs_pure.2 ⟨rfl, rfl, rfl⟩, (List.append_nil es).symm⟩

@[simp] theorem runs_fail {e : CompileError} {b : β} : ¬(fail e : Walk β).Runs d es b d' := by
  simp [Runs, fail]

@[simp] theorem runs_malformed {subject : List Node} {flaw : Flaw} {b : β} :
    ¬(malformed subject flaw : Walk β).Runs d es b d' :=
  runs_fail

@[simp] theorem runs_append {fragment : Fragment} {u : Unit} :
    (append fragment).Runs d es u d' ↔ es = [.instruction (.append fragment)] ∧ d' = d := by
  simp [Runs, append, instruct, emit, eq_comm]

@[simp] theorem runs_instruct {i : Instruction} {u : Unit} :
    (instruct i).Runs d es u d' ↔ es = [.instruction i] ∧ d' = d := by
  simp [Runs, instruct, emit, eq_comm]

@[simp] theorem runs_warn {subject : List Node} {approximation : Approximation} {u : Unit} :
    (warn subject approximation).Runs d es u d' ↔
      es = [.warning ⟨Node.textAll subject, approximation⟩] ∧ d' = d := by
  simp [Runs, warn, emit, eq_comm]

@[simp] theorem runs_changeSymbols {f : Symbols → Symbols} {u : Unit} :
    (changeSymbols f).Runs d es u d' ↔ es = [] ∧ d' = { d with symbols := f d.symbols } := by
  simp [Runs, changeSymbols, eq_comm]

theorem declare_apply (equation : Equation Float) (d : Declared) :
    declare equation d = ([], .ok (d.placeOf equation, d.declaring equation)) := by
  simp only [declare, Declared.placeOf, Declared.declaring]
  cases d.externals.findIdx? (·.name? == equation.name?) <;> rfl

theorem runs_reading_bind {subject : List Node} {reading : Except Flaw β} {next : β → Walk γ}
    {c : γ} :
    (Walk.reading subject reading >>= next).Runs d es c d' ↔
      ∃ b, reading = .ok b ∧ (next b).Runs d es c d' := by
  rcases reading with flaw | a
  · simp [Walk.reading, runs_bind]
  · have hdone : done a d = ([], .ok (a, d)) := rfl
    rw [Walk.reading, runs_silent hdone]
    simp

/-! ## Parts of emissions -/

/-- The sign put in between two neighbours that are multiplied without one. -/
def joint (previous : Option Node) (node : Node) : List Emission :=
  if previous.any (·.juxtaposed node) then [.instruction (.append (.operator .multiply))] else []

/-- Emissions between an opening fragment and its `close`. -/
def between (opening : Fragment) (es : List Emission) : List Emission :=
  .instruction (.append opening) :: (es ++ [Emission.instruction (.append .close)])

/-- The choice of a branch of an external and what is made of it. -/
def pairing (d : Declared) (equation : Equation Float)
    (make : (external branch : Nat) → Fragment) : List Emission :=
  [.instruction (.pair (d.placeOf equation) equation.branchCount),
    .instruction (.appendPaired (d.placeOf equation) (make (d.placeOf equation)))]

theorem instructions_joint (previous : Option Node) (node : Node) :
    Emission.instructions (joint previous node) =
      if previous.any (·.juxtaposed node) then [.append (.operator .multiply)] else [] := by
  unfold joint
  split <;> rfl

@[simp] theorem instructions_between (opening : Fragment) (es : List Emission) :
    Emission.instructions (between opening es) =
      .append opening :: (Emission.instructions es ++ [Instruction.append .close]) := by
  rw [between, Emission.instructions_cons_instruction, Emission.instructions_append]
  rfl

/-! ## The parts of a walk that end well -/

theorem runs_enclosed {opening : Fragment} {body : Walk Unit} {u : Unit} :
    (enclosed opening body).Runs d es u d' ↔
      ∃ es', body.Runs d es' () d' ∧ es = between opening es' := by
  rw [enclosed, append, runs_step rfl]
  simp only [runs_bind, runs_append, between]
  constructor
  · rintro ⟨_, ⟨es', _, d₁, _, hbody, ⟨rfl, rfl⟩, rfl⟩, rfl⟩
    exact ⟨es', hbody, rfl⟩
  · rintro ⟨es', hbody, rfl⟩
    exact ⟨_, ⟨es', (), d', _, hbody, ⟨rfl, rfl⟩, rfl⟩, rfl⟩

theorem runs_called {function : Function} {subject : Node} {operand : List Node}
    {body : Walk Unit} {u : Unit} :
    (called function subject operand body).Runs d es u d' ↔
      operand ≠ [] ∧ ∃ es', body.Runs d es' () d' ∧ es = between (.call function) es' := by
  cases operand <;> simp [called, runs_enclosed]

theorem runs_operated {symbol : String} {u : Unit} :
    (operated symbol).Runs d es u d' ↔
      ∃ entry, Entry.ofSymbol? symbol = some entry ∧ es = [.instruction entry.instruction] ∧
        d' = d := by
  unfold operated
  rcases Entry.ofSymbol? symbol with _ | _ | _ <;> simp [Entry.instruction]

theorem paired_apply (equation : Equation Float) (make : (external branch : Nat) → Fragment)
    (d : Declared) :
    paired equation make d = (pairing d equation make, .ok ((), d.declaring equation)) := by
  rw [paired, bind_apply, declare_apply]
  rfl

theorem runs_referred {equation : Equation Float} {u : Unit} :
    (referred equation).Runs d es u d' ↔
      es = pairing d equation .reference ∧
        d' = (d.declaring equation).addArguments equation.arguments := by
  rw [referred, runs_step (paired_apply ..)]
  simp only [runs_changeSymbols]
  constructor
  · rintro ⟨_, ⟨rfl, rfl⟩, rfl⟩
    exact ⟨List.append_nil _, rfl⟩
  · rintro ⟨rfl, rfl⟩
    exact ⟨[], ⟨rfl, rfl⟩, (List.append_nil _).symm⟩

theorem runs_applied {equation : Equation Float} {make : (external branch : Nat) → Fragment}
    {anchored : List Node} {operand : Operand} {body : Walk Unit} {u : Unit} :
    (applied equation make anchored operand body).Runs d es u d' ↔
      operand.isParenthesized = true ∧
        Operand.argumentCount operand.inner = equation.parameters.length ∧
        ∃ es' d₁, body.Runs (d.declaring equation) es' () d₁ ∧
          es = pairing d equation make ++ es' ++ [.instruction (.append .close)] ∧
          d' = d₁.addArguments equation.freeArguments := by
  unfold applied
  by_cases hparens : operand.isParenthesized = true
  · by_cases hcount : Operand.argumentCount operand.inner = equation.parameters.length
    · simp only [hparens, hcount, Bool.not_true, Bool.false_eq_true, ne_eq, not_true_eq_false,
        if_false, true_and]
      rw [runs_step (paired_apply ..)]
      simp only [runs_bind, runs_append, runs_changeSymbols]
      constructor
      · rintro ⟨_, ⟨es', _, _, _, hbody, ⟨_, _, _, _, ⟨rfl, rfl⟩, ⟨rfl, rfl⟩, rfl⟩, rfl⟩, rfl⟩
        exact ⟨es', _, hbody, by simp, rfl⟩
      · rintro ⟨es', d₁, hbody, rfl, rfl⟩
        exact ⟨_, ⟨es', (), d₁, _, hbody, ⟨_, (), _, _, ⟨rfl, rfl⟩, ⟨rfl, rfl⟩, rfl⟩, rfl⟩,
          by simp⟩
    · simp [hparens, hcount]
  · simp [hparens]

theorem runs_summed {subject : Node} {lower upper : Option (List Node)} {operand : Operand}
    {body : Walk Unit} {consumed : Nat} :
    (summed subject lower upper operand body).Runs d es consumed d' ↔
      operand.nodes ≠ [] ∧ consumed = operand.consumed ∧
        ∃ range es', SumRange.ofLimits lower upper = .ok range ∧
          body.Runs ((d.addArguments range.names).addBound range.index) es' () d' ∧
          es = between (.sum range.index range.lower range.upper) es' := by
  rw [summed, runs_reading_bind]
  by_cases hoperand : operand.nodes = []
  · simp [hoperand, runs_bind]
  · have hempty : operand.nodes.isEmpty = false := by simpa using hoperand
    constructor
    · rintro ⟨range, hrange, hwalk⟩
      rw [runs_silent rfl, runs_silent rfl, hempty] at hwalk
      obtain ⟨_, _, _, _, henclosed, hconsumed, rfl⟩ := runs_bind.1 hwalk
      obtain ⟨rfl, rfl, rfl⟩ := runs_pure.1 hconsumed
      obtain ⟨es', hbody, rfl⟩ := runs_enclosed.1 henclosed
      exact ⟨hoperand, rfl, range, es', hrange, hbody, List.append_nil _⟩
    · rintro ⟨-, rfl, range, es', hrange, hbody, rfl⟩
      refine ⟨range, hrange, ?_⟩
      rw [runs_silent rfl, runs_silent rfl, hempty]
      exact runs_bind.2 ⟨_, (), d', [], runs_enclosed.2 ⟨es', hbody, rfl⟩,
        runs_pure.2 ⟨rfl, rfl, rfl⟩, (List.append_nil _).symm⟩

theorem runs_integrated {config : Config} {lower upper : Option (List Node)}
    {anchored : List Node} {operand : Operand} {body : Walk Unit} {consumed : Nat} :
    (integrated config lower upper anchored operand body).Runs d es consumed d' ↔
      operand.nodes ≠ [] ∧ consumed = operand.consumed ∧
        ∃ partition es', Partition.ofLimits config.partitions lower upper = .ok partition ∧
          body.Runs (d.addBound (operand.differential.getD config.differential)) es' () d' ∧
          es = .warning ⟨Node.textAll (anchored.take (operand.consumed + 1)),
              .riemannSum config.partitions⟩ ::
            between (.integral (operand.differential.getD config.differential) partition.start
              partition.width config.partitions config.rule) es' := by
  rw [integrated, runs_reading_bind]
  by_cases hoperand : operand.nodes = []
  · simp [hoperand]
  · have hempty : operand.nodes.isEmpty = false := by simpa using hoperand
    constructor
    · rintro ⟨partition, hpartition, hwalk⟩
      simp only [hempty, Bool.false_eq_true, if_false] at hwalk
      rw [runs_silent rfl, warn, runs_step rfl] at hwalk
      obtain ⟨_, hwalk, rfl⟩ := hwalk
      obtain ⟨_, _, _, _, henclosed, hconsumed, rfl⟩ := runs_bind.1 hwalk
      obtain ⟨rfl, rfl, rfl⟩ := runs_pure.1 hconsumed
      obtain ⟨es', hbody, rfl⟩ := runs_enclosed.1 henclosed
      exact ⟨hoperand, rfl, partition, es', hpartition, hbody, by simp⟩
    · rintro ⟨-, rfl, partition, es', hpartition, hbody, rfl⟩
      refine ⟨partition, hpartition, ?_⟩
      simp only [hempty, Bool.false_eq_true, if_false]
      rw [runs_silent rfl, warn, runs_step rfl]
      refine ⟨_, runs_bind.2 ⟨_, (), d', [], runs_enclosed.2 ⟨es', hbody, rfl⟩,
        runs_pure.2 ⟨rfl, rfl, rfl⟩, rfl⟩, ?_⟩
      simp

theorem runs_turned {name : OperatorName} {function : Function} {subject : Node}
    {lower upper : Option (List Node)} {operand : Operand} {body : Walk Unit} {consumed : Nat} :
    (turned name function subject lower upper operand body).Runs d es consumed d' ↔
      lower = none ∧ upper = none ∧ operand.nodes ≠ [] ∧ consumed = operand.consumed ∧
        ∃ es', body.Runs d es' () d' ∧ es = between (.call function) es' := by
  unfold turned
  cases lower <;> cases upper <;> simp only [Option.isSome_none, Option.isSome_some, Bool.or_self,
    Bool.or_true, Bool.true_or, Bool.false_eq_true, if_true, if_false, runs_malformed, reduceCtorEq,
    false_and, and_false, true_and]
  simp only [runs_bind, runs_called, runs_pure]
  constructor
  · rintro ⟨_, _, _, _, ⟨hoperand, es', hbody, rfl⟩, ⟨rfl, rfl, rfl⟩, rfl⟩
    exact ⟨hoperand, rfl, es', hbody, List.append_nil _⟩
  · rintro ⟨hoperand, rfl, es', hbody, rfl⟩
    exact ⟨_, (), d', [], ⟨hoperand, es', hbody, rfl⟩, ⟨rfl, rfl, rfl⟩, (List.append_nil _).symm⟩

theorem runs_primed {s : Session} {name : String} {anchored : List Node} {operand : Operand}
    {body : Walk Unit} {consumed : Nat} :
    (primed s name anchored operand body).Runs d es consumed d' ↔
      consumed = operand.consumed ∧ ∃ equation, s.resolveFunction name = some equation ∧
        operand.isParenthesized = true ∧
        Operand.argumentCount operand.inner = equation.parameters.length ∧
        ∃ es' d₁, body.Runs (d.declaring equation) es' () d₁ ∧
          es = pairing d equation (.derivative · · s.config.step) ++ es' ++
            [Emission.instruction (.append .close), Emission.warning ⟨Node.textAll
              (anchored.take (operand.consumed + 1)), .forwardDifference s.config.step⟩] ∧
          d' = d₁.addArguments equation.freeArguments := by
  unfold primed
  cases s.resolveFunction name with
  | none => simp
  | some equation =>
    simp only [runs_bind, runs_applied, runs_warn, runs_pure]
    constructor
    · rintro ⟨_, _, _, _, ⟨hparens, hcount, es', d₁, hbody, rfl, rfl⟩,
        ⟨_, _, _, _, ⟨rfl, rfl⟩, ⟨rfl, rfl, rfl⟩, rfl⟩, rfl⟩
      exact ⟨rfl, equation, rfl, hparens, hcount, es', d₁, hbody, by simp, rfl⟩
    · rintro ⟨rfl, _, heq, hparens, hcount, es', d₁, hbody, rfl, rfl⟩
      cases heq
      exact ⟨_, (), _, _, ⟨hparens, hcount, es', d₁, hbody, rfl, rfl⟩,
        ⟨_, (), _, _, ⟨rfl, rfl⟩, ⟨rfl, rfl, rfl⟩, rfl⟩, by simp⟩

theorem runs_named {s : Session} {name : String} {anchored : List Node} {operand : Operand}
    {body : Walk Unit} {consumed : Nat} :
    (named s name anchored operand body).Runs d es consumed d' ↔
      match if d.symbols.isLocal name then none else s.resolve name with
      | some equation =>
        if equation.isFunction then
          (applied equation .apply anchored operand body).Runs d es () d' ∧
            consumed = operand.consumed
        else (referred equation).Runs d es () d' ∧ consumed = 0
      | none =>
        es = [.instruction (.append (.var name))] ∧ d' = d.addArguments [name] ∧ consumed = 0 := by
  rw [named, runs_silent rfl]
  cases if d.symbols.isLocal name then none else s.resolve name with
  | none =>
    simp only
    rw [runs_silent rfl, append, runs_step rfl]
    simp only [runs_pure]
    constructor
    · rintro ⟨_, ⟨rfl, rfl, rfl⟩, rfl⟩
      exact ⟨rfl, rfl, rfl⟩
    · rintro ⟨rfl, rfl, rfl⟩
      exact ⟨_, ⟨rfl, rfl, rfl⟩, rfl⟩
  | some equation =>
    by_cases hfunction : equation.isFunction = true
    · simp only [hfunction, if_true, runs_bind, runs_pure]
      constructor
      · rintro ⟨_, _, _, _, happlied, ⟨rfl, rfl, rfl⟩, rfl⟩
        exact ⟨by simpa using happlied, rfl⟩
      · rintro ⟨happlied, rfl⟩
        exact ⟨_, (), d', [], happlied, ⟨rfl, rfl, rfl⟩, (List.append_nil _).symm⟩
    · simp only [hfunction, Bool.false_eq_true, if_false, runs_bind, runs_pure]
      constructor
      · rintro ⟨_, _, _, _, hreferred, ⟨rfl, rfl, rfl⟩, rfl⟩
        exact ⟨by simpa using hreferred, rfl⟩
      · rintro ⟨hreferred, rfl⟩
        exact ⟨_, (), d', [], hreferred, ⟨rfl, rfl, rfl⟩, (List.append_nil _).symm⟩

/-! ## The nodes -/

section Nodes

variable {s : Session} {depth consumed : Nat} {previous : Option Node} {node : Node}
  {rest : List Node}

theorem runs_visitAll_nil {u : Unit} :
    (visitAll s depth previous []).Runs d es u d' ↔ es = [] ∧ d' = d := by
  rw [visitAll, runs_done]
  simp

theorem runs_visitAll_cons {u : Unit} :
    (visitAll s depth previous (node :: rest)).Runs d es u d' ↔
      ∃ n es₁ d₁ es₂, (visit s depth node rest).Runs d es₁ n d₁ ∧
        (visitAll s depth (node :: rest.take n).getLast? (rest.drop n)).Runs d₁ es₂ () d' ∧
        es = joint previous node ++ .visit depth node :: (es₁ ++ es₂) := by
  have hnode : ∀ es, (emit (.visit depth node) >>= fun _ => visit s depth node rest >>= fun n =>
      visitAll s depth (node :: rest.take n).getLast? (rest.drop n)).Runs d es u d' ↔
      ∃ n es₁ d₁ es₂, (visit s depth node rest).Runs d es₁ n d₁ ∧
        (visitAll s depth (node :: rest.take n).getLast? (rest.drop n)).Runs d₁ es₂ () d' ∧
        es = .visit depth node :: (es₁ ++ es₂) := by
    intro es
    rw [runs_step rfl, exists_congr fun es' => and_congr_left' runs_bind]
    constructor
    · rintro ⟨_, ⟨es₁, n, d₁, es₂, hvisit, hrest, rfl⟩, rfl⟩
      exact ⟨n, es₁, d₁, es₂, hvisit, hrest, rfl⟩
    · rintro ⟨n, es₁, d₁, es₂, hvisit, hrest, rfl⟩
      exact ⟨_, ⟨es₁, n, d₁, es₂, hvisit, hrest, rfl⟩, rfl⟩
  rw [visitAll]
  by_cases hjoint : previous.any (·.juxtaposed node) = true
  · rw [if_pos hjoint, append, instruct, runs_step rfl,
      exists_congr fun es' => and_congr_left' (hnode es')]
    simp only [joint, hjoint, if_true]
    constructor
    · rintro ⟨_, ⟨n, es₁, d₁, es₂, hvisit, hrest, rfl⟩, rfl⟩
      exact ⟨n, es₁, d₁, es₂, hvisit, hrest, rfl⟩
    · rintro ⟨n, es₁, d₁, es₂, hvisit, hrest, rfl⟩
      exact ⟨_, ⟨n, es₁, d₁, es₂, hvisit, hrest, rfl⟩, rfl⟩
  · rw [if_neg hjoint, hnode es]
    simp only [joint, hjoint, if_false, List.nil_append, Bool.false_eq_true]

theorem runs_visit_bars :
    (visit s depth (.literal Node.bar) rest).Runs d es consumed d' ↔
      Operand.isClosed (.literal Node.bar :: rest) = true ∧
        (Operand.absolute (.literal Node.bar :: rest)).nodes ≠ [] ∧
        (∃ es', (visitAll s (depth + 1) none
            (Operand.absolute (.literal Node.bar :: rest)).nodes).Runs d es' () d' ∧
          es = between (.call .absolute) es') ∧
        consumed = (Operand.absolute (.literal Node.bar :: rest)).consumed := by
  rw [visit, if_pos rfl]
  by_cases hclosed : Operand.isClosed (.literal Node.bar :: rest) = true
  · simp only [hclosed, if_true, runs_return, runs_called, true_and, and_assoc]
  · simp only [hclosed, Bool.false_eq_true, if_false, runs_malformed, false_and]

theorem runs_visit_piece {text : String} (h : text ≠ Node.bar) :
    (visit s depth (.literal text) rest).Runs d es consumed d' ↔
      es = [.instruction (.append (.number text))] ∧ d' = d ∧ consumed = 0 := by
  rw [visit, if_neg h, runs_return, runs_append, and_assoc]

theorem runs_visit_atom {symbol : String} :
    (visit s depth (.atom symbol) rest).Runs d es consumed d' ↔
      (∃ entry, Entry.ofSymbol? symbol = some entry ∧ es = [.instruction entry.instruction] ∧
        d' = d) ∧ consumed = 0 := by
  rw [visit, runs_return, runs_operated]

theorem runs_visit_power {base exponent : Node} :
    (visit s depth (.power base exponent) rest).Runs d es consumed d' ↔
      simple base ≠ [] ∧ simple exponent ≠ [] ∧ consumed = 0 ∧ ∃ es₁ d₁ es₂,
        (visitAll s (depth + 1) none (simple base)).Runs d es₁ () d₁ ∧
        (visitAll s (depth + 1) none (simple exponent)).Runs d₁ es₂ () d' ∧
        es = between (.call .power) (es₁ ++ .instruction (.append .separator) :: es₂) := by
  rw [visit]
  by_cases hempty : ((simple base).isEmpty || (simple exponent).isEmpty) = true
  · rw [if_pos hempty]
    simp only [runs_malformed, false_iff]
    rintro ⟨hbase, hexponent, -⟩
    simp [hbase, hexponent] at hempty
  · have hparts : simple base ≠ [] ∧ simple exponent ≠ [] := by simpa using hempty
    rw [if_neg hempty, runs_return, runs_enclosed]
    constructor
    · rintro ⟨⟨_, hbody, rfl⟩, rfl⟩
      obtain ⟨es₁, _, d₁, _, hbase, hmore, rfl⟩ := runs_bind.1 hbody
      rw [append, instruct, runs_step rfl] at hmore
      obtain ⟨es₂, hexponent, rfl⟩ := hmore
      exact ⟨hparts.1, hparts.2, rfl, es₁, d₁, es₂, hbase, hexponent, rfl⟩
    · rintro ⟨-, -, rfl, es₁, d₁, es₂, hbase, hexponent, rfl⟩
      refine ⟨⟨_, runs_bind.2 ⟨es₁, (), d₁, _, hbase, ?_, rfl⟩, rfl⟩, rfl⟩
      rw [append, instruct, runs_step rfl]
      exact ⟨es₂, hexponent, rfl⟩

theorem runs_visit_angle {base : Node} :
    (visit s depth (.angle base) rest).Runs d es consumed d' ↔
      simple base ≠ [] ∧ (visitAll s (depth + 1) none (simple base)).Runs d es () d' ∧
        consumed = 0 := by
  rw [visit]
  by_cases hempty : (simple base).isEmpty = true
  · have hbase : simple base = [] := by simpa using hempty
    simp [hbase]
  · have hbase : simple base ≠ [] := by simpa using hempty
    rw [if_neg hempty, runs_return]
    exact (and_iff_right hbase).symm

theorem runs_visit_fraction {numerator denominator : List Node} :
    (visit s depth (.fraction numerator denominator) rest).Runs d es consumed d' ↔
      numerator ≠ [] ∧ denominator ≠ [] ∧ consumed = 0 ∧ ∃ es₁ d₁ es₂,
        (visitAll s (depth + 1) none numerator).Runs d es₁ () d₁ ∧
        (visitAll s (depth + 1) none denominator).Runs d₁ es₂ () d' ∧
        es = between .openParen (between .openParen es₁ ++
          .instruction (.append (.operator .divide)) :: between .openParen es₂) := by
  rw [visit]
  by_cases hempty : (numerator.isEmpty || denominator.isEmpty) = true
  · rw [if_pos hempty]
    simp only [runs_malformed, false_iff]
    rintro ⟨hnumerator, hdenominator, -⟩
    simp [hnumerator, hdenominator] at hempty
  · have hparts : numerator ≠ [] ∧ denominator ≠ [] := by simpa using hempty
    rw [if_neg hempty, runs_return, runs_enclosed]
    constructor
    · rintro ⟨⟨_, hbody, rfl⟩, rfl⟩
      obtain ⟨_, _, d₁, _, hnumerator, hmore, rfl⟩ := runs_bind.1 hbody
      rw [append, instruct, runs_step rfl] at hmore
      obtain ⟨_, hdenominator, rfl⟩ := hmore
      obtain ⟨es₁, hfirst, rfl⟩ := runs_enclosed.1 hnumerator
      obtain ⟨es₂, hsecond, rfl⟩ := runs_enclosed.1 hdenominator
      exact ⟨hparts.1, hparts.2, rfl, es₁, d₁, es₂, hfirst, hsecond, rfl⟩
    · rintro ⟨-, -, rfl, es₁, d₁, es₂, hnumerator, hdenominator, rfl⟩
      refine ⟨⟨_, runs_bind.2 ⟨_, (), d₁, _, runs_enclosed.2 ⟨es₁, hnumerator, rfl⟩, ?_, rfl⟩,
        rfl⟩, rfl⟩
      rw [append, instruct, runs_step rfl]
      exact ⟨_, runs_enclosed.2 ⟨es₂, hdenominator, rfl⟩, rfl⟩

theorem runs_visit_root {body : List Node} :
    (visit s depth (.root body) rest).Runs d es consumed d' ↔
      body ≠ [] ∧ (∃ es', (visitAll s (depth + 1) none body).Runs d es' () d' ∧
        es = between (.call .squareRoot) es') ∧ consumed = 0 := by
  rw [visit, runs_return, runs_called, and_assoc]

theorem runs_visit_group {body : List Node} :
    (visit s depth (.group body) rest).Runs d es consumed d' ↔
      (visitAll s (depth + 1) none body).Runs d es () d' ∧ consumed = 0 := by
  rw [visit_group, runs_return]

end Nodes

end Walk

end Formulary
