import Formulary.Proofs.Passing

/-!
# Operand runs at the end of a node list

A scan that reaches the end of its nodes would go on into whatever came next. When parentheses are
put around the nodes and a factor behind them, a run that is not in parentheses of its own takes the
closing parenthesis and the factor in; so does one that leaves two parentheses open.
-/

namespace Formulary

namespace Operand

/-- The depth that a scan reaches the end of the nodes with. -/
def depthAtEnd (depth : Nat) (nodes : List Node) : Nat :=
  nodes.foldl (fun depth node => depthAfter node depth) depth

/-- A scan stops inside the nodes, whatever comes behind them, or it reaches their end and goes on
there. -/
theorem scan_append (marked parenthesized leading : Bool) (depth : Nat) (nodes tail : List Node)
    (htail : ∀ name, tail.head? ≠ some (.var name)) :
    ((scan marked parenthesized leading depth nodes).1.length < nodes.length ∧
      scan marked parenthesized leading depth (nodes ++ tail) =
        scan marked parenthesized leading depth nodes) ∨
    (scan marked parenthesized leading depth nodes = (nodes, none) ∧
      scan marked parenthesized leading depth (nodes ++ tail) =
        (nodes ++ (scan marked parenthesized (leading && nodes.isEmpty) (depthAtEnd depth nodes)
            tail).1,
          (scan marked parenthesized (leading && nodes.isEmpty) (depthAtEnd depth nodes)
            tail).2)) := by
  induction nodes generalizing leading depth with
  | nil =>
    right
    simp [scan, depthAtEnd]
  | cons node rest ih =>
    have hdifferential : differential? (node :: (rest ++ tail)) = differential? (node :: rest) := by
      cases node with
      | var name =>
        cases rest with
        | nil =>
          cases tail with
          | nil => rfl
          | cons first tail =>
            cases first with
            | var name' => exact absurd rfl (htail name')
            | _ => rfl
        | cons second rest => cases second <;> rfl
      | _ => rfl
    rw [List.cons_append, scan, scan, hdifferential]
    cases hmarked : if marked && depth == 0 then differential? (node :: rest) else none with
    | some v =>
      left
      simp
    | none =>
      by_cases hstop : (depth == 0 && !leading && (parenthesized || node.isAdditive)) = true
      · left
        simp [hstop]
      · simp only [hstop, Bool.false_eq_true, if_false]
        rcases ih false (depthAfter node depth) with ⟨hlength, hscan⟩ | ⟨hall, hscan⟩
        · left
          rw [hscan]
          exact ⟨Nat.succ_lt_succ hlength, rfl⟩
        · right
          rw [hscan, hall]
          simp [depthAtEnd]

theorem scan_consumed_le (marked parenthesized leading : Bool) (depth : Nat)
    (nodes : List Node) :
    (scan marked parenthesized leading depth nodes).1.length +
      (if (scan marked parenthesized leading depth nodes).2.isSome then 2 else 0) ≤
        nodes.length := by
  fun_induction scan with
  | case1 => simp
  | case2 leading depth node rest v hmarked =>
    have hpair : 2 ≤ (node :: rest).length := by
      have hv : differential? (node :: rest) = some v := by
        split at hmarked
        · exact hmarked
        · cases hmarked
      unfold differential? at hv
      split at hv
      · next heq => rw [heq]; simp
      · cases hv
    simpa using hpair
  | case3 => simp
  | case4 leading depth node rest _ _ run v hrun ih =>
    simp only [hrun] at ih
    simp only [List.length_cons]
    omega

theorem following_eq {marked parenthesized : Bool} {anchor : Node} {rest run : List Node}
    {v : Option String} (hhead : rest.head?.any Node.isOpen = parenthesized)
    (h : scan marked parenthesized true 0 rest = (run, v)) :
    following marked (anchor :: rest) =
      { nodes := run, consumed := run.length + if v.isSome then 2 else 0, differential := v } := by
  subst hhead
  simp only [following, List.tail_cons, h]

/-- The run of an anchor stops inside the nodes, whatever comes behind them, or it reaches their end
and goes on there. -/
theorem following_append (marked : Bool) (anchor : Node) {rest tail : List Node}
    (hrest : rest ≠ []) (htail : ∀ name, tail.head? ≠ some (.var name)) :
    ((following marked (anchor :: rest)).nodes.length < rest.length ∧
      following marked (anchor :: (rest ++ tail)) = following marked (anchor :: rest)) ∨
    (following marked (anchor :: rest) =
        { nodes := rest, consumed := rest.length, differential := none } ∧
      ∃ run v, scan marked (rest.head?.any Node.isOpen) false (depthAtEnd 0 rest) tail = (run, v) ∧
        following marked (anchor :: (rest ++ tail)) =
          { nodes := rest ++ run
            consumed := (rest ++ run).length + if v.isSome then 2 else 0
            differential := v }) := by
  have hhead : (rest ++ tail).head?.any Node.isOpen = rest.head?.any Node.isOpen := by
    rw [List.head?_append, List.head?_eq_some_head hrest, Option.some_or]
  have hempty : (true && rest.isEmpty) = false := by simpa using hrest
  have hscan := scan_append marked (rest.head?.any Node.isOpen) true 0 rest tail htail
  rw [hempty] at hscan
  rcases hscan with ⟨hlength, hscan⟩ | ⟨hall, hscan⟩
  · left
    exact ⟨hlength, following_eq hhead hscan⟩
  · right
    exact ⟨following_eq rfl hall, _, _, rfl, following_eq hhead hscan⟩

theorem following_consumed_le (marked : Bool) (anchor : Node) (rest : List Node) :
    (following marked (anchor :: rest)).consumed ≤ rest.length :=
  scan_consumed_le ..

end Operand

/-- A closing parenthesis with a factor behind it. -/
def Spelling.factor (S : Spelling) (name : String) : List Node :=
  [S.atom .closing, S.atom .times, .var name]

namespace Operand

variable {S : Spelling}

/-- What a run that has reached the end takes of a closing parenthesis with a factor behind it. -/
theorem scan_factor (marked parenthesized : Bool) (depth : Nat) (name : String) :
    scan marked parenthesized false depth (S.factor name) =
      if parenthesized && depth == 0 then ([], none)
      else if parenthesized && depth == 1 then ([S.atom .closing], none)
      else (S.factor name, none) := by
  have hclosing : depthAfter (S.atom .closing) depth = depth - 1 := by
    simp [depthAfter, Node.isOpen, Node.isClose]
  have htimes : depthAfter (S.atom .times) (depth - 1) = depth - 1 := by
    simp [depthAfter, Node.isOpen, Node.isClose]
  have hadditive : ∀ mark : Mark, mark.isAdditive = false → (S.atom mark).isAdditive = false := by
    intro mark hmark
    simp [Node.isAdditive, hmark]
  have hmark : ∀ mark rest, differential? (S.atom mark :: rest) = none := fun _ _ => rfl
  have hlast : differential? [.var name] = none := rfl
  have hvar : (Node.var name).isAdditive = false := rfl
  simp only [Spelling.factor, scan, hmark, hlast, ite_self, hadditive .closing rfl,
    hadditive .times rfl, hvar, hclosing, htimes, Bool.or_false, Bool.not_false, Bool.and_true]
  cases parenthesized with
  | false => simp
  | true =>
    rcases depth with _ | _ | depth
    · simp
    · simp
    · simp

/-- A run that has reached the end takes a closing parenthesis in unless it is closed itself. -/
theorem scan_closing (marked parenthesized : Bool) (depth : Nat) :
    scan marked parenthesized false depth [S.atom .closing] =
      if parenthesized && depth == 0 then ([], none) else ([S.atom .closing], none) := by
  have hadditive : (S.atom .closing).isAdditive = false := by
    simp [Node.isAdditive, Mark.isAdditive]
  have hmark : differential? [S.atom .closing] = none := rfl
  simp only [scan, hmark, ite_self, hadditive, Bool.or_false, Bool.not_false, Bool.and_true]
  rw [Bool.and_comm]

end Operand

/-! ## Runs that stay open -/

/-- Whether a `d v` ends the run of a node; only named operators take a run without being the name
of an equation. -/
def Node.marking? : Node → Option Bool
  | named name _ _ => some (name == .integral)
  | _ => none

/-- The run of an anchor reaches the end of the nodes, and neither the end of its own parentheses
nor the closing parenthesis of others would stop it there. -/
def Operand.staysOpen (marked : Bool) (anchor : Node) (rest : List Node) : Bool :=
  (following marked (anchor :: rest)).nodes.length == rest.length &&
    (!rest.head?.any Node.isOpen || decide (2 ≤ depthAtEnd 0 rest))

theorem Operand.staysOpen_iff {S : Spelling} {marked : Bool} {anchor : Node} {rest : List Node}
    (name : String) :
    staysOpen marked anchor rest = true ↔
      (following marked (anchor :: rest)).nodes.length = rest.length ∧
        scan marked (rest.head?.any Node.isOpen) false (depthAtEnd 0 rest) (S.factor name) =
          (S.factor name, none) := by
  rw [staysOpen, scan_factor, Bool.and_eq_true, beq_iff_eq]
  refine and_congr_right fun _ => ?_
  rw [Spelling.factor]
  cases rest.head?.any Node.isOpen with
  | false => simp
  | true =>
    rcases depthAtEnd 0 rest with _ | _ | depth
    · simp
    · simp
    · simp

/-- How many runs, each inside the other, stay open at the end of the nodes. -/
def openRuns : List Node → Nat
  | [] => 0
  | node :: rest =>
    match node.marking? with
    | some marked =>
      if Operand.staysOpen marked node rest then openRuns rest + 1
      else openRuns (rest.drop (Operand.following marked (node :: rest)).consumed)
    | none =>
      openRuns (rest.drop (if node.isBar then (Operand.absolute (node :: rest)).consumed else 0))
termination_by nodes => nodes.length

section Unresolved

variable {s : Session} {depth n : Nat} {node : Node} {rest : List Node} {d d' : Declared}
  {es : List Emission}

/-- A node whose operand does not depend on what comes behind it. -/
def Closed (s : Session) (depth n : Nat) (node : Node) (rest : List Node) (d : Declared)
    (es : List Emission) (d' : Declared) : Prop :=
  node.marking? = none ∧
    n = (if node.isBar then (Operand.absolute (node :: rest)).consumed else 0) ∧
    n ≤ rest.length ∧ ∀ tail, Visits s depth (.single node (rest ++ tail) n) d es d'

open Instruction in
/-- A named operator with its run; another run of it is compiled the same way. -/
def Anchored (s : Session) (depth n : Nat) (node : Node) (rest : List Node) (d : Declared)
    (es : List Emission) (d' : Declared) : Prop :=
  ∃ marked opening d₁ body, node.marking? = some marked ∧
    n = (Operand.following marked (node :: rest)).consumed ∧
    (Operand.following marked (node :: rest)).nodes ≠ [] ∧
    Visits s (depth + 1) (.siblings none (Operand.following marked (node :: rest)).nodes) d₁ body
      d' ∧
    Emission.instructions es = enclosing opening (Emission.instructions body) ∧
    ∀ rest' body' d'', (Operand.following marked (node :: rest')).nodes ≠ [] →
      (Operand.following marked (node :: rest')).differential =
        (Operand.following marked (node :: rest)).differential →
      Visits s (depth + 1) (.siblings none (Operand.following marked (node :: rest')).nodes) d₁
        body' d'' →
      ∃ es', Visits s depth
          (.single node rest' (Operand.following marked (node :: rest')).consumed) d es' d'' ∧
        Emission.instructions es' = enclosing opening (Emission.instructions body')

theorem exists_bar {rest : List Node} (h : Operand.isClosed (.literal Node.bar :: rest) = true) :
    ∃ before after, rest = before ++ [Node.literal Node.bar] ++ after ∧
      ∀ n ∈ before, n.isBar = false := by
  rw [Operand.isClosed, List.tail_cons] at h
  induction rest with
  | nil => cases h
  | cons node rest ih =>
    cases hnode : node.isBar with
    | true =>
      have hbar : node = .literal Node.bar := by
        cases node with
        | literal text => simpa [Node.isBar] using hnode
        | _ => cases hnode
      exact ⟨[], rest, by rw [hbar]; rfl, by simp⟩
    | false =>
      rw [List.any_cons, hnode, Bool.false_or] at h
      obtain ⟨before, after, rfl, hbefore⟩ := ih h
      exact ⟨node :: before, after, rfl, List.forall_mem_cons.2 ⟨hnode, hbefore⟩⟩

theorem Visits.closed_or_anchored (h : Visits s depth (.single node rest n) d es d')
    (hplain : ∀ i ∈ Emission.instructions es, i.IsPlain) :
    Closed s depth n node rest d es d' ∨ Anchored s depth n node rest d es d' := by
  cases h with
  | bars hclosed hoperand hbody =>
    left
    obtain ⟨before, after, rfl, hbefore⟩ := exists_bar hclosed
    refine ⟨rfl, rfl, ?_, ?_⟩
    · rw [absolute_closed hbefore]
      simp
    · intro tail
      have hsame : Operand.absolute (.literal Node.bar ::
            (before ++ [Node.literal Node.bar] ++ after)) =
          Operand.absolute (.literal Node.bar ::
            (before ++ [Node.literal Node.bar] ++ after ++ tail)) := by
        rw [List.append_assoc _ after, absolute_closed hbefore, absolute_closed hbefore]
      rw [hsame] at hoperand hbody ⊢
      refine .bars ?_ hoperand hbody
      simp [Operand.isClosed, Node.isBar]
  | piece htext =>
    left
    refine ⟨rfl, ?_, Nat.zero_le _, fun tail => .piece htext⟩
    simp [Node.isBar, htext]
  | name hname => exact .inl ⟨rfl, rfl, Nat.zero_le _, fun tail => .name hname⟩
  | reference =>
    rw [← List.append_nil (Walk.pairing ..)] at hplain
    exact (not_isPlain_pairing hplain).elim
  | application =>
    rw [List.append_assoc] at hplain
    exact (not_isPlain_pairing hplain).elim
  | derivative =>
    rw [List.append_assoc] at hplain
    exact (not_isPlain_pairing hplain).elim
  | atom hentry => exact .inl ⟨rfl, rfl, Nat.zero_le _, fun tail => .atom hentry⟩
  | power hbase hexponent h₁ h₂ =>
    exact .inl ⟨rfl, rfl, Nat.zero_le _, fun tail => .power hbase hexponent h₁ h₂⟩
  | angle hbase hbody => exact .inl ⟨rfl, rfl, Nat.zero_le _, fun tail => .angle hbase hbody⟩
  | fraction hnumerator hdenominator h₁ h₂ =>
    exact .inl ⟨rfl, rfl, Nat.zero_le _, fun tail => .fraction hnumerator hdenominator h₁ h₂⟩
  | root hbody h => exact .inl ⟨rfl, rfl, Nat.zero_le _, fun tail => .root hbody h⟩
  | group h => exact .inl ⟨rfl, rfl, Nat.zero_le _, fun tail => .group h⟩
  | sum hrange hoperand hbody =>
    right
    refine ⟨false, _, _, _, rfl, rfl, hoperand, hbody, Walk.instructions_between _ _, ?_⟩
    intro rest' body' d'' hoperand' _ hbody'
    exact ⟨_, .sum hrange hoperand' hbody', Walk.instructions_between _ _⟩
  | integral hpartition hoperand hname hbody =>
    right
    refine ⟨true, _, _, _, rfl, rfl, hoperand, hbody, Walk.instructions_between _ _, ?_⟩
    intro rest' body' d'' hoperand' hdifferential hbody'
    rw [← hdifferential] at hname
    exact ⟨_, .integral hpartition hoperand' hname hbody', Walk.instructions_between _ _⟩
  | @turned _ operator _ _ _ _ _ hturning hoperand hbody =>
    right
    have hmarked : (operator == .integral) = false := by
      cases operator <;> first | rfl | cases hturning
    refine ⟨false, _, _, _, congrArg some hmarked, rfl, hoperand, hbody,
      Walk.instructions_between _ _, ?_⟩
    intro rest' body' d'' hoperand' _ hbody'
    exact ⟨_, .turned hturning hoperand' hbody', Walk.instructions_between _ _⟩

variable {S : Spelling} {previous : Option Node} {nodes : List Node}

theorem Visits.nil_inv (h : Visits s depth (.siblings previous []) d es d') : es = [] ∧ d' = d := by
  cases h
  exact ⟨rfl, rfl⟩

/-- A node that takes as much as before is visited with more behind its siblings. -/
theorem Visits.cons_of_le {tail : List Node} {d₁ : Declared} {es' : List Emission}
    (hn : n ≤ rest.length) (hnode : Visits s depth (.single node (rest ++ tail) n) d es d₁)
    (hrest : Visits s depth (.siblings (node :: rest.take n).getLast? (rest.drop n ++ tail)) d₁ es'
      d') :
    Visits s depth (.siblings previous (node :: rest ++ tail)) d
      (Walk.joint previous node ++ .visit depth node :: (es ++ es')) d' := by
  have htake : (rest ++ tail).take n = rest.take n := List.take_append_of_le_length hn
  have hdrop : (rest ++ tail).drop n = rest.drop n ++ tail := List.drop_append_of_le_length hn
  rw [← htake, ← hdrop] at hrest
  exact .cons hnode hrest

theorem Passes.visits_tail {tail : List Node} {instructions : List Instruction}
    (h : Passes s tail instructions) (hjoint : ∀ previous, jointAt previous tail = [])
    (depth : Nat) (previous : Option Node) (d : Declared) :
    ∃ es d', Visits s depth (.siblings previous tail) d es d' ∧
      Emission.instructions es = instructions := by
  obtain ⟨es, d', hes, hvisits⟩ := h depth previous [] d
  have hall := hvisits [] d' .nil
  rw [hjoint, List.append_nil, List.nil_append, List.append_nil] at hall
  exact ⟨es, d', hall, hes⟩

theorem instructions_cons (depth : Nat) (previous : Option Node) (node : Node)
    (es es' : List Emission) :
    Emission.instructions (Walk.joint previous node ++ .visit depth node :: (es ++ es')) =
      Emission.instructions (Walk.joint previous node) ++
        (Emission.instructions es ++ Emission.instructions es') := by
  simp

/-- A node that takes all that is behind it. -/
theorem Visits.cons_all (hnode : Visits s depth (.single node rest rest.length) d es d') :
    Visits s depth (.siblings previous (node :: rest)) d
      (Walk.joint previous node ++ .visit depth node :: (es ++ [])) d' := by
  refine .cons hnode ?_
  rw [List.drop_length]
  exact .nil

/-- Where its run is the same, an anchor is compiled the same way. -/
theorem Anchored.same_run (h : Anchored s depth n node rest d es d') {marked : Bool}
    (hmarked : node.marking? = some marked) {rest' : List Node}
    (heq : Operand.following marked (node :: rest') = Operand.following marked (node :: rest)) :
    ∃ es', Visits s depth (.single node rest' n) d es' d' ∧
      Emission.instructions es' = Emission.instructions es := by
  obtain ⟨marked', opening, d₀, body, hmarked', rfl, hrun, hbody, hes, hanother⟩ := h
  obtain rfl : marked = marked' := Option.some.inj (hmarked.symm.trans hmarked')
  have hagain := hanother rest' body d'
  rw [heq] at hagain
  obtain ⟨es', hvisits, hes'⟩ := hagain hrun rfl hbody
  exact ⟨es', hvisits, hes'.trans hes.symm⟩

/-- With more behind it, the run of an anchor is what it was, or it has reached the end of its nodes
and takes more in. -/
theorem Anchored.extend (h : Anchored s depth n node rest d es d') {tail : List Node}
    (htail : ∀ name, tail.head? ≠ some (.var name))
    (hnone : ∀ marked parenthesized depth,
      (Operand.scan marked parenthesized false depth tail).2 = none) :
    ∃ marked, node.marking? = some marked ∧
      n = (Operand.following marked (node :: rest)).consumed ∧
    (((Operand.following marked (node :: rest)).nodes.length < rest.length ∨
        (Operand.scan marked (rest.head?.any Node.isOpen) false (Operand.depthAtEnd 0 rest)
          tail).1 = []) ∧
      (∃ es', Visits s depth (.single node (rest ++ tail) n) d es' d' ∧
        Emission.instructions es' = Emission.instructions es) ∨
    ∃ run opening d₀ body,
      (Operand.following marked (node :: rest)).nodes.length = rest.length ∧ n = rest.length ∧
      Operand.scan marked (rest.head?.any Node.isOpen) false (Operand.depthAtEnd 0 rest) tail =
        (run, none) ∧ run ≠ [] ∧
      Visits s (depth + 1) (.siblings none rest) d₀ body d' ∧
      Emission.instructions es = Instruction.enclosing opening (Emission.instructions body) ∧
      ∀ body' d'', Visits s (depth + 1) (.siblings none (rest ++ run)) d₀ body' d'' →
        ∃ es', Visits s depth (.single node (rest ++ tail) (rest ++ run).length) d es' d'' ∧
          Emission.instructions es' =
            Instruction.enclosing opening (Emission.instructions body')) := by
  have hanchored := h
  obtain ⟨marked, opening, d₀, body, hmarked, rfl, hrun, hbody, hes, hanother⟩ := h
  have hrest : rest ≠ [] := by
    rintro rfl
    exact hrun (List.prefix_nil.1 (Operand.following_isPrefix marked [node]))
  refine ⟨marked, hmarked, rfl, ?_⟩
  rcases Operand.following_append marked node hrest htail with ⟨hlength, heq⟩ |
    ⟨hall, run, v, hscan, heq⟩
  · exact .inl ⟨.inl hlength, hanchored.same_run hmarked heq⟩
  · obtain rfl : v = none := by
      have hv := hnone marked (rest.head?.any Node.isOpen) (Operand.depthAtEnd 0 rest)
      rwa [hscan] at hv
    by_cases hempty : run = []
    · subst hempty
      refine .inl ⟨.inr (by rw [hscan]), hanchored.same_run hmarked ?_⟩
      rw [heq, hall, List.append_nil]
      rfl
    · right
      have hagain := hanother (rest ++ tail)
      rw [heq] at hagain
      rw [hall] at hbody hagain ⊢
      refine ⟨run, opening, d₀, body, rfl, rfl, hscan, hempty, hbody, hes, ?_⟩
      intro body' d'' hbody'
      exact hagain body' d'' (by simp [hrest]) rfl hbody'

/-- Behind a node that emits what it did before, the walk goes on as it did; `p` is what the code
before and the code now have in common, whatever is in front of both. -/
theorem Visits.go_on {tail : List Node} {p : List Instruction → List Instruction → Prop}
    (hp : ∀ before is is', p is is' → p (before ++ is) (before ++ is')) (hn : n ≤ rest.length)
    (hnode : ∃ es₁', Visits s depth (.single node (rest ++ tail) n) d es₁' d' ∧
      Emission.instructions es₁' = Emission.instructions es)
    {es' : List Emission}
    (hrest : ∃ es₂' d'', Visits s depth (.siblings (node :: rest.take n).getLast?
        (rest.drop n ++ tail)) d' es₂' d'' ∧
      p (Emission.instructions es') (Emission.instructions es₂')) :
    ∃ all d'', Visits s depth (.siblings previous (node :: rest ++ tail)) d all d'' ∧
      p (Emission.instructions (Walk.joint previous node ++ .visit depth node :: (es ++ es')))
        (Emission.instructions all) := by
  obtain ⟨es₁', hnode', hes₁'⟩ := hnode
  obtain ⟨es₂', d'', hrest', hes₂'⟩ := hrest
  refine ⟨_, d'', .cons_of_le hn hnode' hrest', ?_⟩
  rw [instructions_cons, instructions_cons, hes₁']
  exact hp _ _ _ (hp _ _ _ hes₂')

/-- A closing parenthesis behind the nodes only adds what it stands for. -/
theorem Visits.append_closing (S : Spelling) (hs : ∀ name, s.resolve name = none)
    (h : Visits s depth (.siblings previous nodes) d es d') :
    ∃ es' d'', Visits s depth (.siblings previous (nodes ++ [S.atom .closing])) d es' d'' ∧
      Emission.instructions es' = Emission.instructions es ++ [Instruction.append .close] := by
  have hclosing : Passes s [S.atom .closing] [.append .close] :=
    .atom .closing (.single .close) rfl
  have htail : ∀ name, [S.atom .closing].head? ≠ some (.var name) := by
    intro name h
    cases h
  have hnone : ∀ marked parenthesized depth,
      (Operand.scan marked parenthesized false depth [S.atom .closing]).2 = none := by
    intro marked parenthesized depth
    rw [Operand.scan_closing]
    split <;> rfl
  have hbefore : ∀ before is is' : List Instruction, is' = is ++ [Instruction.append .close] →
      before ++ is' = before ++ is ++ [Instruction.append .close] := by
    intro before is is' h
    rw [h, List.append_assoc]
  induction hlength : nodes.length using Nat.strongRecOn generalizing depth previous nodes d es d'
    with
  | ind length ih =>
    cases h with
    | nil => exact hclosing.visits_tail (fun _ => jointAt_closing []) depth previous d
    | @cons _ n _ node rest _ d₁ _ es₁ es₂ hnode hrest =>
      subst hlength
      have hshorter : (rest.drop n).length < (node :: rest).length := by
        rw [List.length_drop, List.length_cons]
        omega
      have hbehind := ih _ hshorter hrest rfl
      rcases hnode.closed_or_anchored (hnode.isPlain hs) with ⟨-, -, hle, hmore⟩ | hanchored
      · exact go_on hbefore hle ⟨es₁, hmore _, rfl⟩ hbehind
      · obtain ⟨marked, -, hn, ⟨-, hsame⟩ | ⟨run, opening, d₀, body, -, hend, hscan, hrun, hbody,
          hes₁, hanother⟩⟩ := hanchored.extend htail hnone
        · exact go_on hbefore (hn ▸ Operand.following_consumed_le ..) hsame hbehind
        · obtain rfl : run = [S.atom .closing] := by
            rw [Operand.scan_closing] at hscan
            split at hscan
            · exact absurd (Prod.mk.inj hscan).1.symm hrun
            · exact (Prod.mk.inj hscan).1.symm
          obtain ⟨body', d'', hbody', hinstructions⟩ := ih _ (Nat.lt_succ_self _) hbody rfl
          obtain ⟨es₁', hnode', hes₁'⟩ := hanother body' d'' hbody'
          rw [hend, List.drop_length] at hrest
          obtain ⟨rfl, rfl⟩ := hrest.nil_inv
          refine ⟨_, d'', hnode'.cons_all, ?_⟩
          rw [instructions_cons, instructions_cons, hes₁', hes₁, hinstructions]
          simp [Instruction.enclosing]

end Unresolved

/-! ## A factor behind the nodes -/

/-- The code of a closing parenthesis with a factor behind it. -/
def Instruction.factor (name : String) : List Instruction :=
  [.append .close, .append (.operator .multiply), .append (.var name)]

/-- Code that ends inside so many runs, and the same code with a factor that is taken in by all of
them. -/
def TakesIn (name : String) (n : Nat) (is is' : List Instruction) : Prop :=
  ∃ front, is = front ++ List.replicate n (Instruction.append .close) ∧
    is' = front ++ (Instruction.factor name ++ List.replicate n (Instruction.append .close))

namespace TakesIn

variable {name : String} {n : Nat} {is is' : List Instruction}

theorem behind (before : List Instruction) (h : TakesIn name n is is') :
    TakesIn name n (before ++ is) (before ++ is') := by
  obtain ⟨front, rfl, rfl⟩ := h
  exact ⟨before ++ front, (List.append_assoc ..).symm, (List.append_assoc ..).symm⟩

theorem enclosing (opening : Fragment) (h : TakesIn name n is is') :
    TakesIn name (n + 1) (Instruction.enclosing opening is)
      (Instruction.enclosing opening is') := by
  obtain ⟨front, rfl, rfl⟩ := h
  refine ⟨.append opening :: front, ?_, ?_⟩
  · simp [Instruction.enclosing, List.replicate_succ']
  · simp [Instruction.enclosing, List.replicate_succ']

theorem closed (is : List Instruction) : TakesIn name 0 is (is ++ Instruction.factor name) := by
  refine ⟨is, ?_, ?_⟩
  · rw [List.replicate_zero, List.append_nil]
  · rw [List.replicate_zero, List.append_nil]

end TakesIn

theorem Operand.scan_factor_snd {S : Spelling} (name : String) (marked parenthesized : Bool)
    (depth : Nat) : (scan marked parenthesized false depth (S.factor name)).2 = none := by
  rw [scan_factor]
  split
  · rfl
  · split <;> rfl

theorem Spelling.head?_factor (S : Spelling) (name other : String) :
    (S.factor name).head? ≠ some (.var other) := by
  intro h
  cases h

section Unresolved

variable {s : Session} {depth n : Nat} {previous : Option Node} {node : Node}
  {nodes rest : List Node} {d d' : Declared} {es : List Emission}

theorem Passes.times_var (S : Spelling) {name : String} (hname : s.resolve name = none) :
    Passes s [S.atom .times, .var name] [.append (.operator .multiply), .append (.var name)] := by
  have htimes : Passes s [S.atom .times] [.append (.operator .multiply)] :=
    .atom .times (.single _) rfl
  have hvar : Passes s [.var name] [.append (.var name)] := by
    apply Passes.single
    intro depth rest d
    exact ⟨_, _, rfl, .name (.inr hname)⟩
  exact htimes.append hvar (by simp) (jointAt_behind_arithmetic rfl _) (by simp)

theorem Passes.factor (S : Spelling) {name : String} (hname : s.resolve name = none) :
    Passes s (S.factor name) (Instruction.factor name) := by
  have hclose : Passes s [S.atom .closing] [.append .close] :=
    .atom .closing (.single .close) rfl
  exact hclose.append (.times_var S hname) (by simp) (jointAt_arithmetic rfl _) (by simp)

/-- A run that is closed by the parenthesis leaves the factor to the nodes it stands among. -/
theorem Visits.closing_in_run (S : Spelling) {name : String} (hname : s.resolve name = none)
    {opening : Fragment} {inside : List Instruction} {d₁ : Declared} {es₁ : List Emission}
    (hnode : Visits s depth
      (.single node (rest ++ S.factor name) (rest ++ [S.atom .closing]).length) d es₁ d₁)
    (hes₁ : Emission.instructions es₁ =
      Instruction.enclosing opening (inside ++ [Instruction.append .close]))
    (hes : Emission.instructions es = Instruction.enclosing opening inside) :
    ∃ all d'', Visits s depth (.siblings previous (node :: rest ++ S.factor name)) d all d'' ∧
      TakesIn name 0
        (Emission.instructions (Walk.joint previous node ++ .visit depth node :: (es ++ [])))
        (Emission.instructions all) := by
  obtain ⟨more, d'', hmore, hmore'⟩ := (Passes.times_var S hname).visits_tail
    (fun _ => jointAt_arithmetic rfl _) depth (node :: (rest ++ [S.atom .closing])).getLast? d₁
  have hassoc : rest ++ S.factor name =
      (rest ++ [S.atom .closing]) ++ [S.atom .times, .var name] := by
    rw [List.append_assoc]
    rfl
  have hwhole : Visits s depth (.siblings previous (node :: rest ++ S.factor name)) d
      (Walk.joint previous node ++ .visit depth node :: (es₁ ++ more)) d'' := by
    rw [hassoc] at hnode
    rw [List.cons_append, hassoc]
    refine .cons_of_le (Nat.le_refl _) hnode ?_
    rw [List.take_length, List.drop_length]
    exact hmore
  refine ⟨_, d'', hwhole, Emission.instructions (Walk.joint previous node) ++
    Emission.instructions es, ?_, ?_⟩
  · rw [instructions_cons]
    simp
  · rw [instructions_cons, hes₁, hes, hmore']
    simp [Instruction.enclosing, Instruction.factor]

/-- The nodes of a run that stays open, the closing parenthesis and the factor end up inside it; the
parentheses that close the runs come last. -/
theorem Visits.append_factor (S : Spelling) (name : String) (hs : ∀ name, s.resolve name = none)
    (h : Visits s depth (.siblings previous nodes) d es d') :
    ∃ es' d'', Visits s depth (.siblings previous (nodes ++ S.factor name)) d es' d'' ∧
      TakesIn name (openRuns nodes) (Emission.instructions es) (Emission.instructions es') := by
  have hfactor := Passes.factor S (hs name)
  induction hlength : nodes.length using Nat.strongRecOn generalizing depth previous nodes d es d'
    with
  | ind length ih =>
    cases h with
    | nil =>
      obtain ⟨es', d'', hvisits, hes'⟩ :=
        hfactor.visits_tail (fun _ => jointAt_closing _) depth previous d
      rw [openRuns]
      exact ⟨es', d'', hvisits, hes' ▸ .closed []⟩
    | @cons _ n _ node rest _ d₁ _ es₁ es₂ hnode hrest =>
      subst hlength
      have hshorter : (rest.drop n).length < (node :: rest).length := by
        rw [List.length_drop, List.length_cons]
        omega
      have hbehind := ih _ hshorter hrest rfl
      rcases hnode.closed_or_anchored (hnode.isPlain hs) with ⟨hunmarked, hn, hle, hmore⟩ | hanchored
      · have hruns : openRuns (node :: rest) = openRuns (rest.drop n) := by
          rw [openRuns, hunmarked, ← hn]
        rw [hruns]
        exact go_on (fun before _ _ => .behind before) hle ⟨es₁, hmore _, rfl⟩ hbehind
      · obtain ⟨marked, hmarked, hn, ⟨hstops, hsame⟩ | ⟨run, opening, d₀, body, hall, hend, hscan,
          hrun, hbody, hes₁, hanother⟩⟩ :=
            hanchored.extend (S.head?_factor name) (Operand.scan_factor_snd name)
        · have hclosed : ¬Operand.staysOpen marked node rest = true := by
            rw [Operand.staysOpen_iff (S := S) name]
            rintro ⟨hlength, hscan⟩
            rcases hstops with hless | hempty
            · exact absurd hlength (Nat.ne_of_lt hless)
            · rw [hscan] at hempty
              cases hempty
          have hruns : openRuns (node :: rest) = openRuns (rest.drop n) := by
            rw [openRuns, hmarked]
            simp only [if_neg hclosed, ← hn]
          rw [hruns]
          exact go_on (fun before _ _ => .behind before) (hn ▸ Operand.following_consumed_le ..)
            hsame hbehind
        · rw [hend, List.drop_length] at hrest
          obtain ⟨rfl, rfl⟩ := hrest.nil_inv
          by_cases hopen : Operand.staysOpen marked node rest = true
          · obtain rfl : run = S.factor name := by
              rw [((Operand.staysOpen_iff (S := S) name).1 hopen).2] at hscan
              exact (Prod.mk.inj hscan).1.symm
            obtain ⟨body', last, hbody', hinside⟩ := ih _ (Nat.lt_succ_self _) hbody rfl
            obtain ⟨es₁', hnode', hes₁'⟩ := hanother body' last hbody'
            have hruns : openRuns (node :: rest) = openRuns rest + 1 := by
              rw [openRuns, hmarked]
              simp only [if_pos hopen]
            refine ⟨_, last, hnode'.cons_all, ?_⟩
            rw [hruns, instructions_cons, instructions_cons, hes₁, hes₁', Emission.instructions_nil,
              List.append_nil, List.append_nil]
            exact (hinside.enclosing opening).behind _
          · obtain rfl : run = [S.atom .closing] := by
              rw [Operand.scan_factor] at hscan
              split at hscan
              · exact absurd (Prod.mk.inj hscan).1.symm hrun
              · split at hscan
                · exact (Prod.mk.inj hscan).1.symm
                · next hnot hnot' =>
                  refine absurd ((Operand.staysOpen_iff (S := S) name).2 ⟨hall, ?_⟩) hopen
                  rw [Operand.scan_factor, if_neg hnot, if_neg hnot']
            have hruns : openRuns (node :: rest) = 0 := by
              rw [openRuns, hmarked]
              simp only [if_neg hopen, ← hn, hend, List.drop_length, openRuns]
            obtain ⟨body', last, hbody', hinside⟩ := hbody.append_closing S hs
            obtain ⟨es₁', hnode', hes₁'⟩ := hanother body' last hbody'
            rw [hinside] at hes₁'
            rw [hruns]
            exact closing_in_run S (hs name) hnode' hes₁' hes₁

end Unresolved

end Formulary
