import Mathlib.Data.List.Basic
import Mathlib.Order.Bounds.Basic
import Formulary.Proofs.OpenRuns
import Formulary.Proofs.Operands

/-!
# Where operand runs end

What an operand is, told without the scan that finds it. A run that starts with a parenthesis ends
with its partner; any other run is the longest beginning of the nodes in which nothing outside
parentheses ends it. There is one operand of this kind, and it is the one that is found.
-/

namespace Formulary.Operand

variable {marked parenthesized leading : Bool} {depth : Nat} {node : Node} {nodes rest : List Node}

/-! ## What ends a scan -/

/-- A scan that has come to these nodes at this depth ends before them. -/
def Stops (marked parenthesized leading : Bool) (depth : Nat) (nodes : List Node) : Prop :=
  depth = 0 ∧
    ((marked = true ∧ ∃ v, differential? nodes = some v) ∨
      (leading = false ∧ (parenthesized = true ∨ nodes.head?.any Node.isAdditive = true)))

/-- The variable behind a `d` that a scan ends before. -/
def marked? (marked : Bool) (depth : Nat) (nodes : List Node) : Option String :=
  if marked && depth == 0 then differential? nodes else none

theorem scan_of_stops (h : Stops marked parenthesized leading depth (node :: rest)) :
    scan marked parenthesized leading depth (node :: rest) =
      ([], marked? marked depth (node :: rest)) := by
  obtain ⟨rfl, hstops⟩ := h
  rw [scan, marked?]
  cases hdifferential : if marked && 0 == 0 then differential? (node :: rest) else none with
  | some v => rfl
  | none =>
    have hplain : leading = false ∧ (parenthesized = true ∨ node.isAdditive = true) := by
      rcases hstops with ⟨rfl, v, hv⟩ | hplain
      · exact absurd (hdifferential.symm.trans hv) (by simp)
      · exact hplain
    simp [hplain.1, hplain.2]

theorem scan_of_not_stops (h : ¬Stops marked parenthesized leading depth (node :: rest)) :
    scan marked parenthesized leading depth (node :: rest) =
      (node :: (scan marked parenthesized false (depthAfter node depth) rest).1,
        (scan marked parenthesized false (depthAfter node depth) rest).2) := by
  rw [scan]
  cases hdifferential : if marked && depth == 0 then differential? (node :: rest) else none with
  | some v =>
    obtain ⟨hmarked, hv⟩ := Option.ite_none_right_eq_some.1 hdifferential
    rw [Bool.and_eq_true, beq_iff_eq] at hmarked
    exact absurd ⟨hmarked.2, .inl ⟨hmarked.1, v, hv⟩⟩ h
  | none =>
    have hgoes : (depth == 0 && !leading && (parenthesized || node.isAdditive)) = false := by
      rw [Bool.eq_false_iff]
      intro hends
      simp only [Bool.and_eq_true, Bool.or_eq_true, beq_iff_eq, Bool.not_eq_true'] at hends
      exact h ⟨hends.1.1, .inr ⟨hends.1.2, hends.2⟩⟩
    simp [hgoes]

/-- A scan ends before the first of the nodes that stops it, or with the last of them. -/
theorem scan_split (marked parenthesized leading : Bool) (depth : Nat) (nodes : List Node) :
    ∃ run behind, nodes = run ++ behind ∧
      scan marked parenthesized leading depth nodes =
        (run, marked? marked (depthAtEnd depth run) behind) ∧
      (∀ before node after, run = before ++ node :: after →
        ¬Stops marked parenthesized (leading && before.isEmpty) (depthAtEnd depth before)
          (node :: (after ++ behind))) ∧
      (behind ≠ [] →
        Stops marked parenthesized (leading && run.isEmpty) (depthAtEnd depth run) behind) := by
  induction nodes generalizing leading depth with
  | nil =>
    refine ⟨[], [], rfl, ?_, ?_, fun h => absurd rfl h⟩
    · simp [scan, marked?, differential?]
    · intro before node after h
      simp at h
  | cons node rest ih =>
    by_cases hstops : Stops marked parenthesized leading depth (node :: rest)
    · refine ⟨[], node :: rest, rfl, scan_of_stops hstops, ?_, ?_⟩
      · intro before node' after h
        simp at h
      · intro _
        simpa [depthAtEnd] using hstops
    · obtain ⟨run, behind, rfl, hscan, hinside, hend⟩ :=
        ih false (depthAfter node depth)
      refine ⟨node :: run, behind, rfl, ?_, ?_, ?_⟩
      · rw [scan_of_not_stops hstops, hscan]
        rfl
      · intro before node' after h
        cases before with
        | nil =>
          obtain ⟨rfl, rfl⟩ := List.cons.inj h
          simpa [depthAtEnd] using hstops
        | cons first before =>
          obtain ⟨rfl, rfl⟩ := List.cons.inj h
          simpa [depthAtEnd] using hinside before node' after rfl
      · intro hbehind
        simpa [depthAtEnd] using hend hbehind

/-! ## Parentheses and their partners -/

/-- The parenthesis at the head is closed by the last of the nodes: between them as many are closed
as opened, and nowhere more. -/
def IsMatched (nodes : List Node) : Prop :=
  ∃ opening inside closing, nodes = opening :: (inside ++ [closing]) ∧
    opening.isOpen = true ∧ closing.isClose = true ∧
    inside.countP Node.isClose = inside.countP Node.isOpen ∧
    ∀ part, part <+: inside → part.countP Node.isClose ≤ part.countP Node.isOpen

theorem depthAtEnd_cons (depth : Nat) (node : Node) (rest : List Node) :
    depthAtEnd depth (node :: rest) = depthAtEnd (depthAfter node depth) rest := rfl

theorem depthAtEnd_concat (depth : Nat) (nodes : List Node) (node : Node) :
    depthAtEnd depth (nodes ++ [node]) = depthAfter node (depthAtEnd depth nodes) := by
  simp [depthAtEnd]

/-- A depth that is never below zero anyway is what is open and not closed. -/
theorem depthAtEnd_add_closed
    (h : ∀ part, part <+: nodes → part ≠ nodes → depthAtEnd depth part ≠ 0) :
    depthAtEnd depth nodes + nodes.countP Node.isClose = depth + nodes.countP Node.isOpen := by
  induction nodes generalizing depth with
  | nil => rfl
  | cons node rest ih =>
    have hpos : depth ≠ 0 := h [] List.nil_prefix (by simp)
    have hrest := @ih (depthAfter node depth) fun part hpart hne =>
      h (node :: part) (List.cons_prefix_cons.2 ⟨rfl, hpart⟩) (by simpa using hne)
    have hnode : depthAfter node depth + (if node.isClose then 1 else 0) =
        depth + if node.isOpen then 1 else 0 := by
      have hboth : node.isClose = true → node.isOpen = false := Node.isOpen_of_isClose
      unfold depthAfter
      cases hopen : node.isOpen <;> cases hclose : node.isClose <;> simp_all
      omega
    rw [List.countP_cons, List.countP_cons, depthAtEnd_cons]
    omega

/-- What is open and not closed is never more than the depth. -/
theorem opened_le_depthAtEnd (depth : Nat) (nodes : List Node) :
    depth + nodes.countP Node.isOpen ≤ depthAtEnd depth nodes + nodes.countP Node.isClose := by
  induction nodes generalizing depth with
  | nil => exact Nat.le_refl _
  | cons node rest ih =>
    have hrest := ih (depthAfter node depth)
    have hnode : depth + (if node.isOpen then 1 else 0) ≤
        depthAfter node depth + if node.isClose then 1 else 0 := by
      unfold depthAfter
      split
      · omega
      · split <;> omega
    rw [List.countP_cons, List.countP_cons, depthAtEnd_cons]
    omega

/-- Nodes close no more than they open where one parenthesis around them stays open. -/
theorem countP_le_iff_depthAtEnd :
    (∀ part, part <+: nodes → part.countP Node.isClose ≤ part.countP Node.isOpen) ↔
      ∀ part, part <+: nodes → depthAtEnd 1 part ≠ 0 := by
  constructor
  · intro h part hpart
    have hle := opened_le_depthAtEnd 1 part
    have hcounts := h part hpart
    omega
  · intro h part hpart
    have hpos := h part hpart
    have hsum := depthAtEnd_add_closed fun part' hpart' _ => h part' (hpart'.trans hpart)
    omega

theorem IsMatched.depthAtEnd (h : IsMatched nodes) :
    nodes.head?.any Node.isOpen = true ∧ depthAtEnd 0 nodes = 0 ∧
      ∀ part, part <+: nodes → part ≠ [] → part ≠ nodes → depthAtEnd 0 part ≠ 0 := by
  obtain ⟨opening, inside, closing, rfl, hopening, hclosing, hcount, hinside⟩ := h
  have hpos := countP_le_iff_depthAtEnd.1 hinside
  have hstart : depthAfter opening 0 = 1 := depthAfter_open hopening 0
  have hend : Operand.depthAtEnd 1 inside = 1 := by
    have hsum := depthAtEnd_add_closed fun part hpart _ => hpos part hpart
    omega
  refine ⟨hopening, ?_, ?_⟩
  · rw [depthAtEnd_cons, hstart, depthAtEnd_concat, hend, depthAfter_close hclosing]
  · intro part hpart hempty hne
    cases part with
    | nil => exact absurd rfl hempty
    | cons first part =>
      obtain ⟨rfl, hrest⟩ := List.cons_prefix_cons.1 hpart
      rw [depthAtEnd_cons, hstart]
      rcases List.prefix_concat_iff.1 hrest with heq | hrest
      · exact absurd (congrArg (first :: ·) heq) hne
      · exact hpos part hrest

/-- The parenthesis at the head is matched where the depth first is zero again. -/
theorem isMatched_of_depthAtEnd {opening : Node} (hopening : opening.isOpen = true)
    (hend : depthAtEnd 0 (opening :: rest) = 0)
    (hpos : ∀ part, part <+: rest → part ≠ rest → depthAtEnd 0 (opening :: part) ≠ 0) :
    IsMatched (opening :: rest) := by
  have hstart : depthAfter opening 0 = 1 := depthAfter_open hopening 0
  simp only [depthAtEnd_cons, hstart] at hend hpos
  rcases List.eq_nil_or_concat' rest with rfl | ⟨inside, closing, rfl⟩
  · cases hend
  · have hinside : ∀ part, part <+: inside → depthAtEnd 1 part ≠ 0 := by
      intro part hpart
      apply hpos part (hpart.trans (List.prefix_append ..))
      rintro rfl
      have hlength := hpart.length_le
      rw [List.length_append, List.length_singleton] at hlength
      omega
    have hlast := hinside inside List.prefix_rfl
    rw [depthAtEnd_concat] at hend
    -- Only a closing node leads down to zero, and only from one.
    have hclosing : closing.isClose = true ∧ depthAtEnd 1 inside = 1 := by
      unfold depthAfter at hend
      split at hend
      · omega
      · split at hend
        · next hclose => exact ⟨hclose, by omega⟩
        · omega
    have hsum := depthAtEnd_add_closed fun part hpart _ => hinside part hpart
    exact ⟨opening, inside, closing, rfl, hopening, hclosing.1, by omega,
      countP_le_iff_depthAtEnd.2 hinside⟩

/-- The partner of a parenthesis is in one place only. -/
theorem IsMatched.eq_of_isPrefix {run run' : List Node} (h : IsMatched run) (h' : IsMatched run')
    (hle : run <+: run') : run = run' := by
  by_contra hne
  obtain ⟨hopening, hend, -⟩ := h.depthAtEnd
  have hempty : run ≠ [] := by
    rintro rfl
    cases hopening
  exact h'.depthAtEnd.2.2 run hle hempty hne hend

/-! ## The operand of an anchor -/

/-- Among the first `n` of the nodes, no additive atom but the first node stands outside
parentheses, and where a differential is looked for, none starts outside parentheses. -/
def Uninterrupted (marked : Bool) (nodes : List Node) (n : Nat) : Prop :=
  ∀ before node after, nodes = before ++ node :: after → before.length < n →
    depthAtEnd 0 before = 0 →
      (before ≠ [] → node.isAdditive = false) ∧
        (marked = true → ∀ v, ¬[.var "d", .var v] <+: node :: after)

/-- What the operand of the node in front of `rest` is. -/
structure IsOperandOf (marked : Bool) (rest : List Node) (o : Operand) : Prop where
  isPrefix : o.nodes <+: rest
  consumed_eq : o.consumed = o.nodes.length + if o.differential.isSome then 2 else 0
  /-- A run that starts with a parenthesis ends with its partner, or is all there is. -/
  of_isOpen : rest.head?.any Node.isOpen = true →
    IsMatched o.nodes ∨ o.nodes = rest ∧ ∀ part, part <+: rest → ¬IsMatched part
  /-- Any other run is as long as it can be. -/
  of_not_isOpen : rest.head?.any Node.isOpen = false →
    IsGreatest {n | n ≤ rest.length ∧ Uninterrupted marked rest n} o.nodes.length
  differential_eq_some : ∀ v, o.differential = some v ↔
    marked = true ∧ depthAtEnd 0 o.nodes = 0 ∧ o.nodes ++ [.var "d", .var v] <+: rest

theorem differential?_eq_some_iff {v : String} :
    differential? nodes = some v ↔ [.var "d", .var v] <+: nodes := by
  constructor
  · intro h
    obtain ⟨rest, rfl⟩ := eq_of_differential? h
    exact ⟨rest, rfl⟩
  · rintro ⟨rest, rfl⟩
    rfl

theorem marked?_eq_some_iff {v : String} :
    marked? marked depth nodes = some v ↔
      marked = true ∧ depth = 0 ∧ [.var "d", .var v] <+: nodes := by
  rw [marked?, Option.ite_none_right_eq_some, differential?_eq_some_iff, Bool.and_eq_true,
    beq_iff_eq, and_assoc]

/-- Where a scan does not stop, an uninterrupted run goes on. -/
theorem not_stops_iff :
    ¬Stops marked false leading depth (node :: rest) ↔
      (depth = 0 → (leading = false → node.isAdditive = false) ∧
        (marked = true → ∀ v, ¬[.var "d", .var v] <+: node :: rest)) := by
  simp only [Stops, differential?_eq_some_iff, List.head?_cons, Option.any_some, Bool.false_eq_true,
    false_or, not_and, not_or, not_exists, Bool.not_eq_true]
  constructor
  · intro h hdepth
    exact ⟨fun hleading => (h hdepth).2 hleading, fun hmarked => (h hdepth).1 hmarked⟩
  · intro h hdepth
    exact ⟨fun hmarked => (h hdepth).2 hmarked, fun hleading => (h hdepth).1 hleading⟩

/-- A run that does not start with a parenthesis is as long as it can be. -/
theorem isGreatest_scan (marked : Bool) (rest : List Node) :
    IsGreatest {n | n ≤ rest.length ∧ Uninterrupted marked rest n}
      (scan marked false true 0 rest).1.length := by
  obtain ⟨run, behind, rfl, hscan, hinside, hend⟩ := scan_split marked false true 0 rest
  have hleading : ∀ before : List Node, (true && before.isEmpty) = false ↔ before ≠ [] := by
    intro before
    cases before <;> simp
  rw [hscan]
  constructor
  · refine ⟨by simp, ?_⟩
    intro before node after heq hlt hdepth
    change before.length < run.length at hlt
    rcases List.append_eq_append_iff.1 heq with ⟨as, rfl, -⟩ | ⟨as, rfl, has⟩
    · rw [List.length_append] at hlt
      omega
    · cases as with
      | nil =>
        rw [List.append_nil] at hlt
        omega
      | cons first as =>
        obtain ⟨rfl, rfl⟩ := List.cons.inj has
        have hgoes := not_stops_iff.1 (hinside before node as rfl) hdepth
        rwa [hleading] at hgoes
  · rintro n ⟨hle, hn⟩
    by_contra hlt
    cases behind with
    | nil =>
      rw [List.append_nil] at hle
      exact hlt hle
    | cons node after =>
      refine absurd (hend (List.cons_ne_nil _ _)) (not_stops_iff.2 fun hdepth => ?_)
      rw [hleading]
      exact hn run node after rfl (Nat.lt_of_not_le hlt) hdepth

/-- A run that starts with a parenthesis ends with its partner, or is all there is. -/
theorem isMatched_scan (marked : Bool) {rest : List Node}
    (hopen : rest.head?.any Node.isOpen = true) :
    IsMatched (scan marked true true 0 rest).1 ∨
      (scan marked true true 0 rest).1 = rest ∧ ∀ part, part <+: rest → ¬IsMatched part := by
  obtain ⟨run, behind, rfl, hscan, hinside, hend⟩ := scan_split marked true true 0 rest
  rw [hscan]
  cases run with
  | nil =>
    cases behind with
    | nil => cases hopen
    | cons opening after =>
      -- The parenthesis at the head stops nothing.
      have hopening : opening.isOpen = true := hopen
      obtain ⟨-, ⟨-, v, hv⟩ | ⟨hleading, -⟩⟩ := hend (List.cons_ne_nil _ _)
      · obtain ⟨_, heq⟩ := eq_of_differential? hv
        obtain ⟨rfl, -⟩ := List.cons.inj heq
        cases hopening
      · cases hleading
  | cons opening run =>
    have hopening : opening.isOpen = true := hopen
    have hpos : ∀ part, part <+: run → part ≠ run → depthAtEnd 0 (opening :: part) ≠ 0 := by
      rintro part ⟨as, rfl⟩ hne hzero
      cases as with
      | nil => exact hne (List.append_nil _).symm
      | cons node as =>
        exact hinside (opening :: part) node as rfl ⟨hzero, .inr ⟨rfl, .inl rfl⟩⟩
    by_cases hzero : depthAtEnd 0 (opening :: run) = 0
    · exact .inl (isMatched_of_depthAtEnd hopening hzero hpos)
    · right
      have hbehind : behind = [] := by
        by_contra hne
        exact hzero (hend hne).1
      rw [hbehind, List.append_nil]
      refine ⟨rfl, ?_⟩
      intro part hpart hmatched
      obtain ⟨hhead, hend', -⟩ := hmatched.depthAtEnd
      cases part with
      | nil => cases hhead
      | cons first part =>
        obtain ⟨rfl, hrest⟩ := List.cons_prefix_cons.1 hpart
        by_cases heq : part = run
        · exact hzero (heq ▸ hend')
        · exact hpos part hrest heq hend'

theorem isOperandOf_following (marked : Bool) (anchored : List Node) :
    IsOperandOf marked anchored.tail (following marked anchored) where
  isPrefix := following_isPrefix marked anchored
  consumed_eq := rfl
  of_isOpen hopen := by
    simp only [following, hopen]
    exact isMatched_scan marked hopen
  of_not_isOpen hopen := by
    simp only [following, hopen]
    exact isGreatest_scan marked anchored.tail
  differential_eq_some v := by
    obtain ⟨run, behind, hrest, hscan, -, -⟩ :=
      scan_split marked (anchored.tail.head?.any Node.isOpen) true 0 anchored.tail
    simp only [following, hscan, marked?_eq_some_iff]
    rw [hrest, List.prefix_append_right_inj]

/-- The nodes in front of others have one operand only. -/
theorem IsOperandOf.unique {o o' : Operand} (h : IsOperandOf marked rest o)
    (h' : IsOperandOf marked rest o') : o = o' := by
  have hnodes : o.nodes = o'.nodes := by
    cases hopen : rest.head?.any Node.isOpen with
    | true =>
      rcases h.of_isOpen hopen with hmatched | ⟨hall, hnone⟩
      · rcases h'.of_isOpen hopen with hmatched' | ⟨-, hnone'⟩
        · rcases List.prefix_or_prefix_of_prefix h.isPrefix h'.isPrefix with hle | hle
          · exact hmatched.eq_of_isPrefix hmatched' hle
          · exact (hmatched'.eq_of_isPrefix hmatched hle).symm
        · exact absurd hmatched (hnone' _ h.isPrefix)
      · rcases h'.of_isOpen hopen with hmatched' | ⟨hall', -⟩
        · exact absurd hmatched' (hnone _ h'.isPrefix)
        · rw [hall, hall']
    | false =>
      have hlength := (h.of_not_isOpen hopen).unique (h'.of_not_isOpen hopen)
      rw [List.prefix_iff_eq_take.1 h.isPrefix, List.prefix_iff_eq_take.1 h'.isPrefix, hlength]
  have hdifferential : o.differential = o'.differential := by
    ext v
    rw [h.differential_eq_some, h'.differential_eq_some, hnodes]
  have hconsumed : o.consumed = o'.consumed := by
    rw [h.consumed_eq, h'.consumed_eq, hnodes, hdifferential]
  cases o
  cases o'
  simp_all

/-- The operand of the node at `anchor` is the one operand there is in front of what follows, and
the walk stays inside the nodes behind it. -/
theorem eq_following_iff (marked : Bool) (nodes : List Node) (anchor : Nat) (o : Operand) :
    o = following marked (nodes.drop anchor) ↔
      IsOperandOf marked (nodes.drop (anchor + 1)) o ∧
        (anchor < nodes.length → anchor + o.consumed < nodes.length) := by
  have hoperand : IsOperandOf marked (nodes.drop (anchor + 1))
      (following marked (nodes.drop anchor)) := by
    have htail := isOperandOf_following marked (nodes.drop anchor)
    rwa [List.tail_drop] at htail
  constructor
  · rintro rfl
    refine ⟨hoperand, ?_⟩
    intro hlt
    have hle := following_consumed_le marked nodes[anchor] (nodes.drop (anchor + 1))
    rw [← List.drop_eq_getElem_cons hlt, List.length_drop] at hle
    omega
  · rintro ⟨h, -⟩
    exact h.unique hoperand

end Formulary.Operand
