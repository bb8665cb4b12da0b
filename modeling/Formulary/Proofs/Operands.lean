import Formulary.Node.Operand

/-!
# What an anchor takes

The nodes that belong to an anchor are its operand and what marks the end of it: the two variables
of a differential, or a bar.
-/

namespace Formulary

theorem Node.eq_bar {node : Node} (h : node.isBar = true) : node = .literal bar := by
  cases node with
  | literal text =>
    have htext : text = bar := by simpa [isBar] using h
    rw [htext]
  | _ => cases h

theorem Node.isOpen_of_isClose {node : Node} (h : node.isClose = true) : node.isOpen = false := by
  rw [isClose, beq_iff_eq] at h
  simp [isOpen, h]

namespace Operand

theorem depthAfter_open {node : Node} (h : node.isOpen = true) (depth : Nat) :
    depthAfter node depth = depth + 1 := by
  rw [depthAfter, if_pos h]

theorem depthAfter_close {node : Node} (h : node.isClose = true) (depth : Nat) :
    depthAfter node depth = depth - 1 := by
  rw [depthAfter, Node.isOpen_of_isClose h, if_neg Bool.false_ne_true, if_pos h]

theorem depthAfter_other {node : Node} (hopen : node.isOpen = false) (hclose : node.isClose = false)
    (depth : Nat) : depthAfter node depth = depth := by
  rw [depthAfter, hopen, hclose]
  rfl

theorem depthAfter_bar {node : Node} (h : node.isBar = true) (depth : Nat) :
    depthAfter node depth = depth := by
  rw [Node.eq_bar h]
  rfl

/-- What ends the operand and belongs to it. -/
def marker (o : Operand) : List Node :=
  match o.differential with
  | some v => [.var "d", .var v]
  | none => []

theorem eq_of_differential? {nodes : List Node} {v : String} (h : differential? nodes = some v) :
    ∃ rest, nodes = .var "d" :: .var v :: rest := by
  unfold differential? at h
  split at h
  · next d w rest =>
    split at h
    · next hd =>
      obtain rfl := Option.some.inj h
      exact ⟨rest, by rw [hd]⟩
    · cases h
  · cases h

/-- A scan that ends at a differential has that behind it. -/
theorem drop_scan {marked parenthesized leading : Bool} {depth : Nat} {nodes run : List Node}
    {v : String} (h : scan marked parenthesized leading depth nodes = (run, some v)) :
    ∃ rest, nodes.drop run.length = .var "d" :: .var v :: rest := by
  fun_induction scan generalizing run with
  | case1 => cases h
  | case2 leading depth node rest v' hmarked =>
    obtain ⟨rfl, rfl⟩ : [] = run ∧ v' = v := by simpa using h
    have hdifferential : differential? (node :: rest) = some v' := by
      split at hmarked
      · exact hmarked
      · cases hmarked
    exact eq_of_differential? hdifferential
  | case3 => cases h
  | case4 leading depth node rest _ _ run' v' hrun ih =>
    obtain ⟨rfl, rfl⟩ : node :: run' = run ∧ v' = some v := by simpa using h
    exact ih hrun

/-- The nodes that belong to an anchor are its operand and the differential that ends it. -/
theorem take_following (marked : Bool) (anchor : Node) (rest : List Node) :
    rest.take (following marked (anchor :: rest)).consumed =
      (following marked (anchor :: rest)).nodes ++ (following marked (anchor :: rest)).marker := by
  have hprefix := scan_isPrefix marked (rest.head?.any Node.isOpen) true 0 rest
  cases hscan : scan marked (rest.head?.any Node.isOpen) true 0 rest with
  | mk run differential =>
    have hoperand : following marked (anchor :: rest) =
        ⟨run, run.length + if differential.isSome then 2 else 0, differential⟩ := by
      simp only [following, List.tail_cons, hscan]
    rw [hscan] at hprefix
    have htake : rest.take run.length = run := (List.prefix_iff_eq_take.1 hprefix).symm
    rw [hoperand]
    cases differential with
    | none => simpa [marker] using htake
    | some v =>
      obtain ⟨behind, hbehind⟩ := drop_scan hscan
      simp only [Option.isSome_some, if_true, marker]
      rw [List.take_add, htake, hbehind]
      rfl

/-- The nodes behind an anchor are its operand, what ends it, and the rest. -/
theorem split_following (marked : Bool) (anchor : Node) (rest : List Node) :
    rest = (following marked (anchor :: rest)).nodes ++ (following marked (anchor :: rest)).marker ++
      rest.drop (following marked (anchor :: rest)).consumed := by
  rw [← take_following, List.take_append_drop]

theorem scan_unmarked (parenthesized leading : Bool) (depth : Nat) (nodes : List Node) :
    (scan false parenthesized leading depth nodes).2 = none := by
  fun_induction scan false parenthesized leading depth nodes with
  | case1 => rfl
  | case2 _ _ _ _ _ hmarked => simp at hmarked
  | case3 => rfl
  | case4 _ _ _ _ _ _ _ _ hrun ih =>
    rw [hrun] at ih
    exact ih

/-- Only an integral looks for a differential. -/
theorem marker_unmarked (anchored : List Node) : (following false anchored).marker = [] := by
  have hnone : (following false anchored).differential = none := scan_unmarked ..
  rw [marker, hnone]

theorem take_unmarked (anchor : Node) (rest : List Node) :
    rest.take (following false (anchor :: rest)).consumed =
      (following false (anchor :: rest)).nodes := by
  rw [take_following, marker_unmarked, List.append_nil]

theorem split_unmarked (anchor : Node) (rest : List Node) :
    rest = (following false (anchor :: rest)).nodes ++
      rest.drop (following false (anchor :: rest)).consumed := by
  rw [← take_unmarked, List.take_append_drop]

/-- The nodes that belong to a bar are those up to the next bar, and that bar. -/
theorem take_absolute {anchor : Node} {rest : List Node} (h : isClosed (anchor :: rest) = true) :
    rest.take (absolute (anchor :: rest)).consumed =
      (absolute (anchor :: rest)).nodes ++ [Node.literal Node.bar] := by
  simp only [isClosed, absolute, List.tail_cons] at h ⊢
  induction rest with
  | nil => cases h
  | cons node rest ih =>
    cases hnode : node.isBar with
    | true =>
      rw [List.takeWhile_cons_of_neg (by simp [hnode]), Node.eq_bar hnode]
      rfl
    | false =>
      rw [List.any_cons, hnode, Bool.false_or] at h
      rw [List.takeWhile_cons_of_pos (by simp [hnode])]
      exact congrArg (node :: ·) (ih h)

theorem split_absolute {anchor : Node} {rest : List Node}
    (h : isClosed (anchor :: rest) = true) :
    rest = (absolute (anchor :: rest)).nodes ++
      .literal Node.bar :: rest.drop (absolute (anchor :: rest)).consumed := by
  rw [List.append_cons, ← take_absolute h, List.take_append_drop]

/-- A parenthesized operand is what is in it, between its two parentheses. -/
theorem nodes_of_isParenthesized {o : Operand} (h : o.isParenthesized = true) :
    ∃ opening closing, opening.isOpen = true ∧ closing.isClose = true ∧
      o.nodes = opening :: (o.inner ++ [closing]) := by
  have hinner : o.inner = o.nodes.tail.dropLast := by rw [inner, if_pos h]
  unfold isParenthesized at h
  split at h
  · next opening second rest hnodes =>
    obtain ⟨hopening, hlast⟩ := Bool.and_eq_true_iff.1 h
    have hne : second :: rest ≠ [] := List.cons_ne_nil _ _
    rw [List.getLast?_eq_some_getLast hne, Option.any_some] at hlast
    refine ⟨opening, (second :: rest).getLast hne, hopening, hlast, ?_⟩
    rw [hinner, hnodes, List.tail_cons, List.dropLast_concat_getLast hne]
  · cases h

end Operand

end Formulary
