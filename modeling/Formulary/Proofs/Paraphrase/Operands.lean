import Formulary.Proofs.Operands
import Formulary.Proofs.Paraphrase.Names
import Formulary.Proofs.Paraphrase.Nodes

/-!
# Operands in other words

An anchor takes the same nodes from those behind it when these are put in other words: a run ends
at marks, at bars and at a differential, and none of them is a piece of a number.
-/

namespace Formulary.Paraphrase

open Operand

variable {p : Paraphrase} {node node' : Node} {nodes nodes' rest rest' : List Node}

/-! ## Where a run ends -/

theorem name_eq_d {name : String} : p.name name = "d" ↔ name = "d" :=
  ⟨fun h => p.name_injective (h.trans p.name_d.symm), fun h => h ▸ p.name_d⟩

theorem depthAfter_eq (h : node.SameOutline node') (depth : Nat) :
    depthAfter node' depth = depthAfter node depth := by
  rw [depthAfter, depthAfter, h.isOpen, h.isClose]

theorem differential?_eq (h : p.RelatesAll nodes nodes') :
    differential? nodes' = (differential? nodes).map p.name := by
  cases h with
  | nil => rfl
  | split _ _ => rfl
  | cons hnode hrest =>
    cases hnode with
    | var name =>
      cases hrest with
      | nil => rfl
      | split _ _ => rfl
      | cons hnext _ =>
        cases hnext with
        | var v =>
          simp only [differential?, name_eq_d]
          split <;> rfl
        | _ => rfl
    | _ => rfl

/-- Two scans end at the same place. -/
structure SameCut (p : Paraphrase) (nodes nodes' : List Node)
    (cut cut' : List Node × Option String) : Prop where
  run : p.RelatesAll cut.1 cut'.1
  behind : p.RelatesAll (nodes.drop cut.1.length) (nodes'.drop cut'.1.length)
  differential : cut'.2 = cut.2.map p.name

section Scan

variable {marked parenthesized leading : Bool}

theorem scan_cons (depth : Nat) (node : Node) (rest : List Node) :
    scan marked parenthesized leading depth (node :: rest) =
      match if marked && depth == 0 then differential? (node :: rest) else none with
      | some v => ([], some v)
      | none =>
        if depth == 0 && !leading && (parenthesized || node.isAdditive) then ([], none)
        else (node :: (scan marked parenthesized false (depthAfter node depth) rest).1,
          (scan marked parenthesized false (depthAfter node depth) rest).2) :=
  rfl

/-- A piece of a number ends a run only behind parentheses. -/
theorem scan_literal (depth : Nat) (text : String) (rest : List Node) :
    scan marked parenthesized leading depth (.literal text :: rest) =
      if depth == 0 && !leading && parenthesized then ([], none)
      else (.literal text :: (scan marked parenthesized false depth rest).1,
        (scan marked parenthesized false depth rest).2) := by
  have hdifferential : differential? (.literal text :: rest) = none := rfl
  have hdepth : depthAfter (.literal text) depth = depth := rfl
  have hadditive : (Node.literal text).isAdditive = false := rfl
  rw [scan_cons, hdifferential, hdepth, hadditive, Bool.or_false, ite_self]

theorem scan_related (h : p.RelatesAll nodes nodes') (depth : Nat)
    (hleading : leading = true → parenthesized = true → nodes.head?.any Node.isOpen = true) :
    p.SameCut nodes nodes' (scan marked parenthesized leading depth nodes)
      (scan marked parenthesized leading depth nodes') := by
  induction nodes generalizing leading depth nodes' with
  | nil =>
    cases h
    exact ⟨.nil, .nil, rfl⟩
  | cons node rest ih =>
    have hbehind : ∀ {rest' : List Node} (depth : Nat), p.RelatesAll rest rest' →
        p.SameCut rest rest' (scan marked parenthesized false depth rest)
          (scan marked parenthesized false depth rest') :=
      fun depth hrest => ih hrest depth (by simp)
    cases h with
    | @cons _ node' _ rest' hnode hrest =>
      have hmarked : (if marked && depth == 0 then differential? (node' :: rest') else none) =
          (if marked && depth == 0 then differential? (node :: rest) else none).map p.name := by
        rw [differential?_eq (.cons hnode hrest)]
        split <;> rfl
      rw [scan_cons, scan_cons, hmarked, hnode.outline.isAdditive, depthAfter_eq hnode.outline]
      cases if marked && depth == 0 then differential? (node :: rest) else none with
      | some v => exact ⟨.nil, .cons hnode hrest, rfl⟩
      | none =>
        have hcut := hbehind (depthAfter node depth) hrest
        simp only [Option.map_none]
        split
        · exact ⟨.nil, .cons hnode hrest, rfl⟩
        · exact ⟨.cons hnode hcut.run, hcut.behind, hcut.differential⟩
    | @split first second _ rest' hsplit hrest =>
      have hcut := hbehind depth hrest
      rw [scan_literal, scan_literal, scan_literal]
      by_cases hends : (depth == 0 && !leading && parenthesized) = true
      · rw [if_pos hends, if_pos hends]
        exact ⟨.nil, .split hsplit hrest, rfl⟩
      · -- The second piece is not the first node, and so no run in parentheses begins before it.
        have hsecond : (depth == 0 && !false && parenthesized) ≠ true := by
          cases leading with
          | false => exact hends
          | true =>
            cases parenthesized with
            | false => simp
            | true => exact absurd (hleading rfl rfl) (by simp [Node.isOpen, Node.mark?])
        rw [if_neg hends, if_neg hends, if_neg hsecond]
        exact ⟨.split hsplit hcut.run, hcut.behind, hcut.differential⟩

end Scan

/-! ## Operands -/

/-- So many nodes are taken from those behind an anchor. -/
structure Takes (p : Paraphrase) (rest rest' : List Node) (consumed consumed' : Nat) : Prop where
  taken : p.RelatesAll (rest.take consumed) (rest'.take consumed')
  behind : p.RelatesAll (rest.drop consumed) (rest'.drop consumed')

theorem Takes.none (h : p.RelatesAll rest rest') : p.Takes rest rest' 0 0 := ⟨.nil, h⟩

/-- Two operands of the nodes behind an anchor. -/
structure SameOperand (p : Paraphrase) (rest rest' : List Node) (o o' : Operand) : Prop where
  nodes : p.RelatesAll o.nodes o'.nodes
  differential : o'.differential = o.differential.map p.name
  takes : p.Takes rest rest' o.consumed o'.consumed

/-- The operand of a run, and of the differential that ends it. -/
theorem SameCut.operand {marked parenthesized parenthesized' leading leading' : Bool}
    {depth depth' : Nat} {run run' : List Node} {differential differential' : Option String}
    (hscan : scan marked parenthesized leading depth rest = (run, differential))
    (hscan' : scan marked parenthesized' leading' depth' rest' = (run', differential'))
    (h : p.SameCut rest rest' (run, differential) (run', differential')) :
    p.SameOperand rest rest'
      ⟨run, run.length + if differential.isSome then 2 else 0, differential⟩
      ⟨run', run'.length + if differential'.isSome then 2 else 0, differential'⟩ := by
  obtain ⟨hrun, hbehind, hdifferential⟩ := h
  obtain rfl : differential' = differential.map p.name := hdifferential
  have htake : rest.take run.length = run := by
    have hprefix := scan_isPrefix marked parenthesized leading depth rest
    rw [hscan] at hprefix
    exact (List.prefix_iff_eq_take.1 hprefix).symm
  have htake' : rest'.take run'.length = run' := by
    have hprefix := scan_isPrefix marked parenthesized' leading' depth' rest'
    rw [hscan'] at hprefix
    exact (List.prefix_iff_eq_take.1 hprefix).symm
  cases differential with
  | none =>
    refine ⟨hrun, rfl, ?_, hbehind⟩
    simpa [htake, htake'] using hrun
  | some v =>
    obtain ⟨more, hmore⟩ := drop_scan hscan
    obtain ⟨more', hmore'⟩ := drop_scan hscan'
    simp only [hmore, hmore'] at hbehind
    obtain ⟨_, _, heq, hd, hbehind⟩ := hbehind.of_cons rfl
    obtain ⟨rfl, rfl⟩ := List.cons.inj heq
    obtain ⟨_, _, heq, hv, hbehind⟩ := hbehind.of_cons rfl
    obtain ⟨rfl, rfl⟩ := List.cons.inj heq
    simp only [Option.isSome_some, Option.isSome_map, if_true]
    refine ⟨hrun, rfl, ?_, ?_⟩
    · simp only [List.take_add, htake, htake', hmore, hmore']
      exact hrun.append (.cons hd (.cons hv .nil))
    · simp only [← List.drop_drop, hmore, hmore']
      exact hbehind

theorem following_related (marked : Bool) (anchor anchor' : Node) (h : p.RelatesAll rest rest') :
    p.SameOperand rest rest' (following marked (anchor :: rest))
      (following marked (anchor' :: rest')) := by
  have hopen : rest'.head?.any Node.isOpen = rest.head?.any Node.isOpen :=
    Node.SameOutline.any h.head fun _ _ => Node.SameOutline.isOpen
  have hcut : p.SameCut rest rest' (scan marked (rest.head?.any Node.isOpen) true 0 rest)
      (scan marked (rest'.head?.any Node.isOpen) true 0 rest') := by
    rw [hopen]
    exact scan_related h 0 fun _ hparenthesized => hparenthesized
  exact SameCut.operand rfl rfl hcut

theorem isClosed_eq (anchor anchor' : Node) (h : p.RelatesAll rest rest') :
    isClosed (anchor' :: rest') = isClosed (anchor :: rest) :=
  h.any fun _ _ hnode => hnode.isBar

theorem absolute_related (anchor anchor' : Node) (h : p.RelatesAll rest rest')
    (hclosed : isClosed (anchor :: rest) = true) :
    p.SameOperand rest rest' (absolute (anchor :: rest)) (absolute (anchor' :: rest')) := by
  have hends : ∀ node node' : Node, node.SameOutline node' → (!node'.isBar) = !node.isBar :=
    fun _ _ hnode => congrArg _ hnode.isBar
  have hbehind : ∀ (anchor : Node) (rest : List Node),
      rest.drop (absolute (anchor :: rest)).consumed =
        (rest.dropWhile fun node => !node.isBar).tail := by
    intro anchor rest
    have hdrop := @List.drop_length_add_append _ (rest.takeWhile fun node => !node.isBar)
      (rest.dropWhile fun node => !node.isBar) 1
    rw [List.takeWhile_append_dropWhile, List.drop_one] at hdrop
    exact hdrop
  have hnodes : p.RelatesAll (absolute (anchor :: rest)).nodes
      (absolute (anchor' :: rest')).nodes := h.takeWhile hends
  refine ⟨hnodes, rfl, ?_, ?_⟩
  · rw [take_absolute hclosed, take_absolute ((isClosed_eq anchor anchor' h).trans hclosed)]
    exact hnodes.append (.cons (.literal _) .nil)
  · rw [hbehind, hbehind]
    refine h.tail_dropWhile hends ?_
    intro node hnode
    cases node with
    | literal text => exact hnode
    | _ => rfl

/-! ## Arguments in parentheses -/

theorem isParenthesized_eq_ends (o : Operand) :
    o.isParenthesized = (o.nodes.head?.any Node.isOpen && o.nodes.getLast?.any Node.isClose) := by
  unfold isParenthesized
  split
  · next first second rest hnodes =>
    rw [hnodes, List.getLast?_cons_cons]
    rfl
  · next hnodes =>
    rcases hlist : o.nodes with _ | ⟨first, _ | ⟨second, rest⟩⟩
    · rfl
    · -- No atom is both an opening and a closing one.
      simp only [List.head?_cons, List.getLast?_singleton, Option.any_some, Node.isOpen,
        Node.isClose]
      cases first.mark? with
      | none => rfl
      | some mark => cases mark <;> rfl
    · exact absurd hlist (hnodes first second rest)

section Arguments

variable {o o' : Operand}

theorem isParenthesized_eq (h : p.RelatesAll o.nodes o'.nodes) :
    o'.isParenthesized = o.isParenthesized := by
  rw [isParenthesized_eq_ends, isParenthesized_eq_ends,
    Node.SameOutline.any h.head fun _ _ => Node.SameOutline.isOpen,
    Node.SameOutline.any h.last fun _ _ => Node.SameOutline.isClose]

theorem isNumeric_of_mark {mark : Mark} (h : node.mark? = some mark) : node.isNumeric = false := by
  cases node with
  | literal text => cases h
  | _ => rfl

theorem inner_related (h : p.RelatesAll o.nodes o'.nodes) : p.RelatesAll o.inner o'.inner := by
  cases hparens : o.isParenthesized with
  | false =>
    have hparens' := (isParenthesized_eq h).trans hparens
    simpa [Operand.inner, hparens, hparens'] using h
  | true =>
    obtain ⟨opening, closing, hopening, hclosing, hnodes⟩ := nodes_of_isParenthesized hparens
    obtain ⟨_, _, _, _, hnodes'⟩ :=
      nodes_of_isParenthesized ((isParenthesized_eq h).trans hparens)
    rw [hnodes, hnodes'] at h
    obtain ⟨_, _, heq, -, h⟩ := h.of_cons (isNumeric_of_mark (eq_of_beq hopening))
    obtain ⟨rfl, rfl⟩ := List.cons.inj heq
    obtain ⟨_, _, heq, h, -⟩ := h.of_concat (isNumeric_of_mark (eq_of_beq hclosing))
    obtain ⟨rfl, -⟩ := List.append_inj' heq rfl
    exact h

theorem go_eq (h : p.RelatesAll nodes nodes') (depth : Nat) :
    argumentCount.go depth nodes' = argumentCount.go depth nodes := by
  induction nodes generalizing nodes' depth with
  | nil =>
    cases h
    rfl
  | cons node rest ih =>
    cases h with
    | cons hnode hrest =>
      rw [argumentCount.go, argumentCount.go, depthAfter_eq hnode.outline, ih hrest,
        hnode.outline.isSeparator]
    | @split first second _ rest' hsplit hrest =>
      have hpiece : ∀ (text : String) (rest : List Node),
          argumentCount.go depth (.literal text :: rest) = argumentCount.go depth rest := by
        intro text rest
        have hseparator : (Node.literal text).isSeparator = false := rfl
        rw [argumentCount.go, hseparator, Bool.and_false]
        rfl
      rw [hpiece, hpiece, hpiece, ih hrest]

theorem argumentCount_eq (h : p.RelatesAll nodes nodes') :
    argumentCount nodes' = argumentCount nodes := by
  rw [argumentCount, argumentCount, h.isEmpty, go_eq h]

end Arguments

end Formulary.Paraphrase
