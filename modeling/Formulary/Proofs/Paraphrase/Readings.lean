import Formulary.Proofs.Links
import Formulary.Proofs.Paraphrase.Operands

/-!
# Readings in other words

What is read off nodes at once, and not node by node: limits, bases and exponents, and the two
sides of an equation. Pieces of a number are joined there too.
-/

namespace Formulary

def SumRange.rename (f : String → String) (r : SumRange) : SumRange :=
  ⟨f r.index, r.lower.rename f, r.upper.rename f⟩

theorem SumRange.names_rename (f : String → String) (r : SumRange) :
    (r.rename f).names = r.names.map f := by
  obtain ⟨index, lower, upper⟩ := r
  cases lower <;> cases upper <;> rfl

namespace Paraphrase

variable {p : Paraphrase} {node node' : Node} {nodes nodes' : List Node}

/-! ## Limits -/

theorem piecesText?_eq (h : p.RelatesAll nodes nodes') :
    Node.piecesText? nodes' = Node.piecesText? nodes := by
  induction nodes generalizing nodes' with
  | nil =>
    cases h
    rfl
  | cons node rest ih =>
    cases h with
    | cons hnode hrest =>
      cases hnode with
      | literal text => rw [Node.piecesText?, Node.piecesText?, ih hrest]
      | _ => rfl
    | split hsplit hrest =>
      obtain ⟨hfirst, hsecond, hboth⟩ := p.ne_bar_of_split hsplit
      simp only [Node.piecesText?, if_neg hfirst, if_neg hsecond, if_neg hboth, ih hrest,
        Option.map_map]
      congr 1
      funext text
      exact String.append_assoc.symm

theorem unsignedText?_eq (h : p.RelatesAll nodes nodes') :
    Node.unsignedText? nodes' = Node.unsignedText? nodes := by
  rw [Node.unsignedText?, Node.unsignedText?, h.isEmpty, piecesText?_eq h]

theorem signedText?_eq (h : p.RelatesAll nodes nodes') :
    Node.signedText? nodes' = Node.signedText? nodes := by
  cases h with
  | nil => rfl
  | cons hnode hrest =>
    rw [Node.signedText?, Node.signedText?, hnode.outline.isMinus, unsignedText?_eq hrest,
      unsignedText?_eq (.cons hnode hrest)]
  | split hsplit hrest => exact unsignedText?_eq (.split hsplit hrest)

theorem ungrouped_related (h : p.RelatesAll nodes nodes') :
    p.RelatesAll (Node.ungrouped nodes) (Node.ungrouped nodes') := by
  fun_induction Node.ungrouped nodes generalizing nodes' with
  | case1 body ih =>
    obtain ⟨_, _, rfl, hgroup, hrest⟩ := h.of_cons rfl
    cases hrest
    cases hgroup with
    | group hbody =>
      rw [Node.ungrouped]
      exact ih hbody
  | case2 nodes hnodes =>
    have hnodes' : ∀ body', nodes' = [.group body'] → False := by
      rintro body' rfl
      cases h with
      | cons hgroup hrest =>
        cases hrest
        cases hgroup
        exact hnodes _ rfl
    rw [Node.ungrouped]
    · exact h
    · exact hnodes'

/-- A limit that is a variable has its new name. -/
theorem bound?_eq (h : p.RelatesAll nodes nodes') :
    Node.bound? nodes' = (Node.bound? nodes).map (Bound.rename p.name) := by
  have h := ungrouped_related h
  unfold Node.bound?
  generalize Node.ungrouped nodes = nodes at h ⊢
  generalize Node.ungrouped nodes' = nodes' at h ⊢
  split
  · next name' =>
    cases h with
    | cons hvar hrest =>
      cases hrest
      cases hvar
      rfl
  · next hnodes' =>
    split
    · next name =>
      obtain ⟨_, _, rfl, hvar, hrest⟩ := h.of_cons rfl
      cases hrest
      cases hvar
      exact absurd rfl (hnodes' _)
    · rw [signedText?_eq h]
      cases Node.signedText? nodes with
      | none => rfl
      | some text => cases hvalue : Decimal.float? text <;> simp [hvalue, Bound.rename]

theorem fixed?_eq (h : p.RelatesAll nodes nodes') : Node.fixed? nodes' = Node.fixed? nodes := by
  rw [Node.fixed?, Node.fixed?, signedText?_eq (ungrouped_related h)]

section Limits

variable {lower lower' upper upper' : Option (List Node)}

theorem bind_bound?_eq (h : p.RelatesLimit upper upper') :
    upper'.bind Node.bound? = (upper.bind Node.bound?).map (Bound.rename p.name) := by
  cases h with
  | none => rfl
  | some h => exact bound?_eq h

theorem bind_fixed?_eq (h : p.RelatesLimit upper upper') :
    upper'.bind Node.fixed? = upper.bind Node.fixed? := by
  cases h with
  | none => rfl
  | some h => exact fixed?_eq h

theorem sumRange_eq (hlower : p.RelatesLimit lower lower') (hupper : p.RelatesLimit upper upper') :
    SumRange.ofLimits lower' upper' = (SumRange.ofLimits lower upper).map (·.rename p.name) := by
  have hbound := bind_bound?_eq hupper
  cases hlower with
  | none => rfl
  | some h =>
    cases h with
    | nil => rfl
    | split _ _ => rfl
    | cons hindex h =>
      cases hindex with
      | var index =>
        cases h with
        | nil => rfl
        | split _ _ => rfl
        | @cons equality _ first first' hequality hfirst =>
          simp only [SumRange.ofLimits, hequality.outline.isEquality, bound?_eq hfirst, hbound]
          split
          · cases Node.bound? first with
            | none => rfl
            | some lowest => cases upper.bind Node.bound? <;> rfl
          · rfl
      | _ => rfl

theorem partition_eq (partitions : Nat) (hlower : p.RelatesLimit lower lower')
    (hupper : p.RelatesLimit upper upper') :
    Partition.ofLimits partitions lower' upper' = Partition.ofLimits partitions lower upper := by
  rw [Partition.ofLimits, Partition.ofLimits, bind_fixed?_eq hlower, bind_fixed?_eq hupper]

end Limits

theorem simple_related (h : p.Relates node node') :
    p.RelatesAll (Walk.simple node) (Walk.simple node') := by
  cases h with
  | literal text =>
    rw [Walk.simple]
    split
    · exact .nil
    · exact .cons (.literal text) .nil
  | var name => exact .cons (.var name) .nil
  | group hbody => exact hbody
  | _ => exact .nil

/-! ## Signatures -/

theorem readParameters_eq (declared : List String) (h : p.RelatesAll nodes nodes') :
    (Binding.readParameters (declared.map p.name) nodes').toOption =
      (Binding.readParameters declared nodes).toOption.map (List.map p.name) := by
  have hcontains : ∀ (declared : List String) (parameter : String),
      (declared.map p.name).contains (p.name parameter) = declared.contains parameter := by
    intro declared parameter
    simp [List.mem_map_of_injective p.name_injective]
  fun_induction Binding.readParameters declared nodes generalizing nodes' with
  | case1 declared parameter rest hdeclared =>
    obtain ⟨_, rest', rfl, hvar, -⟩ := h.of_cons rfl
    cases hvar
    cases rest' <;> simp only [Binding.readParameters, hcontains, if_pos hdeclared] <;> rfl
  | case2 declared parameter hdeclared =>
    obtain ⟨_, rest', rfl, hvar, hrest⟩ := h.of_cons rfl
    cases hvar
    cases hrest
    simp only [Binding.readParameters, hcontains, if_neg hdeclared]
    rfl
  | case3 declared parameter hdeclared separator rest hseparator ih =>
    obtain ⟨_, rest', rfl, hvar, hrest⟩ := h.of_cons rfl
    cases hvar
    obtain ⟨separator', rest', rfl, hnode, hrest⟩ :=
      hrest.of_cons (isNumeric_of_mark (eq_of_beq hseparator))
    have hmore := ih hrest
    rw [List.map_cons] at hmore
    simp only [Binding.readParameters, hcontains, if_neg hdeclared, hnode.outline.isSeparator,
      if_pos hseparator]
    cases hmore' : Binding.readParameters (p.name parameter :: declared.map p.name) rest' <;>
      cases hmore'' : Binding.readParameters (parameter :: declared) rest <;>
        simp_all [Except.map, Except.toOption]
  | case4 declared parameter hdeclared separator rest hseparator =>
    obtain ⟨_, rest', rfl, hvar, hrest⟩ := h.of_cons rfl
    cases hvar
    cases hrest with
    | cons hnode _ =>
      simp only [Binding.readParameters, hcontains, if_neg hdeclared, hnode.outline.isSeparator,
        if_neg hseparator]
      rfl
    | split _ _ =>
      simp only [Binding.readParameters, hcontains, if_neg hdeclared]
      rfl
  | case5 declared nodes hnodes =>
    cases h with
    | nil => rfl
    | split _ _ => rfl
    | cons hnode _ =>
      cases hnode with
      | var name => exact absurd rfl (hnodes name _)
      | _ => rfl

/-- A parameter list is read off an operand in parentheses. -/
theorem readParameterList_eq_operand (nodes : List Node) :
    Binding.readParameterList nodes =
      if (⟨nodes, 0, none⟩ : Operand).isParenthesized then
        if (⟨nodes, 0, none⟩ : Operand).inner.isEmpty then .ok []
        else Binding.readParameters [] (⟨nodes, 0, none⟩ : Operand).inner
      else .error .leftSide := by
  unfold Binding.readParameterList
  split
  · next opening second rest =>
    have hne : second :: rest ≠ [] := List.cons_ne_nil _ _
    have hparens : (⟨opening :: second :: rest, 0, none⟩ : Operand).isParenthesized =
        (opening.isOpen && ((second :: rest).getLast hne).isClose) := by
      simp only [Operand.isParenthesized, List.getLast?_eq_some_getLast hne, Option.any_some]
    rw [Operand.inner, hparens]
    simp only
    split <;> rfl
  · next hnodes =>
    rcases nodes with _ | ⟨opening, _ | ⟨second, rest⟩⟩
    · rfl
    · rfl
    · exact absurd rfl (hnodes opening second rest)

theorem readParameterList_eq (h : p.RelatesAll nodes nodes') :
    (Binding.readParameterList nodes').toOption =
      (Binding.readParameterList nodes).toOption.map (List.map p.name) := by
  have hnodes : p.RelatesAll (⟨nodes, 0, none⟩ : Operand).nodes
      (⟨nodes', 0, none⟩ : Operand).nodes := h
  have hinner := inner_related hnodes
  rw [readParameterList_eq_operand, readParameterList_eq_operand, isParenthesized_eq hnodes,
    hinner.isEmpty]
  split
  · split
    · rfl
    · exact readParameters_eq [] hinner
  · rfl

theorem read_eq (h : p.RelatesAll nodes nodes') :
    (Binding.read nodes').toOption = (Binding.read nodes).toOption.map (Binding.rename p.name) := by
  have hfunction : ∀ {rest rest' : List Node} (name : String), p.RelatesAll rest rest' →
      ((Binding.readParameterList rest').map (⟨p.name name, .function, ·⟩ : _ → Binding)).toOption =
        ((Binding.readParameterList rest).map (⟨name, .function, ·⟩)).toOption.map
          (Binding.rename p.name) := by
    intro rest rest' name hrest
    have hlist := readParameterList_eq hrest
    cases hread : Binding.readParameterList rest <;>
      cases hread' : Binding.readParameterList rest' <;>
        simp_all [Except.map, Except.toOption, Binding.rename]
  cases h with
  | nil => rfl
  | split _ _ => rfl
  | cons hnode hrest =>
    cases hnode with
    | var name =>
      cases hrest with
      | nil => rfl
      | cons hnext hrest => exact hfunction name (.cons hnext hrest)
      | split hsplit hrest => exact hfunction name (.split hsplit hrest)
    | _ => rfl

/-! ## The two sides -/

theorem splitSides_eq (nodes : List Node) :
    Session.splitSides nodes =
      if nodes.any Node.isEquality then
        (Binding.ofNodes (nodes.takeWhile fun node => !node.isEquality)).map
          (some ·, (nodes.dropWhile fun node => !node.isEquality).tail)
      else .ok (none, nodes) := by
  rw [Session.splitSides, ← List.findIdx?_isSome, List.takeWhile_eq_take_findIdx_not,
    List.dropWhile_eq_drop_findIdx_not, List.tail_drop]
  simp only [Bool.not_not]
  cases hplace : nodes.findIdx? Node.isEquality with
  | none => rfl
  | some i =>
    have hfound : nodes.findIdx Node.isEquality = i :=
      (List.findIdx?_eq_some_iff_findIdx_eq.1 hplace).2
    rw [hfound]
    rfl

/-- Both lists of sides, or none. -/
inductive SameSides (p : Paraphrase) : Except CompileError (Option Binding × List Node) →
    Except CompileError (Option Binding × List Node) → Prop
  | malformed (subject subject' : String) (flaw flaw' : Flaw) :
      SameSides p (.error (.malformed subject flaw)) (.error (.malformed subject' flaw'))
  | ok (binding : Option Binding) {right right' : List Node} :
      p.RelatesAll right right' →
        SameSides p (.ok (binding, right)) (.ok (binding.map (·.rename p.name), right'))

theorem splitSides_related (h : p.RelatesAll nodes nodes') :
    p.SameSides (Session.splitSides nodes) (Session.splitSides nodes') := by
  have hends : ∀ node node' : Node, node.SameOutline node' →
      (!node'.isEquality) = !node.isEquality := fun _ _ hnode => congrArg _ hnode.isEquality
  have hleft := h.takeWhile hends
  have hright : p.RelatesAll (nodes.dropWhile fun node => !node.isEquality).tail
      (nodes'.dropWhile fun node => !node.isEquality).tail := by
    refine h.tail_dropWhile hends ?_
    intro node hnode
    cases node with
    | literal text => rfl
    | _ => cases hnode
  rw [splitSides_eq, splitSides_eq, h.any fun _ _ hnode => hnode.isEquality]
  split
  · have hread := read_eq hleft
    rw [Binding.ofNodes, Binding.ofNodes]
    generalize Binding.read (nodes.takeWhile _) = signature at hread ⊢
    generalize Binding.read (nodes'.takeWhile _) = signature' at hread ⊢
    cases signature with
    | error flaw =>
      cases signature' with
      | error flaw' => exact .malformed _ _ flaw flaw'
      | ok binding' => cases hread
    | ok binding =>
      cases signature' with
      | error flaw' => cases hread
      | ok binding' =>
        obtain rfl : binding' = binding.rename p.name := Option.some.inj hread
        exact .ok (some binding) hright
  · exact .ok none h

end Paraphrase

end Formulary
