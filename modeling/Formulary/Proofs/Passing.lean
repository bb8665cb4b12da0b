import Formulary.Proofs.Formula

/-!
# Walking over formulas

Where no name stands for an equation, the walk over a formula passes into what follows it, and what
it emits is a list of instructions that the formula alone determines. Operands in parentheses end
with them because the parentheses of a formula are balanced.
-/

namespace Formulary

/-! ## Balanced parentheses -/

/-- A scan inside parentheses passes over the nodes and keeps its depth. -/
def Balanced (nodes : List Node) : Prop :=
  ∀ depth rest, Operand.scan false true false (depth + 1) (nodes ++ rest) =
    ((nodes ++ (Operand.scan false true false (depth + 1) rest).1),
      (Operand.scan false true false (depth + 1) rest).2)

theorem scan_inside (node : Node) (depth : Nat) (rest : List Node) :
    Operand.scan false true false (depth + 1) (node :: rest) =
      (node :: (Operand.scan false true false (Operand.depthAfter node (depth + 1)) rest).1,
        (Operand.scan false true false (Operand.depthAfter node (depth + 1)) rest).2) := by
  rw [Operand.scan]
  simp

namespace Balanced

theorem nil : Balanced [] := fun _ _ => rfl

theorem append {first second : List Node} (h₁ : Balanced first) (h₂ : Balanced second) :
    Balanced (first ++ second) := by
  intro depth rest
  rw [List.append_assoc, h₁ depth (second ++ rest), h₂ depth rest]
  simp

theorem single {node : Node} (hopen : node.isOpen = false) (hclose : node.isClose = false) :
    Balanced [node] := by
  intro depth rest
  rw [List.singleton_append, scan_inside]
  simp [Operand.depthAfter, hopen, hclose]

theorem cons {node : Node} {nodes : List Node} (hopen : node.isOpen = false)
    (hclose : node.isClose = false) (h : Balanced nodes) : Balanced (node :: nodes) :=
  (single hopen hclose).append h

theorem pieces (texts : List String) : Balanced (texts.map .literal) := by
  induction texts with
  | nil => exact nil
  | cons text texts ih => exact ih.cons rfl rfl

variable {S : Spelling}

theorem atom {mark : Mark} (hopen : mark ≠ .opening) (hclose : mark ≠ .closing) :
    Balanced [S.atom mark] := by
  apply single
  · simp [Node.isOpen, hopen]
  · simp [Node.isClose, hclose]

theorem enclosed {nodes : List Node} (h : Balanced nodes) : Balanced (S.enclosed nodes) := by
  have hopening : (S.atom .opening).isOpen = true := by simp [Node.isOpen]
  have hclosing : (S.atom .closing).isOpen = false := by simp [Node.isOpen]
  have hclosing' : (S.atom .closing).isClose = true := by simp [Node.isClose]
  intro depth rest
  rw [Spelling.enclosed, List.cons_append, List.append_assoc, scan_inside]
  simp only [Operand.depthAfter, hopening, if_true]
  rw [h (depth + 1), List.singleton_append, scan_inside]
  simp [Operand.depthAfter, hclosing, hclosing']

theorem fenced {needed : Bool} {nodes : List Node} (h : Balanced nodes) :
    Balanced (S.fenced needed nodes) := by
  unfold Spelling.fenced
  split
  · exact h.enclosed
  · exact h

end Balanced

theorem Formula.balanced (S : Spelling) (e : Formula) : Balanced (e.nodes S) := by
  induction e with
  | number numeral => exact .pieces numeral.pieces
  | var name => exact .single rfl rfl
  | parens body ih => exact ih.enclosed
  | fraction numerator denominator _ _ => exact .single rfl rfl
  | root body _ => exact .single rfl rfl
  | power groupedBase groupedExponent base exponent _ _ => exact .single rfl rfl
  | absolute body ih => exact .cons rfl rfl (ih.append (.single rfl rfl))
  | sum limits body ih => exact .cons rfl rfl ih.enclosed
  | turned turn body ih => exact .cons rfl rfl ih.enclosed
  | signed sign body ih =>
    have hsign : Balanced [S.atom sign.mark] := by
      cases sign <;> exact .atom (by decide) (by decide)
    exact hsign.append ih.fenced
  | joined join left right ihleft ihright =>
    have hjoin : Balanced (join.nodes S) := by
      cases join with
      | juxtaposition => exact .nil
      | _ => exact .atom (by decide) (by decide)
    exact ihleft.fenced.append (hjoin.append ihright.fenced)
  | added sign left right ihleft ihright =>
    have hsign : Balanced [S.atom sign.mark] := by
      cases sign <;> exact .atom (by decide) (by decide)
    exact ihleft.append (hsign.append ihright.fenced)

/-- An operand in balanced parentheses ends with them. -/
theorem following_enclosed {S : Spelling} {nodes : List Node} (h : Balanced nodes)
    (anchor : Node) (rest : List Node) :
    Operand.following false (anchor :: (S.enclosed nodes ++ rest)) =
      { nodes := S.enclosed nodes, consumed := (S.enclosed nodes).length } := by
  have hopening : (S.atom .opening).isOpen = true := by simp [Node.isOpen]
  have hclosing : (S.atom .closing).isOpen = false := by simp [Node.isOpen]
  have hclosing' : (S.atom .closing).isClose = true := by simp [Node.isClose]
  have hend : Operand.scan false true false 0 rest = ([], none) := by
    cases rest <;> rfl
  have hscan : Operand.scan false true true 0 (S.enclosed nodes ++ rest) =
      (S.enclosed nodes, none) := by
    rw [Spelling.enclosed, List.cons_append, List.append_assoc, Operand.scan]
    simp only [Operand.depthAfter, hopening, if_true]
    rw [h 0, List.singleton_append, scan_inside]
    simp [Operand.depthAfter, hclosing, hclosing', hend]
  have hhead : (S.enclosed nodes ++ rest).head?.any Node.isOpen = true := hopening
  rw [Operand.following, List.tail_cons, hhead, hscan]
  rfl

/-- Bars without a bar between them belong together. -/
theorem absolute_closed {nodes : List Node} (h : ∀ n ∈ nodes, n.isBar = false)
    (rest : List Node) :
    Operand.absolute (.literal Node.bar :: (nodes ++ [Node.literal Node.bar] ++ rest)) =
      { nodes, consumed := (nodes ++ [Node.literal Node.bar]).length } := by
  have hrun : (nodes ++ [Node.literal Node.bar] ++ rest).takeWhile (!·.isBar) = nodes := by
    have hbar : ([Node.literal Node.bar] ++ rest).takeWhile (!·.isBar) = [] := rfl
    rw [List.append_assoc, List.takeWhile_append_of_pos (by simpa using h), hbar, List.append_nil]
  rw [Operand.absolute, List.tail_cons, hrun, List.length_append]
  rfl

/-! ## Passing over nodes -/

/-- What a walk puts in before the first of the nodes. -/
def jointAt (previous : Option Node) (nodes : List Node) : List Emission :=
  nodes.head?.elim [] (Walk.joint previous)

/-- A walk over the nodes emits the instructions, in any place, and goes on behind them. -/
def Passes (s : Session) (nodes : List Node) (instructions : List Instruction) : Prop :=
  ∀ depth previous rest d, ∃ es d', Emission.instructions es = instructions ∧
    ∀ es' d'', Visits s depth (.siblings nodes.getLast? rest) d' es' d'' →
      Visits s depth (.siblings previous (nodes ++ rest)) d
        (jointAt previous nodes ++ es ++ es') d''

namespace Passes

variable {s : Session}

/-- One node with the operand it takes. -/
theorem single {node : Node} {taken : List Node} {instructions : List Instruction}
    (h : ∀ depth rest d, ∃ es d', Emission.instructions es = instructions ∧
      Visits s depth (.single node (taken ++ rest) taken.length) d es d') :
    Passes s (node :: taken) instructions := by
  intro depth previous rest d
  obtain ⟨es, d', hes, hvisits⟩ := h depth rest d
  refine ⟨.visit depth node :: es, d', hes, ?_⟩
  intro es' d'' hrest
  have htake : (taken ++ rest).take taken.length = taken := List.take_left
  have hdrop : (taken ++ rest).drop taken.length = rest := List.drop_left
  have hall : Visits s depth (.siblings previous (node :: (taken ++ rest))) d
      (Walk.joint previous node ++ .visit depth node :: (es ++ es')) d'' :=
    .cons hvisits (by rwa [htake, hdrop])
  rw [List.cons_append]
  simpa [jointAt] using hall

theorem append_joint {first second : List Node} {is₁ is₂ joint : List Instruction}
    (h₁ : Passes s first is₁) (h₂ : Passes s second is₂) (hfirst : first ≠ [])
    (hjoint : Emission.instructions (jointAt first.getLast? second) = joint)
    (hsecond : second ≠ []) : Passes s (first ++ second) (is₁ ++ (joint ++ is₂)) := by
  intro depth previous rest d
  obtain ⟨es₁, d₁, rfl, hwalk₁⟩ := h₁ depth previous (second ++ rest) d
  obtain ⟨es₂, d₂, rfl, hwalk₂⟩ := h₂ depth first.getLast? rest d₁
  refine ⟨es₁ ++ (jointAt first.getLast? second ++ es₂), d₂, by simp [hjoint], ?_⟩
  intro es' d'' hrest
  have hlast : (first ++ second).getLast? = second.getLast? := by
    rw [List.getLast?_append, List.getLast?_eq_some_getLast hsecond, Option.some_or]
  have hhead : jointAt previous (first ++ second) = jointAt previous first := by
    rw [jointAt, jointAt, List.head?_append, List.head?_eq_some_head hfirst, Option.some_or]
  rw [hlast] at hrest
  have hall := hwalk₁ _ _ (hwalk₂ _ _ hrest)
  rw [hhead, List.append_assoc]
  simpa [List.append_assoc] using hall

theorem append {first second : List Node} {is₁ is₂ : List Instruction}
    (h₁ : Passes s first is₁) (h₂ : Passes s second is₂) (hfirst : first ≠ [])
    (hjoint : jointAt first.getLast? second = []) (hsecond : second ≠ []) :
    Passes s (first ++ second) (is₁ ++ is₂) :=
  h₁.append_joint h₂ hfirst (congrArg Emission.instructions hjoint) hsecond

/-- The walk over the nodes alone. -/
theorem visits {nodes : List Node} {instructions : List Instruction}
    (h : Passes s nodes instructions) (depth : Nat) (d : Declared) :
    ∃ es d', Emission.instructions es = instructions ∧
      Visits s depth (.siblings none nodes) d es d' := by
  obtain ⟨es, d', hes, hwalk⟩ := h depth none [] d
  have hjoint : jointAt none nodes = [] := by
    cases nodes <;> rfl
  refine ⟨es, d', hes, ?_⟩
  have hall := hwalk [] d' .nil
  simpa [hjoint] using hall

end Passes

/-! ## What stands at the ends of a formula -/

/-- Nothing is put in before these nodes that a sign before them would keep out. -/
def StartsOperand (nodes : List Node) : Prop :=
  ∃ n, nodes.head? = some n ∧ n.isClose = false ∧ n.isArithmetic = false ∧ n.isSeparator = false

def EndsOperand (nodes : List Node) : Prop :=
  ∃ n, nodes.getLast? = some n ∧ n.isSum = false ∧ n.isOpen = false ∧ n.isArithmetic = false ∧
    n.isSeparator = false

section Ends

variable {S : Spelling}

theorem EndsOperand.append {nodes : List Node} (h : EndsOperand nodes) (before : List Node) :
    EndsOperand (before ++ nodes) := by
  obtain ⟨n, hlast, hn⟩ := h
  exact ⟨n, by rw [List.getLast?_append, hlast, Option.some_or], hn⟩

theorem EndsOperand.ne_nil {nodes : List Node} (h : EndsOperand nodes) : nodes ≠ [] := by
  rintro rfl
  obtain ⟨n, hlast, -⟩ := h
  cases hlast

theorem endsOperand_enclosed (nodes : List Node) : EndsOperand (S.enclosed nodes) := by
  have hclosing : EndsOperand [S.atom .closing] := by
    refine ⟨S.atom .closing, rfl, rfl, ?_, ?_, ?_⟩ <;>
      simp [Node.isOpen, Node.isArithmetic, Node.isSeparator, Mark.isArithmetic]
  exact hclosing.append (S.atom .opening :: nodes)

theorem startsOperand_enclosed (nodes : List Node) : StartsOperand (S.enclosed nodes) := by
  refine ⟨S.atom .opening, rfl, ?_, ?_, ?_⟩ <;>
    simp [Node.isClose, Node.isArithmetic, Node.isSeparator, Mark.isArithmetic]

theorem endsOperand_fenced {nodes : List Node} (h : EndsOperand nodes) (needed : Bool) :
    EndsOperand (S.fenced needed nodes) := by
  unfold Spelling.fenced
  split
  · exact endsOperand_enclosed nodes
  · exact h

theorem Formula.endsOperand (S : Spelling) (e : Formula) : EndsOperand (e.nodes S) := by
  induction e with
  | number numeral =>
    have hliteral : ∀ texts : List String, texts ≠ [] →
        ∃ text, (texts.map Node.literal).getLast? = some (.literal text) := by
      intro texts htexts
      rw [List.getLast?_map, List.getLast?_eq_some_getLast htexts]
      exact ⟨_, rfl⟩
    obtain ⟨text, htext⟩ := hliteral numeral.pieces numeral.pieces_ne_nil
    exact ⟨.literal text, htext, rfl, rfl, rfl, rfl⟩
  | var name => exact ⟨.var name, rfl, rfl, rfl, rfl, rfl⟩
  | parens body _ => exact endsOperand_enclosed _
  | fraction numerator denominator _ _ => exact ⟨_, rfl, rfl, rfl, rfl, rfl⟩
  | root body _ => exact ⟨_, rfl, rfl, rfl, rfl, rfl⟩
  | power groupedBase groupedExponent base exponent _ _ => exact ⟨_, rfl, rfl, rfl, rfl, rfl⟩
  | absolute body _ =>
    have hbar : EndsOperand [.literal Node.bar] := ⟨_, rfl, rfl, rfl, rfl, rfl⟩
    exact hbar.append (.literal Node.bar :: body.nodes S)
  | sum limits body _ => exact (endsOperand_enclosed _).append [_]
  | turned turn body _ => exact (endsOperand_enclosed _).append [_]
  | signed sign body ih => exact (endsOperand_fenced ih _).append [_]
  | joined join left right _ ihright =>
    exact ((endsOperand_fenced ihright _).append _).append _
  | added sign left right _ ihright =>
    exact ((endsOperand_fenced ihright _).append [_]).append _

theorem Formula.startsOperand (S : Spelling) (e : Formula) :
    StartsOperand (e.nodesAt S 3) := by
  unfold nodesAt
  by_cases hlevel : e.level < 3
  · rw [decide_eq_true hlevel]
    exact startsOperand_enclosed _
  · rw [decide_eq_false hlevel]
    cases e with
    | number numeral =>
      obtain ⟨text, texts, htexts⟩ := List.exists_cons_of_ne_nil numeral.pieces_ne_nil
      refine ⟨.literal text, ?_, rfl, rfl, rfl⟩
      simp [Spelling.fenced, nodes, htexts]
    | parens body => exact startsOperand_enclosed _
    | var name => exact ⟨_, rfl, rfl, rfl, rfl⟩
    | fraction numerator denominator => exact ⟨_, rfl, rfl, rfl, rfl⟩
    | root body => exact ⟨_, rfl, rfl, rfl, rfl⟩
    | power groupedBase groupedExponent base exponent => exact ⟨_, rfl, rfl, rfl, rfl⟩
    | absolute body => exact ⟨_, rfl, rfl, rfl, rfl⟩
    | sum limits body => exact ⟨_, rfl, rfl, rfl, rfl⟩
    | turned turn body => exact ⟨_, rfl, rfl, rfl, rfl⟩
    | signed sign body => simp [level] at hlevel
    | joined join left right => simp [level] at hlevel
    | added sign left right => simp [level] at hlevel

end Ends

/-! ## Passing over signs and parentheses -/

open Instruction

section Joints

variable {previous : Option Node} {S : Spelling}

/-- Nothing is put in beside an arithmetic sign. -/
theorem jointAt_arithmetic {mark : Mark} (h : mark.isArithmetic = true) (nodes : List Node) :
    jointAt previous (S.atom mark :: nodes) = [] := by
  have hmark : (S.atom mark).isArithmetic = true := by simp [Node.isArithmetic, h]
  have hjuxtaposed : ∀ n : Node, n.juxtaposed (S.atom mark) = false := by
    intro n
    simp [Node.juxtaposed, hmark]
  cases previous <;> simp [jointAt, Walk.joint, hjuxtaposed]

theorem jointAt_behind_arithmetic {mark : Mark} (h : mark.isArithmetic = true)
    (nodes : List Node) : jointAt (some (S.atom mark)) nodes = [] := by
  have hmark : (S.atom mark).isArithmetic = true := by simp [Node.isArithmetic, h]
  cases nodes with
  | nil => rfl
  | cons n nodes => simp [jointAt, Walk.joint, Node.juxtaposed, hmark]

theorem jointAt_closing (nodes : List Node) :
    jointAt previous (S.atom .closing :: nodes) = [] := by
  have hclosing : (S.atom .closing).isClose = true := by simp [Node.isClose]
  have hjuxtaposed : ∀ n : Node, n.juxtaposed (S.atom .closing) = false := by
    intro n
    simp [Node.juxtaposed, hclosing]
  cases previous <;> simp [jointAt, Walk.joint, hjuxtaposed]

theorem jointAt_behind_opening (nodes : List Node) :
    jointAt (some (S.atom .opening)) nodes = [] := by
  have hopening : (S.atom .opening).isOpen = true := by simp [Node.isOpen]
  cases nodes with
  | nil => rfl
  | cons n nodes => simp [jointAt, Walk.joint, Node.juxtaposed, hopening]

/-- Two operands are multiplied where they stand side by side, unless they are numbers. -/
theorem instructions_jointAt {first second : List Node} (h₁ : EndsOperand first)
    (h₂ : StartsOperand second)
    (hnumbers : ¬(first.getLast?.any Node.isNumeric = true ∧
      second.head?.any Node.isNumeric = true)) :
    Emission.instructions (jointAt first.getLast? second) =
      [.append (.operator .multiply)] := by
  obtain ⟨last, hlast, hsum, hopen, harithmetic, hseparator⟩ := h₁
  obtain ⟨head, hhead, hclose, harithmetic', hseparator'⟩ := h₂
  rw [hlast, hhead] at hnumbers
  have hnumeric : (last.isNumeric && head.isNumeric) = false := by
    rw [Bool.eq_false_iff, ne_eq, Bool.and_eq_true]
    exact hnumbers
  have hjuxtaposed : last.juxtaposed head = true := by
    simp only [Node.juxtaposed, hnumeric, hsum, hopen, harithmetic, hseparator, hclose,
      harithmetic', hseparator']
    rfl
  rw [hlast, jointAt, hhead]
  simp [Walk.joint, hjuxtaposed]

end Joints

namespace Passes

variable {s : Session} {S : Spelling}

theorem atom (mark : Mark) (entry : Entry) (h : Entry.ofMark? mark = some entry) :
    Passes s [S.atom mark] [entry.instruction] := by
  apply single
  intro depth rest d
  refine ⟨[.instruction entry.instruction], d, rfl, ?_⟩
  have hsymbol : Entry.ofSymbol? (S.symbol mark) = some entry := by
    rw [Entry.ofSymbol?, S.reads mark]
    exact h
  exact .atom hsymbol

theorem pieces {texts : List String} (hbar : Node.bar ∉ texts) (h : texts ≠ []) :
    Passes s (texts.map .literal) (texts.map fun text => .append (.number text)) := by
  have hpiece : ∀ text, text ≠ Node.bar →
      Passes s [.literal text] [.append (.number text)] := by
    intro text htext
    apply single
    intro depth rest d
    exact ⟨_, d, rfl, .piece htext⟩
  induction texts with
  | nil => exact absurd rfl h
  | cons text texts ih =>
    have htext : text ≠ Node.bar := fun heq => hbar (heq ▸ List.mem_cons_self ..)
    have htexts : Node.bar ∉ texts := fun hmem => hbar (List.mem_cons_of_mem _ hmem)
    cases texts with
    | nil => exact hpiece text htext
    | cons second texts =>
      have hsecond : second ≠ Node.bar := fun heq => htexts (heq ▸ List.mem_cons_self ..)
      have hjoint : jointAt [Node.literal text].getLast?
          ((second :: texts).map Node.literal) = [] := by
        simp [jointAt, Walk.joint, Node.juxtaposed, Node.isNumeric, htext, hsecond]
      exact (hpiece text htext).append (ih htexts (by simp)) (by simp)
        hjoint (by simp)

theorem enclosed {nodes : List Node} {instructions : List Instruction}
    (h : Passes s nodes instructions) (hnodes : nodes ≠ []) :
    Passes s (S.enclosed nodes) (enclosing .openParen instructions) := by
  have hopening : Passes s [S.atom .opening] [.append .openParen] :=
    atom .opening (.single .openParen) rfl
  have hclosing : Passes s [S.atom .closing] [.append .close] :=
    atom .closing (.single .close) rfl
  have hbody : Passes s (nodes ++ [S.atom .closing]) (instructions ++ [.append .close]) :=
    h.append hclosing hnodes (jointAt_closing []) (by simp)
  exact hopening.append hbody (by simp)
    (jointAt_behind_opening _) (by simp)

theorem fenced {nodes : List Node} {instructions : List Instruction}
    (h : Passes s nodes instructions) (hnodes : nodes ≠ []) (needed : Bool) :
    Passes s (S.fenced needed nodes) (Instruction.fenced needed instructions) := by
  cases needed with
  | true => exact h.enclosed hnodes
  | false => exact h

theorem sign (sign : Sign) {nodes : List Node} {instructions : List Instruction}
    (h : Passes s nodes instructions) (hnodes : nodes ≠ []) :
    Passes s (S.atom sign.mark :: nodes) (sign.instruction :: instructions) := by
  have hsign : Passes s [S.atom sign.mark] [sign.instruction] := by
    cases sign with
    | plus => exact atom .plus (.single _) rfl
    | minus => exact atom .minus (.single _) rfl
    | plusMinus => exact atom .plusMinus (.alternatives _) rfl
  have harithmetic : sign.mark.isArithmetic = true := by
    cases sign <;> rfl
  exact hsign.append h (by simp)
    (jointAt_behind_arithmetic harithmetic nodes) hnodes

/-- Something with a sign in front behind something else. -/
theorem behind {mark : Mark} {before nodes : List Node} {is js : List Instruction}
    (h₁ : Passes s before is) (hbefore : before ≠ []) (h₂ : Passes s (S.atom mark :: nodes) js)
    (harithmetic : mark.isArithmetic = true) :
    Passes s (before ++ S.atom mark :: nodes) (is ++ js) :=
  h₁.append h₂ hbefore
    (jointAt_arithmetic harithmetic nodes) (by simp)

end Passes

end Formulary
