import Mathlib.Data.List.Chain
import Formulary.Proofs.Extents
import Formulary.Proofs.Cardinality
import Formulary.Proofs.Links

/-!
# Neighbours in the code

Whether two neighbours are multiplied is told by two nodes only, though what stands left and right
of the sign may come from a whole operand, from a group that has no code, or from a number in
pieces. It is enough: no code has an operand directly behind another one.
-/

namespace Formulary

/-! ## Fragments and their neighbours -/

namespace Fragment

/-- An operand may end with the fragment. -/
def endsOperand : Fragment → Bool
  | number _ | var _ | reference _ _ | close => true
  | _ => false

/-- An operand may start with the fragment. -/
def startsOperand : Fragment → Bool
  | number _ | var _ | reference _ _ => true
  | f => f.opens

def isPiece : Fragment → Bool
  | number _ => true
  | _ => false

/-- No operand has another one directly behind it. -/
def OperandsApart (code : List Fragment) : Prop :=
  code.IsChain fun f g => ¬(f.endsOperand = true ∧ g.startsOperand = true)

end Fragment

/-- What a fragment is to the fragments next to it. -/
structure Edges where
  starts : Bool
  ends : Bool
  /-- A piece of a number joins another one. -/
  piece : Bool

namespace Edges

/-- Neighbours that stay apart, or are joined. -/
def Fits (first second : Edges) : Prop :=
  first.ends = true → second.starts = true → first.piece = true ∧ second.piece = true

theorem fits_of_not_ends {first : Edges} (h : first.ends = false) (second : Edges) :
    first.Fits second := by
  intro hends
  rw [h] at hends
  cases hends

theorem fits_of_not_starts (first : Edges) {second : Edges} (h : second.starts = false) :
    first.Fits second := by
  intro _ hstarts
  rw [h] at hstarts
  cases hstarts

end Edges

def Fragment.edges (f : Fragment) : Edges := ⟨f.startsOperand, f.endsOperand, f.isPiece⟩

/-! ## Pieces of numbers -/

namespace Branch

variable {b : Branch} {f : Fragment}

/-- Either a piece of a number is joined to one with the same edges, or a fragment is put behind
one that it need not be joined to. -/
theorem append_cases (b : Branch) (f : Fragment) :
    (∃ top joined code, b.code = top :: code ∧ (b.append f).code = joined :: code ∧
        joined.edges = top.edges ∧ joined.edges = f.edges) ∨
      ((b.append f).code = f :: b.code ∧
        ∀ top ∈ b.code.head?, ¬(top.isPiece = true ∧ f.isPiece = true)) := by
  unfold append
  split
  · next text before code hcode =>
    exact .inl ⟨.number before, .number (before ++ text), code, hcode, rfl, rfl, rfl⟩
  · next fragment _ _ hother =>
    refine .inr ⟨rfl, ?_⟩
    rintro top htop ⟨hbefore, hpiece⟩
    obtain ⟨code, hcode⟩ : ∃ code, b.code = top :: code := by
      cases hcode : b.code with
      | nil => simp [hcode] at htop
      | cons first code =>
        obtain rfl : first = top := by simpa [hcode] using htop
        exact ⟨code, rfl⟩
    cases top with
    | number before =>
      cases fragment with
      | number text => exact hother text before code rfl hcode
      | _ => cases hpiece
    | _ => cases hbefore

/-- The code of a branch, latest fragment first, with no operand directly behind another. -/
def Apart (b : Branch) : Prop :=
  b.code.IsChain fun g f => ¬(f.endsOperand = true ∧ g.startsOperand = true)

theorem apart_iff : b.Apart ↔ Fragment.OperandsApart b.fragments := by
  rw [Fragment.OperandsApart, fragments, List.isChain_reverse]
  rfl

theorem Apart.append (hb : b.Apart) (hf : ∀ top ∈ b.code.head?, top.edges.Fits f.edges) :
    (b.append f).Apart ∧ ∀ top ∈ (b.append f).code.head?, top.edges = f.edges := by
  rcases append_cases b f with ⟨top, joined, code, hcode, hjoined, htop, hf'⟩ | ⟨hpush, hpieces⟩
  · rw [Apart, hcode, List.isChain_cons] at hb
    rw [Apart, hjoined, List.isChain_cons]
    refine ⟨⟨fun before hbefore => ?_, hb.2⟩, ?_⟩
    · have hstarts : joined.startsOperand = top.startsOperand := congrArg Edges.starts htop
      rw [hstarts]
      exact hb.1 before hbefore
    · intro top' htop'
      rwa [← Option.some.inj htop']
  · rw [Apart, hpush, List.isChain_cons]
    refine ⟨⟨?_, hb⟩, ?_⟩
    · rintro top htop ⟨hends, hstarts⟩
      exact hpieces top htop (hf top htop hends hstarts)
    · intro top htop
      rw [← Option.some.inj htop]

/-- Where all neighbours fit, operands are apart when the pieces of numbers are joined. -/
theorem Apart.appendAll {code : List Fragment} (hb : b.Apart)
    (hcode : (code.map Fragment.edges).IsChain Edges.Fits)
    (hjoint : ∀ top ∈ b.code.head?, ∀ f ∈ code.head?, top.edges.Fits f.edges) :
    (b.appendAll code).Apart := by
  induction code generalizing b with
  | nil => exact hb
  | cons f code ih =>
    rw [List.map_cons, List.isChain_cons] at hcode
    obtain ⟨hstep, htop⟩ := hb.append fun top htop => hjoint top htop f rfl
    refine ih hstep hcode.2 fun top htop' g hg => ?_
    rw [htop top htop']
    refine hcode.1 g.edges ?_
    rw [List.head?_map]
    exact Option.mem_map_of_mem _ hg

end Branch

/-- Where all neighbours fit, operands are apart when the pieces of numbers are joined. -/
theorem Fragment.operandsApart_joined {code : List Fragment}
    (h : (code.map Fragment.edges).IsChain Edges.Fits) :
    Fragment.OperandsApart (Fragment.joined code) := by
  refine Branch.apart_iff.1 (Branch.Apart.appendAll List.isChain_nil h ?_)
  intro top htop
  cases htop

/-! ## The edges of a walk -/

namespace Emission

/-- What the emissions put into every branch, as far as its neighbours see it. -/
def edges (es : List Emission) : List Edges :=
  (instructions es).filterMap (Instruction.put? Fragment.edges)

theorem edges_append (es es' : List Emission) : edges (es ++ es') = edges es ++ edges es' := by
  rw [edges, instructions_append, List.filterMap_append]
  rfl

theorem edges_cons_visit (depth : Nat) (node : Node) (es : List Emission) :
    edges (.visit depth node :: es) = edges es := rfl

theorem edges_cons_warning (warning : Warning) (es : List Emission) :
    edges (.warning warning :: es) = edges es := rfl

theorem edges_cons_append (fragment : Fragment) (es : List Emission) :
    edges (.instruction (.append fragment) :: es) = fragment.edges :: edges es := rfl

theorem edges_between (opening : Fragment) (es : List Emission) :
    edges (Walk.between opening es) = opening.edges :: (edges es ++ [Fragment.close.edges]) := by
  rw [Walk.between, edges_cons_append, edges_append]
  rfl

theorem edges_pairing (d : Declared) (equation : Equation Float) (make : Nat → Nat → Fragment) :
    edges (Walk.pairing d equation make) = [(make (d.placeOf equation) 0).edges] := rfl

theorem edges_joint (previous : Option Node) (node : Node) :
    edges (Walk.joint previous node) =
      if previous.any (·.juxtaposed node) then [(Fragment.operator .multiply).edges] else [] := by
  unfold Walk.joint
  split <;> rfl

theorem edges_cons (depth : Nat) (previous : Option Node) (node : Node) (es es' : List Emission) :
    edges (Walk.joint previous node ++ .visit depth node :: (es ++ es')) =
      edges (Walk.joint previous node) ++ (edges es ++ edges es') := by
  rw [edges_append, edges_cons_visit, edges_append]

end Emission

def Mark.edges : Mark → Edges
  | opening => Fragment.openParen.edges
  | closing => Fragment.close.edges
  | _ => Fragment.separator.edges

theorem Entry.edges_instruction {symbol : String} {entry : Entry}
    (h : Entry.ofSymbol? symbol = some entry) :
    ∃ mark, Mark.ofSymbol? symbol = some mark ∧
      Emission.edges [.instruction entry.instruction] = [mark.edges] := by
  obtain ⟨mark, hsymbol, hmark⟩ := Option.bind_eq_some_iff.1 h
  refine ⟨mark, hsymbol, ?_⟩
  cases mark with
  | equality => cases hmark
  | _ =>
    obtain rfl := Option.some.inj hmark
    rfl

/-! ## Nodes and their neighbours -/

namespace Node

variable {previous current node : Node}

/-- No sign is put in behind the node. -/
def invites (n : Node) : Bool := n.isSum || n.isOpen || n.isArithmetic || n.isSeparator

/-- No sign is put in before the node. -/
def follows (n : Node) : Bool := n.isClose || n.isArithmetic || n.isSeparator

theorem juxtaposed_of_not_invites (hprevious : previous.invites = false)
    (hcurrent : current.follows = false)
    (hpieces : ¬(previous.isNumeric = true ∧ current.isNumeric = true)) :
    previous.juxtaposed current = true := by
  simp only [invites, follows, Bool.or_eq_false_iff] at hprevious hcurrent
  rw [← Bool.and_eq_true, Bool.not_eq_true] at hpieces
  simp [juxtaposed, hprevious, hcurrent, hpieces]

theorem not_invites_of_isClose (h : node.isClose = true) :
    node.invites = false ∧ node.isNumeric = false := by
  cases node with
  | atom symbol =>
    have hmark : (atom symbol).mark? = some .closing := beq_iff_eq.1 h
    refine ⟨?_, rfl⟩
    simp [invites, isSum, isOpen, isArithmetic, isSeparator, hmark, Mark.isArithmetic]
  | _ => cases h

theorem follows_of_isAdditive (h : node.isAdditive = true) : node.follows = true := by
  obtain ⟨mark, hmark, hadditive⟩ := (Option.any_eq_true _ _).1 h
  have harithmetic : node.isArithmetic = true :=
    (Option.any_eq_true _ _).2 ⟨mark, hmark, Mark.isArithmetic_of_isAdditive hadditive⟩
  simp [follows, harithmetic]

theorem exists_atom_of_follows (h : node.follows = true) :
    ∃ symbol mark, node = .atom symbol ∧ Mark.ofSymbol? symbol = some mark ∧
      mark.edges.starts = false := by
  cases node with
  | atom symbol =>
    cases hmark : Mark.ofSymbol? symbol with
    | none => simp [follows, isClose, isArithmetic, isSeparator, mark?, hmark] at h
    | some mark =>
      refine ⟨symbol, mark, rfl, hmark, ?_⟩
      cases mark with
      | opening =>
        simp [follows, isClose, isArithmetic, isSeparator, mark?, hmark, Mark.isArithmetic] at h
      | _ => rfl
  | _ => cases h

end Node

namespace Operand

variable {marked : Bool} {anchor : Node} {rest : List Node}

/-- A scan that finds no differential stops before an additive atom, or at the end. -/
theorem head_behind_scan {run behind : List Node}
    (hscan : marked? marked (depthAtEnd 0 run) behind = none)
    (hend : behind ≠ [] →
      Stops marked false (true && run.isEmpty) (depthAtEnd 0 run) behind) :
    ∀ node ∈ behind.head?, node.isAdditive = true := by
  intro node hnode
  have hne : behind ≠ [] := by
    rintro rfl
    cases hnode
  obtain ⟨hdepth, ⟨rfl, v, hv⟩ | ⟨-, hplain⟩⟩ := hend hne
  · have hmarked : marked? true (depthAtEnd 0 run) behind = some v := by simp [marked?, hdepth, hv]
    rw [hmarked] at hscan
    cases hscan
  · simpa [Option.mem_def.1 hnode] using hplain

/-- Nothing but an additive atom comes right behind what belongs to an anchor, unless that ends with
a parenthesis or the variable of a differential. -/
theorem behind_following (marked : Bool) (anchor : Node) (rest : List Node) :
    (∀ node ∈ (rest.drop (following marked (anchor :: rest)).consumed).head?,
        node.isAdditive = true) ∨
      ∃ last, (anchor :: rest.take (following marked (anchor :: rest)).consumed).getLast? =
          some last ∧ (last.isClose = true ∨ ∃ v, last = .var v) := by
  have hoperand := isOperandOf_following marked (anchor :: rest)
  have hsplit := split_following marked anchor rest
  rw [take_following, marker]
  cases hdifferential : (following marked (anchor :: rest)).differential with
  | some v =>
    refine .inr ⟨.var v, ?_, .inr ⟨v, rfl⟩⟩
    rw [← List.cons_append, List.append_cons, List.getLast?_concat]
  | none =>
    rw [marker, hdifferential, List.append_nil] at hsplit
    simp only [List.append_nil]
    cases hopen : rest.head?.any Node.isOpen with
    | true =>
      rcases hoperand.of_isOpen hopen with ⟨opening, inside, closing, hnodes, -, hclosing, -⟩ | hall
      · refine .inr ⟨closing, ?_, .inl hclosing⟩
        rw [hnodes, ← List.cons_append, ← List.cons_append, List.getLast?_concat]
      · left
        have hnil : rest.drop (following marked (anchor :: rest)).consumed = [] := by
          rw [hall.1, List.tail_cons] at hsplit
          exact List.append_cancel_left (hsplit.symm.trans (List.append_nil rest).symm)
        rw [hnil]
        intro node hnode
        cases hnode
    | false =>
      left
      obtain ⟨run, behind, hrest, hscan, -, hend⟩ := scan_split marked false true 0 rest
      have hfollowing : (following marked (anchor :: rest)).nodes = run ∧
          (following marked (anchor :: rest)).differential =
            marked? marked (depthAtEnd 0 run) behind := by
        simp only [following, List.tail_cons, hopen, hscan, and_self]
      have hbehind : rest.drop (following marked (anchor :: rest)).consumed = behind := by
        rw [hfollowing.1] at hsplit
        exact List.append_cancel_left (hsplit.symm.trans hrest)
      rw [hbehind]
      exact head_behind_scan (hfollowing.2.symm.trans hdifferential) hend

end Operand

/-! ## How the code of nodes begins -/

open Emission

variable {s : Session} {depth n : Nat} {previous : Option Node} {node : Node}
  {nodes rest : List Node} {d d' : Declared} {es : List Emission}

/-- A node that follows others as it is has code that does so. -/
theorem Visits.edges_of_follows (h : Visits s depth (.single node rest n) d es d')
    (hnode : node.follows = true) : ∃ edge, edges es = [edge] ∧ edge.starts = false := by
  obtain ⟨symbol, mark, rfl, hmark, hstarts⟩ := Node.exists_atom_of_follows hnode
  cases h with
  | atom hentry =>
    obtain ⟨mark', hmark', hedges⟩ := Entry.edges_instruction hentry
    obtain rfl := Option.some.inj (hmark.symm.trans hmark')
    exact ⟨mark.edges, hedges, hstarts⟩

theorem Visits.edges_of_isNumeric (h : Visits s depth (.single node rest n) d es d')
    (hnode : node.isNumeric = true) : ∃ edge, edges es = [edge] ∧ edge.piece = true := by
  cases node with
  | literal text =>
    cases h with
    | bars => cases hnode
    | piece => exact ⟨_, rfl, rfl⟩
  | _ => cases hnode

/-- Either a sign is put in first, or the code of the node is what the siblings begin with. -/
theorem Walk.head_edges_cons {edge : Edges} {code : List Edges}
    (hedge : edge ∈ (edges (Walk.joint previous node) ++ code).head?) :
    edge.starts = false ∨
      previous.any (·.juxtaposed node) = false ∧ edge ∈ code.head? := by
  rw [edges_joint] at hedge
  split at hedge
  · exact .inl (Option.some.inj hedge ▸ rfl)
  · next hjuxtaposed => exact .inr ⟨Bool.eq_false_iff.2 hjuxtaposed, hedge⟩

/-- Where the first node follows others as it is, so does the code. -/
theorem Visits.head_edges_of_follows (h : Visits s depth (.siblings previous nodes) d es d')
    (hnodes : ∀ node ∈ nodes.head?, node.follows = true) :
    ∀ edge ∈ (edges es).head?, edge.starts = false := by
  intro edge hedge
  cases h with
  | nil => cases hedge
  | @cons _ _ _ node rest _ _ _ es es' hnode hrest =>
    rw [edges_cons] at hedge
    rcases Walk.head_edges_cons hedge with hstarts | ⟨-, hedge⟩
    · exact hstarts
    · obtain ⟨first, hfirst, hstarts⟩ := hnode.edges_of_follows (hnodes node rfl)
      rw [hfirst] at hedge
      exact Option.some.inj hedge ▸ hstarts

/-- Behind a node that does not invite others, an operand starts only as a piece of its number. -/
theorem Visits.head_edges {previous : Node}
    (h : Visits s depth (.siblings (some previous) nodes) d es d')
    (hprevious : previous.invites = false) :
    ∀ edge ∈ (edges es).head?, edge.starts = true →
      previous.isNumeric = true ∧ edge.piece = true := by
  intro edge hedge hstarts
  by_cases hfollows : ∀ node ∈ nodes.head?, node.follows = true
  · rw [h.head_edges_of_follows hfollows edge hedge] at hstarts
    cases hstarts
  · cases h with
    | nil => cases hedge
    | @cons _ _ _ node rest _ _ _ es es' hnode hrest =>
      have hplain : node.follows = false := by simpa using hfollows
      rw [edges_cons] at hedge
      rcases Walk.head_edges_cons hedge with hnone | ⟨hjuxtaposed, hedge⟩
      · rw [hnone] at hstarts
        cases hstarts
      · -- Nothing is put in, so both nodes are pieces of one number.
        have hpieces : previous.isNumeric = true ∧ node.isNumeric = true := by
          by_contra hpieces
          rw [Option.any_some, Node.juxtaposed_of_not_invites hprevious hplain hpieces]
            at hjuxtaposed
          cases hjuxtaposed
        obtain ⟨first, hfirst, hpiece⟩ := hnode.edges_of_isNumeric hpieces.2
        rw [hfirst] at hedge
        exact ⟨hpieces.1, Option.some.inj hedge ▸ hpiece⟩

/-! ## How the code of nodes ends -/

/-- What is known where the code of some nodes ends, with others behind them. -/
inductive Edges.EndsBefore (code : List Edges) (taken behind : List Node) : Prop
  /-- No operand ends with the code. -/
  | unfinished : (∀ edge ∈ code.getLast?, edge.ends = false) → EndsBefore code taken behind
  /-- A sign is put in behind the last of the nodes, unless it is a piece of a number. -/
  | last (node : Node) : taken.getLast? = some node → node.invites = false →
      (node.isNumeric = true → ∀ edge ∈ code.getLast?, edge.piece = true) →
      EndsBefore code taken behind
  /-- What is behind the nodes does not start an operand. -/
  | behind : (∀ node ∈ behind.head?, node.follows = true) → EndsBefore code taken behind

theorem Edges.EndsBefore.of_isClose {code : List Edges} {taken behind : List Node} {closing : Node}
    (hlast : taken.getLast? = some closing) (h : closing.isClose = true) :
    EndsBefore code taken behind := by
  obtain ⟨hinvites, hnumeric⟩ := Node.not_invites_of_isClose h
  refine .last closing hlast hinvites fun hpiece => ?_
  rw [hnumeric] at hpiece
  cases hpiece

theorem Operand.endsBefore_following (marked : Bool) (anchor : Node) (rest : List Node)
    (code : List Edges) :
    Edges.EndsBefore code (anchor :: rest.take (Operand.following marked (anchor :: rest)).consumed)
      (rest.drop (Operand.following marked (anchor :: rest)).consumed) := by
  rcases Operand.behind_following marked anchor rest with
    hadditive | ⟨last, hlast, hclose | ⟨v, rfl⟩⟩
  · exact .behind fun node hnode => Node.follows_of_isAdditive (hadditive node hnode)
  · exact .of_isClose hlast hclose
  · exact .last (.var v) hlast rfl fun hpiece => Bool.noConfusion hpiece

theorem Entry.endsBefore_atom {symbol : String} {entry : Entry}
    (h : Entry.ofSymbol? symbol = some entry) (rest : List Node) :
    Edges.EndsBefore (edges [.instruction entry.instruction]) [.atom symbol] rest := by
  obtain ⟨mark, hmark, hedges⟩ := Entry.edges_instruction h
  rw [hedges]
  by_cases hclosing : mark = .closing
  · exact .of_isClose rfl (beq_iff_eq.2 (hclosing ▸ hmark))
  · refine .unfinished fun edge hedge => ?_
    obtain rfl : mark.edges = edge := Option.some.inj hedge
    cases mark with
    | closing => exact absurd rfl hclosing
    | _ => rfl

/-- The code of every node ends in one of these ways. -/
theorem Visits.endsBefore (h : Visits s depth (.single node rest n) d es d') :
    Edges.EndsBefore (edges es) (node :: rest.take n) (rest.drop n) := by
  -- A node that takes no others, and whose code may end an operand.
  have hleaf : ∀ node : Node, node.invites = false → node.isNumeric = false →
      Edges.EndsBefore (edges es) [node] (rest.drop 0) := by
    intro node hinvites hnumeric
    refine .last node rfl hinvites fun hpiece => ?_
    rw [hnumeric] at hpiece
    cases hpiece
  cases h with
  | bars hclosed =>
    refine .last (.literal Node.bar) ?_ rfl fun hpiece => Bool.noConfusion hpiece
    rw [Operand.take_absolute hclosed, ← List.cons_append, List.getLast?_concat]
  | @piece _ text =>
    exact .last (.literal text) rfl rfl fun _ edge hedge => Option.some.inj hedge ▸ rfl
  | name => exact hleaf _ rfl rfl
  | reference => exact hleaf _ rfl rfl
  | application => exact Operand.endsBefore_following false _ rest _
  | atom hentry => exact Entry.endsBefore_atom hentry _
  | power => exact hleaf _ rfl rfl
  | angle => exact hleaf _ rfl rfl
  | derivative => exact Operand.endsBefore_following false _ rest _
  | fraction => exact hleaf _ rfl rfl
  | root => exact hleaf _ rfl rfl
  | group => exact hleaf _ rfl rfl
  | sum => exact Operand.endsBefore_following false _ rest _
  | integral => exact Operand.endsBefore_following true _ rest _
  | turned => exact Operand.endsBefore_following false _ rest _

/-- What two stretches of siblings come to fits where they meet. -/
theorem Edges.EndsBefore.fits {code : List Edges} {taken behind : List Node}
    (h : EndsBefore code taken behind)
    (hbehind : Visits s depth (.siblings taken.getLast? behind) d es d') :
    ∀ first ∈ code.getLast?, ∀ second ∈ (edges es).head?, first.Fits second := by
  intro first hfirst second hsecond
  cases h with
  | unfinished hends => exact Edges.fits_of_not_ends (hends first hfirst) second
  | last node hlast hinvites hpiece =>
    intro _ hstarts
    rw [hlast] at hbehind
    obtain ⟨hnumeric, hsecondPiece⟩ := hbehind.head_edges hinvites second hsecond hstarts
    exact ⟨hpiece hnumeric first hfirst, hsecondPiece⟩
  | behind hfollows =>
    exact Edges.fits_of_not_starts first (hbehind.head_edges_of_follows hfollows second hsecond)

/-! ## The code of a walk -/

theorem Edges.isChain_between {code : List Edges} (h : code.IsChain Edges.Fits) {opening : Edges}
    (hopening : opening.ends = false) :
    (opening :: (code ++ [Fragment.close.edges])).IsChain Edges.Fits := by
  refine List.isChain_cons.2 ⟨fun edge _ => Edges.fits_of_not_ends hopening edge, ?_⟩
  refine List.isChain_append.2 ⟨h, List.isChain_singleton _, fun edge _ last hlast => ?_⟩
  exact Edges.fits_of_not_starts edge (Option.some.inj hlast ▸ rfl)

theorem Edges.isChain_parted {first second : List Edges} {middle : Edges}
    (hfirst : first.IsChain Edges.Fits) (hsecond : second.IsChain Edges.Fits)
    (hstarts : middle.starts = false) (hends : middle.ends = false) :
    (first ++ middle :: second).IsChain Edges.Fits := by
  refine List.isChain_append.2 ⟨hfirst, List.isChain_cons.2 ⟨fun edge _ => ?_, hsecond⟩, ?_⟩
  · exact Edges.fits_of_not_ends hends edge
  · intro edge _ next hnext
    exact Edges.fits_of_not_starts edge (Option.some.inj hnext ▸ hstarts)

/-- Neighbours in the code of a walk fit. -/
theorem Visits.isChain_edges {stretch : Stretch} (h : Visits s depth stretch d es d') :
    (edges es).IsChain Edges.Fits := by
  induction h with
  | nil => exact List.isChain_nil
  | @cons depth _ previous node rest _ _ _ es es' hnode hrest ihnode ihrest =>
    have hcode : (edges es ++ edges es').IsChain Edges.Fits :=
      List.isChain_append.2 ⟨ihnode, ihrest, hnode.endsBefore.fits hrest⟩
    rw [edges_cons, edges_joint]
    split
    · exact Edges.isChain_parted List.isChain_nil hcode rfl rfl
    · exact hcode
  | bars _ _ _ ih =>
    rw [edges_between]
    exact Edges.isChain_between ih rfl
  | piece => exact List.isChain_singleton _
  | name => exact List.isChain_singleton _
  | reference => exact List.isChain_singleton _
  | application _ _ _ _ _ _ ih =>
    rw [edges_append, edges_append, edges_pairing]
    exact Edges.isChain_between ih rfl
  | atom hentry =>
    obtain ⟨mark, -, hedges⟩ := Entry.edges_instruction hentry
    rw [hedges]
    exact List.isChain_singleton _
  | power _ _ _ _ ihbase ihexponent =>
    rw [edges_between, edges_append, edges_cons_append]
    exact Edges.isChain_between (Edges.isChain_parted ihbase ihexponent rfl rfl) rfl
  | angle _ _ ih => exact ih
  | derivative _ _ _ _ ih =>
    rw [edges_append, edges_append, edges_pairing]
    exact Edges.isChain_between ih rfl
  | fraction _ _ _ _ ihnumerator ihdenominator =>
    rw [edges_between, edges_append, edges_cons_append, edges_between, edges_between]
    exact Edges.isChain_between (Edges.isChain_parted (Edges.isChain_between ihnumerator rfl)
      (Edges.isChain_between ihdenominator rfl) rfl rfl) rfl
  | root _ _ ih =>
    rw [edges_between]
    exact Edges.isChain_between ih rfl
  | group _ ih => exact ih
  | sum _ _ _ ih =>
    rw [edges_between]
    exact Edges.isChain_between ih rfl
  | integral _ _ _ _ ih =>
    rw [edges_cons_warning, edges_between]
    exact Edges.isChain_between ih rfl
  | turned _ _ _ ih =>
    rw [edges_between]
    exact Edges.isChain_between ih rfl

/-! ## Branches -/

theorem Entry.putsAlike_instruction {symbol : String} {entry : Entry}
    (h : Entry.ofSymbol? symbol = some entry) :
    entry.instruction.PutsAlike Fragment.edges := by
  obtain ⟨mark, -, hmark⟩ := Option.bind_eq_some_iff.1 h
  cases mark with
  | equality => cases hmark
  | plusMinus =>
    obtain rfl := Option.some.inj hmark
    exact List.forall_mem_cons.2 ⟨rfl, List.forall_mem_singleton.2 rfl⟩
  | _ =>
    obtain rfl := Option.some.inj hmark
    trivial

section

variable {make : Nat → Nat → Fragment}

theorem Walk.putsAlike_pairing (d : Declared) (equation : Equation Float)
    (hmake : ∀ external branch, (make external 0).edges = (make external branch).edges) :
    ∀ i ∈ instructions (Walk.pairing d equation make), i.PutsAlike Fragment.edges :=
  List.forall_mem_cons.2 ⟨trivial, List.forall_mem_singleton.2 (hmake _)⟩

/-- A function of an external with its arguments. -/
theorem Walk.putsAlike_applied (d : Declared) (equation : Equation Float)
    (hmake : ∀ external branch, (make external 0).edges = (make external branch).edges)
    (hbody : ∀ i ∈ instructions es, i.PutsAlike Fragment.edges) {warnings : List Emission}
    (hwarnings : instructions warnings = []) :
    ∀ i ∈ instructions (Walk.pairing d equation make ++ es ++
      .instruction (.append .close) :: warnings), i.PutsAlike Fragment.edges := by
  rw [instructions_append, instructions_append, instructions_cons_instruction, hwarnings]
  exact List.forall_mem_append.2 ⟨List.forall_mem_append.2
    ⟨Walk.putsAlike_pairing d equation hmake, hbody⟩, List.forall_mem_singleton.2 trivial⟩

end

/-- Signs and branches of externals have the same edges. -/
theorem Visits.putsAlike {stretch : Stretch} (h : Visits s depth stretch d es d') :
    ∀ i ∈ instructions es, i.PutsAlike Fragment.edges := by
  induction h with
  | nil => exact List.forall_mem_nil _
  | cons _ _ ihnode ihrest =>
    rw [instructions_append, Walk.instructions_joint]
    simp only [List.forall_mem_append, instructions_cons_visit, instructions_append]
    refine ⟨?_, ihnode, ihrest⟩
    split
    · exact List.forall_mem_singleton.2 trivial
    · exact List.forall_mem_nil _
  | reference => exact Walk.putsAlike_pairing _ _ fun _ _ => rfl
  | application _ _ _ _ _ _ ih => exact Walk.putsAlike_applied _ _ (fun _ _ => rfl) ih rfl
  | atom hentry => exact List.forall_mem_singleton.2 (Entry.putsAlike_instruction hentry)
  | angle _ _ ih => exact ih
  | derivative _ _ _ _ ih => exact Walk.putsAlike_applied _ _ (fun _ _ => rfl) ih rfl
  | group _ ih => exact ih
  | _ => simp_all [Instruction.PutsAlike, or_imp]

namespace Session

/-- What is grown from the code of a walk has no operand directly behind another one, in whatever
branch. -/
theorem operands_apart_of_walk (s : Session) {nodes right : List Node}
    {binding : Option Binding} {es : List Emission} {d : Declared}
    (hsides : splitSides nodes = .ok (binding, right))
    (hwalk : s.walk binding right {} = (es, .ok ((), d))) :
    (s.assemble nodes).1 = es ∧
      ∃ set, BranchSet.runAll {} (Emission.instructions es) = some set ∧
        ∀ b ∈ set.branches, Fragment.OperandsApart b.fragments := by
  have hvisits := walk_eq_ok_iff.1 hwalk
  obtain ⟨set, hrun, -⟩ :=
    BranchSet.exists_multiplies BranchSet.pairedAs_empty hvisits.counts.pairsFirst
  refine ⟨?_, set, hrun, ?_⟩
  · rw [assemble_of_visits hsides hvisits]
  · intro b hb
    obtain ⟨k, hk⟩ := List.mem_iff_getElem?.1 hb
    have hfragments := fragments_runAll hrun k
    rw [hk, Option.map_some] at hfragments
    obtain ⟨code, hcode, hjoined⟩ := Option.map_eq_some_iff.1 hfragments.symm
    rw [← hjoined]
    refine Fragment.operandsApart_joined ?_
    rw [map_script_of_putsAlike hvisits.putsAlike hcode]
    exact hvisits.isChain_edges

/-- In `2 3 {} | x | y` a group without code stands between a number in two pieces and a bar. -/
theorem operands_apart_around_empty_group :
    ∃ es d,
      splitSides [.literal "2", .literal "3", .group [], .literal "|", .var "x", .literal "|",
        .var "y"] = .ok (none, [.literal "2", .literal "3", .group [], .literal "|", .var "x",
          .literal "|", .var "y"]) ∧
      (fresh {}).walk none [.literal "2", .literal "3", .group [], .literal "|", .var "x",
        .literal "|", .var "y"] {} = (es, .ok ((), d)) ∧
      ((fresh {}).assemble [.literal "2", .literal "3", .group [], .literal "|", .var "x",
        .literal "|", .var "y"]).1 = es ∧
      ∃ set, BranchSet.runAll {} (Emission.instructions es) = some set ∧
        (∀ b ∈ set.branches, Fragment.OperandsApart b.fragments) ∧
        set.branches.map Branch.fragments = [[.number "23", .operator .multiply,
          .operator .multiply, .call .absolute, .var "x", .close, .operator .multiply,
          .var "y"]] := by
  have hsides : splitSides [.literal "2", .literal "3", .group [], .literal "|", .var "x",
      .literal "|", .var "y"] = .ok (none, [.literal "2", .literal "3", .group [], .literal "|",
        .var "x", .literal "|", .var "y"]) := splitSides_eq_none (by decide)
  have hvisits : Visits (fresh {}) 0 (.siblings none [.literal "2", .literal "3", .group [],
      .literal "|", .var "x", .literal "|", .var "y"]) (declaredBy none) _ _ :=
    .cons (.piece (by decide)) (.cons (.piece (by decide)) (.cons (.group .nil)
      (.cons (.bars rfl (by decide) (.cons (.name (.inr rfl)) .nil))
        (.cons (.name (.inr rfl)) .nil))))
  have hwalk := walk_eq_ok_iff.2 hvisits
  obtain ⟨hes, set, hrun, hapart⟩ := operands_apart_of_walk (fresh {}) hsides hwalk
  refine ⟨_, _, hsides, hwalk, hes, set, hrun, hapart, ?_⟩
  obtain rfl := Option.some.inj hrun
  rfl

end Session

end Formulary
