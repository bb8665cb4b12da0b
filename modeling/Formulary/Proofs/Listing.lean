import Formulary.Proofs.Arity
import Formulary.Proofs.Leaves
import Formulary.Proofs.Operands

/-!
# The leaves of the right side

A node list has leaves of its own, read off the nodes without compiling them: one number for each
run of pieces, one leaf for each name, and nothing for bars, limits and the marker that ends an
integral. Whatever a node list compiles to has exactly these leaves, in this order.
-/

namespace Formulary

/-! ## The leaves of a node list -/

section Nodes

variable (s : Session) (externals : List (Equation Float))

/-- What a name is where it takes no operand: a variable, or the earlier variable of that name. -/
inductive Node.Names : String → Leaf String → Prop
  | var (name : String) : Names name (.var name)
  | reference {name : String} {equation : Equation Float} {external : Nat} :
      s.resolve name = some equation → equation.isFunction = false →
      externals[external]? = some equation → Names name (.reference external)

/-- What a node is that takes the arguments of the earlier function it names. -/
inductive Node.Applies : Node → Leaf String → Prop
  | apply {name : String} {equation : Equation Float} {external : Nat} :
      s.resolve name = some equation → equation.isFunction = true →
      externals[external]? = some equation → Applies (.var name) (.apply external)
  | derivative {name : String} {equation : Equation Float} {external : Nat} :
      s.resolveFunction name = some equation → externals[external]? = some equation →
      Applies (.prime (.var name)) (.derivative external)

/-- The leaves of siblings in order. An operand is listed apart from the nodes behind it. -/
inductive Listing : List Node → List (Leaf String) → Prop
  | nil : Listing [] []
  /-- A run of pieces that does not go on is one number. -/
  | number {texts : List String} {rest : List Node} {ls : List (Leaf String)} :
      texts ≠ [] → Node.bar ∉ texts → rest.head?.any Node.isNumeric = false → Listing rest ls →
      Listing (texts.map .literal ++ rest) (.number (String.join texts) :: ls)
  | name {name : String} {l : Leaf String} {rest : List Node} {ls : List (Leaf String)} :
      Node.Names s externals name l → Listing rest ls → Listing (.var name :: rest) (l :: ls)
  /-- A function comes before its arguments. -/
  | application {anchor : Node} {l : Leaf String} {nodes rest : List Node}
      {ls ls' : List (Leaf String)} :
      Node.Applies s externals anchor l →
      (Operand.following false (anchor :: nodes)).isParenthesized = true →
      nodes = (Operand.following false (anchor :: nodes)).nodes ++ rest →
      Listing (Operand.following false (anchor :: nodes)).inner ls → Listing rest ls' →
      Listing (anchor :: nodes) (l :: (ls ++ ls'))
  | atom {symbol : String} {rest : List Node} {ls : List (Leaf String)} :
      (Entry.ofSymbol? symbol).isSome = true → Listing rest ls → Listing (.atom symbol :: rest) ls
  | bars {nodes rest : List Node} {ls ls' : List (Leaf String)} :
      nodes = (Operand.absolute (.literal Node.bar :: nodes)).nodes ++ .literal Node.bar :: rest →
      Listing (Operand.absolute (.literal Node.bar :: nodes)).nodes ls → Listing rest ls' →
      Listing (.literal Node.bar :: nodes) (ls ++ ls')
  | power {base exponent : Node} {rest : List Node} {ls ls' ls'' : List (Leaf String)} :
      Listing [base] ls → Listing [exponent] ls' → Listing rest ls'' →
      Listing (.power base exponent :: rest) (ls ++ ls' ++ ls'')
  | angle {base : Node} {rest : List Node} {ls ls' : List (Leaf String)} :
      Listing [base] ls → Listing rest ls' → Listing (.angle base :: rest) (ls ++ ls')
  | fraction {numerator denominator rest : List Node} {ls ls' ls'' : List (Leaf String)} :
      Listing numerator ls → Listing denominator ls' → Listing rest ls'' →
      Listing (.fraction numerator denominator :: rest) (ls ++ ls' ++ ls'')
  | root {body rest : List Node} {ls ls' : List (Leaf String)} :
      Listing body ls → Listing rest ls' → Listing (.root body :: rest) (ls ++ ls')
  | group {body rest : List Node} {ls ls' : List (Leaf String)} :
      Listing body ls → Listing rest ls' → Listing (.group body :: rest) (ls ++ ls')
  /-- Only an integral may have a marker behind its operand. -/
  | named {name : OperatorName} {lower upper : Option (List Node)} {nodes rest : List Node}
      {ls ls' : List (Leaf String)} :
      nodes = (Operand.following (name == .integral) (.named name lower upper :: nodes)).nodes ++
        (Operand.following (name == .integral) (.named name lower upper :: nodes)).marker ++ rest →
      Listing (Operand.following (name == .integral) (.named name lower upper :: nodes)).nodes ls →
      Listing rest ls' → Listing (.named name lower upper :: nodes) (ls ++ ls')

end Nodes

/-! ## The atoms of a node list -/

namespace Node

mutual

/-- The symbols of the atoms in a node and in all that it holds, limits apart. -/
def atoms : Node → List String
  | literal _ | var _ | named _ _ _ => []
  | atom symbol => [symbol]
  | power base exponent => base.atoms ++ exponent.atoms
  | angle base | prime base => base.atoms
  | fraction numerator denominator => atomsAll numerator ++ atomsAll denominator
  | root body | group body => atomsAll body

def atomsAll : List Node → List String
  | [] => []
  | node :: rest => node.atoms ++ atomsAll rest

end

theorem atomsAll_singleton (node : Node) : atomsAll [node] = node.atoms := List.append_nil _

theorem atomsAll_append (first second : List Node) :
    atomsAll (first ++ second) = atomsAll first ++ atomsAll second := by
  induction first with
  | nil => rfl
  | cons node rest ih => rw [List.cons_append, atomsAll, atomsAll, ih, List.append_assoc]

theorem atomsAll_pieces (texts : List String) : atomsAll (texts.map .literal) = [] := by
  induction texts with
  | nil => rfl
  | cons text texts ih => rw [List.map_cons, atomsAll, ih, atoms, List.nil_append]

/-- Whatever has a mark other than the equality has an entry. -/
theorem isSome_entry_of_mark {node : Node} {mark : Mark} (h : node.mark? = some mark)
    (hmark : mark ≠ .equality) : ∀ symbol ∈ node.atoms, (Entry.ofSymbol? symbol).isSome = true := by
  cases node with
  | atom symbol =>
    have hentry : Entry.ofSymbol? symbol = Entry.ofMark? mark := by
      rw [mark?] at h
      rw [Entry.ofSymbol?, h, Option.bind_some]
    rw [atoms, List.forall_mem_singleton, hentry]
    cases mark with
    | equality => exact absurd rfl hmark
    | _ => rfl
  | _ => cases h

end Node

/-- No atom that is passed over is left without an entry in the operator table. -/
theorem Listing.isSome_entry {s : Session} {externals : List (Equation Float)} {nodes : List Node}
    {ls : List (Leaf String)} (h : Listing s externals nodes ls) :
    ∀ symbol ∈ Node.atomsAll nodes, (Entry.ofSymbol? symbol).isSome = true := by
  have hmarker : ∀ o : Operand, Node.atomsAll o.marker = [] := by
    intro o
    unfold Operand.marker
    split <;> rfl
  induction h with
  | nil => exact List.forall_mem_nil _
  | number _ _ _ _ ih => rwa [Node.atomsAll_append, Node.atomsAll_pieces]
  | name _ _ ih => exact ih
  | @application anchor _ nodes rest _ _ happlies hparens hsplit _ _ ihinner ihrest =>
    obtain ⟨opening, closing, hopening, hclosing, hnodes⟩ :=
      Operand.nodes_of_isParenthesized hparens
    have hanchor : anchor.atoms = [] := by cases happlies <;> rfl
    rw [Node.atomsAll, hanchor, hsplit, hnodes, Node.atomsAll_append, Node.atomsAll,
      Node.atomsAll_append, Node.atomsAll, Node.atomsAll, List.nil_append, List.append_nil]
    exact List.forall_mem_append.2 ⟨List.forall_mem_append.2
      ⟨Node.isSome_entry_of_mark (beq_iff_eq.1 hopening) (by decide),
        List.forall_mem_append.2 ⟨ihinner,
          Node.isSome_entry_of_mark (beq_iff_eq.1 hclosing) (by decide)⟩⟩, ihrest⟩
  | atom hentry _ ih => exact List.forall_mem_cons.2 ⟨hentry, ih⟩
  | bars hsplit _ _ ihinside ihrest =>
    rw [Node.atomsAll, Node.atoms, List.nil_append, hsplit, Node.atomsAll_append]
    exact List.forall_mem_append.2 ⟨ihinside, ihrest⟩
  | power _ _ _ ihbase ihexponent ihrest =>
    rw [Node.atomsAll_singleton] at ihbase ihexponent
    exact List.forall_mem_append.2 ⟨List.forall_mem_append.2 ⟨ihbase, ihexponent⟩, ihrest⟩
  | angle _ _ ihbase ihrest =>
    rw [Node.atomsAll_singleton] at ihbase
    exact List.forall_mem_append.2 ⟨ihbase, ihrest⟩
  | fraction _ _ _ ihnumerator ihdenominator ihrest =>
    exact List.forall_mem_append.2 ⟨List.forall_mem_append.2 ⟨ihnumerator, ihdenominator⟩, ihrest⟩
  | root _ _ ihbody ihrest => exact List.forall_mem_append.2 ⟨ihbody, ihrest⟩
  | group _ _ ihbody ihrest => exact List.forall_mem_append.2 ⟨ihbody, ihrest⟩
  | named hsplit _ _ ihoperand ihrest =>
    rw [Node.atomsAll, Node.atoms, List.nil_append, hsplit, Node.atomsAll_append,
      Node.atomsAll_append, hmarker, List.append_nil]
    exact List.forall_mem_append.2 ⟨ihoperand, ihrest⟩

/-! ## Tokens of a walk -/

namespace Emission

/-- The tokens that emissions put into every branch. -/
def tokens (es : List Emission) : List Token := Instruction.tokens (instructions es)

theorem tokens_append (es es' : List Emission) : tokens (es ++ es') = tokens es ++ tokens es' := by
  rw [tokens, instructions_append]
  exact List.filterMap_append

@[simp] theorem tokens_nil : tokens [] = [] := rfl

@[simp] theorem tokens_visit (depth : Nat) (node : Node) (es : List Emission) :
    tokens (.visit depth node :: es) = tokens es := rfl

@[simp] theorem tokens_code (fragment : Fragment) (es : List Emission) :
    tokens (.instruction (.append fragment) :: es) = fragment.token :: tokens es := rfl

@[simp] theorem tokens_warning (w : Warning) (es : List Emission) :
    tokens (.warning w :: es) = tokens es := rfl

theorem tokens_pairing (d : Declared) (equation : Equation Float) (make : Nat → Nat → Fragment) :
    tokens (Walk.pairing d equation make) = [(make (d.placeOf equation) 0).token] := rfl

/-- No operator is a leaf. -/
theorem tokens_entry {symbol : String} {entry : Entry} (h : Entry.ofSymbol? symbol = some entry) :
    tokens [.instruction entry.instruction] = [.other] := by
  obtain ⟨mark, -, hmark⟩ := Option.bind_eq_some_iff.1 h
  cases mark with
  | equality => cases hmark
  | _ =>
    obtain rfl := Option.some.inj hmark
    rfl

theorem leaves_joint (previous : Option Node) (node : Node) (ts : List Token) :
    Token.leaves (tokens (Walk.joint previous node) ++ ts) = Token.leaves ts := by
  unfold Walk.joint
  split <;> rfl

theorem tokens_between {opening : Fragment} (h : opening.token = .other) (es : List Emission) :
    tokens (Walk.between opening es) = .other :: tokens es ++ [Token.other] := by
  rw [Walk.between, tokens_code, tokens_append, h]
  rfl

end Emission

open Emission (tokens tokens_append tokens_between tokens_pairing tokens_entry)

namespace Token

/-- Nothing behind the tokens changes what they are read as. -/
def Seals (ts : List Token) : Prop := ∀ behind, leaves (ts ++ behind) = leaves ts ++ leaves behind

theorem seals_other (ts : List Token) : Seals (ts ++ [other]) := by
  intro behind
  rw [List.append_assoc, List.singleton_append, leaves_append_other, leaves_append_other,
    leaves_nil, List.append_nil]

theorem seals_leaf (l : Leaf String) : Seals [leaf l] := fun _ => rfl

theorem leaves_separated {f : Fragment} (h : f.token = .other) (es es' : List Emission) :
    leaves (tokens (es ++ .instruction (.append f) :: es')) =
      leaves (tokens es) ++ leaves (tokens es') := by
  rw [tokens_append, Emission.tokens_code, h, leaves_append_other]

theorem leaves_enclosed (ts : List Token) : leaves (other :: ts ++ [other]) = leaves ts := by
  rw [List.cons_append, leaves_other, leaves_append_other, leaves_nil, List.append_nil]

/-- A piece before a number is a part of it. -/
theorem leaves_piece_piece (first second : String) (ts : List Token) :
    ∃ text ls, leaves (piece second :: ts) = .number text :: ls ∧
      leaves (piece first :: piece second :: ts) = .number (first ++ text) :: ls := by
  rw [leaves, leaves, gather_cons _ (piece second :: ts), gather_cons]
  rcases gather ts with ⟨_ | behind, ls⟩
  · exact ⟨_, _, rfl, rfl⟩
  · exact ⟨_, _, rfl, rfl⟩

end Token

open Token

namespace Listing

variable {s : Session} {externals : List (Equation Float)} {nodes : List Node}
  {ls : List (Leaf String)}

theorem of_simple {base : Node} (hbase : Walk.simple base ≠ [])
    (h : Listing s externals (Walk.simple base) ls) : Listing s externals [base] ls := by
  rcases Walk.simple_eq_or_group hbase with hself | hgroup
  · rwa [hself] at h
  · rw [hgroup, ← List.append_nil ls]
    exact .group h .nil

/-- A piece before a number is the beginning of it. -/
theorem piece_number {text number : String} (htext : text ≠ Node.bar)
    (hnodes : nodes.head?.any Node.isNumeric = true)
    (h : Listing s externals nodes (.number number :: ls)) :
    Listing s externals (.literal text :: nodes) (.number (text ++ number) :: ls) := by
  generalize hleaves : Leaf.number number :: ls = leaves at h
  cases h with
  | number hne hbar hend hrest =>
    obtain ⟨rfl, rfl⟩ : number = _ ∧ ls = _ := by simpa using hleaves
    rw [← String.join_cons]
    exact .number (List.cons_ne_nil _ _) (List.not_mem_cons_of_ne_of_not_mem htext.symm hbar) hend
      hrest
  | application hanchor => cases hanchor <;> cases hnodes
  | _ => cases hnodes

end Listing

/-! ## A walk lists its leaves -/

section Walk

variable {s : Session} {externals : List (Equation Float)} {depth : Nat} {d d₁ d' : Declared}
  {es es' : List Emission}

/-- A piece may go on behind its node if that takes nothing, and heads no sum; it is no atom then. -/
theorem Visits.seals {node : Node} {rest : List Node} {consumed : Nat}
    (h : Visits s depth (.single node rest consumed) d es d') :
    Seals (tokens es) ∨ consumed = 0 ∧ node.isSum = false ∧ node.mark? = none := by
  have hclosed : ∀ {opening : Fragment} (es : List Emission), opening.token = .other →
      Seals (tokens (Walk.between opening es)) := by
    intro opening es hopening
    rw [tokens_between hopening]
    exact seals_other _
  cases h with
  | bars => exact .inl (hclosed _ rfl)
  | piece => exact .inr ⟨rfl, rfl, rfl⟩
  | name => exact .inl (seals_leaf _)
  | reference => exact .inl (seals_leaf _)
  | application =>
    rw [tokens_append]
    exact .inl (seals_other _)
  | atom hentry =>
    rw [tokens_entry hentry]
    exact .inl (seals_other [])
  | power => exact .inl (hclosed _ rfl)
  | angle => exact .inr ⟨rfl, rfl, rfl⟩
  | derivative =>
    rw [tokens_append]
    exact .inl (seals_other _)
  | fraction => exact .inl (hclosed _ rfl)
  | root => exact .inl (hclosed _ rfl)
  | group => exact .inr ⟨rfl, rfl, rfl⟩
  | sum => exact .inl (hclosed _ rfl)
  | integral => exact .inl (hclosed _ rfl)
  | turned => exact .inl (hclosed _ rfl)

/-- Two neighbours that are no atoms are multiplied unless they are pieces or the first heads a
sum. -/
theorem Node.juxtaposed_of_mark {previous next : Node} (hsum : previous.isSum = false)
    (hprevious : previous.mark? = none) (hnext : next.mark? = none)
    (hpieces : previous.isNumeric = false ∨ next.isNumeric = false) :
    previous.juxtaposed next = true := by
  have hneighbours : (previous.isNumeric && next.isNumeric) = false := by
    rcases hpieces with h | h <;> simp [h]
  simp [juxtaposed, hneighbours, hsum, isOpen, isClose, isArithmetic, isSeparator, hprevious, hnext]

/-- Behind a piece that does not go on, either a sign is put in or there is an operator. -/
theorem Visits.first_is_no_piece {previous : Node} {nodes : List Node}
    (hsum : previous.isSum = false) (hmark : previous.mark? = none)
    (hpieces : previous.isNumeric = false ∨ nodes.head?.any Node.isNumeric = false)
    (h : Visits s depth (.siblings (some previous) nodes) d es d') :
    (gather (tokens es)).1 = none := by
  cases h with
  | nil => rfl
  | @cons _ consumed _ next rest _ _ _ es₁ es₂ hnext hrest =>
    cases hnextMark : next.mark? with
    | none =>
      have hjoint : Walk.joint (some previous) next =
          [.instruction (.append (.operator .multiply))] :=
        if_pos (Node.juxtaposed_of_mark hsum hmark hnextMark hpieces)
      rw [hjoint]
      rfl
    | some mark =>
      cases hnext with
      | atom hentry =>
        rw [tokens_append, Emission.tokens_visit, tokens_append, tokens_entry hentry, Walk.joint]
        split <;> rfl
      | _ => cases hnextMark

/-- Tokens of neighbours are read apart unless both are pieces of one number. -/
theorem Visits.leaves_append {node : Node} {rest : List Node} {consumed : Nat}
    (hnode : Visits s depth (.single node rest consumed) d es d₁)
    (hrest : Visits s depth
      (.siblings (node :: rest.take consumed).getLast? (rest.drop consumed)) d₁ es' d')
    (hpieces : node.isNumeric = false ∨ rest.head?.any Node.isNumeric = false) :
    leaves (tokens es ++ tokens es') = leaves (tokens es) ++ leaves (tokens es') := by
  rcases hnode.seals with hseals | ⟨rfl, hsum, hmark⟩
  · exact hseals _
  · rw [List.take_zero, List.getLast?_singleton, List.drop_zero] at hrest
    exact Token.leaves_append _ (hrest.first_is_no_piece hsum hmark hpieces)

variable (s externals) in
/-- The tokens are those of the nodes; those of one node are followed by those of the nodes behind
its own. -/
def Stretch.Lists (ts : List Token) : Stretch → Prop
  | siblings _ nodes => Listing s externals nodes (leaves ts)
  | single node rest consumed => node.isNumeric = false →
      ∀ ls, Listing s externals (rest.drop consumed) ls →
        Listing s externals (node :: rest) (leaves ts ++ ls)

/-- A piece is a number, or the beginning of the number behind it. -/
theorem Listing.piece {text : String} {rest : List Node} (htext : text ≠ Node.bar)
    (h : Visits s depth (.siblings (some (.literal text)) rest) d es d')
    (hrest : Listing s externals rest (leaves (tokens es))) :
    Listing s externals (.literal text :: rest) (leaves (.piece text :: tokens es)) := by
  by_cases hnumeric : rest.head?.any Node.isNumeric = true
  · cases h with
    | nil => cases hnumeric
    | @cons _ consumed _ next rest _ _ _ es₁ es₂ hnext hbehind =>
      cases hnext with
      | @piece _ text' _ _ htext' =>
        have htokens : tokens (Walk.joint (some (.literal text)) (.literal text') ++
            .visit depth (.literal text') :: ([.instruction (.append (.number text'))] ++ es₂)) =
            .piece text' :: tokens es₂ := by
          simp [Walk.joint, Node.juxtaposed, Node.isNumeric, htext, htext', Fragment.token]
        rw [htokens] at hrest ⊢
        obtain ⟨number, ls, hfirst, hboth⟩ := leaves_piece_piece text text' (tokens es₂)
        rw [hfirst] at hrest
        rw [hboth]
        exact hrest.piece_number htext hnumeric
      | bars => simp [Node.isNumeric] at hnumeric
      | _ => cases hnumeric
  · rw [Bool.not_eq_true] at hnumeric
    have hfirst := h.first_is_no_piece rfl rfl (.inr hnumeric)
    have hleaves : leaves (.piece text :: tokens es) = .number text :: leaves (tokens es) :=
      Token.leaves_append [.piece text] hfirst
    have hjoin : String.join [text] = text := by simp [String.join]
    rw [hleaves, ← hjoin]
    have hbar : Node.bar ∉ [text] := List.mem_singleton.not.2 htext.symm
    exact .number (List.cons_ne_nil _ _) hbar hnumeric hrest

/-- A walk lists the leaves of its nodes. -/
theorem Visits.lists {stretch : Stretch} (hs : s.NamesBind)
    (h : Visits s depth stretch d es d') (hd : d.Resolved s) (hgrows : d'.externals <+: externals) :
    stretch.Lists s externals (tokens es) := by
  have happlied : ∀ {anchor : Node} {rest : List Node} {l : Leaf String} {f : Fragment}
      {es : List Emission} {ls : List (Leaf String)},
      f.token = .leaf l → Node.Applies s externals anchor l →
      (Operand.following false (anchor :: rest)).isParenthesized = true →
      Listing s externals (Operand.following false (anchor :: rest)).inner (leaves (tokens es)) →
      Listing s externals (rest.drop (Operand.following false (anchor :: rest)).consumed) ls →
      Listing s externals (anchor :: rest) (leaves (f.token :: tokens es ++ [.other]) ++ ls) := by
    intro anchor rest l f es ls hf happlies hparens hinner hrest
    rw [hf, List.cons_append, leaves_leaf, leaves_append_other, leaves_nil, List.append_nil]
    exact .application happlies hparens (Operand.split_unmarked anchor rest) hinner hrest
  induction h with
  | nil => exact .nil
  | @cons _ consumed previous node rest _ _ _ es es' hnode hrest ihnode ihrest =>
    have hlist := ihnode hd (hrest.externals_grow.trans hgrows)
    have hlistRest : Listing s externals (rest.drop consumed) (leaves (tokens es')) :=
      ihrest (hnode.resolved hs hd) hgrows
    rw [Stretch.Lists, tokens_append, Emission.leaves_joint, Emission.tokens_visit, tokens_append]
    cases hnumeric : node.isNumeric with
    | false =>
      rw [hnode.leaves_append hrest (.inl hnumeric)]
      exact hlist hnumeric _ hlistRest
    | true =>
      cases hnode with
      | piece htext => exact .piece htext hrest hlistRest
      | bars => simp [Node.isNumeric] at hnumeric
      | _ => cases hnumeric
  | bars hclosed _ _ ih =>
    intro _ ls hrest
    rw [tokens_between rfl, leaves_enclosed]
    exact .bars (Operand.split_absolute hclosed) (ih hd hgrows) hrest
  | piece htext =>
    intro hnumeric
    simp [Node.isNumeric, htext] at hnumeric
  | name =>
    intro _ ls hrest
    exact .name (.var _) hrest
  | reference _ hresolve hvariable =>
    intro _ ls hrest
    have hexternal := Declared.getElem?_of_grow hs hd hresolve hgrows
    exact .name (.reference hresolve hvariable hexternal) hrest
  | application _ hresolve hfunction hparens _ hbody ih =>
    intro _ ls hrest
    have hexternal := Declared.getElem?_of_grow hs hd hresolve (hbody.externals_grow.trans hgrows)
    have hinner := ih (hd.declaring (hs.name?_of_resolve hresolve) hresolve) hgrows
    rw [tokens_append, tokens_append, tokens_pairing]
    exact happlied rfl (.apply hresolve hfunction hexternal) hparens hinner hrest
  | atom hentry =>
    intro _ ls hrest
    rw [tokens_entry hentry]
    exact .atom (by rw [hentry]; rfl) hrest
  | power hbase hexponent h₁ h₂ ih₁ ih₂ =>
    intro _ ls hrest
    rw [tokens_between rfl, leaves_enclosed, leaves_separated rfl]
    exact .power (.of_simple hbase (ih₁ hd (h₂.externals_grow.trans hgrows)))
      (.of_simple hexponent (ih₂ (h₁.resolved hs hd) hgrows)) hrest
  | angle hbase _ ih =>
    intro _ ls hrest
    exact .angle (.of_simple hbase (ih hd hgrows)) hrest
  | derivative hresolve hparens _ hbody ih =>
    intro _ ls hrest
    have hresolve' := Option.eq_some_of_filter_eq_some hresolve
    have hexternal := Declared.getElem?_of_grow hs hd hresolve' (hbody.externals_grow.trans hgrows)
    have hinner := ih (hd.declaring (hs.name?_of_resolve hresolve') hresolve') hgrows
    rw [tokens_append, tokens_append, tokens_pairing]
    exact happlied rfl (.derivative hresolve hexternal) hparens hinner hrest
  | fraction _ _ h₁ h₂ ih₁ ih₂ =>
    intro _ ls hrest
    rw [tokens_between rfl, leaves_enclosed, leaves_separated rfl, tokens_between rfl,
      leaves_enclosed, tokens_between rfl, leaves_enclosed]
    exact .fraction (ih₁ hd (h₂.externals_grow.trans hgrows)) (ih₂ (h₁.resolved hs hd) hgrows) hrest
  | root _ _ ih =>
    intro _ ls hrest
    rw [tokens_between rfl, leaves_enclosed]
    exact .root (ih hd hgrows) hrest
  | group _ ih =>
    intro _ ls hrest
    exact .group (ih hd hgrows) hrest
  | @sum _ lower upper rest _ _ _ _ _ _ _ ih =>
    intro _ ls hrest
    rw [tokens_between rfl, leaves_enclosed]
    exact .named (Operand.split_following false (.named .sum lower upper) rest) (ih hd hgrows) hrest
  | @integral _ lower upper rest _ _ _ _ _ _ _ _ _ ih =>
    intro _ ls hrest
    rw [Emission.tokens_warning, tokens_between rfl, leaves_enclosed]
    exact .named (Operand.split_following true (.named .integral lower upper) rest) (ih hd hgrows)
      hrest
  | @turned _ operator _ rest _ _ _ hturning _ _ ih =>
    intro _ ls hrest
    have hunmarked : (operator == .integral) = false := by
      cases operator with
      | integral => cases hturning
      | _ => rfl
    have hsplit := Operand.split_following false (.named operator none none) rest
    rw [tokens_between rfl, leaves_enclosed]
    rw [← hunmarked] at hsplit ih hrest
    exact .named hsplit (ih hd hgrows) hrest

end Walk

namespace Session

/-- Every branch of an equation has the leaves of its right side, no more and no fewer, in the order
of the nodes; and every atom among the nodes has an entry in the operator table. -/
theorem compile_keeps_leaves {s : Session} (hs : s.Reachable) {nodes : List Node}
    {equation : Equation Float} (h : (s.compile nodes).outcome = .ok equation) :
    (∃ listing, Listing s equation.externals (Node.rightSide nodes) listing ∧
      ∀ e ∈ equation.branches, List.Forall₂ Leaf.ReadsAs listing e.leaves) ∧
    ∀ symbol ∈ Node.atomsAll (Node.rightSide nodes), (Entry.ofSymbol? symbol).isSome = true := by
  obtain ⟨binding, right, es, d, branches, hsides, hvisits, hread, rfl⟩ :=
    compile_outcome_eq_ok_iff.1 h
  obtain rfl := eq_rightSide_of_splitSides hsides
  have hresolved := resolved_declaredBy s binding
  have hlisting : Listing s d.externals (Node.rightSide nodes) (leaves (tokens es)) :=
    hvisits.lists hs.namesBind hresolved List.prefix_rfl
  have hlinked := hvisits.isLinked hs.namesBind hresolved (fun _ _ => trivial)
    (List.prefix_rfl (l := d.externals))
  exact ⟨⟨_, hlisting, fun e he => leaves_of_mem hlinked hread he⟩, hlisting.isSome_entry⟩

/-- In `12 f(a)` two pieces make one number, and the function comes before its argument. -/
theorem compile_keeps_leaves_of_application : ∃ (s : Session) (equation : Equation Float),
    s.Reachable ∧
    (s.compile [.literal "1", .literal "2", .var "f", .atom "(", .var "a", .atom ")"]).outcome =
      .ok equation ∧
    (∃ listing, Listing s equation.externals
        [.literal "1", .literal "2", .var "f", .atom "(", .var "a", .atom ")"] listing ∧
      ∀ e ∈ equation.branches, List.Forall₂ Leaf.ReadsAs listing e.leaves) ∧
    equation.branches.map Expression.leaves =
      [[.number (Decimal.Literal.finite false 12 0).toFloat, .apply 0, .var "a"]] := by
  have hs : ((fresh {}).compile [.var "f", .atom "(", .var "x", .atom ")", .atom "=",
      .var "x"]).session.Reachable := .compile _ (.fresh {})
  rw [session_compile_of_ok compile_identity] at hs
  have hvisits : Visits ((fresh {}).register
      ⟨some ⟨"f", .function, ["x"]⟩, ["x"], [], [.var "x"], []⟩) 0
      (.siblings none [.literal "1", .literal "2", .var "f", .atom "(", .var "a", .atom ")"])
      (declaredBy none) _ _ :=
    .cons (.piece (by decide)) (.cons (.piece (by decide))
      (.cons (.application rfl rfl rfl rfl rfl (.cons (.name (.inr rfl)) .nil)) .nil))
  have hnumber : Decimal.float? "12" = some (Decimal.Literal.finite false 12 0).toFloat := by
    have hliteral : Decimal.Literal.parse? "12".toList = some (.finite false 12 0) := by decide
    rw [Decimal.float?, hliteral, Option.map_some]
  have hread : readBranches [.append (.number "1"), .append (.number "2"),
      .append (.operator .multiply), .pair 0 1, .appendPaired 0 (.apply 0), .append (.var "a"),
      .append .close] = .ok [.binary .multiply
        (.number (Decimal.Literal.finite false 12 0).toFloat) (.apply 0 0 [.var "a"])] := by
    refine readBranches_single rfl (Expression.parse_eq_ok_iff.2 ?_)
    have hargument := Expression.IsSum.product (.signed (.operand (.var "a")))
    have hleft := Expression.IsProduct.signed (.operand (.number hnumber))
    have hright := Expression.IsSigned.operand (.apply 0 0 (.some (.last hargument)))
    exact .product (hleft.more rfl hright)
  obtain ⟨equation, hcompile, hbranches⟩ : ∃ equation, (((fresh {}).register
      ⟨some ⟨"f", .function, ["x"]⟩, ["x"], [], [.var "x"], []⟩).compile
        [.literal "1", .literal "2", .var "f", .atom "(", .var "a", .atom ")"]).outcome =
          .ok equation ∧ equation.branches = [.binary .multiply
        (.number (Decimal.Literal.finite false 12 0).toFloat) (.apply 0 0 [.var "a"])] :=
    ⟨_, compile_outcome_eq_ok_iff.2 ⟨none, _, _, _, _, rfl, hvisits, hread, rfl⟩, rfl⟩
  refine ⟨_, equation, hs, hcompile, (compile_keeps_leaves hs hcompile).1, ?_⟩
  rw [hbranches]
  rfl

end Session

end Formulary
