import Mathlib.Data.List.Forall2
import Formulary.Proofs.Enclosure
import Formulary.Proofs.Rooms

/-!
# Applications with several arguments

The operand runs of an argument are looked for in the whole list of arguments, and a separator does
not end them. Only where no run of an argument is still open at the separator behind it, the
arguments are compiled as each of them is by itself.
-/

namespace Formulary

/-! ## Parentheses with their partners -/

namespace Operand

/-- How many parentheses are open behind the nodes when `depth` are open before them. There is no
answer when more are closed than are open. -/
def openBehind : Nat → List Node → Option Nat
  | depth, [] => some depth
  | depth, node :: rest =>
    if node.isClose = true ∧ depth = 0 then none else openBehind (depthAfter node depth) rest

/-- No parenthesis stays open that the nodes open. -/
def Shut (nodes : List Node) : Prop := ∃ depth, openBehind depth nodes = some 0

variable {depth depth' : Nat} {node : Node} {nodes rest : List Node}

theorem openBehind_cons (h : openBehind depth (node :: rest) = some depth') :
    (node.isClose = true → 0 < depth) ∧ openBehind (depthAfter node depth) rest = some depth' := by
  rw [openBehind] at h
  split at h
  · cases h
  · next hpartner =>
    exact ⟨fun hclose => Nat.pos_of_ne_zero fun hzero => hpartner ⟨hclose, hzero⟩, h⟩

theorem depthAfter_add (h : node.isClose = true → 0 < depth) (n : Nat) :
    depthAfter node (depth + n) = depthAfter node depth + n := by
  unfold depthAfter
  split
  · omega
  · split
    · next hclose =>
      have hpos := h hclose
      omega
    · rfl

theorem depthAfter_mono {first second : Nat} (h : first ≤ second) (node : Node) :
    depthAfter node first ≤ depthAfter node second := by
  unfold depthAfter
  split
  · omega
  · split <;> omega

/-- A scan inside of parentheses passes over nodes that close no more than is open. -/
theorem scan_openBehind (h : openBehind depth nodes = some depth') (n : Nat) (rest : List Node) :
    scan false true false (depth + n + 1) (nodes ++ rest) =
      (nodes ++ (scan false true false (depth' + n + 1) rest).1,
        (scan false true false (depth' + n + 1) rest).2) := by
  induction nodes generalizing depth with
  | nil =>
    obtain rfl := Option.some.inj h
    rfl
  | cons node nodes ih =>
    obtain ⟨hpartner, hrest⟩ := openBehind_cons h
    have hdepth : depthAfter node (depth + n + 1) = depthAfter node depth + n + 1 := by
      rw [Nat.add_assoc, depthAfter_add hpartner, ← Nat.add_assoc]
    rw [List.cons_append, scan_inside, hdepth, ih hrest, List.cons_append]

/-- What starts no deeper ends no deeper. -/
theorem depthAtEnd_of_openBehind {lower : Nat} (hle : lower ≤ depth)
    (h : openBehind depth nodes = some 0) : depthAtEnd lower nodes = 0 := by
  induction nodes generalizing lower depth with
  | nil =>
    obtain rfl := Option.some.inj h
    exact Nat.le_zero.1 hle
  | cons node rest ih => exact ih (depthAfter_mono hle node) (openBehind_cons h).2

theorem openBehind_append (h : openBehind depth nodes = some depth') (rest : List Node) :
    openBehind depth (nodes ++ rest) = openBehind depth' rest := by
  induction nodes generalizing depth with
  | nil =>
    obtain rfl := Option.some.inj h
    rfl
  | cons node nodes ih =>
    obtain ⟨hpartner, hrest⟩ := openBehind_cons h
    have hopen : ¬(node.isClose = true ∧ depth = 0) := by
      rintro ⟨hclose, rfl⟩
      exact absurd (hpartner hclose) (Nat.lt_irrefl 0)
    rw [List.cons_append, openBehind, if_neg hopen, ih hrest]

theorem balanced_of_openBehind (h : openBehind 0 nodes = some 0) : Balanced nodes := by
  intro depth rest
  have hscan := scan_openBehind h depth rest
  rwa [Nat.zero_add] at hscan

namespace Shut

theorem tail (h : Shut (node :: rest)) : Shut rest := by
  obtain ⟨depth, hdepth⟩ := h
  exact ⟨_, (openBehind_cons hdepth).2⟩

theorem drop (h : Shut nodes) (n : Nat) : Shut (nodes.drop n) := by
  induction n generalizing nodes with
  | zero => exact h
  | succ n ih =>
    cases nodes with
    | nil => exact h
    | cons node rest => exact ih h.tail

/-- A scan that begins anywhere among the nodes has closed all parentheses at their end. -/
theorem depthAtEnd (h : Shut nodes) : depthAtEnd 0 nodes = 0 := by
  obtain ⟨depth, hdepth⟩ := h
  exact depthAtEnd_of_openBehind (Nat.zero_le depth) hdepth

end Shut

/-- Nodes without separators count for nothing. -/
theorem go_unseparated (h : openBehind depth nodes = some depth')
    (hnone : nodes.countP Node.isSeparator = 0) (rest : List Node) :
    argumentCount.go depth (nodes ++ rest) = argumentCount.go depth' rest := by
  induction nodes generalizing depth with
  | nil =>
    obtain rfl := Option.some.inj h
    rfl
  | cons node nodes ih =>
    rw [List.countP_eq_zero] at hnone
    obtain ⟨hnode, hnodes⟩ := List.forall_mem_cons.1 hnone
    rw [List.cons_append, go_cons, ih (openBehind_cons h).2 (List.countP_eq_zero.2 hnodes)]
    simp [hnode]

end Operand

/-- Nodes with separators between them. -/
def Spelling.listed (S : Spelling) (arguments : List (List Node)) : List Node :=
  [S.atom .separator].intercalate arguments

namespace Operand

variable {S : Spelling} {nodes : List Node} {arguments : List (List Node)}

theorem listed_singleton (S : Spelling) (nodes : List Node) : S.listed [nodes] = nodes :=
  List.intercalate_singleton

theorem listed_cons_cons (S : Spelling) (first second : List Node) (more : List (List Node)) :
    S.listed (first :: second :: more) =
      first ++ S.atom .separator :: S.listed (second :: more) := by
  rw [Spelling.listed, List.intercalate_cons_cons, List.append_assoc]
  rfl

theorem isParenthesized_enclosed (S : Spelling) (nodes : List Node) (consumed : Nat) :
    isParenthesized ⟨S.enclosed nodes, consumed, none⟩ = true := by
  have hopening : (S.atom .opening).isOpen = true := by simp [Node.isOpen]
  have hclosing : (S.atom .closing).isClose = true := by simp [Node.isClose]
  cases nodes with
  | nil => simp [isParenthesized, Spelling.enclosed, hopening, hclosing]
  | cons node rest =>
    simp [isParenthesized, Spelling.enclosed, hopening, hclosing, List.getLast?_cons]

theorem inner_enclosed (S : Spelling) (nodes : List Node) (consumed : Nat) :
    inner ⟨S.enclosed nodes, consumed, none⟩ = nodes := by
  rw [inner, if_pos (isParenthesized_enclosed S nodes consumed)]
  simp [Spelling.enclosed]

theorem openBehind_listed (S : Spelling) (h : ∀ nodes ∈ arguments, openBehind 0 nodes = some 0) :
    openBehind 0 (S.listed arguments) = some 0 := by
  induction arguments with
  | nil => rfl
  | cons first more ih =>
    obtain ⟨hfirst, hmore⟩ := List.forall_mem_cons.1 h
    cases more with
    | nil => rwa [listed_singleton]
    | cons second more =>
      have hseparator : openBehind 0 (S.atom .separator :: S.listed (second :: more)) =
          openBehind 0 (S.listed (second :: more)) := by
        simp [openBehind, depthAfter, Node.isOpen, Node.isClose]
      rw [listed_cons_cons, openBehind_append hfirst, hseparator, ih hmore]

theorem isEquality_listed (S : Spelling)
    (h : ∀ nodes ∈ arguments, ∀ n ∈ nodes, n.isEquality = false) :
    ∀ n ∈ S.listed arguments, n.isEquality = false := by
  induction arguments with
  | nil => exact List.forall_mem_nil _
  | cons first more ih =>
    obtain ⟨hfirst, hmore⟩ := List.forall_mem_cons.1 h
    cases more with
    | nil => rwa [listed_singleton]
    | cons second more =>
      have hseparator : (S.atom .separator).isEquality = false := by simp [Node.isEquality]
      rw [listed_cons_cons]
      exact List.forall_mem_append.2 ⟨hfirst, List.forall_mem_cons.2 ⟨hseparator, ih hmore⟩⟩

theorem go_listed {first : List Node} {more : List (List Node)}
    (hpaired : ∀ nodes ∈ first :: more, openBehind 0 nodes = some 0)
    (hnone : ∀ nodes ∈ first :: more, nodes.countP Node.isSeparator = 0) :
    argumentCount.go 0 (S.listed (first :: more)) = more.length := by
  induction more generalizing first with
  | nil =>
    have hgo := go_unseparated (hpaired first List.mem_cons_self) (hnone first List.mem_cons_self)
      []
    rwa [List.append_nil, ← listed_singleton S first] at hgo
  | cons second more ih =>
    obtain ⟨hfirst, hpaired⟩ := List.forall_mem_cons.1 hpaired
    obtain ⟨hfirst', hnone⟩ := List.forall_mem_cons.1 hnone
    have hseparator : (S.atom .separator).isSeparator = true := by simp [Node.isSeparator]
    have hdepth : depthAfter (S.atom .separator) 0 = 0 := by
      simp [depthAfter, Node.isOpen, Node.isClose]
    rw [listed_cons_cons, go_unseparated hfirst hfirst', go_cons, hdepth, ih hpaired hnone,
      if_pos ⟨rfl, hseparator⟩, List.length_cons, Nat.add_comm]

/-- The arguments of a list are counted. -/
theorem argumentCount_listed (hpaired : ∀ nodes ∈ arguments, openBehind 0 nodes = some 0)
    (hnone : ∀ nodes ∈ arguments, nodes.countP Node.isSeparator = 0)
    (hne : ∀ nodes ∈ arguments, nodes ≠ []) :
    argumentCount (S.listed arguments) = arguments.length := by
  cases arguments with
  | nil => rfl
  | cons first more =>
    have hlisted : (S.listed (first :: more)).isEmpty = false := by
      have hfirst := hne first List.mem_cons_self
      cases more with
      | nil => simpa [listed_singleton] using hfirst
      | cons second more => simp [listed_cons_cons]
    rw [argumentCount, hlisted, go_listed hpaired hnone]
    rfl

end Operand

/-! ## Walking over an argument and what is behind it -/

section Walk

variable {s : Session} {S : Spelling} {depth n : Nat} {previous : Option Node} {node : Node}
  {nodes rest tail : List Node} {d d' d'' : Declared} {es es' : List Emission}

/-- A run that is closed where its nodes end is not opened by a separator. -/
theorem Operand.following_separator {marked : Bool} (hrest : rest ≠ []) (hshut : Shut rest)
    (hclosed : staysOpen marked node rest = false) (tail : List Node) :
    following marked (node :: (rest ++ S.atom .separator :: tail)) =
      following marked (node :: rest) := by
  have htail : ∀ name, (S.atom .separator :: tail).head? ≠ some (.var name) := by
    intro name h
    cases h
  rcases following_append marked node hrest htail with ⟨-, heq⟩ | ⟨hall, run, v, hscan, heq⟩
  · exact heq
  · -- The run has reached the end in parentheses of its own, which have been closed there.
    have hparenthesized : rest.head?.any Node.isOpen = true := by
      rw [staysOpen, hall, beq_self_eq_true, Bool.true_and] at hclosed
      simpa using (Bool.or_eq_false_iff.1 hclosed).1
    rw [hparenthesized, hshut.depthAtEnd] at hscan
    have hstop : scan marked true false 0 (S.atom .separator :: tail) = ([], none) := by
      cases marked <;> rfl
    obtain ⟨rfl, rfl⟩ := Prod.mk.inj (hstop.symm.trans hscan)
    rw [heq, hall, List.append_nil]
    rfl

/-- Where no run is open at the end of the nodes, a node takes what it took when there is a
separator behind them. -/
theorem Visits.single_separator (h : Visits s depth (.single node rest n) d es d')
    (hplain : ∀ i ∈ Emission.instructions es, i.IsPlain) (hshut : Operand.Shut rest)
    (hruns : openRuns (node :: rest) = 0) (tail : List Node) :
    n ≤ rest.length ∧ openRuns (rest.drop n) = 0 ∧
      ∃ es₁, Visits s depth (.single node (rest ++ S.atom .separator :: tail) n) d es₁ d' ∧
        Emission.instructions es₁ = Emission.instructions es := by
  rcases h.closed_or_anchored hplain with ⟨hunmarked, hn, hle, hmore⟩ | hanchored
  · rw [openRuns, hunmarked] at hruns
    exact ⟨hle, hn ▸ hruns, es, hmore _, rfl⟩
  · have hsame := hanchored
    obtain ⟨marked, opening, d₀, body, hmarked, hn, hrun, -⟩ := hanchored
    have hrest : rest ≠ [] := by
      rintro rfl
      exact hrun (List.prefix_nil.1 (Operand.following_isPrefix marked [node]))
    rw [openRuns, hmarked] at hruns
    cases hopen : Operand.staysOpen marked node rest with
    | true =>
      simp only [hopen, if_true] at hruns
      omega
    | false =>
      simp only [hopen, Bool.false_eq_true, if_false] at hruns
      refine ⟨hn ▸ Operand.following_consumed_le .., hn ▸ hruns, ?_⟩
      exact hsame.same_run hmarked (Operand.following_separator hrest hshut hopen tail)

/-- Where no run is open at the end of the nodes, the walk over them goes on behind a separator as
it would there. -/
theorem Visits.append_separator (h : Visits s depth (.siblings previous nodes) d es d')
    (hplain : ∀ i ∈ Emission.instructions es, i.IsPlain) (hshut : Operand.Shut nodes)
    (hruns : openRuns nodes = 0)
    (htail : ∀ previous, Visits s depth (.siblings previous (S.atom .separator :: tail)) d' es'
      d'') :
    ∃ es₁, Visits s depth (.siblings previous (nodes ++ S.atom .separator :: tail)) d es₁ d'' ∧
      Emission.instructions es₁ = Emission.instructions es ++ Emission.instructions es' := by
  induction hlength : nodes.length using Nat.strongRecOn generalizing previous nodes d es with
  | ind length ih =>
    cases h with
    | nil => exact ⟨es', htail previous, rfl⟩
    | @cons _ n _ node rest _ d₁ _ es₁ es₂ hnode hrest =>
      subst hlength
      obtain ⟨hfirst, hbehind⟩ := isPlain_append.1 (isPlain_append.1 hplain).2
      have hshorter : (rest.drop n).length < (node :: rest).length := by
        rw [List.length_drop, List.length_cons]
        omega
      obtain ⟨hle, hruns', es₁', hnode', hes₁⟩ :=
        hnode.single_separator (S := S) hfirst hshut.tail hruns tail
      obtain ⟨es₂', hrest', hes₂⟩ := ih _ hshorter hrest hbehind (hshut.tail.drop n) hruns' rfl
      refine ⟨_, .cons_of_le hle hnode' hrest', ?_⟩
      rw [instructions_cons, instructions_cons, hes₁, hes₂, List.append_assoc, List.append_assoc]

end Walk

/-! ## Arguments by themselves -/

/-- The nodes compile by themselves, into one branch and without earlier equations. -/
structure Session.Stands (s : Session) (nodes : List Node) (e : Expression Float) : Prop where
  noEquality : ∀ n ∈ nodes, n.isEquality = false
  compiles : ∃ equation, (s.compile nodes).outcome = .ok equation ∧ equation.branches = [e] ∧
    equation.externals = []

/-- At any place, the nodes are walked to code for one branch. -/
def Walks (s : Session) (nodes : List Node) (code : List Fragment) : Prop :=
  ∀ (depth : Nat) (d : Declared), ∃ es d', Visits s depth (.siblings none nodes) d es d' ∧
    Emission.instructions es = code.map .append ∧ d'.externals = d.externals

/-- Plain code without signs is code for one branch. -/
theorem eq_map_append_select {is : List Instruction} (h : ∀ i ∈ is, i.IsPlain)
    (hcount : signCount is = 0) (σ : Nat → Bool) (j : Nat) :
    is = (select σ j is).map .append := by
  induction is with
  | nil => rfl
  | cons i is ih =>
    obtain ⟨hfirst, hrest⟩ := List.forall_mem_cons.1 h
    cases hfirst with
    | append fragment => exact congrArg (.append fragment :: ·) (ih hrest hcount)
    | sign => cases hcount

theorem isPlain_map_append (code : List Fragment) :
    ∀ i ∈ code.map Instruction.append, i.IsPlain := by
  intro i hi
  obtain ⟨fragment, -, rfl⟩ := List.mem_map.1 hi
  exact .append fragment

/-- Appended code is the one script there is. -/
theorem script?_map_append (pairings : List (Nat × Nat)) (code : List Fragment) (k : Nat) :
    script? pairings (code.map .append) k = if k = 0 then some code else none := by
  induction code with
  | nil => rfl
  | cons fragment code ih =>
    rw [List.map_cons, script?_append, ih]
    split <;> rfl

namespace Session

variable {s : Session} {nodes : List Node} {e : Expression Float}

theorem Stands.walks (h : s.Stands nodes e) :
    (nodes.countP Node.isSeparator = 0 ∧ nodes ≠ [] ∧ ∀ n ∈ nodes, n.isEquality = false) ∧
      ∃ code, Walks s nodes code ∧ Expression.IsSum (Fragment.joined code) e := by
  obtain ⟨equation, hcompile, hbranches, hexternals⟩ := h.compiles
  obtain ⟨binding, right, es, d, branches, hsides, hvisits, hread, rfl⟩ :=
    compile_outcome_eq_ok_iff.1 hcompile
  obtain ⟨rfl, rfl⟩ : none = binding ∧ nodes = right := by
    simpa [splitSides_eq_none h.noEquality] using hsides
  obtain rfl : branches = [e] := hbranches
  have hplain := hvisits.isPlain_of_externals hexternals
  obtain ⟨hlength, hsums⟩ := (readBranches_plain hplain).1 hread
  have hcount : signCount (Emission.instructions es) = 0 := by
    rw [List.length_singleton] at hlength
    exact Nat.pow_eq_one.1 hlength.symm |>.resolve_left (by decide)
  have hsum := hsums 0 e rfl
  refine ⟨⟨hvisits.countP_separator hplain hsum, ?_, h.noEquality⟩, _, ?_, hsum⟩
  · rintro rfl
    obtain ⟨rfl, -⟩ := hvisits.nil_inv
    obtain ⟨_, _, hcode, -⟩ := hsum.head
    cases hcode
  · intro depth d₁
    have hspares : (declaredBy none).Spares s d₁ := by
      intro name hlocal
      cases hlocal
    obtain ⟨es₁, d₁', hvisits₁, hes₁, -, hsame⟩ := hvisits.relocate hplain depth hspares
    exact ⟨es₁, d₁', hvisits₁, hes₁.trans (eq_map_append_select hplain hcount _ _), hsame⟩

end Session

open Expression (IsSum IsListed)

theorem Visits.behind_separator {s : Session} {depth : Nat} {nodes : List Node} {d d' : Declared}
    {es : List Emission} (S : Spelling) (h : Visits s depth (.siblings none nodes) d es d') :
    Visits s depth (.siblings (some (S.atom .separator)) nodes) d es d' := by
  apply h.behind
  intro node
  have hseparator : (S.atom .separator).isSeparator = true := by simp [Node.isSeparator]
  simp [Walk.joint, Node.juxtaposed, hseparator]

/-- A separator is walked in front of nodes as it is alone. -/
theorem Visits.separator {s : Session} {depth : Nat} {nodes : List Node} {d d' : Declared}
    {es : List Emission} (S : Spelling) (previous : Option Node)
    (h : Visits s depth (.siblings none nodes) d es d') :
    Visits s depth (.siblings previous (S.atom .separator :: nodes)) d
      (.visit depth (S.atom .separator) :: .instruction (.append .separator) :: es) d' := by
  have hsymbol : Entry.ofSymbol? (S.symbol .separator) = some (.single .separator) := by
    rw [Entry.ofSymbol?, S.reads]
    rfl
  have hjoint : Walk.joint previous (S.atom .separator) = [] := by
    have hseparator : (S.atom .separator).isSeparator = true := by simp [Node.isSeparator]
    cases previous <;> simp [Walk.joint, Node.juxtaposed, hseparator]
  have hall : Visits s depth (.siblings previous (S.atom .separator :: nodes)) d
      (Walk.joint previous (S.atom .separator) ++ .visit depth (S.atom .separator) ::
        ([.instruction (.append .separator)] ++ es)) d' :=
    .cons (.atom hsymbol) (h.behind_separator S)
  rwa [hjoint] at hall

/-- Arguments whose runs are closed at the separators are walked one after the other. -/
theorem Walks.listed {s : Session} (S : Spelling) {arguments : List (List Node)}
    {es : List (Expression Float)} (hne : arguments ≠ [])
    (h : List.Forall₂ (fun nodes e =>
      ∃ code, Walks s nodes code ∧ IsSum (Fragment.joined code) e) arguments es)
    (hpaired : ∀ nodes ∈ arguments, Operand.openBehind 0 nodes = some 0)
    (hclosed : ∀ nodes ∈ arguments.dropLast, openRuns nodes = 0) :
    ∃ code, Walks s (S.listed arguments) code ∧
      IsListed (Fragment.joined code ++ [Fragment.close]) es := by
  induction h with
  | nil => exact absurd rfl hne
  | @cons first e more es hfirst hmore ih =>
    obtain ⟨code, hwalks, hsum⟩ := hfirst
    cases hmore with
    | nil => exact ⟨code, by rwa [Operand.listed_singleton], .last hsum⟩
    | @cons second e' more es hsecond hmore =>
      obtain ⟨hshut, hpaired⟩ := List.forall_mem_cons.1 hpaired
      rw [List.dropLast_cons_cons] at hclosed
      obtain ⟨hruns, hclosed⟩ := List.forall_mem_cons.1 hclosed
      obtain ⟨code', hwalks', hlisted⟩ := ih (List.cons_ne_nil _ _) hpaired hclosed
      refine ⟨code ++ .separator :: code', ?_, ?_⟩
      · intro depth d
        obtain ⟨es₁, d₁, hvisits₁, hes₁, hsame₁⟩ := hwalks depth d
        obtain ⟨es₂, d₂, hvisits₂, hes₂, hsame₂⟩ := hwalks' depth d₁
        obtain ⟨es₃, hvisits, hes₃⟩ := hvisits₁.append_separator
          (by rw [hes₁]; exact isPlain_map_append code) ⟨0, hshut⟩ hruns
          fun previous => hvisits₂.separator S previous
        rw [Operand.listed_cons_cons]
        refine ⟨es₃, d₂, hvisits, ?_, hsame₂.trans hsame₁⟩
        rw [hes₃, hes₁, List.map_append, List.map_cons, ← hes₂]
        rfl
      · rw [Fragment.joined_append_cons (by simp), List.append_assoc]
        exact .more hsum hlisted

/-! ## The application -/

namespace Session

open Instruction in
/-- The script of a function of one branch with code behind it. -/
theorem script?_apply (code : List Fragment) (k : Nat) :
    script? [] (.pair 0 1 :: .appendPaired 0 (.apply 0) :: code.map append) k =
      if k = 0 then some (.apply 0 0 :: code) else none := by
  by_cases hk : k = 0
  · simp [script?_pair, script?_appendPaired, Branch.enter, script?_map_append, hk]
  · simp [script?_pair, script?_appendPaired, Branch.enter, script?_map_append, hk]

open Instruction in
theorem readBranches_apply {code : List Fragment} {es : List (Expression Float)}
    (h : IsListed (Fragment.joined code ++ [Fragment.close]) es) :
    readBranches
        (.pair 0 1 :: .appendPaired 0 (.apply 0) :: (code ++ [Fragment.close]).map append) =
      .ok [.apply 0 0 es] := by
  have hjoined : Fragment.joined (.apply 0 0 :: (code ++ [Fragment.close])) =
      .apply 0 0 :: (Fragment.joined code ++ [Fragment.close]) := by
    rw [Fragment.joined_cons (by simp), Fragment.joined_append_cons (by simp), Fragment.joined_nil]
  rw [readBranches_eq_ok_iff]
  refine ⟨isSome_runAll_plain (isPlain_map_append _) _, ?_⟩
  intro k
  rw [script?_apply]
  cases k with
  | zero =>
    refine .some ?_
    rw [hjoined]
    exact .product (.signed (.operand (.apply 0 0 (.some h))))
  | succ k => exact .none

/-- A function is walked with what is in the parentheses behind it. -/
theorem exists_visits_application {s : Session} (S : Spelling) {name : String}
    {function : Equation Float} (hresolve : s.resolve name = some function)
    (hfunction : function.isFunction = true) {nodes : List Node} (hbalanced : Balanced nodes)
    (hcount : Operand.argumentCount nodes = function.parameters.length) {code : List Fragment}
    (h : Walks s nodes code) :
    ∃ es d, Visits s 0 (.siblings none (.var name :: S.enclosed nodes)) (declaredBy none) es d ∧
      Emission.instructions es = .pair 0 function.branchCount :: .appendPaired 0 (.apply 0) ::
        (code ++ [Fragment.close]).map .append ∧ d.externals = [function] := by
  obtain ⟨es, d, hbody, hes, hsame⟩ := h 1 ((declaredBy none).declaring function)
  have hoperand : Operand.following false (.var name :: S.enclosed nodes) =
      ⟨S.enclosed nodes, (S.enclosed nodes).length, none⟩ := by
    have hfollowing := following_enclosed (S := S) hbalanced (.var name) []
    rwa [List.append_nil] at hfollowing
  have hinner : (Operand.following false (.var name :: S.enclosed nodes)).inner = nodes := by
    rw [hoperand, Operand.inner_enclosed]
  have hparens : (Operand.following false (.var name :: S.enclosed nodes)).isParenthesized =
      true := by
    rw [hoperand, Operand.isParenthesized_enclosed]
  have hlocal : (declaredBy none).symbols.isLocal name = false := rfl
  rw [← hinner] at hbody hcount
  have hnode := Visits.application hlocal hresolve hfunction hparens hcount hbody
  rw [hoperand] at hnode
  refine ⟨_, _, hnode.cons_all, ?_, hsame⟩
  have hplace : (declaredBy none).placeOf function = 0 := rfl
  rw [instructions_cons, List.map_append, ← hes]
  simp [Walk.pairing, Walk.joint, hplace]

/-- A function of one branch, applied to arguments that each compile by themselves, is applied to
what they compile to: as long as their parentheses have partners among their siblings and no operand
run is open at a separator. -/
theorem compile_application {s : Session} (S : Spelling) {name : String}
    {function : Equation Float} (hresolve : s.resolve name = some function)
    (hfunction : function.isFunction = true) (hbranch : function.branchCount = 1)
    (hparameters : function.parameters ≠ []) {arguments : List (List Node)}
    {es : List (Expression Float)} (hcount : arguments.length = function.parameters.length)
    (h : List.Forall₂ s.Stands arguments es)
    (hpaired : ∀ nodes ∈ arguments, Operand.openBehind 0 nodes = some 0)
    (hclosed : ∀ nodes ∈ arguments.dropLast, openRuns nodes = 0) :
    ∃ equation, (s.compile (.var name :: S.enclosed (S.listed arguments))).outcome = .ok equation ∧
      equation.branches = [.apply 0 0 es] ∧ equation.externals = [function] := by
  have hne : arguments ≠ [] := by
    rintro rfl
    exact hparameters (List.length_eq_zero_iff.1 hcount.symm)
  obtain ⟨heach, hwalk⟩ := (List.forall₂_and_left _ _).1 (h.imp fun _ _ hstands => hstands.walks)
  obtain ⟨code, hwalks, hlisted⟩ := Walks.listed S hne hwalk hpaired hclosed
  have hbalanced := Operand.balanced_of_openBehind (Operand.openBehind_listed S hpaired)
  have hfound : Operand.argumentCount (S.listed arguments) = function.parameters.length := by
    rw [← hcount]
    exact Operand.argumentCount_listed hpaired (fun nodes hnodes => (heach nodes hnodes).1)
      fun nodes hnodes => (heach nodes hnodes).2.1
  obtain ⟨es', d, hvisits, hes', hexternals⟩ :=
    exists_visits_application S hresolve hfunction hbalanced hfound hwalks
  have hread : readBranches (Emission.instructions es') = .ok [.apply 0 0 es] := by
    rw [hes', hbranch]
    exact readBranches_apply hlisted
  have hsides : ∀ n ∈ .var name :: S.enclosed (S.listed arguments), n.isEquality = false := by
    have hlist := Operand.isEquality_listed S fun nodes hnodes => (heach nodes hnodes).2.2
    have hmark : ∀ mark, mark ≠ .equality → (S.atom mark).isEquality = false := by
      intro mark hmark
      simp [Node.isEquality, hmark]
    refine List.forall_mem_cons.2 ⟨rfl, List.forall_mem_cons.2 ⟨hmark .opening (by decide), ?_⟩⟩
    exact List.forall_mem_append.2
      ⟨hlist, List.forall_mem_singleton.2 (hmark .closing (by decide))⟩
  exact ⟨_, compile_outcome_eq_ok_iff.2
    ⟨none, _, es', d, _, splitSides_eq_none hsides, hvisits, hread, rfl⟩, rfl, hexternals⟩

/-! ### The first of two arguments -/

/-- The function `f(x, y) = x`. -/
def first : Equation Float := ⟨some ⟨"f", .function, ["x", "y"]⟩, ["x", "y"], [], [.var "x"], []⟩

theorem compile_first : ((fresh {}).compile [.var "f", .atom "(", .var "x", .atom ",", .var "y",
    .atom ")", .atom "=", .var "x"]).outcome = .ok first := by
  have hread : readBranches [.append (.var "x")] = .ok [.var "x"] :=
    readBranches_single rfl (Expression.parse_eq_ok_iff_ofCode.2 (by cbv))
  exact compile_outcome_eq_ok_iff.2 ⟨_, _, _, _, _, rfl, .cons (.name (.inl rfl)) .nil, hread, rfl⟩

theorem reachable_first : ((fresh {}).register first).Reachable := by
  rw [← session_compile_of_ok compile_first]
  exact (Reachable.fresh {}).compile _

theorem stands_of_visits {s : Session} {nodes : List Node} {e : Expression Float}
    {es : List Emission} {d : Declared} {branch : Branch}
    (hnodes : ∀ n ∈ nodes, n.isEquality = false)
    (hvisits : Visits s 0 (.siblings none nodes) (declaredBy none) es d)
    (hempty : d.externals = [])
    (hrun : BranchSet.runAll {} (Emission.instructions es) = some { branches := [branch] })
    (he : Expression.parse branch.fragments = .ok e) : s.Stands nodes e :=
  ⟨hnodes, _, compile_outcome_eq_ok_iff.2 ⟨none, nodes, es, d, [e], splitSides_eq_none hnodes,
    hvisits, readBranches_single hrun he, rfl⟩, rfl, hempty⟩

theorem stands_second : ((fresh {}).register first).Stands [.var "b"] (.var "b") :=
  stands_of_visits (by decide) (.cons (.name (.inr rfl)) .nil) rfl rfl
    (Expression.parse_eq_ok_iff_ofCode.2 (by cbv))

/-- In `f(\sin(a), b)` the sine has parentheses of its own. -/
theorem compile_application_of_fenced_sine :
    ((fresh {}).register first).resolve "f" = some first ∧ first.isFunction = true ∧
      first.branchCount = 1 ∧ first.parameters.length = 2 ∧
      List.Forall₂ ((fresh {}).register first).Stands
        [[.named .sin none none, .atom "(", .var "a", .atom ")"], [.var "b"]]
        [.call .sine [.var "a"], .var "b"] ∧
      ∃ equation, (((fresh {}).register first).compile [.var "f", .atom "(", .named .sin none none,
          .atom "(", .var "a", .atom ")", .atom ",", .var "b", .atom ")"]).outcome = .ok equation ∧
        equation.branches = [.apply 0 0 [.call .sine [.var "a"], .var "b"]] ∧
        equation.externals = [first] := by
  have hsine : ((fresh {}).register first).Stands
      [.named .sin none none, .atom "(", .var "a", .atom ")"] (.call .sine [.var "a"]) := by
    have hrun : (Operand.following false
        [.named .sin none none, .atom "(", .var "a", .atom ")"]).nodes ≠ [] := by decide
    have hvisits : Visits ((fresh {}).register first) 0 (.siblings none
        [.named .sin none none, .atom "(", .var "a", .atom ")"]) (declaredBy none) _ _ :=
      .cons (.turned rfl hrun (.cons (.atom rfl) (.cons (.name (.inr rfl))
        (.cons (.atom rfl) .nil)))) .nil
    exact stands_of_visits (by decide) hvisits rfl rfl
      (Expression.parse_eq_ok_iff_ofCode.2 (by cbv))
  have harguments : List.Forall₂ ((fresh {}).register first).Stands
      [[.named .sin none none, .atom "(", .var "a", .atom ")"], [.var "b"]]
      [.call .sine [.var "a"], .var "b"] := .cons hsine (.cons stands_second .nil)
  have hruns : openRuns [.named .sin none none, .atom "(", .var "a", .atom ")"] = 0 := by
    have hsine : (OperatorName.sin == OperatorName.integral) = false := rfl
    have hcloses : Operand.staysOpen false (.named .sin none none)
        [.atom "(", .var "a", .atom ")"] = false := by decide
    have htakes : (Operand.following false
        [.named .sin none none, .atom "(", .var "a", .atom ")"]).consumed = 3 := by decide
    simp [openRuns, Node.marking?, hsine, hcloses, htakes]
  refine ⟨rfl, rfl, rfl, rfl, harguments, ?_⟩
  have hparameters : first.parameters ≠ [] := by decide
  exact compile_application .standard rfl rfl rfl hparameters rfl harguments (by decide)
    (List.forall_mem_singleton.2 hruns)

/-- The run of the sine in `f(\sin a, b)` takes in the separator and the second argument. -/
theorem sine_takes_second_argument :
    ¬∀ (s : Session) (name : String) (function : Equation Float) (arguments : List (List Node))
      (es : List (Expression Float)), s.Reachable → s.resolve name = some function →
      function.isFunction = true → function.branchCount = 1 → function.parameters ≠ [] →
      arguments.length = function.parameters.length → List.Forall₂ s.Stands arguments es →
      ∃ equation, (s.compile (.var name ::
          Spelling.standard.enclosed (Spelling.standard.listed arguments))).outcome =
            .ok equation ∧
        equation.branches = [.apply 0 0 es] ∧ equation.externals = [function] := by
  intro hcomposes
  have hrun : (Operand.following false [.named .sin none none, .var "a"]).nodes ≠ [] := by decide
  have halone : Visits ((fresh {}).register first) 0
      (.siblings none [.named .sin none none, .var "a"]) (declaredBy none) _ _ :=
    .cons (.turned rfl hrun (.cons (.name (.inr rfl)) .nil)) .nil
  have hsine : ((fresh {}).register first).Stands [.named .sin none none, .var "a"]
      (.call .sine [.var "a"]) :=
    stands_of_visits (by decide) halone rfl rfl (Expression.parse_eq_ok_iff_ofCode.2 (by cbv))
  obtain ⟨equation, hcompile, hbranches, -⟩ := hcomposes _ "f" first
    [[.named .sin none none, .var "a"], [.var "b"]] [.call .sine [.var "a"], .var "b"]
    reachable_first rfl rfl rfl (by decide) rfl (.cons hsine (.cons stands_second .nil))
  obtain ⟨_, _, es, d, branches, hsides, hvisits, hread, rfl⟩ :=
    compile_outcome_eq_ok_iff.1 hcompile
  obtain ⟨rfl, rfl⟩ := Prod.mk.inj (Except.ok.inj hsides)
  obtain rfl : branches = [.apply 0 0 [.call .sine [.var "a"], .var "b"]] := hbranches
  have hrun' : (Operand.following false
      [.named .sin none none, .var "a", .atom ",", .var "b"]).nodes ≠ [] := by decide
  have htogether : Visits ((fresh {}).register first) 0 (.siblings none [.var "f", .atom "(",
      .named .sin none none, .var "a", .atom ",", .var "b", .atom ")"]) (declaredBy none) _ _ :=
    .cons (.application rfl rfl rfl rfl rfl (.cons (.turned rfl hrun' (.cons (.name (.inr rfl))
      (.cons (.atom rfl) (.cons (.name (.inr rfl)) .nil)))) .nil)) .nil
  obtain ⟨rfl, -⟩ := hvisits.unique htogether
  -- The separator stands in the bracket of the sine, which has no room for it.
  have hrel := (readBranches_eq_ok_iff.1 hread).2 0
  cases hrel with
  | some hsum =>
    have hfill := hsum.fillAll []
    cases hfill

end Session

end Formulary
