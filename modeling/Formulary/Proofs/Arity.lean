import Formulary.Proofs.Delimiters
import Formulary.Proofs.Nesting

/-!
# The arguments of functions

Separators are counted among nodes before the code is there, and arguments are read from the code.
Where every group is a single part and all siblings are matched, the two counts agree: at each node
the brackets of the code stand as deep as the parentheses among its siblings.
-/

namespace Formulary

namespace Pending

/-- Brackets that hold one expression each, inside of others. -/
def singles (count : Nat) (stack : List Pending) : List Pending :=
  List.replicate count .single ++ stack

@[simp] theorem singles_zero (stack : List Pending) : singles 0 stack = stack := rfl

@[simp] theorem singles_succ (count : Nat) (stack : List Pending) :
    singles (count + 1) stack = .single :: singles count stack := rfl

theorem touch_singles {external : Option Nat} {found : Nat} (h : 0 < found) (count : Nat)
    (base : List Pending) :
    touch (singles count (.arguments external found :: base)) =
      singles count (.arguments external found :: base) := by
  cases count with
  | zero => rw [singles_zero, touch, Nat.max_eq_right h]
  | succ count => rw [singles_succ, touch_single]

/-- Each function is given as many arguments as it has parameters. -/
def Agree (externals : List (Equation Float)) (counts : List (Nat × Nat)) : Prop :=
  ∀ entry ∈ counts, ∃ x, externals[entry.1]? = some x ∧ entry.2 = x.parameters.length

end Pending

namespace Delimiter

open Pending

variable {externals : List (Equation Float)} {bs bs' : List Delimiter}
  {depth depth' depth'' separators separators' : Nat}

theorem readAll_append_eq_some_iff {stack stack' : List Pending} {counts : List (Nat × Nat)} :
    readAll (bs ++ bs') stack = some (stack', counts) ↔
      ∃ between first second, readAll bs stack = some (between, first) ∧
        readAll bs' between = some (stack', second) ∧ counts = first ++ second := by
  rw [readAll_append]
  constructor
  · intro h
    obtain ⟨⟨between, first⟩, hfirst, h⟩ := Option.bind_eq_some_iff.1 h
    obtain ⟨⟨last, second⟩, hsecond, hboth⟩ := Option.map_eq_some_iff.1 h
    obtain ⟨rfl, rfl⟩ := Prod.mk.inj hboth
    exact ⟨between, first, second, hfirst, hsecond, rfl⟩
  · rintro ⟨between, first, second, hfirst, hsecond, rfl⟩
    simp only [hfirst, Option.bind_some, hsecond, Option.map_some]

/-! ## Delimiters among the arguments of a function -/

/-- If the delimiters can be read among the arguments of a function, `depth` parentheses inside of
these and `enclosing` other brackets around the parentheses, they lead to `depth'` parentheses, and
to so many more separators; with other brackets around them they have none. What is applied in
them is given its parameters. -/
def Tells (externals : List (Equation Float)) (bs : List Delimiter)
    (depth separators depth' : Nat) : Prop :=
  ∀ (enclosing : Nat) ⦃external : Option Nat⦄ ⦃found : Nat⦄ ⦃base stack : List Pending⦄
    ⦃counts : List (Nat × Nat)⦄, 0 < found →
    readAll bs (singles (depth + enclosing) (.arguments external found :: base)) =
      some (stack, counts) →
    stack = singles (depth' + enclosing) (.arguments external (found + separators) :: base) ∧
      (0 < enclosing → separators = 0) ∧ Agree externals counts

theorem tells_nil (externals : List (Equation Float)) (depth : Nat) :
    Tells externals [] depth 0 depth := by
  intro enclosing external found base stack counts _ h
  obtain ⟨rfl, rfl⟩ := Prod.mk.inj (Option.some.inj h)
  exact ⟨rfl, fun _ => rfl, List.forall_mem_nil _⟩

theorem Tells.part_cons (h : Tells externals bs depth separators depth') :
    Tells externals (part :: bs) depth separators depth' := by
  intro enclosing external found base stack counts hfound hread
  rw [readAll_part, touch_singles hfound] at hread
  exact h enclosing hfound hread

theorem tells_part (externals : List (Equation Float)) (depth : Nat) :
    Tells externals [part] depth 0 depth :=
  (tells_nil externals depth).part_cons

theorem tells_opening (externals : List (Equation Float)) (depth : Nat) :
    Tells externals [opening .single] depth 0 (depth + 1) := by
  intro enclosing external found base stack counts hfound h
  rw [readAll_opening, touch_singles hfound, ← singles_succ, Nat.add_right_comm] at h
  exact tells_nil externals (depth + 1) enclosing hfound h

theorem tells_close (externals : List (Equation Float)) (depth : Nat) :
    Tells externals [close] (depth + 1) 0 depth := by
  intro enclosing external found base stack counts hfound h
  rw [Nat.add_right_comm, singles_succ, readAll_close, readAll_nil] at h
  exact tells_nil externals depth enclosing hfound h

/-- A separator is for the innermost function, or it cannot be read. -/
theorem tells_separator (externals : List (Equation Float)) (depth : Nat) :
    Tells externals [separator] depth (if depth = 0 then 1 else 0) depth := by
  intro enclosing external found base stack counts hfound h
  rcases Nat.eq_zero_or_pos (depth + enclosing) with hzero | hpos
  · obtain ⟨rfl, rfl⟩ : depth = 0 ∧ enclosing = 0 := Nat.add_eq_zero_iff.1 hzero
    obtain ⟨found, rfl⟩ := Nat.exists_eq_succ_of_ne_zero (Nat.ne_of_gt hfound)
    rw [Nat.add_zero, singles_zero, readAll_separator, readAll_nil] at h
    obtain ⟨rfl, rfl⟩ := Prod.mk.inj (Option.some.inj h)
    exact ⟨rfl, fun h => absurd h (Nat.lt_irrefl 0), List.forall_mem_nil _⟩
  · obtain ⟨count, hcount⟩ := Nat.exists_eq_succ_of_ne_zero (Nat.ne_of_gt hpos)
    rw [hcount, singles_succ] at h
    cases h

theorem Tells.append (h : Tells externals bs depth separators depth')
    (h' : Tells externals bs' depth' separators' depth'') :
    Tells externals (bs ++ bs') depth (separators + separators') depth'' := by
  intro enclosing external found base stack counts hfound hread
  obtain ⟨between, first, second, hfirst, hsecond, rfl⟩ := readAll_append_eq_some_iff.1 hread
  obtain ⟨rfl, hnone, hagree⟩ := h enclosing hfound hfirst
  obtain ⟨hstack, hnone', hagree'⟩ := h' enclosing (Nat.add_pos_left hfound _) hsecond
  refine ⟨by rw [hstack, Nat.add_assoc], fun henclosing => ?_, ?_⟩
  · rw [hnone henclosing, hnone' henclosing]
  · exact List.forall_mem_append.2 ⟨hagree, hagree'⟩

/-- Nothing is separated in a bracket that holds one expression. -/
theorem Tells.enclosed (h : Tells externals bs depth separators depth')
    (hnone : separators = 0 → separators' = 0) :
    Tells externals (opening .single :: (bs ++ [close])) depth separators' depth' := by
  intro enclosing external found base stack counts hfound hread
  rw [readAll_opening, touch_singles hfound, ← singles_succ] at hread
  obtain ⟨between, first, second, hfirst, hsecond, rfl⟩ := readAll_append_eq_some_iff.1 hread
  obtain ⟨rfl, hinside, hagree⟩ := h (enclosing + 1) hfound hfirst
  have hzero := hinside (Nat.succ_pos _)
  rw [hzero, Nat.add_zero, ← Nat.add_assoc, singles_succ, readAll_close, readAll_nil] at hsecond
  obtain ⟨rfl, rfl⟩ := Prod.mk.inj (Option.some.inj hsecond)
  rw [hnone hzero]
  exact ⟨rfl, fun _ => rfl, List.forall_mem_append.2 ⟨hagree, List.forall_mem_nil _⟩⟩

/-- Matched delimiters can be read at any depth. -/
theorem Tells.deeper (h : Tells externals bs 0 separators 0) (depth : Nat) :
    Tells externals bs depth separators depth := by
  intro enclosing external found base stack counts hfound hread
  obtain ⟨hstack, hnone, hagree⟩ := h (depth + enclosing) hfound
    (by rwa [Nat.zero_add])
  rw [Nat.zero_add] at hstack
  exact ⟨hstack, fun henclosing => hnone (Nat.add_pos_right _ henclosing), hagree⟩

/-- The first delimiter is none that closes. -/
def Begins (bs : List Delimiter) : Prop := ∃ first rest, bs = first :: rest ∧ first ≠ close

theorem Begins.append (h : Begins bs) (bs' : List Delimiter) : Begins (bs ++ bs') := by
  obtain ⟨first, rest, rfl, hfirst⟩ := h
  exact ⟨first, rest ++ bs', rfl, hfirst⟩

/-- The first of the arguments counts as soon as it begins. -/
theorem Begins.readAll {external : Option Nat} {base : List Pending}
    {result : List Pending × List (Nat × Nat)} (h : Begins bs)
    (hread : readAll bs (.arguments external 0 :: base) = some result) :
    Delimiter.readAll bs (.arguments external 1 :: base) = some result := by
  obtain ⟨first, rest, rfl, hfirst⟩ := h
  cases first with
  | part => exact hread
  | opening pending => exact hread
  | close => exact absurd rfl hfirst
  | separator => cases hread

/-- The arguments of a function, all of which end with it. -/
theorem tells_arguments {external : Option Nat} {found : Nat}
    (h : ∀ base stack counts, readAll bs (.arguments external 0 :: base) = some (stack, counts) →
      stack = .arguments external found :: base ∧ Agree externals counts)
    (hagree : Agree externals (Pending.arguments external found).counted) (depth : Nat) :
    Tells externals (opening (.arguments external 0) :: (bs ++ [close])) depth 0 depth := by
  intro enclosing external' found' base stack counts hfound hread
  rw [readAll_opening, touch_singles hfound] at hread
  obtain ⟨between, first, second, hfirst, hsecond, rfl⟩ := readAll_append_eq_some_iff.1 hread
  obtain ⟨rfl, hinside⟩ := h _ _ _ hfirst
  rw [readAll_close, readAll_nil] at hsecond
  obtain ⟨rfl, rfl⟩ := Prod.mk.inj (Option.some.inj hsecond)
  rw [List.append_nil]
  exact ⟨rfl, fun _ => rfl, List.forall_mem_append.2 ⟨hinside, hagree⟩⟩

/-- Among arguments there is one more than there are separators. -/
theorem Tells.arguments (h : Tells externals bs 0 separators 0) (hbegins : Begins bs)
    {external : Option Nat}
    (hagree : Agree externals (Pending.arguments external (separators + 1)).counted) (depth : Nat) :
    Tells externals (opening (.arguments external 0) :: (bs ++ [close])) depth 0 depth := by
  refine tells_arguments (fun base stack counts hread => ?_) hagree depth
  obtain ⟨hstack, -, hinside⟩ := h 0 Nat.one_pos (hbegins.readAll hread)
  rw [Nat.add_comm 1] at hstack
  exact ⟨hstack, hinside⟩

end Delimiter

/-! ## The delimiters of a walk -/

namespace Emission

theorem delimiters_append (es es' : List Emission) :
    delimiters (es ++ es') = delimiters es ++ delimiters es' := by
  rw [delimiters, instructions_append, List.filterMap_append]
  rfl

theorem delimiters_cons_visit (level : Nat) (node : Node) (es : List Emission) :
    delimiters (.visit level node :: es) = delimiters es := rfl

theorem delimiters_cons_warning (warning : Warning) (es : List Emission) :
    delimiters (.warning warning :: es) = delimiters es := rfl

theorem delimiters_cons_append (fragment : Fragment) (es : List Emission) :
    delimiters (.instruction (.append fragment) :: es) = fragment.delimiter :: delimiters es := rfl

theorem delimiters_between (opening : Fragment) (es : List Emission) :
    delimiters (Walk.between opening es) = opening.delimiter :: (delimiters es ++ [.close]) := by
  rw [Walk.between, delimiters_cons_append, delimiters_append]
  rfl

/-- A function of an external with its arguments. -/
theorem delimiters_applied (d : Declared) (equation : Equation Float) {make : Nat → Nat → Fragment}
    (hmake : ∀ external, (make external 0).delimiter = .opening (.arguments (some external) 0))
    (es : List Emission) {warnings : List Emission} (hwarnings : instructions warnings = []) :
    delimiters (Walk.pairing d equation make ++ es ++ .instruction (.append .close) :: warnings) =
      .opening (.arguments (some (d.placeOf equation)) 0) :: (delimiters es ++ [.close]) := by
  have hclose : delimiters (.instruction (.append .close) :: warnings) = [.close] := by
    rw [delimiters_cons_append, delimiters, hwarnings]
    rfl
  rw [delimiters_append, delimiters_append, hclose, ← hmake]
  rfl

end Emission

/-- What the code of an operator is when only brackets and separators count. -/
def Mark.delimiter : Mark → Delimiter
  | opening => .opening .single
  | closing => .close
  | separator => .separator
  | _ => .part

theorem Entry.delimiters_instruction {symbol : String} {entry : Entry}
    (h : Entry.ofSymbol? symbol = some entry) :
    ∃ mark, Mark.ofSymbol? symbol = some mark ∧
      Emission.delimiters [.instruction entry.instruction] = [mark.delimiter] := by
  obtain ⟨mark, hsymbol, hmark⟩ := Option.bind_eq_some_iff.1 h
  refine ⟨mark, hsymbol, ?_⟩
  cases mark with
  | equality => cases hmark
  | _ =>
    obtain rfl := Option.some.inj hmark
    rfl

namespace Node

/-- What a base or an exponent stands for is sealed, and has no separators. -/
theorem sealed_simple {node : Node} (h : node.isSealed = true) (hsimple : Walk.simple node ≠ []) :
    Sealed (Walk.simple node) ∧ Operand.argumentCount.go 0 (Walk.simple node) = 0 := by
  cases node with
  | literal text =>
    by_cases hbar : text = bar
    · simp [Walk.simple, hbar] at hsimple
    · have hplain : IsPlain (.literal text) := ⟨rfl, rfl, by simpa [isBar] using hbar⟩
      have hnodes : Walk.simple (.literal text) = [.literal text] := by simp [Walk.simple, hbar]
      rw [hnodes]
      refine ⟨⟨?_, List.forall_mem_singleton.2 rfl⟩, Operand.go_plain hplain rfl 0 []⟩
      rw [track_plain hplain, track]
  | var name => exact ⟨⟨rfl, List.forall_mem_singleton.2 rfl⟩, rfl⟩
  | group body =>
    obtain ⟨hbody, -, hcount⟩ := isSealed_group h
    exact ⟨hbody, hcount⟩
  | _ => exact absurd rfl hsimple

/-- Matched siblings do not begin with a closing parenthesis. -/
theorem Sealed.head {node : Node} {rest : List Node} (h : Sealed (node :: rest)) :
    node.isSealed = true ∧ node.isClose = false := by
  refine ⟨h.each node (List.mem_cons_self ..), ?_⟩
  cases hclose : node.isClose with
  | true => exact absurd (track_close_eq_some hclose h.matched).1 (Nat.lt_irrefl 0)
  | false => rfl

end Node

/-! ## How nodes begin -/

/-- Siblings do not begin with a closing parenthesis, and neither does their code. -/
def Stretch.Begins (bs : List Delimiter) : Stretch → Prop
  | siblings previous nodes =>
    previous = none → nodes ≠ [] → Node.Sealed nodes → Delimiter.Begins bs
  | single node _ _ => node.isSealed = true → node.isClose = false → Delimiter.Begins bs

open Emission in
theorem Visits.begins {s : Session} {level : Nat} {stretch : Stretch} {d d' : Declared}
    {es : List Emission} (h : Visits s level stretch d es d') : stretch.Begins (delimiters es) := by
  have hopening : ∀ (pending : Pending) (bs : List Delimiter),
      Delimiter.Begins (.opening pending :: bs) :=
    fun pending bs => ⟨_, _, rfl, by simp⟩
  have hpart : ∀ bs : List Delimiter, Delimiter.Begins (.part :: bs) :=
    fun bs => ⟨_, _, rfl, by simp⟩
  induction h with
  | nil => exact fun _ hne => absurd rfl hne
  | @cons depth _ _ node _ _ _ _ es es' _ _ hnode _ =>
    rintro rfl - hsealed
    obtain ⟨hfirst, hclose⟩ := hsealed.head
    have hcode : delimiters (Walk.joint none node ++ .visit depth node :: (es ++ es')) =
        delimiters es ++ delimiters es' := by
      rw [delimiters_append, delimiters_cons_visit, delimiters_append]
      rfl
    rw [hcode]
    exact (hnode hfirst hclose).append _
  | bars => exact fun _ _ => hopening _ _
  | piece => exact fun _ _ => hpart _
  | name => exact fun _ _ => hpart _
  | reference => exact fun _ _ => hpart _
  | application => exact fun _ _ => hopening _ _
  | atom hentry =>
    intro _ hclose
    obtain ⟨mark, hsymbol, hdelimiters⟩ := Entry.delimiters_instruction hentry
    rw [hdelimiters]
    refine ⟨_, _, rfl, ?_⟩
    cases mark with
    | closing => simp [Node.isClose, Node.mark?, hsymbol] at hclose
    | _ => simp [Mark.delimiter]
  | power => exact fun _ _ => hopening _ _
  | angle hsimple _ ih =>
    intro hsealed _
    rw [Node.isSealed] at hsealed
    exact ih rfl hsimple (Node.sealed_simple hsealed hsimple).1
  | derivative => exact fun _ _ => hopening _ _
  | fraction => exact fun _ _ => hopening _ _
  | root => exact fun _ _ => hopening _ _
  | group _ ih =>
    intro hsealed _
    obtain ⟨hbody, hne, -⟩ := Node.isSealed_group hsealed
    exact ih rfl hne hbody
  | sum => exact fun _ _ => hopening _ _
  | integral => exact fun _ _ => hopening _ _
  | turned => exact fun _ _ => hopening _ _

/-! ## What the code tells of the nodes -/

/-- The code of matched siblings reads as deep as they are, and has their separators. -/
def Stretch.Tells (externals : List (Equation Float)) (bs : List Delimiter) : Stretch → Prop
  | siblings _ nodes =>
    (∀ node ∈ nodes, node.isSealed = true) →
      ∀ ⦃floor depth : Nat⦄ ⦃bar : Option Nat⦄, floor ≤ depth →
        Node.track floor none depth nodes = some (bar, floor) →
          bar = none ∧
            Delimiter.Tells externals bs depth (Operand.argumentCount.go depth nodes) floor
  | single node rest consumed =>
    node.isSealed = true → (∀ node ∈ rest, node.isSealed = true) →
      ∀ ⦃floor depth : Nat⦄ ⦃bar : Option Nat⦄, floor ≤ depth →
        Node.track floor none depth (node :: rest) = some (bar, floor) →
          ∃ depth' separators, floor ≤ depth' ∧
            Node.track floor none depth' (rest.drop consumed) = some (bar, floor) ∧
            Operand.argumentCount.go depth (node :: rest) =
              separators + Operand.argumentCount.go depth' (rest.drop consumed) ∧
            Delimiter.Tells externals bs depth separators depth'

namespace Stretch

open Node Operand

variable {externals : List (Equation Float)} {bs : List Delimiter} {node : Node} {rest : List Node}

theorem Tells.sealed {previous : Option Node} {nodes : List Node}
    (h : (siblings previous nodes).Tells externals bs) (hsealed : Node.Sealed nodes)
    (depth : Nat) : Delimiter.Tells externals bs depth (argumentCount.go 0 nodes) depth :=
  (h hsealed.each (Nat.le_refl 0) hsealed.matched).2.deeper depth

/-- A node that takes none of those behind it. -/
theorem tells_leaf (hplain : node.IsPlain) (hseparator : node.isSeparator = false)
    (h : node.isSealed = true → ∀ depth, Delimiter.Tells externals bs depth 0 depth) :
    (single node rest 0).Tells externals bs := by
  intro hsealed _ floor depth bar hfloor htrack
  rw [track_plain hplain] at htrack
  refine ⟨depth, 0, hfloor, htrack, ?_, h hsealed depth⟩
  rw [go_plain hplain hseparator, Nat.zero_add, List.drop_zero]

/-- An anchor with its operand. -/
theorem tells_operand {marked : Bool} (hplain : node.IsPlain)
    (hseparator : node.isSeparator = false)
    (h : (siblings none (following marked (node :: rest)).nodes).Tells externals bs) :
    (single node rest (following marked (node :: rest)).consumed).Tells externals
      (.opening .single :: (bs ++ [.close])) := by
  intro _ hsealed floor depth bar hfloor htrack
  rw [track_plain hplain] at htrack
  obtain ⟨bar', depth', hfloor', hle, hoperand, hbehind, hcount⟩ :=
    track_following marked node hfloor htrack
  have hinside := fun node' hnode =>
    hsealed node' ((following_isPrefix marked (node :: rest)).subset hnode)
  obtain ⟨rfl, htells⟩ := h hinside hle hoperand
  refine ⟨depth', _, hfloor', hbehind, ?_, htells.enclosed id⟩
  rw [go_plain hplain hseparator, hcount]

/-- A function of an external with its arguments, of which there are as many as it has
parameters. -/
theorem tells_applied {external : Nat} {x : Equation Float} (hplain : node.IsPlain)
    (hseparator : node.isSeparator = false) (hexternal : externals[external]? = some x)
    (hparens : (following false (node :: rest)).isParenthesized = true)
    (hcount : argumentCount (following false (node :: rest)).inner = x.parameters.length)
    (hbegins : (siblings none (following false (node :: rest)).inner).Begins bs)
    (h : (siblings none (following false (node :: rest)).inner).Tells externals bs)
    (hnil : (following false (node :: rest)).inner = [] → bs = []) :
    (single node rest (following false (node :: rest)).consumed).Tells externals
      (.opening (.arguments (some external) 0) :: (bs ++ [.close])) := by
  intro _ hsealed floor depth bar hfloor htrack
  rw [track_plain hplain] at htrack
  obtain ⟨hmatched, hbehind, hgo⟩ := track_inner hfloor hparens htrack
  have hinner : Node.Sealed (following false (node :: rest)).inner :=
    ⟨hmatched, fun node' hnode => hsealed node' ((following_isPrefix false (node :: rest)).subset
      ((inner_isInfix _).subset hnode))⟩
  refine ⟨depth, 0, hfloor, hbehind, by rw [go_plain hplain hseparator, hgo, Nat.zero_add], ?_⟩
  have hagree : ∀ found, found = x.parameters.length →
      Pending.Agree externals (Pending.arguments (some external) found).counted :=
    fun found hfound => List.forall_mem_singleton.2 ⟨x, hexternal, hfound⟩
  by_cases hempty : (following false (node :: rest)).inner = []
  · rw [hempty] at hcount
    rw [hnil hempty]
    refine Delimiter.tells_arguments (fun base stack counts hread => ?_) (hagree 0 hcount) depth
    obtain ⟨rfl, rfl⟩ := Prod.mk.inj (Option.some.inj hread)
    exact ⟨rfl, List.forall_mem_nil _⟩
  · have hfound : argumentCount.go 0 (following false (node :: rest)).inner + 1 =
        x.parameters.length := by
      rw [← hcount, argumentCount, if_neg (by simpa using hempty)]
    exact (h.sealed hinner 0).arguments (hbegins rfl hempty hinner) (hagree _ hfound) depth

/-- A bar with what it encloses. -/
theorem tells_bars (hclosed : isClosed (.literal Node.bar :: rest) = true)
    (h : (siblings none (absolute (.literal Node.bar :: rest)).nodes).Tells externals bs) :
    (single (.literal Node.bar) rest (absolute (.literal Node.bar :: rest)).consumed).Tells
      externals (.opening .single :: (bs ++ [.close])) := by
  intro _ hsealed floor depth bar hfloor htrack
  obtain ⟨hinside, hbehind, hgo⟩ := track_absolute hfloor hclosed htrack
  have hbody := fun node' hnode =>
    hsealed node' ((absolute_isPrefix (.literal Node.bar :: rest)).subset hnode)
  obtain ⟨-, htells⟩ := h hbody (Nat.le_refl depth) hinside
  refine ⟨depth, _, hfloor, hbehind, ?_, htells.enclosed id⟩
  rw [go_cons, depthAfter_bar rfl, hgo]
  simp [isSeparator, mark?]

theorem tells_atom {symbol : String} {mark : Mark} (hmark : Mark.ofSymbol? symbol = some mark) :
    (single (.atom symbol) rest 0).Tells externals [mark.delimiter] := by
  have hnode : (Node.atom symbol).mark? = some mark := hmark
  have hplain : mark ≠ .opening → mark ≠ .closing → (Node.atom symbol).IsPlain := by
    intro hopening hclosing
    refine ⟨?_, ?_, isBar_of_mark hnode⟩
    · simpa [isOpen, hnode] using hopening
    · simpa [isClose, hnode] using hclosing
  cases mark with
  | opening =>
    intro _ _ floor depth bar hfloor htrack
    have hopen : (Node.atom symbol).isOpen = true := beq_iff_eq.2 hnode
    rw [track_open hopen] at htrack
    refine ⟨depth + 1, 0, Nat.le_succ_of_le hfloor, htrack, ?_, Delimiter.tells_opening _ _⟩
    rw [go_parenthesis hnode (by decide), depthAfter_open hopen, Nat.zero_add, List.drop_zero]
  | closing =>
    intro _ _ floor depth bar hfloor htrack
    have hclose : (Node.atom symbol).isClose = true := beq_iff_eq.2 hnode
    obtain ⟨hlt, -, htrack⟩ := track_close_eq_some hclose htrack
    obtain ⟨depth, rfl⟩ := Nat.exists_eq_succ_of_ne_zero (Nat.ne_of_gt (Nat.zero_lt_of_lt hlt))
    refine ⟨depth, 0, Nat.le_of_lt_succ hlt, htrack, ?_, Delimiter.tells_close _ _⟩
    rw [go_parenthesis hnode (by decide), depthAfter_close hclose, Nat.zero_add, List.drop_zero]
    rfl
  | separator =>
    intro _ _ floor depth bar hfloor htrack
    have hplain := hplain (by decide) (by decide)
    have hseparator : (Node.atom symbol).isSeparator = true := beq_iff_eq.2 hnode
    rw [track_plain hplain] at htrack
    refine ⟨depth, _, hfloor, htrack, ?_, Delimiter.tells_separator _ _⟩
    rw [go_cons, depthAfter_other hplain.1 hplain.2.1, List.drop_zero]
    simp [hseparator]
  | _ =>
    refine tells_leaf (hplain (by decide) (by decide)) ?_ fun _ => Delimiter.tells_part _
    simp [isSeparator, hnode]

/-- A power: its base and its exponent are the two arguments of a function that is built in. -/
theorem tells_power {base exponent : Node} {bs' : List Delimiter}
    (hbase : Walk.simple base ≠ []) (hexponent : Walk.simple exponent ≠ [])
    (hbegins : (siblings none (Walk.simple base)).Begins bs)
    (h : (siblings none (Walk.simple base)).Tells externals bs)
    (h' : (siblings none (Walk.simple exponent)).Tells externals bs') :
    (single (.power base exponent) rest 0).Tells externals
      (.opening (.arguments none 0) :: (bs ++ .separator :: bs' ++ [.close])) := by
  refine tells_leaf ⟨rfl, rfl, rfl⟩ rfl fun hsealed depth => ?_
  obtain ⟨hsealed₁, hsealed₂⟩ := isSealed_power hsealed
  obtain ⟨hbody, -⟩ := sealed_simple hsealed₁ hbase
  obtain ⟨hbody', -⟩ := sealed_simple hsealed₂ hexponent
  have hagree : ∀ found, Pending.Agree externals (Pending.arguments none found).counted :=
    fun _ => List.forall_mem_nil _
  have htells := (h.sealed hbody 0).append
    ((Delimiter.tells_separator externals 0).append (h'.sealed hbody' 0))
  exact htells.arguments ((hbegins rfl hbase hbody).append _) (hagree _) depth

/-- A fraction: both of its parts stand in parentheses. -/
theorem tells_fraction {numerator denominator : List Node} {bs' : List Delimiter}
    (h : (siblings none numerator).Tells externals bs)
    (h' : (siblings none denominator).Tells externals bs') :
    (single (.fraction numerator denominator) rest 0).Tells externals
      (.opening .single :: (.opening .single :: (bs ++ [.close]) ++
        .part :: .opening .single :: (bs' ++ [.close]) ++ [.close])) := by
  refine tells_leaf ⟨rfl, rfl, rfl⟩ rfl fun hsealed depth => ?_
  obtain ⟨hnumerator, hdenominator⟩ := isSealed_fraction hsealed
  have hfirst : Delimiter.Tells externals (.opening .single :: (bs ++ [.close])) depth 0 depth :=
    (h.sealed hnumerator depth).enclosed fun _ => rfl
  have hsecond : Delimiter.Tells externals (.opening .single :: (bs' ++ [.close])) depth 0 depth :=
    (h'.sealed hdenominator depth).enclosed fun _ => rfl
  exact (hfirst.append hsecond.part_cons).enclosed id

end Stretch

theorem OperatorName.arity_of_turning? {operator : OperatorName} {function : Function}
    (h : operator.turning? = some function) : function.arity = 1 := by
  cases operator with
  | sum => cases h
  | integral => cases h
  | _ =>
    obtain rfl := Option.some.inj h
    rfl

open Emission in
/-- In siblings that are matched and sealed, every function is given its parameters. -/
theorem Visits.tells {s : Session} {level : Nat} {stretch : Stretch} {d d' : Declared}
    {es : List Emission} (hs : s.NamesBind) (h : Visits s level stretch d es d')
    (hd : d.Resolved s) {externals : List (Equation Float)} (hgrows : d'.externals <+: externals) :
    stretch.Tells externals (delimiters es) := by
  have hnamed : ∀ name lower upper, Node.IsPlain (.named name lower upper) :=
    fun _ _ _ => ⟨rfl, rfl, rfl⟩
  have hnothing : ∀ {level previous d es d'}, Visits s level (.siblings previous []) d es d' →
      delimiters es = [] := by
    intro level previous d es d' h
    cases h
    rfl
  induction h with
  | nil =>
    intro _ floor depth bar _ htrack
    obtain ⟨rfl, rfl⟩ := Prod.mk.inj (Option.some.inj htrack)
    exact ⟨rfl, Delimiter.tells_nil externals depth⟩
  | @cons _ consumed previous node rest _ _ _ es es' hnode hrest ihnode ihrest =>
    intro hsealed floor depth bar hfloor htrack
    -- The rest starts where the operand of the node has ended, which may be at a lower depth.
    obtain ⟨hfirst, hbehind⟩ := List.forall_mem_cons.1 hsealed
    obtain ⟨depth', separators, hfloor', hdrop, hcount, htells⟩ :=
      ihnode hd (hrest.externals_grow.trans hgrows) hfirst hbehind hfloor htrack
    obtain ⟨hbar, hmore⟩ := ihrest (hnode.resolved hs hd) hgrows
      (fun node' hmem => hbehind node' (List.mem_of_mem_drop hmem)) hfloor' hdrop
    refine ⟨hbar, ?_⟩
    rw [hcount, delimiters_append, delimiters_cons_visit, delimiters_append, Walk.joint]
    split
    · exact (htells.append hmore).part_cons
    · exact htells.append hmore
  | bars hclosed _ _ ih =>
    rw [delimiters_between]
    exact Stretch.tells_bars hclosed (ih hd hgrows)
  | piece htext =>
    have hplain : Node.IsPlain (.literal _) := ⟨rfl, rfl, by simpa [Node.isBar] using htext⟩
    exact Stretch.tells_leaf hplain rfl fun _ => Delimiter.tells_part externals
  | name => exact Stretch.tells_leaf ⟨rfl, rfl, rfl⟩ rfl fun _ => Delimiter.tells_part externals
  | reference =>
    exact Stretch.tells_leaf ⟨rfl, rfl, rfl⟩ rfl fun _ => Delimiter.tells_part externals
  | application _ hresolve _ hparens hcount hbody ih =>
    have hexternal := Declared.getElem?_of_grow hs hd hresolve (hbody.externals_grow.trans hgrows)
    have hdeclared := hd.declaring (hs.name?_of_resolve hresolve) hresolve
    rw [delimiters_applied _ _ (fun _ => rfl) _ rfl]
    exact Stretch.tells_applied ⟨rfl, rfl, rfl⟩ rfl hexternal hparens hcount hbody.begins
      (ih hdeclared hgrows) fun hempty => hnothing (hempty ▸ hbody)
  | atom hentry =>
    obtain ⟨mark, hmark, hdelimiters⟩ := Entry.delimiters_instruction hentry
    rw [hdelimiters]
    exact Stretch.tells_atom hmark
  | power hbase hexponent h₁ h₂ ih₁ ih₂ =>
    rw [delimiters_between, delimiters_append, delimiters_cons_append]
    exact Stretch.tells_power hbase hexponent h₁.begins (ih₁ hd (h₂.externals_grow.trans hgrows))
      (ih₂ (h₁.resolved hs hd) hgrows)
  | angle hsimple _ ih =>
    refine Stretch.tells_leaf ⟨rfl, rfl, rfl⟩ rfl fun hsealed depth => ?_
    rw [Node.isSealed] at hsealed
    obtain ⟨hbase, hcount⟩ := Node.sealed_simple hsealed hsimple
    have htells := (ih hd hgrows).sealed hbase depth
    rwa [hcount] at htells
  | derivative hresolve hparens hcount hbody ih =>
    have hresolve := Option.eq_some_of_filter_eq_some hresolve
    have hexternal := Declared.getElem?_of_grow hs hd hresolve (hbody.externals_grow.trans hgrows)
    have hdeclared := hd.declaring (hs.name?_of_resolve hresolve) hresolve
    rw [delimiters_applied _ _ (fun _ => rfl) _ rfl]
    exact Stretch.tells_applied ⟨rfl, rfl, rfl⟩ rfl hexternal hparens hcount hbody.begins
      (ih hdeclared hgrows) fun hempty => hnothing (hempty ▸ hbody)
  | fraction _ _ h₁ h₂ ih₁ ih₂ =>
    rw [delimiters_between, delimiters_append, delimiters_between, delimiters_cons_append,
      delimiters_between]
    exact Stretch.tells_fraction (ih₁ hd (h₂.externals_grow.trans hgrows))
      (ih₂ (h₁.resolved hs hd) hgrows)
  | root _ _ ih =>
    refine Stretch.tells_leaf ⟨rfl, rfl, rfl⟩ rfl fun hsealed depth => ?_
    rw [delimiters_between]
    exact ((ih hd hgrows).sealed (Node.isSealed_root hsealed) depth).enclosed fun _ => rfl
  | group _ ih =>
    refine Stretch.tells_leaf ⟨rfl, rfl, rfl⟩ rfl fun hsealed depth => ?_
    obtain ⟨hbody, -, hcount⟩ := Node.isSealed_group hsealed
    have htells := (ih hd hgrows).sealed hbody depth
    rwa [hcount] at htells
  | sum _ _ _ ih =>
    rw [delimiters_between]
    exact Stretch.tells_operand (hnamed ..) rfl (ih hd hgrows)
  | integral _ _ _ _ ih =>
    rw [delimiters_cons_warning, delimiters_between]
    exact Stretch.tells_operand (hnamed ..) rfl (ih hd hgrows)
  | turned hturning _ _ ih =>
    rw [delimiters_between, Fragment.delimiter, if_pos (OperatorName.arity_of_turning? hturning)]
    exact Stretch.tells_operand (hnamed ..) rfl (ih hd hgrows)

/-! ## Equations and calls -/

/-- The right side of the equation is matched, and its groups are single parts. -/
def Node.SealedRight (nodes : List Node) : Prop := Sealed (rightSide nodes)

instance (nodes : List Node) : Decidable (Node.SealedRight nodes) :=
  inferInstanceAs (Decidable (Node.Sealed (Node.rightSide nodes)))

namespace Session

/-- Where the right side is matched and its groups are single parts, every function is given its
parameters. -/
theorem appliesWell_of_compile {s : Session} (hs : s.Reachable) {nodes : List Node}
    {equation : Equation Float} (h : (s.compile nodes).outcome = .ok equation)
    (hsealed : Node.SealedRight nodes) : equation.AppliesWell := by
  obtain ⟨binding, right, es, d, branches, hsides, hvisits, hread, rfl⟩ :=
    compile_outcome_eq_ok_iff.1 h
  rw [Node.SealedRight, ← eq_rightSide_of_splitSides hsides] at hsealed
  have hresolved := resolved_declaredBy s binding
  have hlinked : ∀ i ∈ Emission.instructions es, i.IsLinked (fun _ => True) d.externals :=
    hvisits.isLinked hs.namesBind hresolved (fun _ _ => trivial) List.prefix_rfl
  have htells := (hvisits.tells hs.namesBind hresolved List.prefix_rfl).sealed hsealed 0
  intro branch hbranch part hpart external found happlied
  have hreads := readAll_delimiters hlinked hread hbranch [.arguments none 1]
  obtain ⟨-, -, hagree⟩ := htells 0 Nat.one_pos hreads
  exact hagree (external, found) (List.mem_filterMap.2 ⟨part, hpart, happlied⟩)

/-- Functions are given their parameters, and no call of an equation meets a function that is given
other than these: as long as all groups are single parts, and parentheses and bars have their
partners among siblings. -/
theorem arguments_are_parameters (s : Session) :
    (s.Reachable → ∀ nodes equation, Node.SealedRight nodes →
      (s.compile nodes).outcome = .ok equation → equation.AppliesWell) ∧
    (s.ReachableBy Node.SealedRight →
      ∀ e ∈ s.equations.toList, ∀ values : List Float, values.length = e.arguments.length →
        ∀ expected found, e.branchValues values ≠ .error (.argumentCount expected found) ∧
          e.call values ≠ .error (.argumentCount expected found)) := by
  refine ⟨fun hs nodes equation hsealed h => appliesWell_of_compile hs h hsealed, ?_⟩
  intro hs e he values hlength expected found
  have hall : ∀ x, e.Reaches x → x.AppliesWell :=
    hs.forall_reached (fun s nodes e hs hnodes h => appliesWell_of_compile hs.reachable h hnodes)
      e he
  have hnever : e.branchValues values ≠ .error (.argumentCount expected found) := by
    intro herror
    cases hs.reachable.mayEnd he hlength herror with
    | argumentCount hreaches hmisapplied => exact hmisapplied (hall _ hreaches)
  exact ⟨hnever, fun herror => hnever (branchValues_error_of_call herror)⟩

/-- The session after `f(x) = x`. -/
theorem compile_identity :
    ((fresh {}).compile [.var "f", .atom "(", .var "x", .atom ")", .atom "=", .var "x"]).outcome =
      .ok ⟨some ⟨"f", .function, ["x"]⟩, ["x"], [], [.var "x"], []⟩ := by
  have hread : readBranches [.append (.var "x")] = .ok [.var "x"] :=
    readBranches_single rfl (Expression.parse_eq_ok_iff_ofCode.2 (by cbv))
  exact compile_outcome_eq_ok_iff.2 ⟨_, _, _, _, _, rfl, .cons (.name (.inl rfl)) .nil, hread, rfl⟩

/-- In `f(a)` the function is given its parameter. -/
theorem arguments_are_parameters_of_application : ∃ (s : Session) (equation : Equation Float),
    s.ReachableBy Node.SealedRight ∧
    Node.SealedRight [.var "f", .atom "(", .var "a", .atom ")"] ∧
    (s.compile [.var "f", .atom "(", .var "a", .atom ")"]).outcome = .ok equation ∧
    equation.branches = [.apply 0 0 [.var "a"]] ∧ equation.AppliesWell ∧
    ((s.compile [.var "f", .atom "(", .var "a", .atom ")"]).session.ReachableBy
      Node.SealedRight) ∧
    equation ∈ (s.compile [.var "f", .atom "(", .var "a", .atom ")"]).session.equations.toList ∧
    ∀ value expected found, equation.branchValues [value] ≠ .error (.argumentCount expected found) ∧
      equation.call [value] ≠ .error (.argumentCount expected found) := by
  have hs : ((fresh {}).compile [.var "f", .atom "(", .var "x", .atom ")", .atom "=",
      .var "x"]).session.ReachableBy Node.SealedRight :=
    .compile (by decide) (.fresh {})
  rw [session_compile_of_ok compile_identity] at hs
  have hvisits : Visits ((fresh {}).register
      ⟨some ⟨"f", .function, ["x"]⟩, ["x"], [], [.var "x"], []⟩) 0
      (.siblings none [.var "f", .atom "(", .var "a", .atom ")"]) (declaredBy none) _ _ :=
    .cons (.application rfl rfl rfl rfl rfl (.cons (.name (.inr rfl)) .nil)) .nil
  have hread : readBranches [.pair 0 1, .appendPaired 0 (.apply 0), .append (.var "a"),
      .append .close] = .ok [.apply 0 0 [.var "a"]] :=
    readBranches_single rfl (Expression.parse_eq_ok_iff_ofCode.2 (by cbv))
  obtain ⟨equation, hcompile, hbranches, harguments⟩ : ∃ equation, (((fresh {}).register
      ⟨some ⟨"f", .function, ["x"]⟩, ["x"], [], [.var "x"], []⟩).compile
        [.var "f", .atom "(", .var "a", .atom ")"]).outcome = .ok equation ∧
      equation.branches = [.apply 0 0 [.var "a"]] ∧ equation.arguments.length = 1 :=
    ⟨_, compile_outcome_eq_ok_iff.2 ⟨none, _, _, _, _, rfl, hvisits, hread, rfl⟩, rfl, rfl⟩
  have hsealed : Node.SealedRight [.var "f", .atom "(", .var "a", .atom ")"] := by
    decide
  have hwell := (arguments_are_parameters _).1 hs.reachable _ _ hsealed hcompile
  have hnext := hs.compile hsealed
  have hmem : equation ∈ (((fresh {}).register
      ⟨some ⟨"f", .function, ["x"]⟩, ["x"], [], [.var "x"], []⟩).compile
        [.var "f", .atom "(", .var "a", .atom ")"]).session.equations.toList := by
    rw [session_compile_of_ok hcompile, toList_register]
    exact List.mem_append_right _ (List.mem_singleton_self _)
  refine ⟨_, equation, hs, hsealed, hcompile, hbranches, hwell, hnext, hmem, ?_⟩
  intro value expected found
  exact (arguments_are_parameters _).2 hnext equation hmem [value] harguments.symm expected found

/-- A group is one node where arguments are counted, and two arguments in the code. -/
theorem group_is_given_as_arguments : ∃ equation : Equation Float,
    (((fresh {}).compile [.var "f", .atom "(", .var "x", .atom ")", .atom "=",
      .var "x"]).session.compile [.var "f", .atom "(", .group [.var "a", .atom ",", .var "b"],
        .atom ")"]).outcome = .ok equation ∧
    equation.arguments = ["a", "b"] ∧ equation.branches = [.apply 0 0 [.var "a", .var "b"]] ∧
    equation.externals.map Equation.parameters = [["x"]] ∧ ¬equation.AppliesWell ∧
    ∀ first second : Float,
      equation.branchValues [first, second] = .error (.argumentCount 1 2) ∧
      equation.call [first, second] = .error (.argumentCount 1 2) := by
  rw [session_compile_of_ok compile_identity]
  have hvisits : Visits ((fresh {}).register
      ⟨some ⟨"f", .function, ["x"]⟩, ["x"], [], [.var "x"], []⟩) 0
      (.siblings none [.var "f", .atom "(", .group [.var "a", .atom ",", .var "b"], .atom ")"])
      (declaredBy none) _ _ :=
    .cons (.application rfl rfl rfl rfl rfl (.cons (.group (.cons (.name (.inr rfl))
      (.cons (.atom rfl) (.cons (.name (.inr rfl)) .nil)))) .nil)) .nil
  have hread : readBranches [.pair 0 1, .appendPaired 0 (.apply 0), .append (.var "a"),
      .append .separator, .append (.var "b"), .append .close] =
      .ok [.apply 0 0 [.var "a", .var "b"]] :=
    readBranches_single rfl (Expression.parse_eq_ok_iff_ofCode.2 (by cbv))
  refine ⟨_, compile_outcome_eq_ok_iff.2 ⟨none, _, _, _, _, rfl, hvisits, hread, rfl⟩, rfl, rfl,
    rfl, ?_, fun first second => ⟨rfl, rfl⟩⟩
  intro hwell
  obtain ⟨x, hx, hcount⟩ := hwell _ (List.mem_singleton_self _) _
    (List.mem_append_right _ (List.mem_singleton_self _)) 0 2 rfl
  obtain rfl := Option.some.inj hx
  cases hcount

end Session

end Formulary
