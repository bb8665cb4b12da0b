import Mathlib.Algebra.GroupWithZero.Nat
import Formulary.Proofs.Arity
import Formulary.Proofs.Relocation

/-!
# Room for separators

A bracket of code has room for as many separators as its function takes arguments beyond the first,
and is full when it is closed. Code that reads as a whole leaves the rooms around it as they are.
-/

namespace Formulary

/-- How many separators a bracket has room for. The arguments of an external may be any number. -/
def Pending.room? : Pending → Option Nat
  | single => some 0
  | arguments none _ => some 1
  | arguments (some _) _ => none

namespace Delimiter

/-- The rooms that are left in the open brackets behind a delimiter. -/
def fill : Delimiter → List (Option Nat) → Option (List (Option Nat))
  | part, rooms => some rooms
  | opening pending, rooms => some (pending.room? :: rooms)
  | close, room :: rooms => if room.getD 0 = 0 then some rooms else none
  | separator, none :: rooms => some (none :: rooms)
  | separator, some (n + 1) :: rooms => some (some n :: rooms)
  | _, _ => none

def fillAll (ds : List Delimiter) (rooms : List (Option Nat)) : Option (List (Option Nat)) :=
  ds.foldlM (fun rooms b => b.fill rooms) rooms

variable {rooms : List (Option Nat)}

@[simp] theorem fillAll_nil (rooms : List (Option Nat)) : fillAll [] rooms = some rooms := rfl

@[simp] theorem fillAll_cons (b : Delimiter) (rest : List Delimiter) (rooms : List (Option Nat)) :
    fillAll (b :: rest) rooms = (b.fill rooms).bind (fillAll rest) :=
  List.foldlM_cons

@[simp] theorem fillAll_append (first second : List Delimiter) (rooms : List (Option Nat)) :
    fillAll (first ++ second) rooms = (fillAll first rooms).bind (fillAll second) :=
  List.foldlM_append

end Delimiter

/-! ## Code that reads as a whole -/

namespace Expression

open Delimiter

theorem fill_call (f : Function) (rooms : List (Option Nat)) :
    (Fragment.call f).delimiter.fill rooms = some (some (f.arity - 1) :: rooms) := by
  cases f <;> rfl

/-- A body between an opening fragment and its `close`. -/
private theorem fillAll_body {opening : Fragment} {code : List Fragment}
    (hopening : opening.delimiter = .opening .single)
    (h : ∀ rooms, fillAll (code.map Fragment.delimiter) rooms = some rooms)
    (rooms : List (Option Nat)) :
    fillAll ((opening :: (code ++ [Fragment.close])).map Fragment.delimiter) rooms =
      some rooms := by
  rw [List.map_cons, hopening, fillAll_cons, List.map_append, fill, Option.bind_some,
    fillAll_append, h]
  rfl

/-- A bracket whose room is not known is as good as full. -/
private theorem getD_eq_zero {room : Option Nat} (h : ∀ n ∈ room, n = 0) : room.getD 0 = 0 := by
  cases room with
  | none => rfl
  | some n => exact h n rfl

mutual

theorem IsSum.fillAll {code : List Fragment} {e : Expression Float} :
    IsSum code e → ∀ rooms, Delimiter.fillAll (code.map Fragment.delimiter) rooms = some rooms
  | .product h, rooms => h.fillAll rooms
  | .more hl _ hr, rooms => by
    simp [hl.fillAll, hr.fillAll, Fragment.delimiter, fill]

theorem IsProduct.fillAll {code : List Fragment} {e : Expression Float} :
    IsProduct code e → ∀ rooms, Delimiter.fillAll (code.map Fragment.delimiter) rooms = some rooms
  | .signed h, rooms => h.fillAll rooms
  | .more hl _ hr, rooms => by
    simp [hl.fillAll, hr.fillAll, Fragment.delimiter, fill]

theorem IsSigned.fillAll {code : List Fragment} {e : Expression Float} :
    IsSigned code e → ∀ rooms, Delimiter.fillAll (code.map Fragment.delimiter) rooms = some rooms
  | .operand h, rooms => h.fillAll rooms
  | .plus h, rooms => by simp [h.fillAll, Fragment.delimiter, fill]
  | .minus h, rooms => by simp [h.fillAll, Fragment.delimiter, fill]

theorem IsOperand.fillAll {code : List Fragment} {e : Expression Float} :
    IsOperand code e → ∀ rooms, Delimiter.fillAll (code.map Fragment.delimiter) rooms = some rooms
  | .number _, rooms => rfl
  | .var _, rooms => rfl
  | .parens h, rooms => fillAll_body rfl h.fillAll rooms
  | .call f h hcount, rooms => by
    rw [List.map_cons, fillAll_cons, fill_call, Option.bind_some, ← hcount]
    exact h.fillAll (some _) (by simp) rooms
  | .sum _ _ _ h, rooms => fillAll_body rfl h.fillAll rooms
  | .integral _ _ _ _ _ h, rooms => fillAll_body rfl h.fillAll rooms
  | .reference _ _, rooms => rfl
  | .apply _ _ h, rooms => h.fillAll none (by simp) rooms
  | .derivative _ _ _ h, rooms => h.fillAll none (by simp) rooms

theorem IsArguments.fillAll {code : List Fragment} {es : List (Expression Float)} :
    IsArguments code es → ∀ room : Option Nat, (∀ n ∈ room, n = es.length - 1) → ∀ rooms,
      Delimiter.fillAll (code.map Fragment.delimiter) (room :: rooms) = some rooms
  | .none, room, hroom, rooms => by
    have hfull := getD_eq_zero hroom
    simp [Fragment.delimiter, fill, hfull]
  | .some h, room, hroom, rooms => h.fillAll room hroom rooms

theorem IsListed.fillAll {code : List Fragment} {es : List (Expression Float)} :
    IsListed code es → ∀ room : Option Nat, (∀ n ∈ room, n = es.length - 1) → ∀ rooms,
      Delimiter.fillAll (code.map Fragment.delimiter) (room :: rooms) = some rooms
  | .last h, room, hroom, rooms => by
    have hfull := getD_eq_zero hroom
    simp [h.fillAll, Fragment.delimiter, fill, hfull]
  | .more h hrest, none, _, rooms => by
    simp [h.fillAll, Fragment.delimiter, fill, hrest.fillAll]
  | @IsListed.more _ _ e es h hrest, some n, hroom, rooms => by
    obtain ⟨k, hk⟩ : ∃ k, es.length = k + 1 := Nat.exists_eq_add_one.2 hrest.length_pos
    obtain rfl : n = k + 1 := (hroom n rfl).trans hk
    have hless : ∀ m ∈ some k, m = es.length - 1 := by simp [hk]
    simp [h.fillAll, Fragment.delimiter, fill, hrest.fillAll _ hless]

end

end Expression

namespace Fragment

/-- The delimiter of a fragment that is not only a part. -/
def bracket? (f : Fragment) : Option Delimiter :=
  match f.delimiter with
  | .part => none
  | b => some b

/-- Parts take up nothing. -/
theorem fillAll_brackets (code : List Fragment) (rooms : List (Option Nat)) :
    Delimiter.fillAll (code.map delimiter) rooms =
      Delimiter.fillAll (code.filterMap bracket?) rooms := by
  induction code generalizing rooms with
  | nil => rfl
  | cons f code ih =>
    by_cases hpart : f.delimiter = .part
    · have hnone : f.bracket? = none := by rw [bracket?, hpart]
      rw [List.filterMap_cons_none hnone, List.map_cons, hpart, ← ih]
      rfl
    · have hsome : f.bracket? = some f.delimiter := by
        unfold bracket?
        split
        · next heq => exact absurd heq hpart
        · rfl
      rw [List.filterMap_cons_some hsome, List.map_cons, Delimiter.fillAll_cons,
        Delimiter.fillAll_cons, funext ih]

theorem fillAll_joined (code : List Fragment) (rooms : List (Option Nat)) :
    Delimiter.fillAll ((joined code).map delimiter) rooms =
      Delimiter.fillAll (code.map delimiter) rooms := by
  rw [fillAll_brackets, fillAll_brackets, filterMap_joined fun _ => rfl]

end Fragment

/-! ## What delimiters take up -/

namespace Delimiter

/-- No arguments of externals begin among the delimiters, and they take up the room of `n`
separators at least. -/
def Spends (n : Nat) (ds : List Delimiter) : Prop :=
  ∀ (rooms : List Nat) (left : List (Option Nat)), fillAll ds (rooms.map some) = some left →
    ∃ rooms' : List Nat, left = rooms'.map some ∧ rooms'.sum + n ≤ rooms.sum

namespace Spends

variable {n m : Nat} {ds ds' : List Delimiter}

theorem nil : Spends 0 [] := by
  rintro rooms _ ⟨⟩
  exact ⟨rooms, rfl, Nat.le_refl _⟩

theorem append (h : Spends n ds) (h' : Spends m ds') : Spends (n + m) (ds ++ ds') := by
  intro rooms left hleft
  rw [fillAll_append] at hleft
  obtain ⟨_, hfirst, hsecond⟩ := Option.bind_eq_some_iff.1 hleft
  obtain ⟨rooms₁, rfl, hle⟩ := h rooms _ hfirst
  obtain ⟨rooms₂, rfl, hle'⟩ := h' rooms₁ _ hsecond
  exact ⟨rooms₂, rfl, by omega⟩

theorem part : Spends 0 [part] := nil

theorem separator : Spends 1 [separator] := by
  intro rooms left hleft
  rcases rooms with _ | ⟨_ | n, rooms⟩
  · cases hleft
  · cases hleft
  · obtain rfl : some n :: rooms.map some = left := by simpa [fill] using hleft
    refine ⟨n :: rooms, rfl, ?_⟩
    simp only [List.sum_cons]
    omega

theorem close : Spends 0 [close] := by
  intro rooms left hleft
  cases rooms with
  | nil => cases hleft
  | cons room rooms =>
    obtain ⟨-, rfl⟩ : room = 0 ∧ rooms.map some = left := by
      simpa [fill, Option.bind_eq_some_iff] using hleft
    refine ⟨rooms, rfl, ?_⟩
    simp only [List.sum_cons]
    omega

/-- The room that a bracket brings can be spent in it. -/
theorem opening {pending : Pending} {room : Nat} (hroom : pending.room? = some room)
    (h : Spends (room + n) ds) : Spends n (.opening pending :: ds) := by
  intro rooms left hleft
  rw [fillAll_cons, fill, Option.bind_some, hroom] at hleft
  obtain ⟨rooms', rfl, hle⟩ := h (room :: rooms) left hleft
  rw [List.sum_cons] at hle
  exact ⟨rooms', rfl, by omega⟩

theorem mono (h : Spends n ds) (hle : m ≤ n) : Spends m ds := by
  intro rooms left hleft
  obtain ⟨rooms', rfl, hsum⟩ := h rooms left hleft
  exact ⟨rooms', rfl, by omega⟩

theorem mark (mark : Mark) : Spends (if mark = .separator then 1 else 0) [mark.delimiter] := by
  cases mark with
  | opening => exact @Spends.opening _ _ _ 0 rfl nil
  | closing => exact close
  | separator => exact separator
  | _ => exact part

/-- What stands in brackets that take one expression. -/
theorem enclosed (h : Spends n ds) : Spends n (.opening .single :: (ds ++ [.close])) := by
  refine @opening _ _ _ 0 rfl ?_
  rw [Nat.zero_add]
  exact h.append close

end Spends

end Delimiter

/-! ## Separators among siblings -/

/-- The separators among the nodes of a stretch, those in the lists of a node apart. -/
def Stretch.separators : Stretch → Nat
  | siblings _ nodes => nodes.countP Node.isSeparator
  | single node rest consumed => (node :: rest.take consumed).countP Node.isSeparator

namespace Operand

/-- What ends an operand is no separator. -/
theorem countP_following (marked : Bool) (anchor : Node) (rest : List Node) :
    (rest.take (following marked (anchor :: rest)).consumed).countP Node.isSeparator =
      (following marked (anchor :: rest)).nodes.countP Node.isSeparator := by
  have hmarker : (following marked (anchor :: rest)).marker.countP Node.isSeparator = 0 := by
    unfold marker
    split <;> rfl
  rw [take_following, List.countP_append, hmarker, Nat.add_zero]

theorem countP_absolute {rest : List Node} (h : isClosed (.literal Node.bar :: rest) = true) :
    (rest.take (absolute (.literal Node.bar :: rest)).consumed).countP Node.isSeparator =
      (absolute (.literal Node.bar :: rest)).nodes.countP Node.isSeparator := by
  rw [take_absolute h, List.countP_append]
  rfl

end Operand

theorem Node.countP_atom {symbol : String} {mark : Mark} (h : Mark.ofSymbol? symbol = some mark) :
    [Node.atom symbol].countP isSeparator = if mark = .separator then 1 else 0 := by
  rw [List.countP_singleton, isSeparator, mark?, h]
  simp

open Emission Delimiter in
/-- Plain code takes up room for every separator among the siblings. -/
theorem Visits.spends {s : Session} {depth : Nat} {stretch : Stretch} {d d' : Declared}
    {es : List Emission} (h : Visits s depth stretch d es d')
    (hplain : ∀ i ∈ Emission.instructions es, i.IsPlain) :
    Spends stretch.separators (delimiters es) := by
  induction h with
  | nil => exact .nil
  | @cons _ consumed previous node rest _ _ _ es es' _ _ ihnode ihrest =>
    obtain ⟨hfirst, hbehind⟩ := isPlain_append.1 (isPlain_append.1 hplain).2
    have hboth := (ihnode hfirst).append (ihrest hbehind)
    have hcount : (Stretch.siblings previous (node :: rest)).separators =
        (Stretch.single node rest consumed).separators +
          (Stretch.siblings (node :: rest.take consumed).getLast?
            (rest.drop consumed)).separators := by
      simp only [Stretch.separators]
      rw [← List.countP_append, List.cons_append, List.take_append_drop]
    rw [hcount, delimiters_append, delimiters_cons_visit, delimiters_append, Walk.joint]
    split
    · exact hboth
    · exact hboth
  | bars hclosed _ _ ih =>
    rw [delimiters_between, Stretch.separators, List.countP_cons_of_neg Bool.false_ne_true,
      Operand.countP_absolute hclosed]
    exact (ih (isPlain_between.1 hplain)).enclosed
  | piece => exact .part
  | name => exact .part
  | reference =>
    rw [← List.append_nil (Walk.pairing ..)] at hplain
    exact (not_isPlain_pairing hplain).elim
  | application =>
    rw [List.append_assoc] at hplain
    exact (not_isPlain_pairing hplain).elim
  | derivative =>
    rw [List.append_assoc] at hplain
    exact (not_isPlain_pairing hplain).elim
  | atom hentry =>
    obtain ⟨mark, hmark, hdelimiters⟩ := Entry.delimiters_instruction hentry
    rw [hdelimiters, Stretch.separators, List.take_zero, Node.countP_atom hmark]
    exact .mark mark
  | power _ _ _ _ ih₁ ih₂ =>
    obtain ⟨hbase, hexponent⟩ := isPlain_append.1 (isPlain_between.1 hplain)
    have hfirst := (ih₁ hbase).mono (Nat.zero_le _)
    have hsecond := (ih₂ (isPlain_code.1 hexponent)).mono (Nat.zero_le _)
    rw [delimiters_between, delimiters_append, delimiters_cons_append, List.append_assoc]
    exact .opening rfl (hfirst.append (Spends.separator.append (hsecond.append .close)))
  | angle _ _ ih => exact (ih hplain).mono (Nat.zero_le _)
  | fraction _ _ _ _ ih₁ ih₂ =>
    obtain ⟨hnumerator, hdenominator⟩ := isPlain_append.1 (isPlain_between.1 hplain)
    have hfirst := (ih₁ (isPlain_between.1 hnumerator)).mono (Nat.zero_le _)
    have hsecond := (ih₂ (isPlain_between.1 (isPlain_code.1 hdenominator))).mono
      (Nat.zero_le _)
    rw [delimiters_between, delimiters_append, delimiters_between, delimiters_cons_append,
      delimiters_between]
    exact (hfirst.enclosed.append (Spends.part.append hsecond.enclosed)).enclosed
  | root _ _ ih =>
    rw [delimiters_between]
    exact ((ih (isPlain_between.1 hplain)).mono (Nat.zero_le _)).enclosed
  | group _ ih => exact (ih hplain).mono (Nat.zero_le _)
  | sum _ _ _ ih =>
    rw [delimiters_between, Stretch.separators, List.countP_cons_of_neg Bool.false_ne_true,
      Operand.countP_following]
    exact (ih (isPlain_between.1 hplain)).enclosed
  | integral _ _ _ _ ih =>
    rw [delimiters_cons_warning, delimiters_between, Stretch.separators,
      List.countP_cons_of_neg Bool.false_ne_true, Operand.countP_following]
    exact (ih (isPlain_between.1 hplain)).enclosed
  | turned hturning _ _ ih =>
    rw [delimiters_between, Fragment.delimiter, if_pos (OperatorName.arity_of_turning? hturning),
      Stretch.separators, List.countP_cons_of_neg Bool.false_ne_true, Operand.countP_following]
    exact (ih (isPlain_between.1 hplain)).enclosed

theorem map_delimiter_select {is : List Instruction} (h : ∀ i ∈ is, i.IsPlain) (σ : Nat → Bool)
    (j : Nat) : (select σ j is).map Fragment.delimiter = is.filterMap Instruction.delimiter? := by
  induction is generalizing j with
  | nil => rfl
  | cons i is ih =>
    obtain ⟨hfirst, hrest⟩ := List.forall_mem_cons.1 h
    cases hfirst with
    | append fragment => exact congrArg (fragment.delimiter :: ·) (ih hrest j)
    | sign => exact congrArg (Delimiter.part :: ·) (ih hrest (j + 1))

/-- Among siblings whose plain code reads as a sum, there is no separator. -/
theorem Visits.countP_separator {s : Session} {depth : Nat} {previous : Option Node}
    {nodes : List Node} {d d' : Declared} {es : List Emission}
    (h : Visits s depth (.siblings previous nodes) d es d')
    (hplain : ∀ i ∈ Emission.instructions es, i.IsPlain) {σ : Nat → Bool} {e : Expression Float}
    (hsum : Expression.IsSum (Fragment.joined (select σ 0 (Emission.instructions es))) e) :
    nodes.countP Node.isSeparator = 0 := by
  have hfill : Delimiter.fillAll (Emission.delimiters es) [] = some [] := by
    rw [Emission.delimiters, ← map_delimiter_select hplain σ 0, ← Fragment.fillAll_joined]
    exact hsum.fillAll []
  obtain ⟨rooms, -, hle⟩ := h.spends hplain [] [] hfill
  exact Nat.le_zero.1 (Nat.le_trans (Nat.le_add_left _ _) hle)

end Formulary
