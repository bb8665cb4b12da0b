import Formulary.Json.Reader

/-!
# Texts of JSON values

What is printed is read back: a value without numbers, all strings of which have a text, is what
its own text stands for. The steps that the reader is given are enough for it.
-/

namespace Formulary.Json

/-! ## Strings -/

/-- The number that a text of four hexadecimal digits stands for. -/
def ofHex? : List Char → Option Nat
  | [a, b, c, d] => hex4? a b c d
  | _ => none

theorem ofHex?_toDigits : ∀ n < 0x20,
    ofHex? (List.replicate (4 - (Nat.toDigits 16 n).length) '0' ++ Nat.toDigits 16 n) =
      some n := by
  decide

theorem readUnits_hex {digits : List Char} {n : Nat} (h : ofHex? digits = some n)
    (rest : List Char) :
    readUnits ('\\' :: 'u' :: digits ++ rest) =
      (readUnits rest).map fun (units, rest) => (n :: units, rest) := by
  match digits, h with
  | [a, b, c, d], h =>
    have hvalue : hex4? a b c d = some n := h
    have hread : readUnits ('\\' :: 'u' :: a :: b :: c :: d :: rest) =
        (hex4? a b c d).bind fun unit =>
          (readUnits rest).bind fun (units, rest) => some (unit :: units, rest) := rfl
    simp only [List.cons_append, List.nil_append, hread, hvalue, Option.map_eq_bind]
    rfl

theorem readUnits_escape {e c : Char} (h : escape? e = some c) (he : e ≠ 'u') (rest : List Char) :
    readUnits ('\\' :: e :: rest) =
      (readUnits rest).map fun (units, rest) => (c.toNat :: units, rest) := by
  rw [readUnits]
  · rw [h]
    cases readUnits rest <;> rfl
  · simp [he]

/-- Each character is one unit, whether it is escaped or not. -/
theorem readUnits_escaped (c : Char) (rest : List Char) :
    readUnits (escaped c ++ rest) =
      (readUnits rest).map fun (units, rest) => (c.toNat :: units, rest) := by
  unfold escaped
  split
  · next hescaped =>
    rcases hescaped with rfl | rfl
    · exact readUnits_escape rfl (by decide) rest
    · exact readUnits_escape rfl (by decide) rest
  · next hplain =>
    split
    · next hcontrol => exact readUnits_hex (ofHex?_toDigits c.toNat hcontrol) rest
    · next hvisible =>
      rw [not_or] at hplain
      rw [List.singleton_append, readUnits]
      · simp only [hvisible, hplain.2, or_self, if_false]
        cases readUnits rest <;> rfl
      · exact hplain.1
      · simp [hplain.2]
      · simp [hplain.2]

theorem readUnits_flatMap (text rest : List Char) :
    readUnits (text.flatMap escaped ++ '"' :: rest) = some (text.map Char.toNat, rest) := by
  induction text with
  | nil => rfl
  | cons c text ih =>
    rw [List.flatMap_cons, List.append_assoc, readUnits_escaped, ih]
    rfl

theorem joinPairs_toNat (text : List Char) : joinPairs (text.map Char.toNat) = some text := by
  induction text with
  | nil => rfl
  | cons c text ih =>
    -- No character is half of a surrogate pair.
    have hvalid : c.toNat < 0xd800 ∨ 0xdfff < c.toNat ∧ c.toNat < 0x110000 := c.valid
    have hhigh : ¬(0xd800 ≤ c.toNat ∧ c.toNat < 0xdc00) := by omega
    have hlow : ¬(0xdc00 ≤ c.toNat ∧ c.toNat < 0xe000) := by omega
    rw [List.map_cons, joinPairs.eq_def]
    simp only [if_neg hhigh, if_neg hlow, ih, Option.map_some, Char.ofNat_toNat]

/-- A string is read up to its closing quote. -/
theorem readString_flatMap (text : String) (rest : List Char) :
    readString (text.toList.flatMap escaped ++ '"' :: rest) = some (some text, rest) := by
  rw [readString, readUnits_flatMap]
  simp [joinPairs_toNat]

theorem toList_quoted (text : String) :
    (quoted text).toList = '"' :: (text.toList.flatMap escaped ++ ['"']) := by
  simp [quoted]

/-! ## How texts begin -/

mutual

/-- There are no numbers in the value, and all its strings have a text. -/
def isSpelled : Json → Bool
  | null | bool _ => true
  | number _ => false
  | string text => text.isSome
  | array items => isSpelledAll items
  | object members => isSpelledMembers members

def isSpelledAll : List Json → Bool
  | [] => true
  | item :: rest => item.isSpelled && isSpelledAll rest

def isSpelledMembers : List (Option String × Json) → Bool
  | [] => true
  | (key, value) :: rest => key.isSome && value.isSpelled && isSpelledMembers rest

end

theorem isSpelledAll_cons {item : Json} {rest : List Json} :
    isSpelledAll (item :: rest) = true ↔ item.isSpelled = true ∧ isSpelledAll rest = true := by
  rw [isSpelledAll, Bool.and_eq_true]

theorem isSpelledMembers_cons {key : Option String} {value : Json}
    {rest : List (Option String × Json)} :
    isSpelledMembers ((key, value) :: rest) = true ↔
      key.isSome = true ∧ value.isSpelled = true ∧ isSpelledMembers rest = true := by
  rw [isSpelledMembers, Bool.and_eq_true, Bool.and_eq_true, and_assoc]

theorem skipBlanks_cons {c : Char} (h : isBlank c = false) (cs : List Char) :
    skipBlanks (c :: cs) = c :: cs :=
  List.dropWhile_cons_of_neg (by simp [h])

/-- The text of a value begins with a character that is no blank and does not end an array. -/
theorem exists_head {j : Json} (h : j.isSpelled = true) :
    ∃ c cs, j.compact.toList = c :: cs ∧ isBlank c = false ∧ c ≠ ']' := by
  cases j with
  | null => exact ⟨'n', _, rfl, rfl, by decide⟩
  | bool value =>
    cases value with
    | true => exact ⟨'t', _, rfl, rfl, by decide⟩
    | false => exact ⟨'f', _, rfl, rfl, by decide⟩
  | number text => cases h
  | string text => exact ⟨'"', _, by rw [compact, toList_quoted], rfl, by decide⟩
  | array items =>
    exact ⟨'[', (compactItems items).toList ++ [']'], by simp [compact], rfl, by decide⟩
  | object members =>
    exact ⟨'\x7b', (compactMembers members).toList ++ ['\x7d'], by simp [compact], rfl, by decide⟩

theorem exists_head_items {item : Json} (h : item.isSpelled = true) (others : List Json) :
    ∃ c cs, (compactItems (item :: others)).toList = c :: cs ∧ isBlank c = false ∧ c ≠ ']' := by
  obtain ⟨c, cs, hchars, hblank, hclose⟩ := exists_head h
  cases others with
  | nil => exact ⟨c, cs, hchars, hblank, hclose⟩
  | cons next others =>
    exact ⟨c, cs ++ ',' :: (compactItems (next :: others)).toList, by simp [compactItems, hchars],
      hblank, hclose⟩

/-! ## Steps of the reader -/

section Steps

variable {steps : Nat} {cs rest : List Char}

theorem readValue_string {text : Option String} (h : readString cs = some (text, rest)) :
    readValue (steps + 1) ('"' :: cs) = some (string text, rest) := by
  have hread : readValue (steps + 1) ('"' :: cs) = (readString cs).bind _ := rfl
  rw [hread, h]
  rfl

theorem readValue_array {c : Char} {items : List Json} (hblank : isBlank c = false)
    (hclose : c ≠ ']') (h : readItems steps (c :: cs) = some (items, rest)) :
    readValue (steps + 1) ('[' :: c :: cs) = some (array items, rest) := by
  have hbracket : isBlank '[' = false := rfl
  rw [readValue, skipBlanks_cons hbracket]
  simp only [skipBlanks_cons hblank]
  split
  · next heq => exact absurd (List.cons.inj heq).1 hclose
  · rw [h]
    rfl

theorem readValue_object {members : List (Option String × Json)}
    (h : readMembers steps ('"' :: cs) = some (members, rest)) :
    readValue (steps + 1) ('\x7b' :: '"' :: cs) = some (object members, rest) := by
  have hread : readValue (steps + 1) ('\x7b' :: '"' :: cs) =
      (readMembers steps ('"' :: cs)).bind _ := rfl
  rw [hread, h]
  rfl

theorem readItems_last {item : Json} (h : readValue steps cs = some (item, ']' :: rest)) :
    readItems (steps + 1) cs = some ([item], rest) := by
  have hread : readItems (steps + 1) cs = (readValue steps cs).bind _ := rfl
  rw [hread, h]
  rfl

theorem readItems_more {item : Json} (h : readValue steps cs = some (item, ',' :: rest)) :
    readItems (steps + 1) cs =
      (readItems steps rest).map fun (items, rest) => (item :: items, rest) := by
  have hread : readItems (steps + 1) cs = (readValue steps cs).bind _ := rfl
  rw [hread, h, Option.map_eq_bind]
  rfl

variable {key : Option String} {behind : List Char} {value : Json}

theorem readMembers_last (hkey : readString cs = some (key, ':' :: behind))
    (hvalue : readValue steps behind = some (value, '\x7d' :: rest)) :
    readMembers (steps + 1) ('"' :: cs) = some ([(key, value)], rest) := by
  have hread : readMembers (steps + 1) ('"' :: cs) = (readString cs).bind _ := rfl
  have hcolon : isBlank ':' = false := rfl
  simp only [hread, hkey, Option.bind_some, skipBlanks_cons hcolon, hvalue, Option.bind_eq_bind]
  rfl

theorem readMembers_more (hkey : readString cs = some (key, ':' :: behind))
    (hvalue : readValue steps behind = some (value, ',' :: rest)) :
    readMembers (steps + 1) ('"' :: cs) =
      (readMembers steps rest).map fun (members, rest) => ((key, value) :: members, rest) := by
  have hread : readMembers (steps + 1) ('"' :: cs) = (readString cs).bind _ := rfl
  have hcolon : isBlank ':' = false := rfl
  simp only [hread, hkey, Option.bind_some, skipBlanks_cons hcolon, hvalue, Option.bind_eq_bind,
    Option.map_eq_bind]
  rfl

end Steps

/-! ## Values, items and members -/

/-- The text of the value is taken off the front of whatever is behind it. -/
def ReadsBack (j : Json) : Prop :=
  ∀ (steps : Nat) (rest : List Char), 2 * j.compact.toList.length ≤ steps →
    readValue steps (j.compact.toList ++ rest) = some (j, rest)

def ItemsReadBack (items : List Json) : Prop :=
  ∀ (steps : Nat) (rest : List Char), 2 * (compactItems items).toList.length < steps →
    readItems steps ((compactItems items).toList ++ ']' :: rest) = some (items, rest)

def MembersReadBack (members : List (Option String × Json)) : Prop :=
  ∀ (steps : Nat) (rest : List Char), 2 * (compactMembers members).toList.length < steps →
    readMembers steps ((compactMembers members).toList ++ '\x7d' :: rest) = some (members, rest)

/-- No text is empty, so there is a step for it. -/
theorem readsBack_of_succ {j : Json} (hj : j.isSpelled = true)
    (h : ∀ steps rest, 2 * j.compact.toList.length ≤ steps + 1 →
      readValue (steps + 1) (j.compact.toList ++ rest) = some (j, rest)) : j.ReadsBack := by
  intro steps rest hsteps
  obtain ⟨c, cs, hchars, -⟩ := exists_head hj
  cases steps with
  | zero => simp [hchars] at hsteps
  | succ steps => exact h steps rest hsteps

theorem readsBack_bool (value : Bool) : ReadsBack (bool value) := by
  refine readsBack_of_succ rfl fun steps rest _ => ?_
  cases value <;> rfl

theorem readsBack_string (text : String) : ReadsBack (string (some text)) := by
  refine readsBack_of_succ rfl fun steps rest _ => ?_
  rw [compact, toList_quoted, Option.getD_some, List.cons_append, List.append_assoc]
  exact readValue_string (readString_flatMap text rest)

theorem readsBack_array {item : Json} {others : List Json}
    (hspelled : (array (item :: others)).isSpelled = true) (h : ItemsReadBack (item :: others)) :
    ReadsBack (array (item :: others)) := by
  have htext : (array (item :: others)).compact.toList =
      '[' :: ((compactItems (item :: others)).toList ++ [']']) := by
    simp [compact]
  obtain ⟨c, cs, hchars, hblank, hclose⟩ :=
    exists_head_items (isSpelledAll_cons.1 hspelled).1 others
  refine readsBack_of_succ hspelled fun steps rest hsteps => ?_
  rw [htext, List.length_cons, List.length_append] at hsteps
  have hread := h steps rest (by omega)
  rw [htext, List.cons_append, List.append_assoc]
  rw [hchars] at hread ⊢
  exact readValue_array hblank hclose hread

theorem readsBack_object {member : Option String × Json} {others : List (Option String × Json)}
    (hspelled : (object (member :: others)).isSpelled = true)
    (h : MembersReadBack (member :: others)) : ReadsBack (object (member :: others)) := by
  have htext : (object (member :: others)).compact.toList =
      '\x7b' :: ((compactMembers (member :: others)).toList ++ ['\x7d']) := by
    simp [compact]
  obtain ⟨cs, hchars⟩ : ∃ cs, (compactMembers (member :: others)).toList = '"' :: cs := by
    obtain ⟨key, value⟩ := member
    cases others <;> simp [compactMembers, toList_quoted]
  refine readsBack_of_succ hspelled fun steps rest hsteps => ?_
  rw [htext, List.length_cons, List.length_append] at hsteps
  have hread := h steps rest (by omega)
  rw [htext, List.cons_append, List.append_assoc]
  rw [hchars] at hread ⊢
  exact readValue_object hread

theorem itemsReadBack_singleton {item : Json} (h : item.ReadsBack) : ItemsReadBack [item] := by
  intro steps rest hsteps
  rw [compactItems] at hsteps ⊢
  cases steps with
  | zero => omega
  | succ steps => exact readItems_last (h steps (']' :: rest) (by omega))

theorem itemsReadBack_cons {item next : Json} {others : List Json} (hitem : item.ReadsBack)
    (hothers : ItemsReadBack (next :: others)) : ItemsReadBack (item :: next :: others) := by
  have htext : (compactItems (item :: next :: others)).toList =
      item.compact.toList ++ ',' :: (compactItems (next :: others)).toList := by
    simp [compactItems]
  intro steps rest hsteps
  rw [htext] at hsteps ⊢
  rw [List.length_append, List.length_cons] at hsteps
  cases steps with
  | zero => omega
  | succ steps =>
    rw [List.append_assoc, List.cons_append, readItems_more (hitem steps _ (by omega)),
      hothers steps rest (by omega)]
    rfl

theorem membersReadBack_singleton (key : String) {value : Json} (h : value.ReadsBack) :
    MembersReadBack [(some key, value)] := by
  have htext : (compactMembers [(some key, value)]).toList =
      '"' :: (key.toList.flatMap escaped ++ '"' :: ':' :: value.compact.toList) := by
    simp [compactMembers, toList_quoted]
  intro steps rest hsteps
  rw [htext] at hsteps ⊢
  simp only [List.length_cons, List.length_append] at hsteps
  cases steps with
  | zero => omega
  | succ steps =>
    rw [List.cons_append, List.append_assoc]
    exact readMembers_last (readString_flatMap key _) (h steps ('\x7d' :: rest) (by omega))

theorem membersReadBack_cons (key : String) {value : Json} {next : Option String × Json}
    {others : List (Option String × Json)} (hvalue : value.ReadsBack)
    (hothers : MembersReadBack (next :: others)) :
    MembersReadBack ((some key, value) :: next :: others) := by
  have htext : (compactMembers ((some key, value) :: next :: others)).toList =
      '"' :: (key.toList.flatMap escaped ++ '"' :: ':' :: (value.compact.toList ++
        ',' :: (compactMembers (next :: others)).toList)) := by
    simp [compactMembers, toList_quoted]
  intro steps rest hsteps
  rw [htext] at hsteps ⊢
  simp only [List.length_append, List.length_cons] at hsteps
  cases steps with
  | zero => omega
  | succ steps =>
    have hfirst := hvalue steps
      (',' :: ((compactMembers (next :: others)).toList ++ '\x7d' :: rest)) (by omega)
    have hkey := readString_flatMap key
      (':' :: (value.compact.toList ++ ',' :: ((compactMembers (next :: others)).toList ++
        '\x7d' :: rest)))
    simp only [List.cons_append, List.append_assoc]
    rw [readMembers_more hkey hfirst, hothers steps rest (by omega)]
    rfl

/-! ## Whole texts -/

mutual

/-- Values are read back from their texts. -/
theorem readsBack (j : Json) (h : j.isSpelled = true) : j.ReadsBack :=
  match j with
  | null => readsBack_of_succ rfl fun _ _ _ => rfl
  | bool value => readsBack_bool value
  | number _ => Bool.noConfusion h
  | string (some text) => readsBack_string text
  | array [] => readsBack_of_succ rfl fun _ _ _ => rfl
  | array (item :: others) =>
    readsBack_array h (itemsReadBack (item :: others) h (List.cons_ne_nil _ _))
  | object [] => readsBack_of_succ rfl fun _ _ _ => rfl
  | object (member :: others) =>
    readsBack_object h (membersReadBack (member :: others) h (List.cons_ne_nil _ _))

theorem itemsReadBack (items : List Json) (h : isSpelledAll items = true) (hne : items ≠ []) :
    ItemsReadBack items :=
  match items with
  | [] => absurd rfl hne
  | [item] => itemsReadBack_singleton (readsBack item (isSpelledAll_cons.1 h).1)
  | item :: next :: others =>
    have ⟨hitem, hothers⟩ := isSpelledAll_cons.1 h
    itemsReadBack_cons (readsBack item hitem)
      (itemsReadBack (next :: others) hothers (List.cons_ne_nil _ _))

theorem membersReadBack (members : List (Option String × Json))
    (h : isSpelledMembers members = true) (hne : members ≠ []) : MembersReadBack members :=
  match members with
  | [] => absurd rfl hne
  | (none, _) :: _ => Bool.noConfusion h
  | [(some key, value)] =>
    membersReadBack_singleton key (readsBack value (isSpelledMembers_cons.1 h).2.1)
  | (some key, value) :: next :: others =>
    have ⟨_, hvalue, hothers⟩ := isSpelledMembers_cons.1 h
    membersReadBack_cons key (readsBack value hvalue)
      (membersReadBack (next :: others) hothers (List.cons_ne_nil _ _))

end

theorem parse?_compact {j : Json} (h : j.isSpelled = true) : parse? j.compact = some j := by
  have hread := readsBack j h (2 * j.compact.toList.length + 2) [] (Nat.le_add_right _ _)
  rw [List.append_nil] at hread
  rw [parse?]
  simp only [hread]
  rfl

end Formulary.Json
