import Formulary.Decimal.Literal
import Formulary.Ron

/-!
# Reading RON

Blanks and comments may stand between any two parts. Each part of the reader takes its value off
the front of the text and returns the rest.
-/

namespace Formulary.Ron

def isBlank (c : Char) : Bool := c == ' ' || c == '\t' || c == '\n' || c == '\r'

/-- Where a text stands with regard to comments; block comments nest. -/
inductive CommentState
  | outside
  | line
  | block (depth : Nat)

/-- Skips blanks and comments; a comment that is not closed is an error. -/
def skipFrom : CommentState → List Char → Option (List Char)
  | .outside, [] => some []
  | .outside, '/' :: '/' :: cs => skipFrom .line cs
  | .outside, '/' :: '*' :: cs => skipFrom (.block 0) cs
  | .outside, c :: cs =>
    if isBlank c then skipFrom .outside cs else if c = '/' then none else some (c :: cs)
  | .line, [] => some []
  | .line, c :: cs => skipFrom (if c = '\n' then .outside else .line) cs
  | .block _, [] => none
  | .block depth, '/' :: '*' :: cs => skipFrom (.block (depth + 1)) cs
  | .block 0, '*' :: '/' :: cs => skipFrom .outside cs
  | .block (depth + 1), '*' :: '/' :: cs => skipFrom (.block depth) cs
  | .block depth, _ :: cs => skipFrom (.block depth) cs

def skip (cs : List Char) : Option (List Char) := skipFrom .outside cs

/-! ## Words and numbers -/

def isWordStart (c : Char) : Bool := c.isAlpha || c == '_'

def isWordPart (c : Char) : Bool := c.isAlphanum || c == '_'

/-- Raw words may hold signs and points as well. -/
def isRawPart (c : Char) : Bool := isWordPart c || c == '.' || c == '+' || c == '-'

/-- A raw word, which has `r#` in front and no meaning of its own. -/
def readRawWord : List Char → Option (String × List Char)
  | 'r' :: '#' :: c :: cs =>
    if isRawPart c then
      some (String.ofList ((c :: cs).takeWhile isRawPart), (c :: cs).dropWhile isRawPart)
    else none
  | _ => none

def readPlainWord : List Char → Option (String × List Char)
  | c :: cs =>
    if isWordStart c then
      some (String.ofList ((c :: cs).takeWhile isWordPart), (c :: cs).dropWhile isWordPart)
    else none
  | [] => none

def readWord (cs : List Char) : Option (String × List Char) := readRawWord cs <|> readPlainWord cs

def hexValue? (c : Char) : Option Nat :=
  if c.isDigit then some (c.toNat - '0'.toNat)
  else if 'a' ≤ c ∧ c ≤ 'f' then some (c.toNat - 'a'.toNat + 10)
  else if 'A' ≤ c ∧ c ≤ 'F' then some (c.toNat - 'A'.toNat + 10)
  else none

/-- Digits of a base below 17, with underscores after the first. -/
def digitsIn? (base : Nat) (cs : List Char) : Option Nat :=
  if cs.head?.all (· == '_') then none
  else cs.foldlM (fun n c =>
    if c = '_' then some n
    else (hexValue? c).bind fun d => if d < base then some (n * base + d) else none) 0

/-- A natural number; `0x`, `0o` and `0b` choose its base. -/
def natOfText? : List Char → Option Nat
  | '0' :: 'x' :: cs => digitsIn? 16 cs
  | '0' :: 'o' :: cs => digitsIn? 8 cs
  | '0' :: 'b' :: cs => digitsIn? 2 cs
  | cs => digitsIn? 10 cs

def isFloatPart (c : Char) : Bool :=
  c.isDigit || c == 'e' || c == 'E' || c == '.' || c == '+' || c == '-'

def specialValues : List String := ["inf", "NaN", "+inf", "-inf", "+NaN", "-NaN"]

def floatOfText? (text : String) : Option Float :=
  if text.toList.all isFloatPart || specialValues.contains text then Decimal.float? text else none

/-- An integer of 64 bits, which is signed if it has a sign. -/
def isInteger (cs : List Char) : Bool :=
  (natOfText? (Decimal.Literal.splitSign cs).2).any fun n =>
    match cs.head? with
    | some '-' => n ≤ Nat.pow 2 63
    | some '+' => n < Nat.pow 2 63
    | _ => n < Nat.pow 2 64

/-- What is no integer may still be a float, also one without a point. -/
def isNumber (text : String) : Bool := isInteger text.toList || (floatOfText? text).isSome

/-! ## Strings -/

/-- Up to six hexadecimal digits and the brace that closes them. -/
def readCodePoint (n digits : Nat) : List Char → Option (Char × List Char)
  | [] => none
  | '\x7d' :: cs =>
    if digits = 0 ∨ 0x110000 ≤ n ∨ (0xd800 ≤ n ∧ n < 0xe000) then none
    else some (Char.ofNat n, cs)
  | c :: cs =>
    if digits < 6 then (hexValue? c).bind fun d => readCodePoint (16 * n + d) (digits + 1) cs
    else none

theorem length_of_readCodePoint {n digits : Nat} {cs : List Char} {c : Char} {rest : List Char}
    (h : readCodePoint n digits cs = some (c, rest)) : rest.length < cs.length := by
  fun_induction readCodePoint n digits cs with
  | case1 => simp at h
  | case2 => simp at h
  | case3 => simp_all
  | case4 n digits c' cs _ _ ih =>
    obtain ⟨d, -, hd⟩ := Option.bind_eq_some_iff.1 h
    exact Nat.lt_succ_of_lt (ih d hd)
  | case5 => simp at h

/-- The character of an escape whose backslash has been taken. -/
def readEscape : List Char → Option (Char × List Char)
  | 'x' :: a :: b :: cs => do
    return (Char.ofNat ((← hexValue? a) * 16 + (← hexValue? b)), cs)
  | 'u' :: '\x7b' :: cs => readCodePoint 0 0 cs
  | '\'' :: cs => some ('\'', cs)
  | '"' :: cs => some ('"', cs)
  | '\\' :: cs => some ('\\', cs)
  | 'n' :: cs => some ('\n', cs)
  | 'r' :: cs => some ('\r', cs)
  | 't' :: cs => some ('\t', cs)
  | '0' :: cs => some ('\x00', cs)
  | _ => none

theorem length_of_readEscape {cs : List Char} {c : Char} {rest : List Char}
    (h : readEscape cs = some (c, rest)) : rest.length < cs.length := by
  unfold readEscape at h
  split at h
  · simp [Option.bind_eq_some_iff] at h
    obtain ⟨_, _, _, _, _, rfl⟩ := h
    simp
    omega
  · have := length_of_readCodePoint h
    simp
    omega
  all_goals simp_all

/-- The characters up to the closing quote. -/
def readChars (cs : List Char) : Option (List Char × List Char) :=
  match cs with
  | [] => none
  | '"' :: rest => some ([], rest)
  | '\\' :: rest =>
    match _h : readEscape rest with
    | none => none
    | some (c, rest') => do
      let (text, rest'') ← readChars rest'
      return (c :: text, rest'')
  | c :: rest => do
    let (text, rest') ← readChars rest
    return (c :: text, rest')
termination_by cs.length
decreasing_by
  · have := length_of_readEscape _h
    simp
    omega
  · simp

/-- A string between `hashes` hash signs, without escapes. -/
def readRaw (hashes : Nat) : List Char → Option (List Char × List Char)
  | [] => none
  | c :: cs =>
    if c = '"' ∧ (cs.take hashes).length = hashes ∧ (cs.take hashes).all (· == '#') then
      some ([], cs.drop hashes)
    else (readRaw hashes cs).map fun (text, rest) => (c :: text, rest)

/-- A string in either form. -/
def readString : List Char → Option (String × List Char)
  | '"' :: cs => (readChars cs).map fun (text, rest) => (String.ofList text, rest)
  | 'r' :: cs =>
    match cs.dropWhile (· == '#') with
    | '"' :: rest =>
      (readRaw (cs.takeWhile (· == '#')).length rest).map fun (text, rest) =>
        (String.ofList text, rest)
    | _ => none
  | _ => none

def readChar : List Char → Option (Char × List Char)
  | '\'' :: '\\' :: cs =>
    match readEscape cs with
    | some (c, '\'' :: rest) => some (c, rest)
    | _ => none
  | '\'' :: c :: '\'' :: rest => if c = '\'' then none else some (c, rest)
  | _ => none

/-! ## Values -/

/-- Takes the comma behind an item. -/
def takeComma (cs : List Char) : Option (Bool × List Char) := do
  match ← skip cs with
  | ',' :: cs => return (true, ← skip cs)
  | cs => return (false, cs)

/-- The word of a field and the text behind its colon. -/
def readFieldName (cs : List Char) : Option (String × List Char) := do
  let (name, cs) ← readWord cs
  match ← skip cs with
  | ':' :: cs => return (name, ← skip cs)
  | _ => none

mutual

/-- One value at the front of a text without blanks before it. Of three steps in a row, one takes
a character at least. -/
def readValue (extensions : Extensions) : (steps : Nat) → List Char → Option (Ron × List Char)
  | 0, _ => none
  | steps + 1, cs =>
    match readString cs, readRawWord cs, readPlainWord cs with
    | some (text, rest), _, _ => some (string text, rest)
    | none, some (name, rest), _ => readNamed extensions steps name rest
    | none, none, some (name, rest) =>
      match name with
      | "None" => some (absent, rest)
      | "Some" => readPresent extensions steps rest
      | "true" | "false" => some (word name, rest)
      | "inf" | "NaN" => some (number name, rest)
      | _ => readNamed extensions steps name rest
    | none, none, none =>
      match cs with
      | '(' :: rest => do readParenthesized extensions steps none (← skip rest)
      | '[' :: rest => do
        let (items, rest) ← readItems extensions steps ']' (← skip rest)
        return (list items, rest)
      | '\x7b' :: rest => do
        let (entries, rest) ← readEntries extensions steps (← skip rest)
        return (map entries, rest)
      | '\'' :: _ => do
        let (c, rest) ← readChar cs
        return (char c, rest)
      | cs =>
        let text := String.ofList (cs.takeWhile isRawPart)
        if isNumber text then some (number text, cs.dropWhile isRawPart) else none

/-- What follows a name: nothing or parentheses. -/
def readNamed (extensions : Extensions) :
    (steps : Nat) → String → List Char → Option (Ron × List Char)
  | 0, _, _ => none
  | steps + 1, name, cs => do
    match ← skip cs with
    | '(' :: rest => readParenthesized extensions steps (some name) (← skip rest)
    | rest => return (word name, rest)

/-- What follows `Some`: a value, in parentheses unless these may be left out. -/
def readPresent (extensions : Extensions) : (steps : Nat) → List Char → Option (Ron × List Char)
  | 0, _ => none
  | steps + 1, cs => do
    match ← skip cs with
    | '(' :: rest =>
      let (value, rest) ← readValue extensions steps (← skip rest)
      match ← takeComma rest with
      | (_, ')' :: rest) => return (present value, rest)
      | _ => none
    | rest =>
      if extensions.implicitSome then
        let (value, rest) ← readValue extensions steps rest
        return (present value, rest)
      else none

/-- What follows an opening parenthesis: a record if a field comes first. -/
def readParenthesized (extensions : Extensions) :
    (steps : Nat) → Option String → List Char → Option (Ron × List Char)
  | 0, _, _ => none
  | steps + 1, name, cs =>
    if (readFieldName cs).isSome then do
      let (fields, rest) ← readFields extensions steps cs
      return (record name fields, rest)
    else do
      let (items, rest) ← readItems extensions steps ')' cs
      return (tuple name items, rest)

/-- Values up to the closing character; a comma may follow the last one. -/
def readItems (extensions : Extensions) :
    (steps : Nat) → Char → List Char → Option (List Ron × List Char)
  | 0, _, _ => none
  | steps + 1, closing, cs =>
    if cs.head? = some closing then some ([], cs.tail)
    else do
      let (item, rest) ← readValue extensions steps cs
      let (comma, rest) ← takeComma rest
      if comma || rest.head? = some closing then
        let (items, rest) ← readItems extensions steps closing rest
        return (item :: items, rest)
      else none

/-- Fields up to the closing parenthesis. -/
def readFields (extensions : Extensions) :
    (steps : Nat) → List Char → Option (List (String × Ron) × List Char)
  | 0, _ => none
  | steps + 1, cs =>
    if cs.head? = some ')' then some ([], cs.tail)
    else do
      let (name, rest) ← readFieldName cs
      let (value, rest) ← readValue extensions steps rest
      let (comma, rest) ← takeComma rest
      if comma || rest.head? = some ')' then
        let (fields, rest) ← readFields extensions steps rest
        return ((name, value) :: fields, rest)
      else none

/-- Pairs of key and value up to the closing brace. -/
def readEntries (extensions : Extensions) :
    (steps : Nat) → List Char → Option (List (Ron × Ron) × List Char)
  | 0, _ => none
  | steps + 1, cs =>
    if cs.head? = some '\x7d' then some ([], cs.tail)
    else do
      let (key, rest) ← readValue extensions steps cs
      match ← skip rest with
      | ':' :: rest =>
        let (value, rest) ← readValue extensions steps (← skip rest)
        let (comma, rest) ← takeComma rest
        if comma || rest.head? = some '\x7d' then
          let (entries, rest) ← readEntries extensions steps rest
          return ((key, value) :: entries, rest)
        else none
      | _ => none

end

/-! ## Documents -/

/-- Takes the given signs, with blanks between them. -/
def takeSigns : List (List Char) → List Char → Option (List Char)
  | [], cs => some cs
  | sign :: signs, cs =>
    if sign.isPrefixOf cs then do takeSigns signs (← skip (cs.drop sign.length)) else none

/-- The words in the parentheses of an extension line, with a comma after each but the last. -/
def readExtensionNames : (steps : Nat) → List Char → Option (List String × List Char)
  | 0, _ => none
  | steps + 1, cs => do
    let (name, rest) ← readWord cs
    let (comma, rest) ← takeComma rest
    if comma && rest.head?.any isWordStart then
      let (names, rest) ← readExtensionNames steps rest
      return (name :: names, rest)
    else return ([name], rest)

def Extensions.enable (e : Extensions) : String → Option Extensions
  | "implicit_some" => some { e with implicitSome := true }
  | "unwrap_variant_newtypes" => some { e with unwrapVariants := true }
  | "unwrap_newtypes" => some e
  | _ => none

/-- The extension lines at the head of a document. -/
def readExtensions : (steps : Nat) → Extensions → List Char → Option (Extensions × List Char)
  | 0, _, _ => none
  | steps + 1, extensions, cs =>
    if cs.head? = some '#' then do
      let signs := ["#", "!", "[", "enable", "("]
      let cs ← takeSigns (signs.map String.toList) cs
      let (names, cs) ← readExtensionNames (cs.length + 1) cs
      let extensions ← names.foldlM Extensions.enable extensions
      let cs ← takeSigns [[')'], [']']] (← skip cs)
      readExtensions steps extensions (← skip cs)
    else some (extensions, cs)

/-- The value that a whole document stands for. -/
def parse? (text : String) : Option (Extensions × Ron) := do
  let cs ← skip text.toList
  let (extensions, cs) ← readExtensions (cs.length + 1) {} cs
  let (value, rest) ← readValue extensions (3 * cs.length + 3) cs
  if (← skip rest).isEmpty then return (extensions, value) else none

end Formulary.Ron
