/-!
JSON text. A text is cut into tokens, and the tokens move a machine with a stack of open lists and
objects; it ends with one value and nothing open.
-/

namespace PathDirectives

inductive Json where
  | null
  | bool (value : Bool)
  /-- A number, with its value where it is written as an integer other than minus zero. -/
  | number (value : Option Int)
  | text (value : Option String)
  | list (items : List Json)
  | object (entries : List (Option String × Json))

namespace Json

inductive Token where
  | openList
  | closeList
  | openObject
  | closeObject
  | colon
  | comma
  | scalar (value : Json)

def hexDigit? (c : Char) : Option Nat :=
  if c.isDigit then some (c.toNat - 48)
  else if 'a' ≤ c ∧ c ≤ 'f' then some (c.toNat - 87)
  else if 'A' ≤ c ∧ c ≤ 'F' then some (c.toNat - 55)
  else none

def hexValue? (digits : List Char) : Option Nat :=
  digits.foldlM (fun value c => (hexDigit? c).map (16 * value + ·)) 0

def unitsOf (c : Char) : List Nat :=
  let code := c.toNat
  if code < 0x10000 then [code]
  else [0xD800 + (code - 0x10000) / 0x400, 0xDC00 + (code - 0x10000) % 0x400]

/-- Characters from UTF-16 units; a surrogate without its partner spells none. -/
def charsOf? : List Nat → Option (List Char)
  | [] => some []
  | high :: low :: rest =>
      if 0xD800 ≤ high ∧ high < 0xDC00 then
        if 0xDC00 ≤ low ∧ low < 0xE000 then
          (charsOf? rest).map
            (Char.ofNat (0x10000 + (high - 0xD800) * 0x400 + (low - 0xDC00)) :: ·)
        else none
      else if 0xDC00 ≤ high ∧ high < 0xE000 then none
      else (charsOf? (low :: rest)).map (Char.ofNat high :: ·)
  | [unit] => if 0xD800 ≤ unit ∧ unit < 0xE000 then none else some [Char.ofNat unit]

def escape? (c : Char) : Option Char :=
  if c = '"' ∨ c = '\\' ∨ c = '/' then some c
  else if c = 'b' then some '\x08'
  else if c = 'f' then some '\x0c'
  else if c = 'n' then some '\n'
  else if c = 'r' then some '\r'
  else if c = 't' then some '\t'
  else none

def readUnits? : List Char → Option (List Nat × List Char)
  | [] => none
  | '"' :: rest => some ([], rest)
  | '\\' :: 'u' :: a :: b :: c :: d :: rest =>
      match hexValue? [a, b, c, d] with
      | some unit => (readUnits? rest).map fun (units, rest) => (unit :: units, rest)
      | none => none
  | '\\' :: c :: rest =>
      match escape? c with
      | some escaped =>
          (readUnits? rest).map fun (units, rest) => (unitsOf escaped ++ units, rest)
      | none => none
  | c :: rest =>
      if c.toNat < 0x20 ∨ c = '\\' then none
      else (readUnits? rest).map fun (units, rest) => (unitsOf c ++ units, rest)

def textValue (units : List Nat) : Json :=
  .text ((charsOf? units).map String.ofList)

def readPart? (text : List Char) : Option (Bool × List Char) :=
  match text with
  | '.' :: rest =>
      if (rest.takeWhile Char.isDigit).isEmpty then none
      else some (true, rest.dropWhile Char.isDigit)
  | _ => some (false, text)

def readExponent? (text : List Char) : Option (Bool × List Char) :=
  match text with
  | mark :: rest =>
      if mark = 'e' ∨ mark = 'E' then
        let digits :=
          match rest with
          | '+' :: rest => rest
          | '-' :: rest => rest
          | _ => rest
        if (digits.takeWhile Char.isDigit).isEmpty then none
        else some (true, digits.dropWhile Char.isDigit)
      else some (false, text)
  | [] => some (false, text)

def readNumber? (text : List Char) : Option (Option Int × List Char) :=
  let (negative, rest) :=
    match text with
    | '-' :: rest => (true, rest)
    | _ => (false, text)
  let digits := rest.takeWhile Char.isDigit
  let value : Nat := digits.foldl (fun value c => 10 * value + (c.toNat - 48)) 0
  if digits.isEmpty || digits.head? == some '0' && 1 < digits.length then none
  else
    (readPart? (rest.dropWhile Char.isDigit)).bind fun (part, rest) =>
      (readExponent? rest).map fun (exponent, rest) =>
        if part || exponent || negative && value == 0 then (none, rest)
        else (some (if negative then -(value : Int) else value), rest)

def readToken? (text : List Char) : Option (Token × List Char) :=
  match text with
  | [] => none
  | '[' :: rest => some (.openList, rest)
  | ']' :: rest => some (.closeList, rest)
  | '\x7b' :: rest => some (.openObject, rest)
  | '\x7d' :: rest => some (.closeObject, rest)
  | ':' :: rest => some (.colon, rest)
  | ',' :: rest => some (.comma, rest)
  | '"' :: rest => (readUnits? rest).map fun (units, rest) => (.scalar (textValue units), rest)
  | 't' :: 'r' :: 'u' :: 'e' :: rest => some (.scalar (.bool true), rest)
  | 'f' :: 'a' :: 'l' :: 's' :: 'e' :: rest => some (.scalar (.bool false), rest)
  | 'n' :: 'u' :: 'l' :: 'l' :: rest => some (.scalar .null, rest)
  | _ => (readNumber? text).map fun (value, rest) => (.scalar (.number value), rest)

def isSpace (c : Char) : Bool :=
  c == ' ' || c == '\n' || c == '\t' || c == '\r'

/-- The tokens of a text. Every token takes at least one character, which the recursion checks. -/
def tokens? (text : List Char) : Option (List Token) :=
  match text with
  | [] => some []
  | c :: rest =>
      if isSpace c then tokens? rest
      else
        match readToken? (c :: rest) with
        | none => none
        | some (token, after) =>
            if _shorter : after.length < (c :: rest).length then (tokens? after).map (token :: ·)
            else none
termination_by text.length
decreasing_by
  · simp
  · exact _shorter

/-! ### Values -/

inductive Frame where
  | list (items : List Json)
  | object (entries : List (Option String × Json)) (key : Option String)

inductive State where
  | needsValue (closes : Bool) (stack : List Frame)
  | needsKey (closes : Bool) (entries : List (Option String × Json)) (stack : List Frame)
  | needsColon (entries : List (Option String × Json)) (key : Option String) (stack : List Frame)
  | done (value : Json) (stack : List Frame)

def State.next? : State → Token → Option State
  | .needsValue _ stack, .scalar value => some (.done value stack)
  | .needsValue _ stack, .openList => some (.needsValue true (.list [] :: stack))
  | .needsValue _ stack, .openObject => some (.needsKey true [] stack)
  | .needsValue true (Frame.list items :: stack), .closeList =>
      some (.done (.list items.reverse) stack)
  | .needsKey _ entries stack, .scalar (.text key) => some (.needsColon entries key stack)
  | .needsKey true entries stack, .closeObject => some (.done (.object entries.reverse) stack)
  | .needsColon entries key stack, .colon => some (.needsValue false (.object entries key :: stack))
  | .done value (.list items :: stack), .comma =>
      some (.needsValue false (.list (value :: items) :: stack))
  | .done value (.list items :: stack), .closeList =>
      some (.done (.list (value :: items).reverse) stack)
  | .done value (.object entries key :: stack), .comma =>
      some (.needsKey false ((key, value) :: entries) stack)
  | .done value (.object entries key :: stack), .closeObject =>
      some (.done (.object ((key, value) :: entries).reverse) stack)
  | _, _ => none

def ofTokens? (tokens : List Token) : Option Json :=
  match tokens.foldlM State.next? (.needsValue false []) with
  | some (.done value []) => some value
  | _ => none

def parse? (text : String) : Option Json :=
  (tokens? text.toList).bind ofTokens?

end Json

end PathDirectives
