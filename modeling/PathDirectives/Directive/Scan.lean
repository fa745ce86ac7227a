import PathDirectives.Directive.Command
import PathDirectives.Text.Blank

/-!
Commands found in a comment. An exclamation mark and a name begin a command, whose body runs to the
next exclamation mark or quote. In the body, a word with an equals sign after it is the key of an
argument if it stands first or behind white space, a comma or an opening parenthesis; a value runs
to the next key. What stands before the first key is the positional argument.
-/

namespace PathDirectives

def isWordChar (c : Char) : Bool := c.isAlphanum || c == '_'

def isKeyStart (c : Char) : Bool := c.isAlpha || c == '_'

def isKeyLead (c : Char) : Bool := Text.isBlank c || c == ',' || c == '('

def endsBody (c : Char) : Bool := c == '!' || c == '"' || c == '\x27'

def keyHere? (text : List Char) : Option (List Char × List Char) :=
  match text with
  | [] => none
  | c :: rest =>
      if isKeyStart c then
        match Text.trimStart (rest.dropWhile isWordChar) with
        | '=' :: after => some (c :: rest.takeWhile isWordChar, after)
        | _ => none
      else none

structure KeyCut where
  before : List Char
  key : List Char
  after : List Char

def KeyCut.behind (c : Char) (cut : KeyCut) : KeyCut := { cut with before := c :: cut.before }

def keyBehind? (c : Char) (rest : List Char) : Option KeyCut :=
  if isKeyLead c then (keyHere? rest).map fun (key, after) => ⟨[c], key, after⟩ else none

def nextKey? : List Char → Option KeyCut
  | [] => none
  | c :: rest => (keyBehind? c rest).or ((nextKey? rest).map (KeyCut.behind c))

def firstKey? (body : List Char) : Option KeyCut :=
  match keyHere? body with
  | some (key, after) => some ⟨[], key, after⟩
  | none => nextKey? body

theorem keyHere?_shorter {text key after : List Char} (found : keyHere? text = some (key, after)) :
    after.length < text.length := by
  cases text with
  | nil => simp [keyHere?] at found
  | cons c rest =>
      simp only [keyHere?] at found
      split at found
      · split at found
        · rename_i tail same
          simp only [Option.some.injEq, Prod.mk.injEq] at found
          obtain ⟨-, rfl⟩ := found
          have trimmed := Text.length_trimStart_le (rest.dropWhile isWordChar)
          have dropped : (rest.dropWhile isWordChar).length ≤ rest.length :=
            (List.dropWhile_suffix isWordChar).length_le
          rw [same] at trimmed
          simp only [List.length_cons] at trimmed ⊢
          omega
        · simp at found
      · simp at found

theorem keyBehind?_shorter {c : Char} {rest : List Char} {cut : KeyCut}
    (found : keyBehind? c rest = some cut) : cut.after.length < rest.length := by
  unfold keyBehind? at found
  split at found
  · simp only [Option.map_eq_some_iff, Prod.exists] at found
    obtain ⟨key, after, here, rfl⟩ := found
    exact keyHere?_shorter here
  · simp at found

theorem nextKey?_shorter {text : List Char} {cut : KeyCut} (found : nextKey? text = some cut) :
    cut.after.length < text.length := by
  induction text generalizing cut with
  | nil => simp [nextKey?] at found
  | cons c rest ih =>
      simp only [nextKey?, Option.or_eq_some_iff, Option.map_eq_some_iff] at found
      simp only [List.length_cons]
      rcases found with here | ⟨-, inner, inside, rfl⟩
      · have shorter := keyBehind?_shorter here
        omega
      · have shorter := ih inside
        simp only [KeyCut.behind]
        omega

def splitValues (text : List Char) : List Char × List (List Char × List Char) :=
  match _found : nextKey? text with
  | none => (text, [])
  | some cut =>
      let (value, more) := splitValues cut.after
      (cut.before, (cut.key, value) :: more)
termination_by text.length
decreasing_by exact nextKey?_shorter _found

def splitBody (body : List Char) : List Char × List (List Char × List Char) :=
  match firstKey? body with
  | none => (body, [])
  | some cut =>
      let (value, more) := splitValues cut.after
      (cut.before, (cut.key, value) :: more)

def dropTrailing (c : Char) (text : List Char) : List Char :=
  (text.reverse.dropWhile (· == c)).reverse

def dropLastIf (c : Char) (text : List Char) : List Char :=
  if text.getLast? = some c then text.dropLast else text

/-- A value without the white space, commas and closing parenthesis that only part it from what
follows. The parenthesis goes if no opening one answers it. -/
def cleanValue (raw : List Char) : List Char :=
  let value := Text.trimEnd (dropTrailing ',' (Text.trim raw))
  let value :=
    if value.count '(' < value.count ')' then Text.trimEnd (dropLastIf ')' value) else value
  Text.trimEnd (dropTrailing ',' value)

def cleanPositional (raw : List Char) : List Char :=
  Text.trimEnd (dropLastIf '(' (Text.trim raw))

/-- The arguments that keys and values make; of several under one key the last counts. -/
def collectArguments (pairs : List (List Char × List Char)) : Arguments :=
  pairs.foldl
    (fun arguments (key, value) =>
      Arguments.put (String.ofList (key.map Char.toLower)) (String.ofList (cleanValue value))
        arguments)
    []

/-- The command that a name and a body make, unless an equals sign is left in the positional
argument. -/
def Command.ofBody? (name body : List Char) : Option Command :=
  let (front, pairs) := splitBody body
  let positional := cleanPositional front
  if positional.contains '=' then none
  else
    some
      { name := String.ofList name
        positional := if positional.isEmpty then none else some (String.ofList positional)
        named := collectArguments pairs }

/-- The commands of a text, from left to right. A mark without a name, and a body that makes no
command, are passed over. -/
def scan (text : List Char) : List Command :=
  match text with
  | [] => []
  | c :: rest =>
      if c = '!' then
        let name := rest.takeWhile isWordChar
        let tail := rest.dropWhile isWordChar
        if name.isEmpty then scan rest
        else
          (Command.ofBody? name (tail.takeWhile (!endsBody ·))).toList ++
            scan (tail.dropWhile (!endsBody ·))
      else scan rest
termination_by text.length
decreasing_by
  · simp
  · have tail : (rest.dropWhile isWordChar).length ≤ rest.length :=
      (List.dropWhile_suffix isWordChar).length_le
    have behind : ((rest.dropWhile isWordChar).dropWhile (!endsBody ·)).length ≤
        (rest.dropWhile isWordChar).length :=
      (List.dropWhile_suffix _).length_le
    simp only [List.length_cons]
    omega
  · simp

def scanComment (comment : String) : List Command := scan comment.toList

end PathDirectives
