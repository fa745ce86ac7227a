import PathDirectives.Text.Lowercase

/-!
Commands as they stand in a comment, and their two written forms. Named arguments are in order of
their keys, and each key comes once.
-/

namespace PathDirectives

abbrev Arguments := List (String × String)

def Arguments.put (key value : String) : Arguments → Arguments
  | [] => [(key, value)]
  | (other, old) :: rest =>
      if key < other then (key, value) :: (other, old) :: rest
      else if key = other then (key, value) :: rest
      else (other, old) :: Arguments.put key value rest

structure Command where
  name : String
  positional : Option String := none
  named : Arguments := []
  deriving DecidableEq

namespace Command

def isCalled (command : Command) (word : String) : Bool := Text.sameWord command.name word

/-- The value of a named argument; keys are looked up in any case. -/
def argument? (command : Command) (key : String) : Option String :=
  (command.named.find? fun argument => argument.1 == Text.lowerAscii key).map (·.2)

def argumentOrPositional? (command : Command) (key : String) : Option String :=
  (command.argument? key).or command.positional

def headText (command : Command) : String :=
  match command.positional with
  | some positional => "!" ++ command.name ++ " " ++ positional
  | none => "!" ++ command.name

def argumentTexts (command : Command) : List String :=
  command.named.map fun (key, value) => key ++ "=" ++ value

def text (command : Command) : String :=
  if command.named.isEmpty then command.headText
  else command.headText ++ "(" ++ ", ".intercalate command.argumentTexts ++ ")"

def spacedText (command : Command) : String :=
  " ".intercalate (command.headText :: command.argumentTexts)

end Command

end PathDirectives
