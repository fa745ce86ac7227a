import PathDirectives.Scenario.Path
import PathDirectives.Text.Pieces

/-!
The lines of a path text. A quote begins a comment unless a backslash stands before it, and each
line is handed the path elements that came from it.
-/

namespace PathDirectives

def commentMark : Char := '\x27'

/-- The code of a line, with its escaped quotes written plainly, and the comment if there is one. -/
def splitComment : List Char → List Char × Option (List Char)
  | [] => ([], none)
  | '\\' :: '\x27' :: rest =>
      let (code, comment) := splitComment rest
      (commentMark :: code, comment)
  | c :: rest =>
      if c = commentMark then ([], some rest)
      else
        let (code, comment) := splitComment rest
        (c :: code, comment)

structure WalkedLine where
  number : Nat
  text : String
  comment : Option String
  elements : List Element

/-- Lines from `number` on, each with the elements of its number that come next once those of
smaller numbers are passed over. -/
def walkFrom (number : Nat) : List (List Char) → List Element → List WalkedLine
  | [], _ => []
  | line :: more, elements =>
      let ahead := elements.dropWhile fun element => element.line < number
      { number
        text := String.ofList line
        comment := (splitComment line).2.map String.ofList
        elements := ahead.takeWhile fun element => element.line == number } ::
        walkFrom (number + 1) more (ahead.dropWhile fun element => element.line == number)

def walk (text : String) (elements : List Element) : List WalkedLine :=
  walkFrom 1 (Text.lines text.toList) elements

end PathDirectives
