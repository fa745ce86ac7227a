import PathDirectives.Text.Pieces

/-!
Patterns in which a star stands for any run of characters.
-/

namespace PathDirectives.Glob

/-- Whether the pieces of a pattern after its first star fit a text: each but the last at the
leftmost place after the one before, and the last at the end. -/
def fitsAfterStar : List (List Char) → List Char → Bool
  | [], _ => true
  | [last], text => last.isSuffixOf text
  | piece :: more, text =>
      match Text.afterFirst? piece text with
      | some rest => fitsAfterStar more rest
      | none => false

def fits (literals : List (List Char)) (text : List Char) : Bool :=
  match literals with
  | [] => text.isEmpty
  | [only] => only == text
  | head :: more =>
      match head.isPrefixOf? text with
      | some rest => fitsAfterStar more rest
      | none => false

def isMatch (pattern text : List Char) : Bool :=
  fits (Text.pieces '*' pattern) text

end PathDirectives.Glob
