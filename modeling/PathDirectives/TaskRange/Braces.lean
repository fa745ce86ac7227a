import PathDirectives.Text.Blank
import PathDirectives.Text.Lowercase
import PathDirectives.Text.Pieces

/-!
Text with groups of alternatives, such as `A/{1,2}/{3,4}`. A group stands for each of its
alternatives in turn, and several groups for all their combinations. Braces neither nest nor stand
alone.
-/

namespace PathDirectives.Braces

inductive Segment where
  | literal (text : List Char)
  | group (alternatives : List (List Char))
  deriving DecidableEq

def alternatives (inner : List Char) : List (List Char) :=
  (Text.pieces ',' inner).map Text.trim

def segments? (text : List Char) : Option (List Segment) :=
  match _opened : Text.cutAt (· == '\x7b') text with
  | none => if text.contains '\x7d' then none else some [.literal text]
  | some (before, after) =>
      match _closed : Text.cutAt (· == '\x7d') after with
      | none => none
      | some (inner, rest) =>
          if before.contains '\x7d' || inner.contains '\x7b' then none
          else
            (segments? rest).map fun more =>
              .literal before :: .group (alternatives inner) :: more
termination_by text.length
decreasing_by
  obtain ⟨_, _, whole⟩ := Text.cutAt_append _opened
  obtain ⟨_, _, part⟩ := Text.cutAt_append _closed
  simp [whole, part]
  omega

/-- Every text that a list of segments stands for, the first group's choice changing last. -/
def choices : List Segment → List (List Char)
  | [] => [[]]
  | .literal text :: more => (choices more).map (text ++ ·)
  | .group alternatives :: more =>
      alternatives.flatMap fun alternative => (choices more).map (alternative ++ ·)

def expand? (pattern : List Char) : Option (List (List Char)) :=
  (segments? pattern).map fun segments => (choices segments).map Text.lower

end PathDirectives.Braces
