/-!
Text cut into pieces: at every separator, at line ends, at the first place that passes a test, and
after the leftmost copy of another text.
-/

namespace PathDirectives.Text

def pieces (separator : Char) : List Char → List (List Char)
  | [] => [[]]
  | c :: rest =>
      if c = separator then [] :: pieces separator rest
      else
        match pieces separator rest with
        | [] => [[c]]
        | piece :: more => (c :: piece) :: more

def dropReturn (line : List Char) : List Char :=
  match line.reverse with
  | '\r' :: front => front.reverse
  | _ => line

/-- The closed lines of a text whose last piece, after the last line feed, is a line only if it
holds a character. -/
def closeLines : List (List Char) → List (List Char)
  | [] => []
  | [last] => if last.isEmpty then [] else [last]
  | line :: more => dropReturn line :: closeLines more

def lines (text : List Char) : List (List Char) :=
  closeLines (pieces '\n' text)

def cutAt (test : Char → Bool) : List Char → Option (List Char × List Char)
  | [] => none
  | c :: rest =>
      if test c then some ([], rest)
      else (cutAt test rest).map fun (before, after) => (c :: before, after)

def afterFirst? (piece : List Char) : List Char → Option (List Char)
  | [] => piece.isPrefixOf? []
  | c :: rest =>
      match piece.isPrefixOf? (c :: rest) with
      | some after => some after
      | none => afterFirst? piece rest

theorem cutAt_append {test : Char → Bool} {text before after : List Char}
    (cut : cutAt test text = some (before, after)) :
    ∃ c, test c = true ∧ text = before ++ c :: after := by
  induction text generalizing before with
  | nil => simp [cutAt] at cut
  | cons c rest ih =>
      rw [cutAt] at cut
      split at cut
      · rename_i passed
        simp only [Option.some.injEq, Prod.mk.injEq] at cut
        obtain ⟨rfl, rfl⟩ := cut
        exact ⟨c, passed, rfl⟩
      · simp only [Option.map_eq_some_iff, Prod.exists] at cut
        obtain ⟨front, back, found, same⟩ := cut
        simp only [Prod.mk.injEq] at same
        obtain ⟨rfl, rfl⟩ := same
        obtain ⟨d, passed, whole⟩ := ih found
        exact ⟨d, passed, by rw [whole]; rfl⟩

end PathDirectives.Text
