import PathDirectives.PathText.Line

/-!
Lines put together from code and comment. In a line each quote of the code stands behind a
backslash, and cutting the line at its comment undoes putting it together: nothing is lost, and
code and comment come back as they were unless a backslash at the end of the code escapes the quote
that should begin the comment.
-/

namespace PathDirectives

variable {line code tail rest : List Char} {c : Char}

def escapeQuotes (code : List Char) : List Char :=
  code.flatMap fun c => if c = commentMark then ['\\', commentMark] else [c]

def joinComment (code : List Char) : Option (List Char) → List Char
  | none => escapeQuotes code
  | some comment => escapeQuotes code ++ commentMark :: comment

theorem escapeQuotes_mark (code : List Char) :
    escapeQuotes (commentMark :: code) = '\\' :: commentMark :: escapeQuotes code := rfl

theorem escapeQuotes_plain (plain : c ≠ commentMark) (code : List Char) :
    escapeQuotes (c :: code) = c :: escapeQuotes code := by
  rw [escapeQuotes, List.flatMap_cons, if_neg plain]
  rfl

theorem head?_escapeQuotes_append (filled : code ≠ []) (tail : List Char) :
    (escapeQuotes code ++ tail).head? ≠ some commentMark := by
  cases code with
  | nil => exact absurd rfl filled
  | cons c more =>
      by_cases quote : c = commentMark
      · rw [quote, escapeQuotes_mark]
        simp [commentMark]
      · rw [escapeQuotes_plain quote]
        simpa using quote

theorem joinComment_mark (code : List Char) (comment : Option (List Char)) :
    joinComment (commentMark :: code) comment =
      '\\' :: commentMark :: joinComment code comment := by
  cases comment <;> rfl

theorem joinComment_plain (plain : c ≠ commentMark) (code : List Char)
    (comment : Option (List Char)) :
    joinComment (c :: code) comment = c :: joinComment code comment := by
  cases comment <;> simp [joinComment, escapeQuotes_plain plain]

theorem splitComment_mark (rest : List Char) :
    splitComment (commentMark :: rest) = ([], some rest) := rfl

theorem splitComment_escaped (rest : List Char) :
    splitComment ('\\' :: commentMark :: rest) =
      (commentMark :: (splitComment rest).1, (splitComment rest).2) := rfl

theorem splitComment_plain (plain : c ≠ commentMark)
    (apart : c = '\\' → rest.head? ≠ some commentMark) :
    splitComment (c :: rest) = (c :: (splitComment rest).1, (splitComment rest).2) := by
  rw [splitComment, if_neg plain]
  intro after same begins
  exact apart same (by rw [begins]; rfl)

theorem splitComment_sound (line : List Char) :
    joinComment (splitComment line).1 (splitComment line).2 = line ∧
      ((splitComment line).2 ≠ none → (splitComment line).1.getLast? ≠ some '\\') := by
  induction line using splitComment.induct with
  | case1 => simp [splitComment, joinComment, escapeQuotes]
  | case2 rest code comment found ih =>
      obtain ⟨whole, ends⟩ := ih
      rw [show '\x27' = commentMark from rfl, splitComment_escaped]
      refine ⟨by rw [joinComment_mark, whole], fun commented => ?_⟩
      have own := ends commented
      cases code : (splitComment rest).1 with
      | nil => simp [commentMark]
      | cons d more => rwa [List.getLast?_cons_cons, ← code]
  | case3 rest _ => simp [splitComment, joinComment, escapeQuotes]
  | case4 c rest other plain code comment found ih =>
      obtain ⟨whole, ends⟩ := ih
      have apart : c = '\\' → rest.head? ≠ some commentMark := by
        intro escapes head
        obtain ⟨after, begins⟩ := List.head?_eq_some_iff.mp head
        exact other after escapes begins
      rw [splitComment_plain plain apart]
      refine ⟨by rw [joinComment_plain plain, whole], fun commented => ?_⟩
      have own := ends commented
      cases code : (splitComment rest).1 with
      | cons d more => rwa [List.getLast?_cons_cons, ← code]
      | nil =>
          obtain ⟨text, comment⟩ := Option.ne_none_iff_exists'.mp commented
          have begins : rest.head? = some commentMark := by
            rw [← whole, code, comment]
            rfl
          simpa using fun escapes => apart escapes begins

theorem splitComment_escapeQuotes_append (code : List Char)
    (apart : code.getLast? = some '\\' → tail.head? ≠ some commentMark) :
    splitComment (escapeQuotes code ++ tail) =
      (code ++ (splitComment tail).1, (splitComment tail).2) := by
  induction code with
  | nil => rfl
  | cons c more ih =>
      have behind := ih fun last => apart (by rw [List.getLast?_cons, last]; rfl)
      by_cases quote : c = commentMark
      · rw [quote, escapeQuotes_mark, List.cons_append, List.cons_append, splitComment_escaped,
          behind]
        rfl
      · have free : c = '\\' → (escapeQuotes more ++ tail).head? ≠ some commentMark := by
          intro escapes
          cases more with
          | nil => exact apart (by rw [escapes]; rfl)
          | cons d others => exact head?_escapeQuotes_append (by simp) tail
        rw [escapeQuotes_plain quote, List.cons_append, splitComment_plain quote free, behind]
        rfl

/-- Cutting a line at its comment finds exactly the parts that the line is put together from. -/
theorem splitComment_eq_iff (line : List Char) :
    (∀ code comment, splitComment line = (code, some comment) ↔
      line = escapeQuotes code ++ commentMark :: comment ∧ code.getLast? ≠ some '\\') ∧
        ∀ code, splitComment line = (code, none) ↔ line = escapeQuotes code := by
  obtain ⟨whole, ends⟩ := splitComment_sound line
  refine ⟨fun code comment => ⟨fun cut => ?_, ?_⟩, fun code => ⟨fun cut => ?_, ?_⟩⟩
  · rw [cut] at whole ends
    exact ⟨whole.symm, ends (by simp)⟩
  · rintro ⟨rfl, last⟩
    have apart : code.getLast? = some '\\' → (commentMark :: comment).head? ≠ some commentMark :=
      fun escapes => absurd escapes last
    have read := splitComment_escapeQuotes_append code apart
    rwa [splitComment_mark, List.append_nil] at read
  · rw [cut] at whole
    exact whole.symm
  · rintro rfl
    have apart : code.getLast? = some '\\' → [].head? ≠ some commentMark := fun _ => by simp
    have read := splitComment_escapeQuotes_append code apart
    rwa [splitComment, List.append_nil, List.append_nil] at read

/-- A backslash at the end of the code takes the quote of a comment for one of the code. -/
example :
    splitComment (joinComment ['A', '\\'] (some ['x'])) = (['A', commentMark, 'x'], none) := by
  decide

end PathDirectives
