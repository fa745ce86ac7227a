import PathDirectives.Proofs.WrittenBody

/-!
What is read back of a command in writing: each argument, if cleaning takes off just the separator
behind its value, and the positional argument, if it is not cut at an opening parenthesis.
-/

namespace PathDirectives

open Text

variable {blanks value : List Char} {layout : Layout} {more arguments : Arguments}

theorem separator_parenthesised_last (trimmed : IsTrimmed value)
    (areBlank : ∀ c ∈ blanks, isBlank c = true) :
    cleanValue (value ++ separator Layout.parenthesised.gap (Layout.parenthesised.stop ++ blanks) []) =
      keepValue (value ++ [')']) := by
  have closed := isTrimmed_concat trimmed (c := ')') (by decide)
  have whole := cleanValue_padded closed areBlank
  rwa [List.append_assoc] at whole

theorem separator_other {more : Arguments} (trimmed : IsTrimmed value)
    (areBlank : ∀ c ∈ blanks, isBlank c = true) (other : layout = .spaced ∨ more ≠ []) :
    cleanValue (value ++ separator layout.gap (layout.stop ++ blanks) more) = keepValue value := by
  cases layout with
  | spaced =>
      refine cleanValue_padded trimmed ?_
      cases more with
      | nil => exact areBlank
      | cons argument rest => simp [separator, Layout.gap]; decide
  | parenthesised =>
      cases more with
      | nil => simp at other
      | cons argument rest =>
          have comma := isTrimmed_concat trimmed (c := ',') (by decide)
          have whole : cleanValue ((value ++ [',']) ++ [' ']) = keepValue (value ++ [',']) :=
            cleanValue_padded comma (by simp; decide)
          rwa [List.append_assoc, keepValue_comma] at whole

/-- Arguments come back if each value comes back from in front of what stands behind it. -/
theorem rereadArguments_eq_self_iff (gap stop : List Char) :
    rereadArguments gap stop arguments = arguments ↔
      ∀ front argument more, arguments = front ++ argument :: more →
        cleanValue (argument.2.toList ++ separator gap stop more) = argument.2.toList := by
  induction arguments with
  | nil => simp [rereadArguments]
  | cons head tail ih =>
      obtain ⟨key, value⟩ := head
      simp only [rereadArguments, List.cons.injEq, Prod.mk.injEq, true_and, ih, String.ofList_eq]
      constructor
      · rintro ⟨here, behind⟩ front argument more whole
        cases front with
        | nil =>
            simp only [List.nil_append, List.cons.injEq] at whole
            obtain ⟨rfl, rfl⟩ := whole
            exact here
        | cons first others =>
            simp only [List.cons_append, List.cons.injEq] at whole
            exact behind others argument more whole.2
      · intro each
        refine ⟨each [] (key, value) tail rfl, fun front argument more whole => ?_⟩
        exact each ((key, value) :: front) argument more (by rw [whole]; rfl)

theorem rereadPositional_of_eq {front text : List Char} (read : cleanPositional front = text) :
    Layout.rereadPositional front = if text = [] then none else some (String.ofList text) := by
  simp [Layout.rereadPositional, read]

section Positional

variable {positional : Option String}
  (writable : ∀ text, positional = some text → WritablePositional text)

include writable

theorem rereadPositional_opened :
    Layout.rereadPositional (frontText positional ++ ['(']) = positional := by
  cases positional with
  | none => decide
  | some text =>
      obtain ⟨filled, trimmed, -, -⟩ := writable text rfl
      have opened := isTrimmed_concat trimmed (c := '(') (by decide)
      have read : cleanPositional ([' '] ++ ((text.toList ++ ['(']) ++ [])) = text.toList := by
        rw [cleanPositional_padded opened (by simp; decide) (by simp), dropLastIf_concat,
          trimEnd_of_last trimmed.last]
      rw [List.append_nil] at read
      rw [show frontText (some text) ++ ['('] = [' '] ++ (text.toList ++ ['(']) from rfl,
        rereadPositional_of_eq read, if_neg (by simpa using filled), String.ofList_toList]

theorem rereadPositional_eq_self_iff (areBlank : ∀ c ∈ blanks, isBlank c = true) :
    Layout.rereadPositional (frontText positional ++ blanks) = positional ↔
      ∀ text, positional = some text → text.toList.getLast? ≠ some '(' := by
  cases positional with
  | none =>
      have read : cleanPositional ([] ++ ([] ++ blanks)) = [] :=
        cleanPositional_padded isTrimmed_nil (by simp) areBlank
      rw [List.nil_append, List.nil_append] at read
      simp [frontText, rereadPositional_of_eq read]
  | some text =>
      obtain ⟨filled, trimmed, -, -⟩ := writable text rfl
      have read : cleanPositional ([' '] ++ (text.toList ++ blanks)) =
          trimEnd (dropLastIf '(' text.toList) :=
        cleanPositional_padded trimmed (by simp; decide) areBlank
      rw [show frontText (some text) ++ blanks = [' '] ++ (text.toList ++ blanks) from rfl,
        rereadPositional_of_eq read]
      simp only [Option.some.injEq, forall_eq', ← keepPositional_eq_self_iff trimmed]
      constructor
      · intro same
        split at same
        · simp at same
        · simpa [String.ofList_eq] using same
      · intro kept
        rw [kept, if_neg (by simpa using filled), String.ofList_toList]

end Positional

end PathDirectives
