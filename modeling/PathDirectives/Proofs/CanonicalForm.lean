import PathDirectives.Proofs.Scanned
import PathDirectives.Proofs.WrittenComments

/-!
The canonical form of a command that a comment holds, scanned again. It gives one command of the same
name and the same keys; that it is the command itself takes more, since a value may hold parentheses
that the clean-up counts against the one that closes the arguments.
-/

namespace PathDirectives

open Text

variable {comment : String} {command : Command} {argument : String × String}
  {arguments front more : Arguments}

/-- A command whose canonical form is cleaned of nothing but its layout. -/
structure Command.Restorable (command : Command) : Prop where
  positional : command.named = [] → ∀ positional, command.positional = some positional →
    positional.toList.getLast? ≠ some '('
  comma : ∀ argument ∈ command.named, argument.2.toList.getLast? ≠ some ','
  inner : ∀ argument ∈ command.named.dropLast,
    argument.2.toList.count '(' < argument.2.toList.count ')' →
      argument.2.toList.getLast? ≠ some ')'
  final : ∀ argument, command.named.getLast? = some argument →
    argument.2.toList.count '(' ≤ argument.2.toList.count ')'

instance (command : Command) : Decidable command.Restorable :=
  decidable_of_iff
    ((command.named = [] →
        ∀ positional ∈ command.positional, positional.toList.getLast? ≠ some '(') ∧
      (∀ argument ∈ command.named, argument.2.toList.getLast? ≠ some ',') ∧
        (∀ argument ∈ command.named.dropLast,
          argument.2.toList.count '(' < argument.2.toList.count ')' →
            argument.2.toList.getLast? ≠ some ')') ∧
          ∀ argument ∈ command.named.getLast?,
            argument.2.toList.count '(' ≤ argument.2.toList.count ')')
    ⟨fun ⟨positional, comma, inner, final⟩ => ⟨positional, comma, inner, final⟩,
      fun own => ⟨own.positional, own.comma, own.inner, own.final⟩⟩

theorem keys_rereadArguments (gap stop : List Char) (arguments : Arguments) :
    (rereadArguments gap stop arguments).map (·.1) = arguments.map (·.1) := by
  induction arguments with
  | nil => rfl
  | cons argument more ih => simp [rereadArguments, ih]

theorem mem_dropLast_of_split (whole : arguments = front ++ argument :: more) (behind : more ≠ []) :
    argument ∈ arguments.dropLast := by
  rw [whole, List.dropLast_append_cons, List.dropLast_cons_of_ne_nil behind]
  simp

theorem split_of_mem_dropLast (member : argument ∈ arguments.dropLast) :
    ∃ front more, arguments = front ++ argument :: more ∧ more ≠ [] := by
  obtain ⟨front, middle, whole⟩ := List.append_of_mem member
  cases arguments with
  | nil => simp at member
  | cons first rest =>
      refine ⟨front, middle ++ [(first :: rest).getLast (by simp)], ?_, by simp⟩
      rw [← List.cons_append, ← List.append_assoc, ← whole, List.dropLast_append_getLast]

theorem cleanValue_canonical_iff (writable : WritableArgument argument) :
    cleanValue (argument.2.toList ++
        separator Layout.parenthesised.gap Layout.parenthesised.stop more) = argument.2.toList ↔
      argument.2.toList.getLast? ≠ some ',' ∧
        if more = [] then argument.2.toList.count '(' ≤ argument.2.toList.count ')'
        else argument.2.toList.count '(' < argument.2.toList.count ')' →
          argument.2.toList.getLast? ≠ some ')' := by
  have trimmed := writable.trimmed
  have stop : Layout.parenthesised.stop = Layout.parenthesised.stop ++ [] := rfl
  rw [stop]
  split
  · rename_i last
    rw [last, separator_parenthesised_last trimmed (by simp), keepValue_closed_iff trimmed]
  · rename_i behind
    rw [separator_other trimmed (by simp) (.inr behind), keepValue_eq_self_iff trimmed]

theorem rereadArguments_canonical_iff
    (writable : ∀ argument ∈ arguments, WritableArgument argument) :
    rereadArguments Layout.parenthesised.gap Layout.parenthesised.stop arguments = arguments ↔
      (∀ argument ∈ arguments, argument.2.toList.getLast? ≠ some ',') ∧
        (∀ argument ∈ arguments.dropLast,
          argument.2.toList.count '(' < argument.2.toList.count ')' →
            argument.2.toList.getLast? ≠ some ')') ∧
          ∀ argument, arguments.getLast? = some argument →
            argument.2.toList.count '(' ≤ argument.2.toList.count ')' := by
  rw [rereadArguments_eq_self_iff]
  constructor
  · intro each
    have kept {front argument more} (whole : arguments = front ++ argument :: more) :=
      (cleanValue_canonical_iff (writable argument (by simp [whole]))).mp
        (each front argument more whole)
    refine ⟨?_, ?_, ?_⟩
    · intro argument member
      obtain ⟨front, more, whole⟩ := List.append_of_mem member
      exact (kept whole).1
    · intro argument member
      obtain ⟨front, more, whole, behind⟩ := split_of_mem_dropLast member
      have own := (kept whole).2
      rwa [if_neg behind] at own
    · intro argument last
      obtain ⟨front, whole⟩ := List.getLast?_eq_some_iff.mp last
      have own := (kept whole).2
      rwa [if_pos rfl] at own
  · rintro ⟨comma, inner, final⟩ front argument more whole
    have member : argument ∈ arguments := by simp [whole]
    refine (cleanValue_canonical_iff (writable argument member)).mpr ⟨comma argument member, ?_⟩
    split
    · rename_i last
      subst last
      exact final argument (by simp [whole])
    · rename_i behind
      exact inner argument (mem_dropLast_of_split whole behind)

theorem rereadPositional_canonical_iff (writable : command.Writable) :
    Layout.rereadPositional
        (frontText command.positional ++ Layout.parenthesised.frontEnd [] command.named) =
          command.positional ↔
      (command.named = [] → ∀ positional, command.positional = some positional →
        positional.toList.getLast? ≠ some '(') := by
  cases command.named with
  | nil =>
      have empty : ∀ c ∈ Layout.parenthesised.frontEnd [] [], isBlank c = true := by
        simp [Layout.frontEnd]
      rw [rereadPositional_eq_self_iff writable.positional empty]
      simp
  | cons argument more =>
      have opened := rereadPositional_opened writable.positional
      exact ⟨fun _ empty => by simp at empty, fun _ => opened⟩

theorem Command.Writable.reread_eq_iff (writable : command.Writable) :
    Layout.parenthesised.reread [] command = command ↔ command.Restorable := by
  have positional := rereadPositional_canonical_iff writable
  have arguments := rereadArguments_canonical_iff writable.arguments
  have fields : Layout.parenthesised.reread [] command = command ↔
      Layout.rereadPositional
          (frontText command.positional ++ Layout.parenthesised.frontEnd [] command.named) =
            command.positional ∧
        rereadArguments Layout.parenthesised.gap Layout.parenthesised.stop command.named =
          command.named := by
    obtain ⟨name, position, named⟩ := command
    simp [Layout.reread]
  rw [fields, positional, arguments]
  constructor
  · rintro ⟨own, comma, inner, final⟩
    exact ⟨own, comma, inner, final⟩
  · exact fun own => ⟨own.positional, own.comma, own.inner, own.final⟩

/-- Scanning the canonical form of a command that a comment holds gives one command, of the same name
and with the same keys. It is the command itself if and only if that is restorable. -/
theorem scanComment_text_of_mem (found : command ∈ scanComment comment) :
    ∃ again, scanComment command.text = [again] ∧ again.name = command.name ∧
      again.named.map (·.1) = command.named.map (·.1) ∧
        (again = command ↔ command.Restorable) := by
  have writable : command.Writable := writable_of_mem_scan found
  exact ⟨Layout.parenthesised.reread [] command,
    writable.scanComment_write .parenthesised, rfl, keys_rereadArguments _ _ _,
    writable.reread_eq_iff⟩

def closedNote : Command :=
  { name := "waitfree"
    positional := some "Drill (a,"
    named := [("delay", "4h"), ("note", "1) or 2) (first)")] }

theorem closedNote_comes_back :
    closedNote ∈ scanComment "!waitfree Drill (a, note=1) or 2) (first)) delay=4h" ∧
      ∃ again, scanComment closedNote.text = [again] ∧ again.name = closedNote.name ∧
        again.named.map (·.1) = closedNote.named.map (·.1) ∧
          (again = closedNote ↔ closedNote.Restorable) := by
  have found : closedNote ∈ scanComment "!waitfree Drill (a, note=1) or 2) (first)) delay=4h" := by
    decide +kernel
  exact ⟨found, scanComment_text_of_mem found⟩

def openNote : Command :=
  { name := "waitfree", positional := some "Drill", named := [("delay", "2h (later")] }

theorem openNote_changed :
    scanComment "!waitfree Drill delay=2h (later" = [openNote] ∧
      scanComment openNote.text ≠ [openNote] := by
  constructor
  · decide +kernel
  · decide +kernel

end PathDirectives
