import PathDirectives.Proofs.Rereading

/-!
Comments written from commands. However the commands are laid out, and whatever remarks stand in
front of them and between them, scanning the comment gives the commands back in their order.
-/

namespace PathDirectives

open Text

variable {name body front rest blanks : List Char} {layout : Layout} {command : Command}

theorem scan_of_no_mark (plain : '!' ∉ front) (text : List Char) :
    scan (front ++ text) = scan text := by
  induction front with
  | nil => rfl
  | cons c more ih =>
      rw [List.mem_cons, not_or] at plain
      rw [List.cons_append, scan, if_neg (Ne.symm plain.1)]
      exact ih plain.2

theorem scan_command (filled : name ≠ []) (word : ∀ c ∈ name, isWordChar c = true)
    (opens : ∀ c, body.head? = some c → isWordChar c = false)
    (within : ∀ c ∈ body, endsBody c = false)
    (ends : ∀ c, rest.head? = some c → endsBody c = true) :
    scan ('!' :: (name ++ (body ++ rest))) =
      (Command.ofBody? name body).toList ++ scan rest := by
  have stops : ∀ c, (body ++ rest).head? = some c → isWordChar c = false := by
    intro c head
    cases body with
    | cons d more => exact opens c head
    | nil =>
        cases isWord : isWordChar c with
        | false => rfl
        | true =>
            have none_ends := endsBody_of_isWordChar isWord
            rw [ends c head] at none_ends
            exact none_ends
  have taken : (name ++ (body ++ rest)).takeWhile isWordChar = name := takeWhile_exact word stops
  have dropped : (name ++ (body ++ rest)).dropWhile isWordChar = body ++ rest :=
    dropWhile_exact word stops
  have inside : ∀ c ∈ body, (!endsBody c) = true := fun c member => by simp [within c member]
  have outside : ∀ c, rest.head? = some c → (!endsBody c) = false :=
    fun c head => by simp [ends c head]
  have bodyTaken : (body ++ rest).takeWhile (!endsBody ·) = body := takeWhile_exact inside outside
  have bodyDropped : (body ++ rest).dropWhile (!endsBody ·) = rest :=
    dropWhile_exact inside outside
  have named : name.isEmpty = false := by simpa using filled
  rw [scan, if_pos rfl]
  simp only [taken, dropped, bodyTaken, bodyDropped, named, Bool.false_eq_true, if_false]

theorem Command.Writable.scan_write (writable : command.Writable) (layout : Layout)
    (areBlank : ∀ c ∈ blanks, isBlank c = true)
    (ends : ∀ c, rest.head? = some c → endsBody c = true) :
    scan ((layout.write command).toList ++ (blanks ++ rest)) =
      layout.reread blanks command :: scan rest := by
  have whole : (layout.write command).toList ++ (blanks ++ rest) =
      '!' :: (command.name.toList ++
        (layout.body (frontText command.positional) blanks command.named ++ rest)) := by
    rw [← List.append_assoc, layout.toList_write]
    simp
  have opens : ∀ c, (layout.body (frontText command.positional) blanks command.named).head? =
      some c → isWordChar c = false := fun c head =>
    layout.head_body (opens_frontText command.positional) areBlank command.named head
  rw [whole, scan_command (by simpa using writable.named) writable.word opens
    (writable.within_body areBlank layout) ends, writable.ofBody?_body areBlank layout]
  rfl

theorem Command.Writable.scanComment_write (writable : command.Writable) (layout : Layout) :
    scanComment (layout.write command) = [layout.reread [] command] := by
  have none_blank : ∀ c ∈ ([] : List Char), isBlank c = true := by simp
  have none_ends : ∀ c, ([] : List Char).head? = some c → endsBody c = true := by simp
  have read := writable.scan_write layout none_blank none_ends
  rwa [List.append_nil, List.append_nil, scan] at read

/-- A command that either layout writes without ambiguity. -/
structure Command.WellFormed (command : Command) : Prop extends Command.Writable command where
  closed : ∀ positional, command.positional = some positional →
    positional.toList.getLast? ≠ some '('
  balanced : ∀ argument ∈ command.named,
    argument.2.toList.count ')' = argument.2.toList.count '('
  comma : ∀ argument ∈ command.named, argument.2.toList.getLast? ≠ some ','

instance (command : Command) : Decidable command.WellFormed :=
  decidable_of_iff
    (command.Writable ∧
      (∀ positional ∈ command.positional, positional.toList.getLast? ≠ some '(') ∧
        (∀ argument ∈ command.named,
            argument.2.toList.count ')' = argument.2.toList.count '(') ∧
          ∀ argument ∈ command.named, argument.2.toList.getLast? ≠ some ',')
    ⟨fun ⟨writable, closed, balanced, comma⟩ => ⟨writable, closed, balanced, comma⟩,
      fun own => ⟨own.toWritable, own.closed, own.balanced, own.comma⟩⟩

theorem Command.WellFormed.reread_eq (formed : command.WellFormed) (layout : Layout)
    (areBlank : ∀ c ∈ blanks, isBlank c = true) : layout.reread blanks command = command := by
  have values : rereadArguments layout.gap (layout.stop ++ blanks) command.named =
      command.named := by
    rw [rereadArguments_eq_self_iff]
    intro front argument more whole
    have member : argument ∈ command.named := by simp [whole]
    have trimmed := (formed.arguments argument member).trimmed
    have balanced := formed.balanced argument member
    have comma := formed.comma argument member
    by_cases last : layout = .parenthesised ∧ more = []
    · obtain ⟨rfl, rfl⟩ := last
      rw [separator_parenthesised_last trimmed areBlank, keepValue_closed_iff trimmed]
      exact ⟨comma, by omega⟩
    · have other : layout = .spaced ∨ more ≠ [] := by
        cases layout <;> simp_all
      rw [separator_other trimmed areBlank other, keepValue_eq_self_iff trimmed]
      exact ⟨comma, by omega⟩
  have positional : Layout.rereadPositional
      (frontText command.positional ++ layout.frontEnd blanks command.named) =
        command.positional := by
    have kept {behind : List Char} (empty : ∀ c ∈ behind, isBlank c = true) :=
      (rereadPositional_eq_self_iff formed.positional empty).mpr formed.closed
    cases command.named with
    | nil => exact kept areBlank
    | cons argument more =>
        cases layout with
        | parenthesised => exact rereadPositional_opened formed.positional
        | spaced =>
            have space : ∀ c ∈ [' '], isBlank c = true := by simp; decide
            exact kept space
  unfold Layout.reread
  rw [values, positional]

/-! ### Comments -/

inductive Trailing (text : List Char) : Prop where
  | blank (areBlank : ∀ c ∈ text, isBlank c = true)
  | remark {blanks rest : List Char} {quote : Char} (whole : text = blanks ++ quote :: rest)
      (areBlank : ∀ c ∈ blanks, isBlank c = true) (quotes : quote = '"' ∨ quote = '\x27')
      (plain : '!' ∉ rest)

structure WrittenCommand where
  layout : Layout
  command : Command
  trail : String

def WrittenCommand.text (written : WrittenCommand) : String :=
  written.layout.write written.command ++ written.trail

theorem WrittenCommand.scan_text {written : WrittenCommand} (formed : written.command.WellFormed)
    (trailing : Trailing written.trail.toList)
    (ends : ∀ c, rest.head? = some c → endsBody c = true) :
    scan (written.text.toList ++ rest) = written.command :: scan rest := by
  rw [text, String.toList_append, List.append_assoc]
  cases trailing with
  | blank areBlank =>
      rw [formed.scan_write written.layout areBlank ends,
        formed.reread_eq written.layout areBlank]
  | @remark blanks remark quote whole areBlank quotes plain =>
      have skipped : scan (quote :: (remark ++ rest)) = scan rest := by
        have noMark : '!' ∉ quote :: remark := by
          rcases quotes with rfl | rfl <;> simpa using plain
        exact scan_of_no_mark noMark rest
      have quoteEnds : ∀ c, (quote :: (remark ++ rest)).head? = some c → endsBody c = true := by
        intro c head
        obtain rfl : quote = c := by simpa using head
        rcases quotes with rfl | rfl <;> decide
      rw [whole, List.append_assoc, List.cons_append,
        formed.scan_write written.layout areBlank quoteEnds,
        formed.reread_eq written.layout areBlank, skipped]

theorem WrittenCommand.head_text {all : List WrittenCommand} {c : Char}
    (head : (all.flatMap (·.text.toList)).head? = some c) : endsBody c = true := by
  cases all with
  | nil => simp at head
  | cons written more =>
      have whole := written.layout.toList_write written.command []
      rw [List.append_nil] at whole
      obtain rfl : '!' = c := by simpa [text, whole] using head
      decide

/-- Scanning undoes writing: commands laid out in either way, behind any text without a mark and
each with white space or a remark behind it, are found again, in order and with nothing else. -/
theorem scanComment_written {lead : String} {written : List WrittenCommand}
    (plain : '!' ∉ lead.toList)
    (formed : ∀ item ∈ written, item.command.WellFormed ∧ Trailing item.trail.toList) :
    scanComment (lead ++ String.join (written.map (·.text))) = written.map (·.command) := by
  have whole : (lead ++ String.join (written.map (·.text))).toList =
      lead.toList ++ written.flatMap (·.text.toList) := by
    simp [List.flatMap_map]
  rw [scanComment, whole, scan_of_no_mark plain]
  clear whole
  induction written with
  | nil => simp [scan]
  | cons item more ih =>
      obtain ⟨own, trailing⟩ := formed item List.mem_cons_self
      have behind := ih fun other member => formed other (List.mem_cons_of_mem _ member)
      rw [List.flatMap_cons,
        WrittenCommand.scan_text own trailing fun c head => WrittenCommand.head_text head, behind]
      rfl

def noted : List WrittenCommand :=
  [⟨.parenthesised,
      { name := "waiton", positional := some "A/1 (east)", named := [("delay", "4h"), ("note", "a=b")] },
      " \"later, or never\" "⟩,
    ⟨.spaced,
      { name := "Remove", named := [("on", "available"), ("tasks", "A/{1,2} <Drill, Load>")] }, "\t"⟩,
    ⟨.spaced, { name := "enable" }, ""⟩]

theorem noted_scanned :
    ('!' ∉ "first (a=1) ".toList ∧
      ∀ item ∈ noted, item.command.WellFormed ∧ Trailing item.trail.toList) ∧
        scanComment ("first (a=1) " ++ String.join (noted.map (·.text))) =
          noted.map (·.command) := by
  have plain : '!' ∉ "first (a=1) ".toList := by decide
  have formed : ∀ item ∈ noted, item.command.WellFormed := by decide +kernel
  have trailing : ∀ item ∈ noted, Trailing item.trail.toList := by
    intro item member
    simp only [noted, List.mem_cons, List.not_mem_nil, or_false] at member
    rcases member with rfl | rfl | rfl
    · have space : ∀ c ∈ [' '], isBlank c = true := by simp; rfl
      exact .remark (rfl : _ = [' '] ++ '"' :: "later, or never\" ".toList) space (.inl rfl)
        (by decide)
    · exact .blank (by simp; rfl)
    · exact .blank (by simp)
  have both := fun item member => And.intro (formed item member) (trailing item member)
  exact ⟨⟨plain, both⟩, scanComment_written plain both⟩

end PathDirectives
