import PathDirectives.Proofs.Cutting
import PathDirectives.Proofs.Letters
import PathDirectives.Proofs.Results
import PathDirectives.Proofs.Trimming
import PathDirectives.TaskRange.Basic

/-!
Ranges as syntax, and what is parsed from them in writing. Pieces of a pattern that stand side by
side are read as one, so a term need not come back as it was; what comes back has the same choices.
-/

namespace PathDirectives.Grammar

open Text

inductive Part where
  | literal (text : String)
  | group (first : String) (more : List String)

inductive Filter where
  | absent
  | star
  | named (first : String) (more : List String)

structure Term where
  role : RoleFilter
  pattern : List Part
  filter : Filter

structure Range where
  first : Term
  more : List Term

def Range.terms (range : Range) : List Term := range.first :: range.more

def Range.join (range other : Range) : Range :=
  { range with more := range.more ++ other.terms }

def Filter.names : Filter → List String
  | .named first more => first :: more
  | _ => []

def listText (first : String) (more : List String) : List Char :=
  joined ',' first.toList (more.map String.toList)

def Part.text : Part → List Char
  | .literal text => text.toList
  | .group first more => '\x7b' :: (listText first more ++ ['\x7d'])

def patternText (pattern : List Part) : List Char := pattern.flatMap Part.text

def Filter.text : Filter → List Char
  | .absent => []
  | .star => ['<', '*', '>']
  | .named first more => '<' :: (listText first more ++ ['>'])

def roleText : RoleFilter → List Char
  | .any => []
  | .source => ['s', ':']
  | .destination => ['d', ':']

def Term.text (term : Term) : List Char :=
  roleText term.role ++ (patternText term.pattern ++ term.filter.text)

def Range.text (range : Range) : String :=
  String.ofList (joined ';' range.first.text (range.more.map Term.text))

def isPlain (c : Char) : Bool :=
  c.toNat < 0x80 && !([';', '\x7b', '\x7d', '<', '>'].contains c)

structure IsItem (text : String) : Prop where
  plain : text.toList.all isPlain = true
  comma : ',' ∉ text.toList

instance (text : String) : Decidable (IsItem text) :=
  decidable_of_iff (text.toList.all isPlain = true ∧ ',' ∉ text.toList)
    ⟨fun ⟨plain, comma⟩ => ⟨plain, comma⟩, fun item => ⟨item.plain, item.comma⟩⟩

structure IsName (name : String) : Prop extends IsItem name where
  filled : name ≠ ""
  trimmed : IsTrimmed name.toList
  star : name ≠ "*"

instance (name : String) : Decidable (IsName name) :=
  decidable_of_iff (IsItem name ∧ name ≠ "" ∧ IsTrimmed name.toList ∧ name ≠ "*")
    ⟨fun ⟨item, filled, trimmed, star⟩ => ⟨item, filled, trimmed, star⟩,
      fun own => ⟨own.toIsItem, own.filled, own.trimmed, own.star⟩⟩

def Part.WellFormed : Part → Prop
  | .literal text => text.toList.all isPlain = true
  | .group first more => ∀ alternative ∈ first :: more, IsItem alternative

instance : (part : Part) → Decidable part.WellFormed
  | .literal text => inferInstanceAs (Decidable (text.toList.all isPlain = true))
  | .group first more => inferInstanceAs (Decidable (∀ alternative ∈ first :: more, IsItem alternative))

structure IsUnbraced (text : List Char) : Prop where
  opening : '\x7b' ∉ text
  closing : '\x7d' ∉ text

instance (text : List Char) : Decidable (IsUnbraced text) :=
  decidable_of_iff ('\x7b' ∉ text ∧ '\x7d' ∉ text)
    ⟨fun ⟨opening, closing⟩ => ⟨opening, closing⟩, fun own => ⟨own.opening, own.closing⟩⟩

/-- A part whose braces are just those around its alternatives, and whose commas divide these. -/
def Part.Balanced : Part → Prop
  | .literal text => IsUnbraced text.toList
  | .group first more =>
      ∀ alternative ∈ first :: more, IsUnbraced alternative.toList ∧ ',' ∉ alternative.toList

instance : (part : Part) → Decidable part.Balanced
  | .literal text => inferInstanceAs (Decidable (IsUnbraced text.toList))
  | .group first more =>
      inferInstanceAs
        (Decidable (∀ alternative ∈ first :: more,
          IsUnbraced alternative.toList ∧ ',' ∉ alternative.toList))

def startsAsRole : List Char → Bool
  | letter :: ':' :: _ => letter.toLower == 's' || letter.toLower == 'd'
  | _ => false

structure Term.Writable (term : Term) : Prop where
  parts : ∀ part ∈ term.pattern, part.WellFormed
  names : ∀ name ∈ term.filter.names, IsName name
  filled : patternText term.pattern ≠ []
  trimmed : IsTrimmed (patternText term.pattern)

instance (term : Term) : Decidable term.Writable :=
  decidable_of_iff
    ((∀ part ∈ term.pattern, part.WellFormed) ∧ (∀ name ∈ term.filter.names, IsName name) ∧
      patternText term.pattern ≠ [] ∧ IsTrimmed (patternText term.pattern))
    ⟨fun ⟨parts, names, filled, trimmed⟩ => ⟨parts, names, filled, trimmed⟩,
      fun own => ⟨own.parts, own.names, own.filled, own.trimmed⟩⟩

/-- A term whose pattern cannot be taken for one behind a role. -/
structure Term.WellFormed (term : Term) : Prop extends Term.Writable term where
  unmarked : term.role = .any → startsAsRole (patternText term.pattern) = false

instance (term : Term) : Decidable term.WellFormed :=
  decidable_of_iff
    (term.Writable ∧ (term.role = .any → startsAsRole (patternText term.pattern) = false))
    ⟨fun ⟨writable, unmarked⟩ => ⟨writable, unmarked⟩, fun own => ⟨own.toWritable, own.unmarked⟩⟩

def Range.WellFormed (range : Range) : Prop := ∀ term ∈ range.terms, term.WellFormed

instance (range : Range) : Decidable range.WellFormed :=
  inferInstanceAs (Decidable (∀ term ∈ range.terms, term.WellFormed))

/-- A text that a pattern stands for: of each group one alternative, without white space around it. -/
inductive Chosen : List Part → List Char → Prop where
  | nil : Chosen [] []
  | literal {more : List Part} {rest : List Char} (text : String) (behind : Chosen more rest) :
      Chosen (.literal text :: more) (text.toList ++ rest)
  | group {first alternative : String} {others : List String} {more : List Part} {rest : List Char}
      (among : alternative ∈ first :: others) (behind : Chosen more rest) :
      Chosen (.group first others :: more) (trim alternative.toList ++ rest)

def Filter.read : Filter → ProcessFilter
  | .named first more =>
      .named ((first :: more).map fun name => String.ofList (lower name.toList))
  | _ => .all

structure Term.ReadAs (term : Term) (read : RangeTerm) : Prop where
  role : read.role = term.role
  patterns : ∀ pattern, pattern ∈ read.patterns ↔ ∃ text, Chosen term.pattern text ∧ lower text = pattern
  processes : read.processes = term.filter.read

variable {term : Term} {range : Range} {pattern more : List Part} {filter : Filter}
  {first name text : String} {others : List String} {front rest : List Char} {c : Char}

/-! ### Reading what is written -/

theorem absent_of_plain (plain : front.all isPlain = true) (other : isPlain c = false) :
    c ∉ front := by
  intro member
  rw [List.all_eq_true.mp plain c member] at other
  simp at other

theorem IsItem.not_mem (item : IsItem text) (other : isPlain c = false) : c ∉ text.toList :=
  absent_of_plain item.plain other

theorem not_mem_listText (notComma : c ≠ ',') (absent : ∀ item ∈ first :: others, c ∉ item.toList) :
    c ∉ listText first others := by
  refine not_mem_joined notComma ?_
  rw [← List.map_cons]
  exact List.forall_mem_map.mpr absent

theorem pieces_listText (plain : ∀ item ∈ first :: others, ',' ∉ item.toList) :
    pieces ',' (listText first others) = (first :: others).map String.toList := by
  rw [listText, pieces_joined, List.map_cons]
  rw [← List.map_cons]
  exact List.forall_mem_map.mpr plain

theorem isUnbraced_of_plain (plain : front.all isPlain = true) : IsUnbraced front :=
  ⟨absent_of_plain plain (by decide), absent_of_plain plain (by decide)⟩

theorem Part.WellFormed.balanced {part : Part} (formed : part.WellFormed) : part.Balanced := by
  cases part with
  | literal text => exact isUnbraced_of_plain formed
  | group first others =>
      exact fun item member =>
        ⟨isUnbraced_of_plain (formed item member).plain, (formed item member).comma⟩

theorem not_mem_patternText (parts : ∀ part ∈ pattern, part.WellFormed)
    (other : isPlain c = false) (apart : c ∉ [',', '\x7b', '\x7d']) : c ∉ patternText pattern := by
  simp only [List.mem_cons, List.not_mem_nil, or_false, not_or] at apart
  obtain ⟨notComma, notOpening, notClosing⟩ := apart
  simp only [patternText, List.mem_flatMap, not_exists, not_and]
  intro part member
  have formed := parts part member
  cases part with
  | literal text =>
      exact absent_of_plain formed other
  | group first others =>
      simp only [Part.text, List.mem_cons, List.mem_append, List.not_mem_nil, or_false, not_or]
      exact ⟨notOpening,
        not_mem_listText notComma fun item inside => (formed item inside).not_mem other, notClosing⟩

theorem passes_of_not_mem (absent : c ∉ front) : ∀ d ∈ front, (d == c) = false := by
  intro d member
  simpa using ne_of_mem_of_not_mem member absent

theorem segments?_unbraced (unbraced : IsUnbraced front) :
    Braces.segments? front = some [.literal front] := by
  have uncut : cutAt (· == '\x7b') front = none :=
    cutAt_of_none (passes_of_not_mem unbraced.opening)
  rw [Braces.segments?]
  split
  · simp [unbraced.closing]
  · rename_i found
    rw [uncut] at found
    simp at found

theorem segments?_group {inner : List Char} (unbraced : IsUnbraced front)
    (inside : IsUnbraced inner) :
    Braces.segments? (front ++ '\x7b' :: (inner ++ '\x7d' :: rest)) =
      (Braces.segments? rest).map fun more =>
        .literal front :: .group (Braces.alternatives inner) :: more := by
  have opened : cutAt (· == '\x7b') (front ++ '\x7b' :: (inner ++ '\x7d' :: rest)) =
      some (front, inner ++ '\x7d' :: rest) :=
    cutAt_of_stops (passes_of_not_mem unbraced.opening) (by simp)
  have closed : cutAt (· == '\x7d') (inner ++ '\x7d' :: rest) = some (inner, rest) :=
    cutAt_of_stops (passes_of_not_mem inside.closing) (by simp)
  rw [Braces.segments?]
  split
  · rename_i found
    rw [opened] at found
    simp at found
  · rename_i before after found
    rw [opened] at found
    obtain ⟨rfl, rfl⟩ := Prod.mk.inj (Option.some.inj found)
    split
    · rename_i found
      rw [closed] at found
      simp at found
    · rename_i within behind found
      rw [closed] at found
      obtain ⟨rfl, rfl⟩ := Prod.mk.inj (Option.some.inj found)
      simp [unbraced.closing, inside.opening]

def Part.segment : Part → Braces.Segment
  | .literal text => .literal text.toList
  | .group first more => .group ((first :: more).map fun alternative => trim alternative.toList)

theorem segments?_patternText (parts : ∀ part ∈ pattern, part.Balanced) (front : List Char)
    (unbraced : IsUnbraced front) :
    ∃ segments, Braces.segments? (front ++ patternText pattern) = some segments ∧
      Braces.choices segments =
        (Braces.choices (pattern.map Part.segment)).map (front ++ ·) := by
  induction pattern generalizing front with
  | nil =>
      exact ⟨[.literal front], by simpa [patternText] using segments?_unbraced unbraced, by
        simp [Braces.choices]⟩
  | cons part more ih =>
      obtain ⟨own, others⟩ := List.forall_mem_cons.mp parts
      cases part with
      | literal text =>
          have longer : IsUnbraced (front ++ text.toList) :=
            ⟨by simp [unbraced.opening, own.opening], by simp [unbraced.closing, own.closing]⟩
          obtain ⟨segments, read, chosen⟩ := ih others _ longer
          refine ⟨segments, by simpa [patternText, Part.text] using read, ?_⟩
          rw [chosen, List.map_cons, Part.segment, Braces.choices, List.map_map]
          exact List.map_congr_left fun text _ => List.append_assoc _ _ _
      | group first alternatives =>
          obtain ⟨segments, read, chosen⟩ := ih others [] ⟨by simp, by simp⟩
          have whole : front ++ patternText (.group first alternatives :: more) =
              front ++ '\x7b' :: (listText first alternatives ++ '\x7d' :: patternText more) := by
            simp [patternText, Part.text]
          have inside : IsUnbraced (listText first alternatives) :=
            ⟨not_mem_listText (by decide) fun item member => (own item member).1.opening,
              not_mem_listText (by decide) fun item member => (own item member).1.closing⟩
          have items := pieces_listText fun item member => (own item member).2
          rw [List.nil_append] at read
          refine ⟨_, by rw [whole, segments?_group unbraced inside, read]; rfl, ?_⟩
          simp only [Braces.choices, Braces.alternatives, items, chosen, List.nil_append,
            List.map_id', List.map_cons, Part.segment, List.map_map]
          rfl

theorem expand?_patternText (parts : ∀ part ∈ pattern, part.Balanced) :
    Braces.expand? (patternText pattern) =
      some ((Braces.choices (pattern.map Part.segment)).map lower) := by
  obtain ⟨segments, read, chosen⟩ := segments?_patternText parts [] ⟨by simp, by simp⟩
  rw [List.nil_append] at read
  simp only [List.nil_append, List.map_id'] at chosen
  rw [Braces.expand?, read, ← chosen]
  rfl

theorem mem_choices_iff {text : List Char} :
    text ∈ Braces.choices (pattern.map Part.segment) ↔ Chosen pattern text := by
  induction pattern generalizing text with
  | nil =>
      simp only [List.map_nil, Braces.choices, List.mem_singleton]
      constructor
      · rintro rfl
        exact .nil
      · intro chosen
        cases chosen
        rfl
  | cons part more ih =>
      cases part with
      | literal front =>
          simp only [List.map_cons, Part.segment, Braces.choices, List.mem_map, ih]
          constructor
          · rintro ⟨rest, behind, rfl⟩
            exact .literal front behind
          · intro chosen
            cases chosen with
            | literal _ behind => exact ⟨_, behind, rfl⟩
      | group first others =>
          rw [List.map_cons, Part.segment, Braces.choices, List.mem_flatMap]
          simp only [List.mem_map, ih]
          constructor
          · rintro ⟨_, ⟨alternative, member, rfl⟩, rest, behind, rfl⟩
            exact .group member behind
          · intro chosen
            cases chosen with
            | group member behind => exact ⟨_, ⟨_, member, rfl⟩, _, behind, rfl⟩

theorem lower_name (item : IsItem name) : lower name.toList = name.toList.map Char.toLower := by
  refine lower_ascii fun c member => ?_
  have plain := List.all_eq_true.mp item.plain c member
  rw [isPlain, Bool.and_eq_true] at plain
  exact of_decide_eq_true plain.1

theorem IsName.lower_ne_star (named : IsName name) : String.ofList (lower name.toList) ≠ "*" := by
  intro same
  have letters : name.toList.map Char.toLower = ['*'] := by
    rw [← lower_name named.toIsItem]
    simpa using congrArg String.toList same
  obtain ⟨c, single, lowered⟩ := List.map_eq_singleton_iff.mp letters
  obtain rfl := (toLower_eq_iff_of_not_isAlpha (by decide)).mp lowered
  exact named.star (String.toList_inj.mp single)

theorem parse_star : ProcessFilter.parse ['*'] = .all := by decide +kernel

theorem parse_listText (names : ∀ name ∈ first :: others, IsName name) :
    ProcessFilter.parse (listText first others) = (Filter.named first others).read := by
  have kept : (((first :: others).map String.toList).map trim).filter (!·.isEmpty) =
      (first :: others).map String.toList := by
    rw [List.map_map]
    have trimmed : (first :: others).map (trim ∘ String.toList) = (first :: others).map String.toList :=
      List.map_congr_left fun name member => trim_of_isTrimmed (names name member).trimmed
    rw [trimmed, List.filter_eq_self]
    exact List.forall_mem_map.mpr fun name member => by simpa using (names name member).filled
  have noStar : ((first :: others).map fun name => String.ofList (lower name.toList)).contains "*" =
      false := by
    rw [List.contains_eq_mem, decide_eq_false_iff_not, List.mem_map]
    rintro ⟨name, member, same⟩
    exact (names name member).lower_ne_star same
  have lowered : ((first :: others).map String.toList).map (fun name => String.ofList (lower name)) =
      (first :: others).map fun name => String.ofList (lower name.toList) := List.map_map
  have parts := pieces_listText fun name member => (names name member).comma
  simp only [ProcessFilter.parse, parts, kept, lowered, noStar]
  rfl

theorem splitFilter?_filtered (opening : '<' ∉ front) (inner : List Char) :
    RangeTerm.splitFilter? (front ++ '<' :: (inner ++ ['>'])) =
      some (front, ProcessFilter.parse inner) := by
  have cut : cutAt (· == '<') (front ++ '<' :: (inner ++ ['>'])) = some (front, inner ++ ['>']) :=
    cutAt_of_stops (passes_of_not_mem opening) (by simp)
  have solid : trimEnd (inner ++ ['>']) = inner ++ ['>'] :=
    trimEnd_of_last (by simp; decide)
  simp [RangeTerm.splitFilter?, cut, solid]

theorem splitFilter?_bare (opening : '<' ∉ front) (closing : '>' ∉ front) :
    RangeTerm.splitFilter? front = some (front, .all) := by
  have uncut : cutAt (· == '<') front = none := cutAt_of_none (passes_of_not_mem opening)
  simp [RangeTerm.splitFilter?, uncut, closing]

theorem splitFilter?_text (opening : '<' ∉ front) (closing : '>' ∉ front)
    (names : ∀ name ∈ filter.names, IsName name) :
    RangeTerm.splitFilter? (front ++ filter.text) = some (front, filter.read) := by
  cases filter with
  | absent =>
      rw [Filter.text, List.append_nil]
      exact splitFilter?_bare opening closing
  | star =>
      have read := splitFilter?_filtered opening ['*']
      rwa [parse_star] at read
  | named first others =>
      have read := splitFilter?_filtered opening (listText first others)
      rwa [parse_listText names] at read

theorem Filter.last_text (filled : filter.text ≠ []) : filter.text.getLast? = some '>' := by
  cases filter with
  | absent => exact absurd rfl filled
  | star => rfl
  | named first others =>
      rw [Filter.text, ← List.cons_append, List.getLast?_concat]

theorem Filter.head_text (filter : Filter) : filter.text.head? ≠ some ':' := by
  cases filter <;> simp [Filter.text]

theorem Filter.not_mem_text (names : ∀ name ∈ filter.names, IsName name) : ';' ∉ filter.text := by
  cases filter with
  | absent => exact List.not_mem_nil
  | star => decide
  | named first others =>
      have inList := not_mem_listText (c := ';') (by decide) fun name member =>
        (names name member).not_mem (by decide)
      simpa [Filter.text] using inList

theorem split_of_unmarked {text : List Char} (unmarked : startsAsRole text = false) :
    RoleFilter.split text = (.any, text) := by
  unfold RoleFilter.split
  split
  · simp only [startsAsRole, Bool.or_eq_false_iff, beq_eq_false_iff_ne] at unmarked
    rw [if_neg unmarked.1, if_neg unmarked.2]
  · rfl

theorem startsAsRole_append {back : List Char} (filled : front ≠ []) (apart : back.head? ≠ some ':') :
    startsAsRole (front ++ back) = startsAsRole front := by
  match front with
  | [] => exact absurd rfl filled
  | [letter] =>
      cases back with
      | nil => rfl
      | cons mark more =>
          have other : mark ≠ ':' := by simpa using apart
          simp [startsAsRole, other]
  | letter :: mark :: more =>
      by_cases same : mark = ':'
      · subst same
        rfl
      · simp [startsAsRole, same]

theorem roleText_cases (role : RoleFilter) :
    roleText role = [] ∨ ∃ c, isBlank c = false ∧ roleText role = [c, ':'] := by
  cases role with
  | any => exact .inl rfl
  | source => exact .inr ⟨'s', by decide, rfl⟩
  | destination => exact .inr ⟨'d', by decide, rfl⟩

namespace Term

theorem Writable.isTrimmed_text (writable : term.Writable) : IsTrimmed term.text := by
  have behind : IsTrimmed (patternText term.pattern ++ term.filter.text) := by
    by_cases bare : term.filter.text = []
    · rw [bare, List.append_nil]
      exact writable.trimmed
    · refine isTrimmed_append writable.filled bare writable.trimmed.first fun c last => ?_
      rw [Filter.last_text bare] at last
      obtain rfl := Option.some.inj last
      decide
  rcases roleText_cases term.role with none | ⟨letter, solid, some⟩
  · rw [Term.text, none]
    exact behind
  · rw [Term.text, some]
    refine isTrimmed_append (by simp) (by simp [writable.filled]) ?_ behind.last
    intro c head
    obtain rfl : letter = c := by simpa using head
    exact solid

theorem Writable.text_ne_nil (writable : term.Writable) : term.text ≠ [] := by
  simp [Term.text, writable.filled]

theorem Writable.not_mem_text (writable : term.Writable) : ';' ∉ term.text := by
  have inPattern : ';' ∉ patternText term.pattern :=
    not_mem_patternText writable.parts (by decide) (by decide)
  have inFilter := Filter.not_mem_text writable.names
  have inRole : ';' ∉ roleText term.role := by cases term.role <;> decide
  simp [Term.text, inRole, inPattern, inFilter]

theorem WellFormed.split_text (formed : term.WellFormed) :
    RoleFilter.split term.text = (term.role, patternText term.pattern ++ term.filter.text) := by
  have unmarked := formed.unmarked
  revert unmarked
  rw [Term.text]
  cases term.role with
  | source => exact fun _ => rfl
  | destination => exact fun _ => rfl
  | any =>
      intro unmarked
      refine split_of_unmarked ?_
      rw [roleText, List.nil_append, startsAsRole_append formed.filled (Filter.head_text _)]
      exact unmarked rfl

theorem WellFormed.parse_text (formed : term.WellFormed) :
    ∃ read, RangeTerm.parse term.text = .ok read ∧ term.ReadAs read := by
  have expanded := expand?_patternText fun part member => (formed.parts part member).balanced
  have opening := not_mem_patternText (c := '<') formed.parts (by decide) (by decide)
  have closing := not_mem_patternText (c := '>') formed.parts (by decide) (by decide)
  have filtered := splitFilter?_text opening closing formed.names
  have named : (patternText term.pattern).isEmpty = false := by simpa using formed.filled
  refine ⟨⟨term.role, (Braces.choices (term.pattern.map Part.segment)).map lower,
    term.filter.read⟩, ?_, rfl, fun pattern => ?_, rfl⟩
  · simp only [RangeTerm.parse, trim_of_isTrimmed formed.isTrimmed_text, formed.split_text, filtered,
      trim_of_isTrimmed formed.trimmed, named, expanded, Bool.false_eq_true, if_false]
  · simp only [List.mem_map, mem_choices_iff]

end Term

theorem isTrimmed_joined (separator : Char) {first : List Char} {more : List (List Char)}
    (each : ∀ piece ∈ first :: more, IsTrimmed piece ∧ piece ≠ []) :
    IsTrimmed (joined separator first more) ∧ joined separator first more ≠ [] := by
  induction more generalizing first with
  | nil => simpa using each
  | cons next others ih =>
      obtain ⟨⟨trimmed, filled⟩, behind⟩ := List.forall_mem_cons.mp each
      obtain ⟨inner, rest⟩ := ih behind
      rw [joined_cons]
      refine ⟨isTrimmed_append filled (by simp) trimmed.first fun c last => ?_, by simp⟩
      rw [List.getLast?_cons_of_ne_nil rest] at last
      exact inner.last c last

/-- What is read from a range: of each term what the term is read as, and nothing else. -/
structure Range.ReadAs (range : Range) (read : TaskRange) : Prop where
  each : ∀ term ∈ range.terms, ∃ part ∈ read.terms, term.ReadAs part
  only : ∀ part ∈ read.terms, ∃ term ∈ range.terms, term.ReadAs part

theorem Range.WellFormed.parse_text (formed : range.WellFormed) :
    ∃ read, TaskRange.parse range.text = .ok read ∧ range.ReadAs read := by
  have texts {property : List Char → Prop} (each : ∀ term ∈ range.terms, property term.text) :
      ∀ text ∈ range.first.text :: range.more.map Term.text, property text := by
    rw [← List.map_cons]
    exact List.forall_mem_map.mpr each
  have pieces_text : pieces ';' (joined ';' range.first.text (range.more.map Term.text)) =
      range.terms.map Term.text :=
    pieces_joined (texts fun term member => (formed term member).not_mem_text)
  obtain ⟨trimmed, filled⟩ := isTrimmed_joined ';' (texts fun term member =>
    ⟨(formed term member).isTrimmed_text, (formed term member).text_ne_nil⟩)
  rcases mapM_cases RangeTerm.parse (range.terms.map Term.text) with
    ⟨-, results, done, among⟩ | ⟨text, inside, error, failed, -⟩
  · refine ⟨⟨range.text, results⟩, ?_, ?_⟩
    · rw [TaskRange.parse, Range.text, String.toList_ofList, trim_of_isTrimmed trimmed]
      rw [if_neg (by simpa using filled), pieces_text, done]
      rfl
    · constructor
      · intro term member
        obtain ⟨part, read, same⟩ := (formed term member).parse_text
        exact ⟨part, (among part).mpr ⟨_, List.mem_map_of_mem member, read⟩, same⟩
      · intro part member
        obtain ⟨text, inside, read⟩ := (among part).mp member
        obtain ⟨term, own, rfl⟩ := List.mem_map.mp inside
        obtain ⟨other, also, same⟩ := (formed term own).parse_text
        obtain rfl := Except.ok.inj (read.symm.trans also)
        exact ⟨term, own, same⟩
  · obtain ⟨term, own, rfl⟩ := List.mem_map.mp inside
    obtain ⟨part, read, -⟩ := (formed term own).parse_text
    rw [failed] at read
    simp at read

end PathDirectives.Grammar
