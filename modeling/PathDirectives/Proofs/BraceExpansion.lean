import PathDirectives.Proofs.RangeGrammar

/-!
What a pattern with groups of alternatives is expanded to: one text for every way to choose from
each group, in the order of these choices, the first group's choice changing last. A text has such a
meaning just if its braces neither nest nor stand alone, and of a term no other fault than this one
is reported as one of braces.
-/

namespace PathDirectives.Grammar

open Text

variable {pattern : List Part} {text term mark name filter front : List Char} {pick : List Nat}

def groupSizes : List Part → List Nat
  | [] => []
  | .literal _ :: more => groupSizes more
  | .group _ others :: more => (others.length + 1) :: groupSizes more

/-- A pattern with one alternative in place of each group, which is chosen by its place in the group
and loses the white space around it. -/
def filled : List Part → List Nat → List Char
  | .literal text :: more, pick => text.toList ++ filled more pick
  | .group first others :: more, place :: pick =>
      trim ((first :: others).getD place "").toList ++ filled more pick
  | _, _ => []

/-- Every choice of one place in each of several groups, given by their sizes. -/
def picks : List Nat → List (List Nat)
  | [] => [[]]
  | size :: more => (List.range size).flatMap fun place => (picks more).map (place :: ·)

theorem mem_picks {sizes : List Nat} : pick ∈ picks sizes ↔ List.Forall₂ (· < ·) pick sizes := by
  induction sizes generalizing pick with
  | nil => simp [picks]
  | cons size more ih =>
      simp only [picks, List.mem_flatMap, List.mem_range, List.mem_map, ih]
      constructor
      · rintro ⟨place, inside, rest, behind, rfl⟩
        exact .cons inside behind
      · intro each
        cases each with
        | cons inside behind => exact ⟨_, inside, _, behind, rfl⟩

theorem picks_ordered (sizes : List Nat) : (picks sizes).Pairwise (· < ·) := by
  induction sizes with
  | nil => simp [picks]
  | cons size more ih =>
      rw [picks, List.pairwise_flatMap]
      constructor
      · intro place _
        exact List.pairwise_map.mpr
          (ih.imp fun below => List.cons_lt_cons_iff.mpr (.inr ⟨rfl, below⟩))
      · refine List.pairwise_lt_range.imp fun below first inFirst second inSecond => ?_
        obtain ⟨_, -, rfl⟩ := List.mem_map.mp inFirst
        obtain ⟨_, -, rfl⟩ := List.mem_map.mp inSecond
        exact List.cons_lt_cons_iff.mpr (.inl below)

theorem length_picks (sizes : List Nat) : (picks sizes).length = sizes.prod := by
  induction sizes with
  | nil => rfl
  | cons size more ih => simp [picks, List.length_flatMap, ih]

theorem choices_eq_picks (pattern : List Part) :
    Braces.choices (pattern.map Part.segment) =
      (picks (groupSizes pattern)).map (filled pattern) := by
  induction pattern with
  | nil => rfl
  | cons part more ih =>
      cases part with
      | literal text =>
          rw [List.map_cons, Part.segment, Braces.choices, ih, List.map_map]
          rfl
      | group first others =>
          have places : (List.range (others.length + 1)).map ((first :: others).getD · "") =
              first :: others :=
            List.ext_getElem (by simp) fun index _ inside => by
              simp [List.getElem?_eq_getElem inside]
          rw [List.map_cons, Part.segment, Braces.choices, ih, groupSizes, picks, List.map_flatMap,
            ← places, List.map_map, List.flatMap_map]
          simp only [List.map_map]
          rfl

structure Expansion (pattern : List Part) (texts : List (List Char)) : Prop where
  inOrder : ∃ picks : List (List Nat), picks.Pairwise (· < ·) ∧
    (∀ pick, pick ∈ picks ↔ List.Forall₂ (· < ·) pick (groupSizes pattern)) ∧
      texts = picks.map fun pick => lower (filled pattern pick)
  count : texts.length = (groupSizes pattern).prod

theorem expansion_of_balanced (balanced : ∀ part ∈ pattern, part.Balanced) :
    ∃ texts, Braces.expand? (patternText pattern) = some texts ∧ Expansion pattern texts := by
  refine ⟨_, expand?_patternText balanced,
    ⟨picks (groupSizes pattern), picks_ordered _, fun _ => mem_picks, ?_⟩, ?_⟩
  · rw [choices_eq_picks, List.map_map]
    rfl
  · rw [choices_eq_picks, List.length_map, List.length_map, length_picks]

theorem exists_pattern {segments : List Braces.Segment}
    (read : Braces.segments? text = some segments) :
    ∃ pattern : List Part, (∀ part ∈ pattern, part.Balanced) ∧ patternText pattern = text := by
  fun_induction Braces.segments? text generalizing segments with
  | case1 | case3 | case4 => simp at read
  | case2 whole uncut noClosing =>
      have plain : IsUnbraced whole := ⟨not_mem_of_cutAt_none uncut, by simpa using noClosing⟩
      refine ⟨[.literal (String.ofList whole)], ?_, by simp [patternText, Part.text]⟩
      simpa [Part.Balanced] using plain
  | case5 whole front behind opened inner rest closed clean ih =>
      obtain ⟨more, others, -⟩ := Option.map_eq_some_iff.mp read
      obtain ⟨pattern, balanced, rfl⟩ := ih others
      obtain ⟨rfl, noOpening⟩ := eq_append_of_cutAt opened
      obtain ⟨rfl, noClosing⟩ := eq_append_of_cutAt closed
      simp only [Bool.or_eq_true, List.contains_iff_mem, not_or] at clean
      obtain ⟨first, alternatives, rfl, single⟩ := exists_joined ',' inner
      refine ⟨.literal (String.ofList front) ::
        .group (String.ofList first) (alternatives.map String.ofList) :: pattern, ?_, ?_⟩
      · refine List.forall_mem_cons.mpr ⟨?_, List.forall_mem_cons.mpr ⟨?_, balanced⟩⟩
        · simpa [Part.Balanced] using IsUnbraced.mk noOpening clean.1
        · rw [Part.Balanced, ← List.map_cons]
          refine List.forall_mem_map.mpr fun alternative member => ?_
          rw [String.toList_ofList]
          have inside : alternative ⊆ joined ',' first alternatives := subset_joined member
          exact ⟨⟨fun among => clean.2 (inside among), fun among => noClosing (inside among)⟩,
            single alternative member⟩
      · simp [patternText, Part.text, listText, Function.comp_def]

/-- A term as the mark of its role, its name and its filter, any of which may be empty. A filter
begins at the first opening bracket, and its closing bracket is the last character. -/
structure Sections (term mark name filter : List Char) : Prop where
  whole : term = mark ++ (name ++ filter)
  mark : mark = [] ∧ startsAsRole term = false ∨
    ∃ letter, (letter.toLower = 's' ∨ letter.toLower = 'd') ∧ mark = [letter, ':']
  opening : '<' ∉ name
  filter : filter = [] ∧ '>' ∉ name ∨ ∃ inner, filter = '<' :: (inner ++ ['>'])

theorem startsAsRole_of_bare {term : List Char}
    (bare : ∀ letter rest, term ≠ letter :: ':' :: rest) : startsAsRole term = false := by
  unfold startsAsRole
  split
  · rename_i letter rest
    exact absurd rfl (bare letter rest)
  · rfl

theorem exists_mark (term : List Char) : ∃ mark, term = mark ++ (RoleFilter.split term).2 ∧
    (mark = [] ∧ startsAsRole term = false ∨
      ∃ letter, (letter.toLower = 's' ∨ letter.toLower = 'd') ∧ mark = [letter, ':']) := by
  unfold RoleFilter.split
  split
  · rename_i letter rest
    split
    · rename_i source
      exact ⟨[letter, ':'], rfl, .inr ⟨letter, .inl source, rfl⟩⟩
    · split
      · rename_i destination
        exact ⟨[letter, ':'], rfl, .inr ⟨letter, .inr destination, rfl⟩⟩
      · rename_i notSource notDestination
        exact ⟨[], rfl, .inl ⟨rfl, by simp [startsAsRole, notSource, notDestination]⟩⟩
  · rename_i bare
    exact ⟨[], rfl, .inl ⟨rfl, startsAsRole_of_bare bare⟩⟩

theorem Sections.split (sections : Sections term mark name filter) :
    (RoleFilter.split term).2 = name ++ filter := by
  obtain ⟨rfl, marked, -, -⟩ := sections
  rcases marked with ⟨rfl, unmarked⟩ | ⟨letter, source | destination, rfl⟩
  · rw [split_of_unmarked unmarked]
    rfl
  · simp [RoleFilter.split, source]
  · simp [RoleFilter.split, destination]

theorem Sections.splitFilter? (sections : Sections term mark name filter) :
    ∃ processes, RangeTerm.splitFilter? (name ++ filter) = some (name, processes) := by
  rcases sections.filter with ⟨rfl, closing⟩ | ⟨inner, rfl⟩
  · rw [List.append_nil]
    exact ⟨.all, splitFilter?_bare sections.opening closing⟩
  · exact ⟨_, splitFilter?_filtered sections.opening inner⟩

theorem exists_sections (trimmed : IsTrimmed term) {processes : ProcessFilter}
    (read : RangeTerm.splitFilter? (RoleFilter.split term).2 = some (name, processes)) :
    ∃ mark filter, Sections term mark name filter := by
  obtain ⟨mark, whole, marked⟩ := exists_mark term
  revert whole read
  generalize (RoleFilter.split term).2 = rest
  intro read whole
  unfold RangeTerm.splitFilter? at read
  split at read
  · rename_i front tail cut
    obtain ⟨rfl, fresh⟩ := eq_append_of_cutAt cut
    have solid : trimEnd tail = tail := by
      refine trimEnd_of_last fun c last => trimmed.last c ?_
      rw [whole]
      simp [List.getLast?_append, List.getLast?_cons, last]
    simp only [solid] at read
    split at read
    · rename_i closes
      obtain ⟨rfl, -⟩ := Prod.mk.inj (Option.some.inj read)
      obtain ⟨inner, rfl⟩ := List.getLast?_eq_some_iff.mp closes
      exact ⟨mark, _, whole, marked, fresh, .inr ⟨inner, rfl⟩⟩
    · simp at read
  · rename_i uncut
    split at read
    · simp at read
    · rename_i noClosing
      obtain ⟨rfl, -⟩ := Prod.mk.inj (Option.some.inj read)
      exact ⟨mark, [], by simpa using whole, marked, not_mem_of_cutAt_none uncut,
        .inl ⟨rfl, by simpa using noClosing⟩⟩

theorem parse_eq_unbalanced_iff {raw : List Char} {fault : String} :
    RangeTerm.parse raw = .error (.unbalancedBrace fault) ↔
      fault = String.ofList (trim raw) ∧ ∃ mark name filter, Sections (trim raw) mark name filter ∧
        trim name ≠ [] ∧ Braces.expand? (trim name) = none := by
  constructor
  · intro parsed
    unfold RangeTerm.parse at parsed
    dsimp only at parsed
    split at parsed
    · simp at parsed
    · rename_i name processes read
      split at parsed
      · simp at parsed
      · rename_i filled
        split at parsed
        · rename_i unread
          obtain ⟨mark, filter, sections⟩ := exists_sections (isTrimmed_trim raw) read
          refine ⟨by simpa using parsed.symm, mark, name, filter, sections, ?_, unread⟩
          simpa using filled
        · simp at parsed
  · rintro ⟨rfl, mark, name, filter, sections, filled, unread⟩
    obtain ⟨processes, read⟩ := sections.splitFilter?
    have named : (trim name).isEmpty = false := by simpa using filled
    simp only [RangeTerm.parse, sections.split, read, named, unread, Bool.false_eq_true, if_false]

def IsBalanced (text : List Char) : Prop :=
  ∃ pattern : List Part, (∀ part ∈ pattern, part.Balanced) ∧ patternText pattern = text

theorem expand?_eq_none_iff : Braces.expand? text = none ↔ ¬ IsBalanced text := by
  constructor
  · rintro unread ⟨pattern, balanced, rfl⟩
    rw [expand?_patternText balanced] at unread
    simp at unread
  · intro unbalanced
    rw [Braces.expand?, Option.map_eq_none_iff]
    cases read : Braces.segments? text with
    | none => rfl
    | some segments => exact absurd (exists_pattern read) unbalanced

/-- A text is expanded just if its braces are in order, and then to the texts that its groups stand
for; a term with a name and a filter in order is reported for its braces just if its name is not. -/
theorem braces_expand :
    (∀ text, (∃ texts, Braces.expand? text = some texts) ↔ IsBalanced text) ∧
      (∀ pattern : List Part, (∀ part ∈ pattern, part.Balanced) →
        ∃ texts, Braces.expand? (patternText pattern) = some texts ∧ Expansion pattern texts) ∧
        ∀ raw fault, RangeTerm.parse raw = .error (.unbalancedBrace fault) ↔
          fault = String.ofList (trim raw) ∧ ∃ mark name filter,
            Sections (trim raw) mark name filter ∧ trim name ≠ [] ∧ ¬ IsBalanced (trim name) := by
  refine ⟨fun text => ?_, fun pattern balanced => expansion_of_balanced balanced,
    fun raw fault => ?_⟩
  · rw [← not_iff_not, ← expand?_eq_none_iff, ← Option.isSome_iff_exists,
      Option.not_isSome_iff_eq_none]
  · rw [parse_eq_unbalanced_iff]
    simp only [expand?_eq_none_iff]

def shelves : List Part := [.literal "A/", .group "1" [" 2 "], .literal "/", .group "X" ["Y", "Z"]]

def nested : List Char := "s: A/\x7b1,\x7b2\x7d\x7d <Dig> ".toList

theorem shelves_expand :
    ((∀ part ∈ shelves, part.Balanced) ∧
        ∃ texts, Braces.expand? (patternText shelves) = some texts ∧ Expansion shelves texts ∧
          texts.map String.ofList = ["a/1/x", "a/1/y", "a/1/z", "a/2/x", "a/2/y", "a/2/z"]) ∧
      RangeTerm.parse nested =
        .error (.unbalancedBrace "s: A/\x7b1,\x7b2\x7d\x7d <Dig>") := by
  obtain ⟨-, expands, reported⟩ := braces_expand
  constructor
  · have balanced : ∀ part ∈ shelves, part.Balanced := by decide
    obtain ⟨texts, read, expansion⟩ := expands shelves balanced
    refine ⟨balanced, texts, read, expansion, ?_⟩
    obtain rfl := Option.some.inj (read.symm.trans (expand?_patternText balanced))
    decide +kernel
  · have sections :
        Sections (trim nested) ['s', ':'] " A/\x7b1,\x7b2\x7d\x7d ".toList "<Dig>".toList :=
      ⟨by decide +kernel, .inr ⟨'s', .inl (by decide), rfl⟩, by decide +kernel,
        .inr ⟨"Dig".toList, by decide +kernel⟩⟩
    have unread : Braces.expand? (trim " A/\x7b1,\x7b2\x7d\x7d ".toList) = none := by decide +kernel
    exact (reported nested _).mpr
      ⟨by decide +kernel, _, _, _, sections, by decide +kernel, expand?_eq_none_iff.mp unread⟩

end PathDirectives.Grammar
