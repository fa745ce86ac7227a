import Mathlib.Data.List.DropRight
import PathDirectives.Text.Pieces

/-!
Texts put together with separators between them, and cut at them again.
-/

namespace PathDirectives.Text

variable {separator : Char} {text front back first : List Char} {more : List (List Char)}
  {test : Char → Bool}

/-- Texts in a row, with a separator in front of each but the first. -/
def joined (separator : Char) (first : List Char) (more : List (List Char)) : List Char :=
  first ++ more.flatMap (separator :: ·)

@[simp] theorem joined_nil (separator : Char) (first : List Char) :
    joined separator first [] = first := by
  simp [joined]

theorem joined_cons (separator : Char) (first next : List Char) (more : List (List Char)) :
    joined separator first (next :: more) = first ++ separator :: joined separator next more := by
  simp [joined]

theorem joined_append (separator : Char) (first next : List Char) (before behind : List (List Char)) :
    joined separator first (before ++ next :: behind) =
      joined separator first before ++ separator :: joined separator next behind := by
  simp [joined]

theorem pieces_joined (plain : ∀ piece ∈ first :: more, separator ∉ piece) :
    pieces separator (joined separator first more) = first :: more := by
  have behind (text : List Char) (own : separator ∉ text) (rest : List Char) :
      pieces separator (text ++ separator :: rest) = text :: pieces separator rest := by
    induction text with
    | nil => simp [pieces]
    | cons c tail ih =>
        rw [List.mem_cons, not_or] at own
        rw [List.cons_append, pieces, if_neg (Ne.symm own.1), ih own.2]
  have alone (text : List Char) (own : separator ∉ text) : pieces separator text = [text] := by
    induction text with
    | nil => rfl
    | cons c tail ih =>
        rw [List.mem_cons, not_or] at own
        rw [pieces, if_neg (Ne.symm own.1), ih own.2]
  induction more generalizing first with
  | nil => rw [joined_nil, alone first (plain first List.mem_cons_self)]
  | cons next others ih =>
      rw [joined_cons, behind first (plain first List.mem_cons_self),
        ih fun piece member => plain piece (List.mem_cons_of_mem _ member)]

theorem exists_joined (separator : Char) (text : List Char) :
    ∃ first more, text = joined separator first more ∧ ∀ piece ∈ first :: more, separator ∉ piece := by
  induction text with
  | nil => exact ⟨[], [], rfl, by simp⟩
  | cons c rest ih =>
      obtain ⟨first, more, rfl, plain⟩ := ih
      by_cases same : c = separator
      · subst same
        exact ⟨[], first :: more, by rw [joined_cons]; rfl, by simpa using plain⟩
      · obtain ⟨own, others⟩ := List.forall_mem_cons.mp plain
        refine ⟨c :: first, more, rfl, List.forall_mem_cons.mpr ⟨?_, others⟩⟩
        simpa [own] using Ne.symm same

theorem not_mem_joined {c : Char} (other : c ≠ separator) (plain : ∀ piece ∈ first :: more, c ∉ piece) :
    c ∉ joined separator first more := by
  obtain ⟨own, others⟩ := List.forall_mem_cons.mp plain
  simp only [joined, List.mem_append, List.mem_flatMap, List.mem_cons, not_or, not_exists, not_and]
  exact ⟨own, fun piece member => ⟨other, others piece member⟩⟩

theorem subset_joined {piece : List Char} (member : piece ∈ first :: more) :
    piece ⊆ joined separator first more := by
  intro c inside
  rcases List.mem_cons.mp member with rfl | later
  · exact List.mem_append_left _ inside
  · refine List.mem_append_right _ (List.mem_flatMap.mpr ⟨piece, later, ?_⟩)
    exact List.mem_cons_of_mem separator inside

theorem cutAt_of_stops (passes : ∀ c ∈ front, test c = false) {c : Char} (stops : test c = true) :
    cutAt test (front ++ c :: back) = some (front, back) := by
  induction front with
  | nil => simp [cutAt, stops]
  | cons d rest ih =>
      obtain ⟨own, others⟩ := List.forall_mem_cons.mp passes
      rw [List.cons_append, cutAt, own, ih others]
      rfl

theorem cutAt_of_none (passes : ∀ c ∈ text, test c = false) : cutAt test text = none := by
  induction text with
  | nil => rfl
  | cons c rest ih =>
      obtain ⟨own, others⟩ := List.forall_mem_cons.mp passes
      rw [cutAt, own, ih others]
      rfl

theorem passes_of_cutAt (cut : cutAt test text = some (front, back)) :
    ∀ c ∈ front, test c = false := by
  induction text generalizing front with
  | nil => simp [cutAt] at cut
  | cons d rest ih =>
      rw [cutAt] at cut
      split at cut
      · obtain ⟨rfl, -⟩ := Prod.mk.inj (Option.some.inj cut)
        simp
      · rename_i goes_on
        obtain ⟨⟨before, behind⟩, found, same⟩ := Option.map_eq_some_iff.mp cut
        obtain ⟨rfl, rfl⟩ := Prod.mk.inj same
        exact List.forall_mem_cons.mpr ⟨Bool.eq_false_iff.mpr goes_on, ih found⟩

theorem eq_append_of_cutAt {c : Char} (cut : cutAt (· == c) text = some (front, back)) :
    text = front ++ c :: back ∧ c ∉ front := by
  obtain ⟨d, same, whole⟩ := cutAt_append cut
  obtain rfl : d = c := eq_of_beq same
  refine ⟨whole, fun member => ?_⟩
  simpa using passes_of_cutAt cut d member

theorem not_mem_of_cutAt_none {c : Char} (uncut : cutAt (· == c) text = none) : c ∉ text := by
  intro member
  obtain ⟨front, back, rfl, fresh⟩ := List.eq_append_cons_of_mem member
  have passes : ∀ d ∈ front, (d == c) = false := by
    intro d inside
    simpa using ne_of_mem_of_not_mem inside fresh
  have stops : cutAt (· == c) (front ++ c :: back) = some (front, back) :=
    cutAt_of_stops passes (by simp)
  rw [stops] at uncut
  simp at uncut

theorem afterFirst?_of_append (front piece rest : List Char) :
    ∃ later, afterFirst? piece (front ++ (piece ++ rest)) = some later ∧ rest <:+ later := by
  induction front with
  | nil =>
      refine ⟨rest, ?_, List.suffix_refl rest⟩
      have here : piece.isPrefixOf? (piece ++ rest) = some rest :=
        List.isPrefixOf?_eq_some_iff_append_eq.mpr rfl
      rw [List.nil_append]
      cases whole : piece ++ rest with
      | nil => rw [afterFirst?, ← whole, here]
      | cons c tail => rw [afterFirst?, ← whole, here]
  | cons c tail ih =>
      rw [List.cons_append, afterFirst?]
      split
      · rename_i later found
        refine ⟨later, rfl, ?_⟩
        have whole := List.isPrefixOf?_eq_some_iff_append_eq.mp found
        have inside : rest <:+ c :: (tail ++ (piece ++ rest)) := ⟨c :: (tail ++ piece), by simp⟩
        have behind : later <:+ c :: (tail ++ (piece ++ rest)) := ⟨piece, whole⟩
        refine List.suffix_of_suffix_length_le inside behind ?_
        have lengths := congrArg List.length whole
        simp only [List.length_append, List.length_cons] at lengths
        omega
      · exact ih

theorem append_of_afterFirst? {piece later : List Char} (found : afterFirst? piece text = some later) :
    ∃ front, text = front ++ (piece ++ later) := by
  induction text with
  | nil =>
      rw [afterFirst?, List.isPrefixOf?_eq_some_iff_append_eq] at found
      exact ⟨[], found.symm⟩
  | cons c rest ih =>
      rw [afterFirst?] at found
      split at found
      · rename_i after here
        obtain rfl := Option.some.inj found
        exact ⟨[], (List.isPrefixOf?_eq_some_iff_append_eq.mp here).symm⟩
      · obtain ⟨front, rfl⟩ := ih found
        exact ⟨c :: front, rfl⟩

end PathDirectives.Text
