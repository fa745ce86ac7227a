import Mathlib
import PathDirectives.Proofs.Keys

/-!
Letters in lower case. A key in lower case is a key still, and lower case changes nothing more in it.
-/

namespace PathDirectives

variable {c : Char} {word : List Char}

theorem not_isUpper_of_not_isAlpha (other : c.isAlpha = false) : ¬ c.isUpper = true := by
  simp only [Char.isAlpha, Bool.or_eq_false_iff] at other
  simp [other.1]

theorem isKeyStart_toLower (c : Char) : isKeyStart c.toLower = isKeyStart c := by
  cases letter : c.isAlpha with
  | true => simp [isKeyStart, letter]
  | false => rw [Char.toLower_eq_of_not_isUpper (not_isUpper_of_not_isAlpha letter)]

theorem isWordChar_toLower (c : Char) : isWordChar c.toLower = isWordChar c := by
  cases letter : c.isAlpha with
  | true => simp [isWordChar, Char.isAlphanum, letter]
  | false => rw [Char.toLower_eq_of_not_isUpper (not_isUpper_of_not_isAlpha letter)]

theorem isBlank_toLower (c : Char) : Text.isBlank c.toLower = Text.isBlank c := by
  have solid {letter : Char} (alpha : letter.isAlpha = true) : Text.isBlank letter = false := by
    cases blank : Text.isBlank letter with
    | false => rfl
    | true =>
        have notWord := isWordChar_of_isBlank blank
        simp [isWordChar, Char.isAlphanum, alpha] at notWord
  cases letter : c.isAlpha with
  | true => rw [solid letter, solid (by rw [Char.isAlpha_toLower_eq_isAlpha, letter])]
  | false => rw [Char.toLower_eq_of_not_isUpper (not_isUpper_of_not_isAlpha letter)]

theorem toLower_eq_iff_of_not_isAlpha {mark : Char} (other : mark.isAlpha = false) :
    c.toLower = mark ↔ c = mark := by
  cases letter : c.isAlpha with
  | false => rw [Char.toLower_eq_of_not_isUpper (not_isUpper_of_not_isAlpha letter)]
  | true =>
      constructor
      · rintro rfl
        rw [Char.isAlpha_toLower_eq_isAlpha, letter] at other
        simp at other
      · rintro rfl
        rw [letter] at other
        simp at other

theorem IsIdentifier.map_toLower (identifier : IsIdentifier word) :
    IsIdentifier (word.map Char.toLower) := by
  obtain ⟨c, rest, rfl, starts, follows⟩ := identifier
  refine ⟨c.toLower, rest.map Char.toLower, rfl, by rw [isKeyStart_toLower, starts], ?_⟩
  intro d member
  obtain ⟨e, inside, rfl⟩ := List.mem_map.mp member
  rw [isWordChar_toLower, follows e inside]

theorem map_toLower_of_lower (lower : ∀ c ∈ word, c.isUpper = false) :
    word.map Char.toLower = word := by
  conv_rhs => rw [← List.map_id word]
  refine List.map_congr_left fun c member => ?_
  simpa using Char.toLower_eq_of_not_isUpper (by simp [lower c member])

end PathDirectives
