import PathDirectives.Proofs.Cutting
import PathDirectives.TaskRange.Glob

/-!
What it is to fit a pattern with stars. The matcher takes each piece between two stars at the first
place where it stands; that loses nothing, since what comes before is for the star in front of it.
-/

namespace PathDirectives.Glob

open Text

/-- A text fits a pattern if a star stands for any run of characters and all else for itself. -/
inductive Matches : List Char → List Char → Prop where
  | nil : Matches [] []
  | char {c : Char} {pattern text : List Char} (solid : c ≠ '*') (behind : Matches pattern text) :
      Matches (c :: pattern) (c :: text)
  | star {pattern text : List Char} (run : List Char) (behind : Matches pattern text) :
      Matches ('*' :: pattern) (run ++ text)

variable {pattern text literal first front : List Char} {more : List (List Char)}

theorem matches_nil_iff : Matches [] text ↔ text = [] :=
  ⟨fun fits => by cases fits; rfl, fun empty => empty ▸ .nil⟩

theorem matches_star_iff :
    Matches ('*' :: pattern) text ↔ ∃ run rest, text = run ++ rest ∧ Matches pattern rest := by
  constructor
  · intro fits
    cases fits with
    | char solid behind => exact absurd rfl solid
    | star run behind => exact ⟨run, _, rfl, behind⟩
  · rintro ⟨run, rest, rfl, behind⟩
    exact .star run behind

theorem matches_append_iff (plain : '*' ∉ literal) :
    Matches (literal ++ pattern) text ↔ ∃ rest, text = literal ++ rest ∧ Matches pattern rest := by
  induction literal generalizing text with
  | nil => simp
  | cons c tail ih =>
      rw [List.mem_cons, not_or] at plain
      constructor
      · intro fits
        cases fits with
        | char solid behind =>
            obtain ⟨rest, rfl, inner⟩ := (ih plain.2).mp behind
            exact ⟨rest, rfl, inner⟩
        | star run behind => exact absurd rfl plain.1
      · rintro ⟨rest, rfl, inner⟩
        exact .char (Ne.symm plain.1) ((ih plain.2).mpr ⟨rest, rfl, inner⟩)

theorem matches_plain_iff (plain : '*' ∉ literal) : Matches literal text ↔ text = literal := by
  rw [← List.append_nil literal, matches_append_iff plain]
  simp [matches_nil_iff]

theorem Matches.behind (fits : Matches ('*' :: pattern) text) (front : List Char) :
    Matches ('*' :: pattern) (front ++ text) := by
  obtain ⟨run, rest, rfl, inner⟩ := matches_star_iff.mp fits
  rw [← List.append_assoc]
  exact .star _ inner

theorem fitsAfterStar_iff (plain : ∀ piece ∈ first :: more, '*' ∉ piece) :
    fitsAfterStar (first :: more) text = true ↔ Matches ('*' :: joined '*' first more) text := by
  induction more generalizing first text with
  | nil =>
      have own := plain first List.mem_cons_self
      rw [joined_nil, matches_star_iff, fitsAfterStar, List.isSuffixOf_iff_suffix]
      simp only [matches_plain_iff own]
      constructor
      · rintro ⟨run, rfl⟩
        exact ⟨run, first, rfl, rfl⟩
      · rintro ⟨run, rest, rfl, rfl⟩
        exact ⟨run, rfl⟩
  | cons next others ih =>
      obtain ⟨own, behind⟩ := List.forall_mem_cons.mp plain
      rw [joined_cons, matches_star_iff, fitsAfterStar]
      · constructor
        · intro fits
          split at fits
          · rename_i later found
            obtain ⟨front, rfl⟩ := append_of_afterFirst? found
            exact ⟨front, _, rfl, (matches_append_iff own).mpr ⟨later, rfl, (ih behind).mp fits⟩⟩
          · simp at fits
        · rintro ⟨run, rest, rfl, inner⟩
          obtain ⟨tail, rfl, fits⟩ := (matches_append_iff own).mp inner
          obtain ⟨later, found, front, rfl⟩ := afterFirst?_of_append run first tail
          rw [found]
          exact (ih behind).mpr (fits.behind front)
      · simp

theorem fits_iff (plain : ∀ piece ∈ first :: more, '*' ∉ piece) :
    fits (first :: more) text = true ↔ Matches (joined '*' first more) text := by
  obtain ⟨own, behind⟩ := List.forall_mem_cons.mp plain
  cases more with
  | nil =>
      rw [joined_nil, matches_plain_iff own, fits, beq_iff_eq]
      exact eq_comm
  | cons next others =>
      rw [joined_cons, matches_append_iff own, fits]
      · constructor
        · intro found
          split at found
          · rename_i rest here
            exact ⟨rest, (List.isPrefixOf?_eq_some_iff_append_eq.mp here).symm,
              (fitsAfterStar_iff behind).mp found⟩
          · simp at found
        · rintro ⟨rest, rfl, inner⟩
          have here : first.isPrefixOf? (first ++ rest) = some rest :=
            List.isPrefixOf?_eq_some_iff_append_eq.mpr rfl
          rw [here]
          exact (fitsAfterStar_iff behind).mpr inner
      · simp

theorem isMatch_iff : isMatch pattern text = true ↔ Matches pattern text := by
  obtain ⟨first, more, rfl, plain⟩ := exists_joined '*' pattern
  rw [isMatch, pieces_joined plain, fits_iff plain]

/-- The first literal of a pattern, and behind it each run of characters with the next literal. -/
def filled (first : List Char) (runs more : List (List Char)) : List Char :=
  first ++ (List.zipWith (· ++ ·) runs more).flatten

theorem matches_joined_iff (plain : ∀ piece ∈ first :: more, '*' ∉ piece) :
    Matches (joined '*' first more) text ↔
      ∃ runs, runs.length = more.length ∧ text = filled first runs more := by
  obtain ⟨own, behind⟩ := List.forall_mem_cons.mp plain
  induction more generalizing first text with
  | nil =>
      rw [joined_nil, matches_plain_iff own]
      constructor
      · rintro rfl
        exact ⟨[], rfl, by simp [filled]⟩
      · rintro ⟨runs, -, rfl⟩
        simp [filled]
  | cons next others ih =>
      obtain ⟨nextOwn, othersOwn⟩ := List.forall_mem_cons.mp behind
      rw [joined_cons, matches_append_iff own]
      simp only [matches_star_iff, ih behind nextOwn othersOwn]
      constructor
      · rintro ⟨rest, rfl, run, tail, rfl, runs, lengths, rfl⟩
        refine ⟨run :: runs, by simp [lengths], ?_⟩
        simp [filled]
      · rintro ⟨runs, lengths, rfl⟩
        cases runs with
        | nil => simp at lengths
        | cons run runs =>
            refine ⟨run ++ filled next runs others, ?_, run, filled next runs others, rfl,
              runs, by simpa using lengths, rfl⟩
            simp [filled]

/-- A text matches a pattern just if it can be cut into the pieces between the stars of the pattern,
in order, with a run of characters in the place of each star. -/
theorem isMatch_iff_filled (pattern text : List Char) :
    isMatch pattern text = true ↔
      ∃ first more runs, pattern = joined '*' first more ∧
        (∀ literal ∈ first :: more, '*' ∉ literal) ∧
          runs.length = more.length ∧ text = filled first runs more := by
  rw [isMatch_iff]
  constructor
  · intro fits
    obtain ⟨first, more, rfl, plain⟩ := exists_joined '*' pattern
    obtain ⟨runs, lengths, cut⟩ := (matches_joined_iff plain).mp fits
    exact ⟨first, more, runs, rfl, plain, lengths, cut⟩
  · rintro ⟨first, more, runs, rfl, plain, lengths, cut⟩
    exact (matches_joined_iff plain).mpr ⟨runs, lengths, cut⟩

example : isMatch "ab*ba".toList "abba".toList = true ∧
    isMatch "ab*ba".toList "aba".toList = false := by decide

end PathDirectives.Glob
