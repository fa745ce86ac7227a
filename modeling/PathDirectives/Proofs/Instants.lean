import PathDirectives.Run.Install

/-!
The later and the latest of instants, and the sum of an instant and a span. Outside leap seconds
sums keep the order of instants; inside one they need not, but a whole number of seconds forward
that leaves an instant on the calendar leaves earlier ones there too.
-/

namespace PathDirectives

open Calendar

namespace Calendar.Instant

variable {first second sum : Instant} {span : Span} {clock : Int}

theorem le_later_left (left right : Instant) : left ≤ left.later right := by
  unfold later
  split
  · assumption
  · exact le_refl left

theorem le_later_right (left right : Instant) : right ≤ left.later right := by
  unfold later
  split
  · exact le_refl right
  · rename_i above
    exact (le_total right left).resolve_right above

theorem later_of_le (ordered : first ≤ second) : first.later second = second := if_pos ordered

theorem later_of_ge (ordered : second ≤ first) : first.later second = first := by
  unfold later
  split
  · rename_i up
    exact le_antisymm ordered up
  · rfl

theorem later_assoc (first second third : Instant) :
    (first.later second).later third = first.later (second.later third) := by
  unfold later
  by_cases left : first ≤ second <;> by_cases right : second ≤ third
  · simp [left, right, le_trans left right]
  · simp [left, right]
  · simp [left, right]
  · have below : third ≤ second := (le_total third second).resolve_right right
    have outer : ¬ first ≤ third := fun up => left (le_trans up below)
    simp [left, right, outer]

theorem later_eq_or (left right : Instant) :
    left.later right = left ∨ left.later right = right := by
  unfold later
  split
  · exact .inr rfl
  · exact .inl rfl

theorem ofClock?_eq_some (found : ofClock? clock = some sum) :
    sum.clock = clock ∧ sum.inLeapSecond = false := by
  unfold ofClock? at found
  dsimp only at found
  split at found
  · simp only [Option.some.injEq] at found
    subst found
    constructor
    · simp only [Instant.clock]
      omega
    · simp only [inLeapSecond, decide_eq_false_iff_not]
      omega
  · simp at found

theorem ofClock?_isSome_iff :
    (ofClock? clock).isSome = true ↔
      firstDay ≤ clock / 86400000000000 ∧ clock / 86400000000000 ≤ lastDay := by
  unfold ofClock?
  dsimp only
  split
  · rename_i inside
    simp [inside]
  · rename_i outside
    simp [outside]

theorem add?_of_plain (plain : first.inLeapSecond = false) (span : Span) :
    first.add? span = ofClock? (first.clock + span.nanoseconds) := by
  have below : ¬ 1000000000 ≤ first.nano := by simpa [inLeapSecond] using plain
  simp only [add?, dif_neg below]

theorem le_iff_clock_le (firstPlain : first.inLeapSecond = false)
    (secondPlain : second.inLeapSecond = false) : first ≤ second ↔ first.clock ≤ second.clock := by
  have firstBelow : first.nano < 1000000000 := by simpa [inLeapSecond] using firstPlain
  have secondBelow : second.nano < 1000000000 := by simpa [inLeapSecond] using secondPlain
  rw [le_iff]
  simp only [rank, Instant.clock]
  omega

theorem clock_day (instant : Instant) (plain : instant.inLeapSecond = false) :
    instant.clock / 86400000000000 = instant.day := by
  have below : instant.nano < 1000000000 := by simpa [inLeapSecond] using plain
  have second := instant.second_lt
  simp only [Instant.clock]
  omega

theorem add?_mono (firstPlain : first.inLeapSecond = false)
    (secondPlain : second.inLeapSecond = false) (forward : 0 ≤ span.nanoseconds)
    (ordered : first ≤ second) (added : second.add? span = some sum) :
    ∃ before, first.add? span = some before ∧ before ≤ sum := by
  rw [le_iff_clock_le firstPlain secondPlain] at ordered
  rw [add?_of_plain secondPlain] at added
  obtain ⟨sumClock, sumPlain⟩ := ofClock?_eq_some added
  have onCalendar := ofClock?_isSome_iff.mp (Option.isSome_iff_exists.mpr ⟨sum, added⟩)
  have firstDay_le := first.firstDay_le
  have day := clock_day first firstPlain
  have inside : (ofClock? (first.clock + span.nanoseconds)).isSome = true := by
    rw [ofClock?_isSome_iff]
    omega
  obtain ⟨before, found⟩ := Option.isSome_iff_exists.mp inside
  obtain ⟨beforeClock, beforePlain⟩ := ofClock?_eq_some found
  refine ⟨before, by rw [add?_of_plain firstPlain, found], ?_⟩
  rw [le_iff_clock_le beforePlain sumPlain]
  omega

theorem le_of_add?_le {firstSum : Instant} (firstPlain : first.inLeapSecond = false)
    (secondPlain : second.inLeapSecond = false) (firstAdded : first.add? span = some firstSum)
    (added : second.add? span = some sum) (ordered : firstSum ≤ sum) : first ≤ second := by
  rw [add?_of_plain firstPlain] at firstAdded
  rw [add?_of_plain secondPlain] at added
  obtain ⟨firstClock, firstSumPlain⟩ := ofClock?_eq_some firstAdded
  obtain ⟨secondClock, sumPlain⟩ := ofClock?_eq_some added
  rw [le_iff_clock_le firstSumPlain sumPlain] at ordered
  rw [le_iff_clock_le firstPlain secondPlain]
  omega

/-! ### Spans forward -/

variable {instant : Instant}

def StaysInLeapSecond (instant : Instant) (span : Span) : Prop :=
  instant.inLeapSecond = true ∧ instant.nano + span.nanoseconds < 2000000000

def forwardClock (instant : Instant) : Int :=
  if instant.inLeapSecond then instant.clock - 1000000000 else instant.clock

theorem forwardClock_seconds (instant : Instant) :
    instant.forwardClock / 1000000000 = instant.day * 86400 + instant.second := by
  have bound := instant.nano_lt
  simp only [forwardClock, inLeapSecond, clock, decide_eq_true_eq]
  split <;> omega

theorem add?_forward (forward : 0 ≤ span.nanoseconds)
    (leaves : ¬ instant.StaysInLeapSecond span) :
    instant.add? span = ofClock? (instant.forwardClock + span.nanoseconds) := by
  by_cases leaping : instant.inLeapSecond = true
  · have above : 1000000000 ≤ instant.nano := by simpa [inLeapSecond] using leaping
    have past : ¬ instant.nano + span.nanoseconds < 2000000000 := fun within =>
      leaves ⟨leaping, within⟩
    have bound := instant.nano_lt
    have positive : 0 < span.nanoseconds := by omega
    simp only [add?, dif_pos above, dif_neg (not_and_of_not_right _ past), if_pos positive,
      forwardClock, if_pos leaping]
  · rw [add?_of_plain (Bool.eq_false_iff.mpr leaping), forwardClock, if_neg leaping]

theorem add?_isSome_iff (forward : 0 ≤ span.nanoseconds) :
    (instant.add? span).isSome = true ↔ instant.StaysInLeapSecond span ∨
      (instant.forwardClock + span.nanoseconds) / 86400000000000 ≤ lastDay := by
  by_cases stays : instant.StaysInLeapSecond span
  · have above : 1000000000 ≤ instant.nano := by simpa [inLeapSecond] using stays.1
    have within : -1000000000 < span.nanoseconds ∧
        instant.nano + span.nanoseconds < 2000000000 := ⟨by omega, stays.2⟩
    simp [add?, above, within, stays]
  · have seconds := instant.forwardClock_seconds
    have firstDay_le := instant.firstDay_le
    rw [add?_forward forward stays, ofClock?_isSome_iff]
    simp only [stays, false_or]
    omega

theorem add?_zero_isSome (instant : Instant) : (instant.add? Span.zero).isSome = true := by
  have le_lastDay := instant.le_lastDay
  have second_lt := instant.second_lt
  have seconds := instant.forwardClock_seconds
  refine (add?_isSome_iff (by decide)).mpr (.inr ?_)
  simp only [Span.zero]
  omega

/-- What leaves an instant on the calendar leaves earlier ones there. Parts of a second may do so
in a leap second only. -/
theorem add?_isSome_of_le (forward : 0 ≤ span.nanoseconds)
    (even : second.inLeapSecond = false ∨ span.nanoseconds % 1000000000 = 0)
    (ordered : first ≤ second) (fits : (second.add? span).isSome = true) :
    (first.add? span).isSome = true := by
  rw [add?_isSome_iff forward] at fits ⊢
  have firstBound := first.nano_lt
  have secondBound := second.nano_lt
  have firstSeconds := first.forwardClock_seconds
  have secondSeconds := second.forwardClock_seconds
  have le_lastDay := first.le_lastDay
  have second_lt := first.second_lt
  rw [le_iff] at ordered
  simp only [rank] at ordered
  refine .inr ?_
  rcases even with plain | whole
  · have stays : ¬ second.StaysInLeapSecond span := by simp [StaysInLeapSecond, plain]
    have below := fits.resolve_left stays
    have mono : first.forwardClock ≤ second.forwardClock := by
      simp only [inLeapSecond, decide_eq_false_iff_not] at plain
      simp only [forwardClock, inLeapSecond, clock, decide_eq_true_eq]
      split <;> omega
    omega
  · rcases fits with stays | below
    · have leaping : 1000000000 ≤ second.nano := by simpa [inLeapSecond] using stays.1
      have within := stays.2
      omega
    · omega

end Calendar.Instant

namespace Calendar.Span

variable {first second : Instant} {span : Span}

/-- Whole seconds that leave an instant on the calendar when they are added to it. -/
structure Admissible (span : Span) (horizon : Instant) : Prop where
  forward : 0 ≤ span.nanoseconds
  whole : span.nanoseconds % 1000000000 = 0
  fits : (horizon.add? span).isSome = true

theorem admissible_zero (horizon : Instant) : zero.Admissible horizon :=
  ⟨by decide, by decide, horizon.add?_zero_isSome⟩

theorem Admissible.add?_isSome (admissible : span.Admissible second) (ordered : first ≤ second) :
    (first.add? span).isSome = true :=
  Instant.add?_isSome_of_le admissible.forward (.inr admissible.whole) ordered admissible.fits

end Calendar.Span

namespace Run

theorem latest?_eq_none_iff {dates : List Instant} : latest? dates = none ↔ dates = [] := by
  cases dates with
  | nil => simp [latest?]
  | cons date rest =>
      simp only [latest?]
      split <;> simp

theorem latest?_eq_some_iff {dates : List Instant} {last : Instant} :
    latest? dates = some last ↔ last ∈ dates ∧ ∀ date ∈ dates, date ≤ last := by
  induction dates generalizing last with
  | nil => simp [latest?]
  | cons date rest ih =>
      simp only [latest?]
      cases found : latest? rest with
      | none =>
          rw [latest?_eq_none_iff] at found
          subst found
          simp only [Option.some.injEq, List.mem_singleton]
          constructor
          · rintro rfl
            exact ⟨rfl, fun other same => same ▸ Instant.le_refl _⟩
          · exact fun both => both.1.symm
      | some other =>
          obtain ⟨member, bound⟩ := ih.mp found
          simp only [Option.some.injEq, List.mem_cons, forall_eq_or_imp]
          constructor
          · rintro rfl
            refine ⟨?_, date.le_later_left other, fun earlier inside => ?_⟩
            · rcases date.later_eq_or other with same | same
              · exact .inl same
              · rw [same]
                exact .inr member
            · exact Instant.le_trans (bound earlier inside) (date.le_later_right other)
          · rintro ⟨inside, above, others⟩
            refine Instant.le_antisymm ?_ ?_
            · rcases date.later_eq_or other with same | same
              · rw [same]
                exact above
              · rw [same]
                exact others other member
            · rcases inside with rfl | inRest
              · exact last.le_later_left other
              · exact Instant.le_trans (bound last inRest) (date.le_later_right other)

end Run

end PathDirectives
