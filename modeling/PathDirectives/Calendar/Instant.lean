import PathDirectives.Calendar.Date

/-!
Instants of a bounded calendar, to the nanosecond and with leap seconds, and the spans between
them. Instants are ordered by their `rank`; `add?` and `since` pass over a leap second as if it
took no time, except inside it.
-/

namespace PathDirectives.Calendar

structure Span where
  nanoseconds : Int
  deriving DecidableEq, Repr

namespace Span

def zero : Span := ⟨0⟩

def ofSeconds (seconds : Int) : Span := ⟨seconds * 1000000000⟩

def ofMilliseconds (milliseconds : Int) : Span := ⟨milliseconds * 1000000⟩

def hours (count : Int) : Span := ofSeconds (count * 3600)

def seconds (span : Span) : Int := span.nanoseconds.tdiv 1000000000

def milliseconds (span : Span) : Int := span.nanoseconds.tdiv 1000000

def maxSeconds : Int := 9223372036854775

/-- A whole number of seconds, unless it is too long to be counted in milliseconds. -/
def ofSeconds? (seconds : Int) : Option Span :=
  if -maxSeconds ≤ seconds ∧ seconds ≤ maxSeconds then some (ofSeconds seconds) else none

end Span

/-- A day, a second of it, and nanoseconds into that second. A leap second is the second billion of
nanoseconds of the last second of a minute. -/
structure Instant where
  day : Int
  second : Nat
  nano : Nat
  firstDay_le : firstDay ≤ day
  le_lastDay : day ≤ lastDay
  second_lt : second < 86400
  nano_lt : nano < 2000000000
  leap : 1000000000 ≤ nano → second % 60 = 59
  deriving DecidableEq

namespace Instant

def rank (instant : Instant) : Int :=
  (instant.day * 86400 + instant.second) * 2000000000 + instant.nano

instance : LE Instant := ⟨fun left right => left.rank ≤ right.rank⟩

instance : LT Instant := ⟨fun left right => left.rank < right.rank⟩

instance (left right : Instant) : Decidable (left ≤ right) :=
  inferInstanceAs (Decidable (left.rank ≤ right.rank))

instance (left right : Instant) : Decidable (left < right) :=
  inferInstanceAs (Decidable (left.rank < right.rank))

theorem le_iff (left right : Instant) : left ≤ right ↔ left.rank ≤ right.rank := Iff.rfl

theorem lt_iff (left right : Instant) : left < right ↔ left.rank < right.rank := Iff.rfl

theorem rank_injective {left right : Instant} (same : left.rank = right.rank) : left = right := by
  obtain ⟨day, second, nano, _, _, secondBound, nanoBound, _⟩ := left
  obtain ⟨day', second', nano', _, _, secondBound', nanoBound', _⟩ := right
  simp only [rank] at same
  have sameDay : day = day' := by omega
  have sameSecond : second = second' := by omega
  have sameNano : nano = nano' := by omega
  subst sameDay sameSecond sameNano
  rfl

theorem le_refl (instant : Instant) : instant ≤ instant := Int.le_refl _

theorem le_trans {first second third : Instant} (left : first ≤ second) (right : second ≤ third) :
    first ≤ third :=
  Int.le_trans left right

theorem le_total (left right : Instant) : left ≤ right ∨ right ≤ left :=
  Int.le_total left.rank right.rank

theorem le_antisymm {left right : Instant} (below : left ≤ right) (above : right ≤ left) :
    left = right :=
  rank_injective (Int.le_antisymm below above)

theorem not_le {left right : Instant} : ¬ left ≤ right ↔ right < left := Int.not_le

theorem not_lt {left right : Instant} : ¬ left < right ↔ right ≤ left := Int.not_lt

def later (left right : Instant) : Instant := if left ≤ right then right else left

def earlier (left right : Instant) : Instant := if left ≤ right then left else right

def first : Instant :=
  ⟨firstDay, 0, 0, by decide, by decide, by omega, by omega, by omega⟩

def last : Instant :=
  ⟨lastDay, 86399, 999999999, by decide, by decide, by omega, by omega, by omega⟩

def ofClock? (clock : Int) : Option Instant :=
  let day := clock / 86400000000000
  if inside : firstDay ≤ day ∧ day ≤ lastDay then
    some
      { day
        second := (clock / 1000000000 % 86400).toNat
        nano := (clock % 1000000000).toNat
        firstDay_le := inside.1
        le_lastDay := inside.2
        second_lt := by omega
        nano_lt := by omega
        leap := by omega }
  else none

/-- Nanoseconds since 1970-01-01, counting a leap second as the second it belongs to. -/
def clock (instant : Instant) : Int :=
  (instant.day * 86400 + instant.second) * 1000000000 + instant.nano

def inLeapSecond (instant : Instant) : Bool :=
  1000000000 ≤ instant.nano

/-- `instant + span`, if that is on the calendar. A span under a second that ends in the same leap
second moves within it. Else a leap second counts as the second before it when the span is
positive and as the second after it when the span is negative. -/
def add? (instant : Instant) (span : Span) : Option Instant :=
  if leaping : 1000000000 ≤ instant.nano then
    if within : -1000000000 < span.nanoseconds ∧ instant.nano + span.nanoseconds < 2000000000 then
      some
        { instant with
          nano := (instant.nano + span.nanoseconds).toNat
          nano_lt := by omega
          leap := fun _ => instant.leap leaping }
    else if 0 < span.nanoseconds then ofClock? (instant.clock - 1000000000 + span.nanoseconds)
    else ofClock? (instant.clock + span.nanoseconds)
  else ofClock? (instant.clock + span.nanoseconds)

/-- The span from `origin` to `instant`. Each side's place within its day is compared alone: a leap
second of the earlier place counts in full, and one of the later place up to the instant. -/
def since (instant origin : Instant) : Span :=
  let passed : Int :=
    if origin.second < instant.second ∧ 1000000000 ≤ origin.nano then 1
    else if instant.second < origin.second ∧ 1000000000 ≤ instant.nano then -1
    else 0
  ⟨instant.clock - origin.clock + passed * 1000000000⟩

end Instant

end PathDirectives.Calendar
