import PathDirectives.Calendar.Instant
import PathDirectives.Decimal
import PathDirectives.Text.Blank

/-!
Spans written as a number and a unit letter, such as `1.5h`. Only minutes, hours, days and weeks
have a letter.
-/

namespace PathDirectives.Calendar

inductive TimeUnit where
  | minutes
  | hours
  | days
  | weeks
  deriving DecidableEq, Repr

namespace TimeUnit

def ofSuffix? (c : Char) : Option TimeUnit :=
  match c.toLower with
  | 'm' => some .minutes
  | 'h' => some .hours
  | 'd' => some .days
  | 'w' => some .weeks
  | _ => none

def suffix : TimeUnit → Char
  | .minutes => 'm'
  | .hours => 'h'
  | .days => 'd'
  | .weeks => 'w'

example (unit : TimeUnit) : ofSuffix? unit.suffix = some unit := by cases unit <;> rfl

def seconds : TimeUnit → Nat
  | .minutes => 60
  | .hours => 3600
  | .days => 86400
  | .weeks => 604800

end TimeUnit

def roundToNat (value : Float) : Nat :=
  let whole := value.toUInt64.toNat
  if 0.5 ≤ value - Float.ofNat whole then whole + 1 else whole

/-- `amount` units, to the nearest second. Amounts below zero, amounts that are no finite number
and amounts too long to be counted in milliseconds have no span. -/
def TimeUnit.span? (unit : TimeUnit) (amount : Float) : Option Span :=
  if amount.isFinite && 0.0 ≤ amount then
    let seconds := amount * Float.ofNat unit.seconds
    if seconds ≤ 9223372036854775807.0 / 1000.0 then Span.ofSeconds? (roundToNat seconds)
    else none
  else none

/-- A number without a sign, then the letter of its unit, with white space anywhere around them. -/
def parseSpan? (text : String) : Option Span :=
  let trimmed := Text.trim text.toList
  match trimmed.getLast? with
  | none => none
  | some letter =>
      (TimeUnit.ofSuffix? letter).bind fun unit =>
        let number := Text.trim trimmed.dropLast
        if number.head? = some '+' ∨ number.head? = some '-' then none
        else (Decimal.readFloat? number).bind unit.span?

def Span.text (span : Span) : String :=
  let seconds := span.seconds
  let exact := [TimeUnit.weeks, .days, .hours].find? fun unit =>
    seconds != 0 && seconds.tmod unit.seconds == 0
  match exact with
  | some unit => toString (seconds.tdiv unit.seconds) ++ String.singleton unit.suffix
  | none => Decimal.writeFloat (Float.ofInt seconds / 60.0) ++ "m"

theorem TimeUnit.span?_eq_some {unit : TimeUnit} {amount : Float} {span : Span}
    (found : unit.span? amount = some span) : ∃ seconds : Nat, span = Span.ofSeconds seconds := by
  unfold TimeUnit.span? at found
  split at found
  · dsimp only at found
    split at found
    · unfold Span.ofSeconds? at found
      split at found
      · exact ⟨_, (Option.some.inj found).symm⟩
      · simp at found
    · simp at found
  · simp at found

theorem parseSpan?_eq_some {text : String} {span : Span} (found : parseSpan? text = some span) :
    ∃ seconds : Nat, span = Span.ofSeconds seconds := by
  unfold parseSpan? at found
  dsimp only at found
  split at found
  · simp at found
  · simp only [Option.bind_eq_some_iff] at found
    obtain ⟨unit, _, found⟩ := found
    split at found
    · simp at found
    · simp only [Option.bind_eq_some_iff] at found
      obtain ⟨amount, _, found⟩ := found
      exact TimeUnit.span?_eq_some found

theorem parseSpan?_nonneg {text : String} {span : Span} (found : parseSpan? text = some span) :
    0 ≤ span.nanoseconds := by
  obtain ⟨seconds, rfl⟩ := parseSpan?_eq_some found
  simp only [Span.ofSeconds]
  omega

end PathDirectives.Calendar
