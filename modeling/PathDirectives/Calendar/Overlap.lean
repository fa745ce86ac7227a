import PathDirectives.Calendar.Instant

/-!
What two intervals of time have in common, and which share of an interval lies in a window. All
intervals hold their start and not their end.
-/

namespace PathDirectives.Calendar

def overlap (start stop start' stop' : Instant) : Span :=
  let begin' := start.later start'
  let finish := stop.earlier stop'
  if begin' < finish then finish.since begin' else Span.zero

structure Share where
  part : Int
  whole : Int
  deriving DecidableEq, Repr

namespace Share

def toFloat (share : Share) : Float :=
  Float.ofInt share.part / Float.ofInt share.whole

/-- Whether the quotient, with a whole that is not negative, is at most zero. The quotient of zero
by zero is not. -/
def isNothing (share : Share) : Bool :=
  share.part < 0 || share.part == 0 && share.whole != 0

end Share

/-- The share of `[start, stop)` inside a window. An interval that takes no time counts whole when
its start lies in the window. -/
def shareInside (start stop windowStart windowStop : Instant) : Share :=
  let total := stop.since start
  if total.nanoseconds ≤ 0 then
    if windowStart ≤ start ∧ start < windowStop then ⟨1, 1⟩ else ⟨0, 1⟩
  else ⟨(overlap start stop windowStart windowStop).milliseconds, total.milliseconds⟩

end PathDirectives.Calendar
