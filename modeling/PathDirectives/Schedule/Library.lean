import PathDirectives.Calendar.Instant
import PathDirectives.Text.Blank
import PathDirectives.Text.Lowercase

/-!
Computed schedules, filed by the name of their scenario and by kind. The case of a name and the
white space around it do not count.
-/

namespace PathDirectives

open Calendar

inductive ScheduleKind where
  | output
  | input
  deriving DecidableEq, Repr

/-- One worked step. Equipment and tasks go by name, so that they can be found in another
scenario. -/
structure ScheduledStep where
  equipment : String
  source : String
  destination : Option String
  start : Instant
  stop : Instant
  quantity : Float

structure ScheduleKey where
  name : String
  kind : ScheduleKind
  deriving DecidableEq

def ScheduleKey.of (name : String) (kind : ScheduleKind) : ScheduleKey :=
  ⟨Text.lowercase (Text.trimmed name), kind⟩

structure ScheduleLibrary where
  entries : List (ScheduleKey × List ScheduledStep) := []

namespace ScheduleLibrary

def insert (library : ScheduleLibrary) (name : String) (kind : ScheduleKind)
    (steps : List ScheduledStep) : ScheduleLibrary :=
  let key := ScheduleKey.of name kind
  ⟨(key, steps) :: library.entries.filter fun entry => entry.1 != key⟩

def steps? (library : ScheduleLibrary) (name : String) (kind : ScheduleKind) :
    Option (List ScheduledStep) :=
  (library.entries.find? fun entry => entry.1 == ScheduleKey.of name kind).map (·.2)

def isEmpty (library : ScheduleLibrary) : Bool := library.entries.isEmpty

theorem steps?_insert_self (library : ScheduleLibrary) (name : String) (kind : ScheduleKind)
    (steps : List ScheduledStep) :
    (library.insert name kind steps).steps? name kind = some steps := by
  simp [insert, steps?]

end ScheduleLibrary

end PathDirectives
