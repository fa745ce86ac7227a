import PathDirectives.Calendar.TimeUnit
import PathDirectives.Config
import PathDirectives.Directive.Wording
import PathDirectives.Schedule.Library
import PathDirectives.TaskRange.Resolve

/-!
Arguments of directives read into values. An argument that is left out may have a fallback; one that
is there and cannot be read is always an error, which names the argument.
-/

namespace PathDirectives

open Calendar

inductive ArgumentError where
  | missing (argument : String)
  | duration (argument value : String)
  | date (argument value : String)
  | choice (argument value : String) (expected : List String)
  | range (argument : String) (error : RangeError)
  | lookup (argument : String) (error : LookupError)
  | conflict (first second : String)
  | emptyWindow (start stop : Instant)
  deriving DecidableEq

namespace ArgumentError

def named (argument : String) : String := "argument `" ++ argument ++ "`: "

def message : ArgumentError → String
  | .missing argument => "missing required argument `" ++ argument ++ "`"
  | .duration argument value =>
      named argument ++ "invalid duration " ++ Text.quoted value ++
        " (expected <number><m|h|d|w>)"
  | .date argument value =>
      named argument ++ "invalid date " ++ Text.quoted value ++
        " (expected YYYY-MM-DD[ HH:MM[:SS]])"
  | .choice argument value expected =>
      named argument ++ Text.quoted value ++ " is not one of " ++ "|".intercalate expected
  | .range argument error => named argument ++ error.message
  | .lookup argument error => named argument ++ error.message
  | .conflict first second =>
      "arguments `" ++ first ++ "` and `" ++ second ++ "` cannot be combined"
  | .emptyWindow start stop =>
      "window end " ++ stop.text ++ " is not after start " ++ start.text

end ArgumentError

def TimeMode.wording : Wording TimeMode :=
  ⟨[(.suppress, ["suppress", "suppressing", "block", "deny"]),
    (.allow, ["allow", "allowing", "permit"])]⟩

def RemoveTrigger.wording : Wording RemoveTrigger :=
  ⟨[(.completed, ["completed", "complete", "completion", "finished"]),
    (.available, ["available", "availability", "ready"])]⟩

def ScheduleKind.wording : Wording ScheduleKind :=
  ⟨[(.output, ["output", "out", "schedule"]), (.input, ["input", "in", "plan"])]⟩

def switchWording : Wording Bool :=
  ⟨[(true, ["true", "yes", "y", "1", "on"]), (false, ["false", "no", "n", "0", "off"])]⟩

namespace Argument

/-- A span that leaves `horizon` on the calendar when it is added to it. -/
def span (name value : String) (horizon : Instant) : Except ArgumentError Span :=
  match parseSpan? value with
  | none => .error (.duration name value)
  | some span => if (horizon.add? span).isSome then .ok span else .error (.duration name value)

def spanOr (name : String) (value : Option String) (fallback : Span) (horizon : Instant) :
    Except ArgumentError Span :=
  match value with
  | some value => span name value horizon
  | none => .ok fallback

def date (name value : String) : Except ArgumentError Instant :=
  match parseDate? value with
  | some date => .ok date
  | none => .error (.date name value)

def dateOr (name : String) (value : Option String) (fallback : Instant) :
    Except ArgumentError Instant :=
  match value with
  | some value => date name value
  | none => .ok fallback

def required (name : String) (value : Option String) : Except ArgumentError String :=
  match value with
  | none => .error (.missing name)
  | some value =>
      if (Text.trimmed value).isEmpty then .error (.missing name) else .ok (Text.trimmed value)

def tasks (name value : String) (scenario : Scenario) : Except ArgumentError TaskSet :=
  match scenario.tasksNamed value with
  | .error (.malformed error) => .error (.range name error)
  | .error (.lookup error) => .error (.lookup name error)
  | .ok tasks => .ok tasks

def choice {α : Type} (wording : Wording α) (name value : String) : Except ArgumentError α :=
  match wording.ofWord? (Text.trimmed value) with
  | some choice => .ok choice
  | none => .error (.choice name value wording.words)

def choiceOr {α : Type} (wording : Wording α) (name : String) (value : Option String)
    (fallback : α) : Except ArgumentError α :=
  match value with
  | some value => choice wording name value
  | none => .ok fallback

def process (name value : String) (scenario : Scenario) : Except ArgumentError ProcessId :=
  match scenario.processByName value with
  | .ok process => .ok process
  | .error error => .error (.lookup name error)

def optional {α : Type} (read : String → Except ArgumentError α) :
    Option String → Except ArgumentError (Option α)
  | some value => (read value).map some
  | none => .ok none

end Argument

end PathDirectives
