import PathDirectives.Calendar.Instant
import PathDirectives.Scenario.TaskSet

/-!
Wait counters. A counter starts at the number of its predecessors and goes down by one when each of
them is first reported complete. At zero it still holds its task until the release delay has passed
since the last step down.
-/

namespace PathDirectives

open Calendar

structure Origin where
  line : Nat
  text : String
  directive : String
  deriving DecidableEq

structure WaitCounter where
  remaining : Nat
  lastDecremented : Option Instant := none
  releaseDelay : Span
  predecessors : TaskSet
  completed : TaskSet := TaskSet.empty
  origin : Origin
  deriving DecidableEq

namespace WaitCounter

def new (predecessors : TaskSet) (releaseDelay : Span) (origin : Origin) : WaitCounter :=
  { remaining := predecessors.size, releaseDelay, predecessors, origin }

def counts (counter : WaitCounter) (task : TaskId) : Bool :=
  counter.predecessors.contains task && !counter.completed.contains task

def taskCompleted (counter : WaitCounter) (task : TaskId) (date : Instant) : WaitCounter :=
  if counter.counts task then
    { counter with
      remaining := counter.remaining - 1
      lastDecremented := some date
      completed := counter.completed.insert task }
  else counter

/-- Whether a counter holds its task. A release beyond the end of the calendar never comes. -/
def isWaiting (counter : WaitCounter) (date : Instant) : Bool :=
  0 < counter.remaining ||
    match counter.lastDecremented with
    | none => false
    | some last =>
        match last.add? counter.releaseDelay with
        | none => true
        | some release => date < release

def releasedAt? (counter : WaitCounter) : Option Instant :=
  if counter.remaining = 0 then
    counter.lastDecremented.bind fun last => last.add? counter.releaseDelay
  else none

end WaitCounter

end PathDirectives
