import PathDirectives.Calendar.Layout
import PathDirectives.Decimal
import PathDirectives.Schedule.Library
import PathDirectives.Schedule.Records
import PathDirectives.Text.Quoted

/-!
Schedules from their stored form: records, of which the first names the columns, and one record for
each worked step. The steps of a loaded schedule are in order of their start.
-/

namespace PathDirectives

open Calendar

inductive ScheduleError where
  | unreadable
  | malformed
  | date (text : String)
  | endsBeforeStart (source equipment : String)
  deriving DecidableEq

def ScheduleError.message? : ScheduleError → Option String
  | .unreadable => none
  | .malformed => none
  | .date text => some ("schedule parse error: invalid date " ++ Text.quoted text)
  | .endsBeforeStart source equipment =>
      some ("schedule parse error: step " ++ source ++ " on " ++ equipment ++
        " ends before it starts")

structure StepRow where
  equipment : String
  source : String
  destination : String
  start : String
  stop : String
  quantity : Float

namespace StepRow

def columns : List String := ["equipment", "source", "destination", "start", "end", "quantity"]

def ofFields? (fields : List String) : Option StepRow :=
  match fields with
  | equipment :: source :: destination :: start :: stop :: quantity :: _ =>
      (Decimal.readFloat? quantity.toList).map fun quantity =>
        { equipment, source, destination, start, stop, quantity }
  | _ => none

/-- The field of a column, unless that column comes twice or is missing. A destination may be
missing. -/
def field? (header fields : List String) (column : String) : Option String :=
  match (header.zip fields).filter (·.1 == column) with
  | [(_, field)] => some field
  | [] => if column = "destination" then some "" else none
  | _ => none

/-- A record as a row, its columns found by name, or by place under a header that is no text. -/
def ofRecord? (header : Option (List String)) (fields : List String) : Option StepRow :=
  match header with
  | none => ofFields? fields
  | some header => (columns.mapM (field? header fields)).bind ofFields?

def step (row : StepRow) : Except ScheduleError ScheduledStep :=
  match parseDate? row.start, parseDate? row.stop with
  | none, _ => .error (.date row.start)
  | some _, none => .error (.date row.stop)
  | some start, some stop =>
      if stop < start then .error (.endsBeforeStart row.source row.equipment)
      else
        .ok
          { equipment := row.equipment
            source := row.source
            destination :=
              if row.destination.toList.all Text.isBlank then none else some row.destination
            start
            stop
            quantity := row.quantity }

end StepRow

def textOfBytes? (bytes : List UInt8) : Option String :=
  String.fromUTF8? bytes.toByteArray

def stepOfRecord (header : Records.Record) (record : Records.Record) :
    Except ScheduleError ScheduledStep :=
  if record.length = header.length then
    match record.mapM textOfBytes? with
    | none => .error .malformed
    | some fields =>
        match StepRow.ofRecord? (header.mapM textOfBytes?) fields with
        | none => .error .malformed
        | some row => row.step
  else .error .malformed

/-- A schedule from the bytes of its stored form, if they could be had. The first record at fault is
reported. -/
def loadSchedule (stored : Option (List UInt8)) : Except ScheduleError (List ScheduledStep) :=
  match stored with
  | none => .error .unreadable
  | some bytes =>
      match Records.read bytes with
      | [] => .ok []
      | header :: records =>
          (records.mapM (stepOfRecord header)).map fun steps =>
            steps.mergeSort fun left right => left.start ≤ right.start

end PathDirectives
