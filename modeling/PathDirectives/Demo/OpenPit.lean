import PathDirectives.Run.Progress
import PathDirectives.Schedule.Load

/-!
A drill and a loader that share three blocks and are kept in step by directives. A scheduler that
looks at its machines once an hour stands in for a real one: each machine works its path from front
to back, asks whether the next task is available, and reports what it takes up, completes and
releases.
-/

namespace PathDirectives.OpenPit

open Calendar

def drillHours : Int := 4

def loadHours : Int := 3

def runDays : Nat := 3

def textOfLines (lines : List String) : String :=
  String.join (lines.map (· ++ "\n"))

def drillPath : String :=
  textOfLines
    ["'!enable",
     "A/1/1 <Drill>    '!deadhead 2h process=Standby",
     "A/1/2 <Drill>",
     "A/2/1 <Drill>    '!timeconstrain start=2024-01-01 08:00 end=2024-01-01 20:00"]

def loaderPath : String :=
  textOfLines
    ["'!enable",
     "A/1/1 <Load>; d:Crusher    '!waiton A/1/1 <Drill> delay=1h",
     "A/1/2 <Load>; d:Crusher    '!waiton A/1/2 <Drill> " ++
       "!injectschedulepath EX09 case=last-week start=2024-01-01 end=2024-01-02",
     "A/2/1 <Load>; d:Crusher    '!waitfree !reprioritise"]

def lastWeek : String :=
  textOfLines
    ["equipment,source,destination,start,end,quantity",
     "EX09,SP/1,Crusher,2024-01-01 18:00,2024-01-02 02:00,400",
     "EX09,A/1/2,Crusher,2023-12-28 06:00,2023-12-28 09:00,120"]

def drill : ProcessId := ⟨0⟩

def load : ProcessId := ⟨1⟩

def haul : ProcessId := ⟨2⟩

def standby : ProcessId := ⟨3⟩

def drillRig : EquipmentId := ⟨0⟩

def loader : EquipmentId := ⟨1⟩

def blocks : List String := ["A/1/1", "A/1/2", "A/2/1"]

def addBlock (graph : TaskGraph) (name : String) : TaskGraph :=
  let drilled : TaskId := ⟨graph.size⟩
  let graph := (graph.addTask name .source drill).addTask name .source load
  match graph.addDependency ⟨graph.size - 1⟩ ⟨drilled, Span.zero, "block"⟩ with
  | .ok (graph, _) => graph
  | .error _ => graph

def scenario : Scenario :=
  let graph := blocks.foldl addBlock {}
  let graph := (graph.addTask "SP/1" .source load).addTask "Crusher" .destination haul
  { processes := [⟨drill, "Drill"⟩, ⟨load, "Load"⟩, ⟨haul, "Haul"⟩, ⟨standby, "Standby"⟩]
    tasks := graph
    equipment :=
      [{ name := "DR01", pathText := drillPath },
       { name := "EX01", pathText := loaderPath, inactiveProcess := some standby }] }

def library : ScheduleLibrary :=
  match loadSchedule (some lastWeek.toUTF8.toList) with
  | .ok steps => ScheduleLibrary.insert {} "last-week" .output steps
  | .error _ => {}

/-! ### The scheduler -/

structure Work where
  stop : Instant
  element : ElementId
  task : Option TaskId

structure Machine where
  busy : Option Work := none
  done : List ElementId := []

def addSpan (date : Instant) (span : Span) : Instant := (date.add? span).getD date

def stepSpan (run : Run) (step : Step) : Span :=
  match step.duration, step.rate with
  | some duration, _ => duration
  | none, .instant => Span.zero
  | none, _ =>
      let process := (run.scenario.tasks.get? step.source).map (·.process)
      match process.bind run.scenario.processName? with
      | some "Drill" => Span.hours drillHours
      | _ => Span.hours loadHours

def mayStart (run : Run) (id : EquipmentId) (step : Step) (now : Instant) : Bool :=
  step.ignoreConstraints ||
    run.isAvailable id step.source now &&
      run.scenario.tasks.dependenciesSatisfied step.source now

/-- The machine and the run once the machine has looked for work on its path: it takes up the first
element that is not done, or waits for it. -/
def takeUp (run : Run) (id : EquipmentId) (now : Instant) (machine : Machine) :
    List Element → Except RunError (Run × Machine)
  | [] => .ok (run, machine)
  | element :: more =>
      if machine.done.contains element.id then takeUp run id now machine more
      else
        match element.kind with
        | .steps steps =>
            match steps.find? fun step => !run.scenario.tasks.isComplete step.source with
            | none => takeUp run id now { machine with done := element.id :: machine.done } more
            | some step =>
                if mayStart run id step now then
                  match run.taskSelected id element.id step.source with
                  | (_, .error error) => .error error
                  | (next, .ok ()) =>
                      let stop := addSpan now (stepSpan run step)
                      .ok (next, { machine with busy := some ⟨stop, element.id, step.source⟩ })
                else .ok (run, machine)
        | .delay duration =>
            .ok (run, { machine with busy := some ⟨addSpan now duration, element.id, none⟩ })
        | .idle _ duration =>
            .ok (run, { machine with busy := some ⟨addSpan now duration, element.id, none⟩ })
        | .until date =>
            if date ≤ now then .ok (run, { machine with done := element.id :: machine.done })
            else .ok (run, machine)

def finishWork (run : Run) (id : EquipmentId) (machine : Machine) (work : Work) :
    Except RunError (Run × Machine) :=
  match work.task with
  | none => .ok (run, { busy := none, done := work.element :: machine.done })
  | some task =>
      match run.taskCompleted task work.stop with
      | (_, .error error) => .error error
      | (next, .ok ()) =>
          match next.taskReleased id with
          | (_, .error error) => .error error
          | (last, .ok ()) => .ok (last, { machine with busy := none })

def seekWork (run : Run) (id : EquipmentId) (now : Instant) (machine : Machine) :
    Except RunError (Run × Machine) :=
  match run.scenario.equipmentOf id with
  | .error error => .error (.lookup error)
  | .ok equipment => takeUp run id now machine equipment.path.elements

def serve (run : Run) (id : EquipmentId) (now : Instant) (machine : Machine) :
    Except RunError (Run × Machine) :=
  match machine.busy with
  | none => seekWork run id now machine
  | some work =>
      if now < work.stop then .ok (run, machine)
      else do
        let (run, machine) ← finishWork run id machine work
        seekWork run id now machine

structure Shift where
  run : Run
  now : Instant
  drillRig : Machine := {}
  loader : Machine := {}

def hour (shift : Shift) : Except RunError Shift :=
  match shift.run.advanceTo shift.now with
  | (_, .error error) => .error error
  | (run, .ok ()) => do
      let (run, rig) ← serve run drillRig shift.now shift.drillRig
      let (run, machine) ← serve run loader shift.now shift.loader
      return ⟨run, addSpan shift.now (Span.hours 1), rig, machine⟩

def padTo (width : Nat) (text : String) : String :=
  text ++ String.ofList (List.replicate (width - text.length) ' ')

def countName (name : String) : List (String × Nat) → List (String × Nat)
  | [] => [(name, 1)]
  | (other, count) :: rest =>
      if name < other then (name, 1) :: (other, count) :: rest
      else if name = other then (other, count + 1) :: rest
      else (other, count) :: countName name rest

def eventLines : List SetupEvent → List String
  | [] => []
  | .completed summary :: rest =>
      ("Setup: " ++ Nat.repr summary.equipment ++ " equipment, " ++ Nat.repr summary.waitCounters ++
        " wait counter(s), " ++ Nat.repr summary.timeConstraints ++ " time constraint(s), " ++
        Nat.repr summary.pendingEffects ++ " pending effect(s)") :: eventLines rest
  | .line _ :: rest => eventLines rest

def directiveNames (events : List SetupEvent) : List String :=
  events.flatMap fun
    | .line report => report.directives.map (·.kind.name)
    | .completed _ => []

def directiveLines (events : List SetupEvent) : List String :=
  ((directiveNames events).foldl (fun counts name => countName name counts) []).map
    fun (name, count) => "  !" ++ padTo 20 name ++ " x" ++ Nat.repr count

def tableLine (block process completed : String) : String :=
  padTo 8 block ++ " " ++ padTo 8 process ++ " " ++ padTo 20 completed

def taskLine (run : Run) (task : Task) : String :=
  tableLine task.name ((run.scenario.processName? task.process).getD "?")
    (match task.completedAt with
      | some date => date.text
      | none => "-")

def equipmentLine (equipment : Equipment) : String :=
  equipment.name ++ ": " ++ Nat.repr equipment.path.size ++ " element(s) left on path"

def reportLines (run : Run) : List String :=
  tableLine "Block" "Process" "Completed" :: String.ofList (List.replicate 38 '-') ::
    ((run.scenario.tasks.tasks.filter (·.role == .source)).map (taskLine run) ++
      run.scenario.equipment.map equipmentLine)

def title : String := "=== open-pit — path directive demo ==="

def runStart : Instant := (parseDate? "2024-01-01").getD Instant.first

def config : Config :=
  { runStart, runEnd := addSpan runStart (Span.hours (24 * runDays)) }

def lines : List String × Except RunError Unit :=
  match Run.build config scenario library true with
  | .error error => ([title], .error error)
  | .ok run =>
      match run.parseAll with
      | (events, _, .error error) => (title :: eventLines events, .error error)
      | (events, run, .ok _) =>
          let setup := title :: eventLines events ++ directiveLines events ++ [""]
          match (List.range (24 * runDays)).foldlM (fun shift _ => hour shift)
              { run, now := runStart : Shift } with
          | .error error => (setup, .error error)
          | .ok shift => (setup ++ reportLines shift.run, .ok ())

end PathDirectives.OpenPit
