import PathDirectives.Run.State

/-!
Reading a whole path and installing what it asks for. Reading changes nothing but a copy of the task
graph, on which later directives see the edges of earlier ones; only a path that reads to its end is
installed, and only once.
-/

namespace PathDirectives

open Calendar

structure LineReport where
  equipment : EquipmentId
  name : String
  line : WalkedLine
  directives : List Directive
  outcome : LineOutcome

inductive SetupEvent where
  | line (report : LineReport)
  | completed (summary : SetupSummary)

structure PathReading where
  graph : TaskGraph
  gate : Gate
  outcome : LineOutcome := {}
  reports : List LineReport := []

namespace Run

def interpreter (run : Run) (id : EquipmentId) (equipment : Equipment) (graph : TaskGraph) :
    Interpreter :=
  { config := run.config
    scenario := run.scenario
    graph
    library := run.library
    id
    equipment }

def stage (graph : TaskGraph) : List Effect → TaskGraph × Except GraphError Unit
  | [] => (graph, .ok ())
  | .now (.addDependencies tasks predecessors delay rule) :: rest =>
      match graph.addEdges delay rule (TaskGraph.pairs tasks predecessors) with
      | (next, .ok ()) => stage next rest
      | (next, .error error) => (next, .error error)
  | _ :: rest => stage graph rest

def interpretAll (run : Run) (id : EquipmentId) (equipment : Equipment) (line : WalkedLine)
    (graph : TaskGraph) (outcome : LineOutcome) :
    List Directive → Except RunError (TaskGraph × LineOutcome)
  | [] => .ok (graph, outcome)
  | directive :: rest =>
      match (run.interpreter id equipment graph).interpret line directive with
      | .error error => .error (.onLine equipment.name line.number error)
      | .ok part =>
          match stage graph part.effects with
          | (_, .error error) => .error (RunError.graph error)
          | (next, .ok ()) =>
              run.interpretAll id equipment line next (outcome.append part) rest

def readLine (run : Run) (id : EquipmentId) (equipment : Equipment) (reading : PathReading)
    (line : WalkedLine) : Except RunError PathReading :=
  match (run.interpreter id equipment reading.graph).directives line reading.gate with
  | (_, .error error) => .error (.onLine equipment.name line.number error)
  | (gate, .ok directives) =>
      match run.interpretAll id equipment line reading.graph {} directives with
      | .error error => .error error
      | .ok (graph, outcome) =>
          .ok
            { graph
              gate
              outcome := reading.outcome.append outcome
              reports :=
                reading.reports ++ [⟨id, equipment.name, line, directives, outcome⟩] }

def readLines (run : Run) (id : EquipmentId) (equipment : Equipment) (reading : PathReading) :
    List WalkedLine → PathReading × Except RunError Unit
  | [] => (reading, .ok ())
  | line :: more =>
      match run.readLine id equipment reading line with
      | .error error => (reading, .error error)
      | .ok next => run.readLines id equipment next more

def readPath (run : Run) (id : EquipmentId) (equipment : Equipment) :
    PathReading × Except RunError Unit :=
  run.readLines id equipment
    { graph := run.scenario.tasks, gate := Gate.new run.config.requireEnable }
    (walk equipment.pathText equipment.path.elements)

def pastCompletions (graph : TaskGraph) (counter : WaitCounter) : List (TaskId × Instant) :=
  counter.predecessors.ids.filterMap fun task =>
    (graph.completedAt? task).map fun date => (task, date)

/-- Puts a record into the register. A counter is told at once of what is complete already; a window
has its opening and its closing put on the agenda. -/
def register (run : Run) : Registration → Run
  | .wait key counter =>
      let past := pastCompletions run.scenario.tasks counter
      let holds := (run.holds.addWait key counter).1
      let holds := past.foldl (fun holds (task, date) => (holds.taskCompleted task date).1) holds
      { run with site := { run.site with holds } }
  | .window key window =>
      let (holds, handle) := run.holds.addWindow key window
      { run with
        site := { run.site with holds }
        agenda :=
          (run.agenda.push window.start (.activateWindow handle)).push window.stop
            (.deactivateWindow handle) }

def latest? : List Instant → Option Instant
  | [] => none
  | date :: rest =>
      match latest? rest with
      | none => some date
      | some other => some (date.later other)

def schedule (run : Run) : Effect → Run × Except RunError Unit
  | .now action =>
      let (site, result) := run.site.apply action
      ({ run with site }, result)
  | .onDate date action => ({ run with agenda := run.agenda.push date action }, .ok ())
  | .onCompletion tasks delay action =>
      let graph := run.scenario.tasks
      let waiting := tasks.filter fun task => !graph.isComplete task
      if waiting.isEmpty then
        let last := (latest? (tasks.ids.filterMap graph.completedAt?)).getD run.now
        ({ run with agenda := pushAfter run.agenda last delay action }, .ok ())
      else
        ({ run with
            completions := run.completions ++ [⟨waiting, delay, some action⟩]
            watchers := Keyed.file run.completions.length waiting.ids run.watchers },
          .ok ())
  | .onSelection equipment elements action =>
      ({ run with
          selections := run.selections ++ [{ equipment, elements, action := some action }] },
        .ok ())

def scheduleAll (run : Run) : List Effect → Run × Except RunError Unit
  | [] => (run, .ok ())
  | effect :: rest =>
      match run.schedule effect with
      | (next, .ok ()) => next.scheduleAll rest
      | (next, .error error) => (next, .error error)

def commit (run : Run) (outcome : LineOutcome) : Run × Except RunError Unit :=
  (outcome.registrations.foldl register run).scheduleAll outcome.effects

/-- Reads and installs the path of an equipment, and tells whether it has done so now. Every line
that was read is reported, also where a later one fails. -/
def parsePath (run : Run) (id : EquipmentId) : List LineReport × Run × Except RunError Bool :=
  if run.isParsed id then ([], run, .ok false)
  else
    match run.scenario.equipmentOf id with
    | .error error => ([], run, .error (.lookup error))
    | .ok equipment =>
        match run.readPath id equipment with
        | (reading, .error error) => (reading.reports, run, .error error)
        | (reading, .ok ()) =>
            match run.commit reading.outcome with
            | (next, .error error) => (reading.reports, next, .error error)
            | (next, .ok ()) =>
                (reading.reports, { next with parsed := next.parsed ++ [id] }, .ok true)

def finishSetup (run : Run) : List SetupEvent × Run × SetupSummary :=
  if run.setupDone then ([], run, run.summary)
  else ([.completed run.summary], { run with setupDone := true }, run.summary)

def parseEach (run : Run) : List EquipmentId → List SetupEvent × Run × Except RunError Unit
  | [] => ([], run, .ok ())
  | id :: rest =>
      match run.parsePath id with
      | (reports, next, .error error) => (reports.map .line, next, .error error)
      | (reports, next, .ok _) =>
          let (events, last, result) := next.parseEach rest
          (reports.map .line ++ events, last, result)

/-- Installs the paths of all equipment, up to the first that fails, and then finishes setup. -/
def parseAll (run : Run) : List SetupEvent × Run × Except RunError SetupSummary :=
  match run.parseEach run.scenario.equipmentIds with
  | (events, next, .error error) => (events, next, .error error)
  | (events, next, .ok ()) =>
      let (more, last, summary) := next.finishSetup
      (events ++ more, last, .ok summary)

end Run

end PathDirectives
