import PathDirectives.Run.Install

/-!
What a scheduler tells a run: that a task is complete, that equipment took up or released its work,
and that time has passed. A call that fails may have done a part of its work, which stays done.
-/

namespace PathDirectives

open Calendar

namespace Run

/-- Applies everything due by a date. The clock never goes back, and does not move if an action
fails. -/
def advanceTo (run : Run) (date : Instant) : Run × Except RunError Unit :=
  match run.site.drain run.agenda date with
  | (site, agenda, .ok ()) => ({ run with site, agenda, now := run.now.later date }, .ok ())
  | (site, agenda, .error error) => ({ run with site, agenda }, .error error)

/-- Tells one watch that a task is complete. If it waited for that task alone, its action is put on
the agenda. -/
def tellWatch (task : TaskId) (date : Instant) (told : List CompletionWatch × Agenda Action)
    (place : Nat) : List CompletionWatch × Agenda Action :=
  let (watches, agenda) := told
  match watches[place]? with
  | none => (watches, agenda)
  | some watch =>
      let waiting := watch.waiting.filter (· != task)
      match waiting.isEmpty, watch.action with
      | true, some action =>
          (watches.set place { watch with waiting, action := none },
            pushAfter agenda date watch.delay action)
      | _, _ => (watches.set place { watch with waiting }, agenda)

def tellWatches (run : Run) (task : TaskId) (date : Instant) :
    List CompletionWatch × Agenda Action :=
  (run.watchersOf task).foldl (tellWatch task date) (run.completions, run.agenda)

/-- A task is complete. The first report counts, and whatever is due by its date is applied; later
reports are passed over. -/
def taskCompleted (run : Run) (task : TaskId) (date : Instant) : Run × Except RunError Unit :=
  match run.scenario.tasks.complete task date with
  | .error error => (run, .error (RunError.graph error))
  | .ok (_, false) => (run, .ok ())
  | .ok (graph, true) =>
      let site := run.site.withGraph graph
      let holds := (site.holds.taskCompleted task date).1
      let (completions, agenda) := run.tellWatches task date
      let watchers := Keyed.erase task run.watchers
      { run with site := { site with holds }, completions, agenda, watchers }.advanceTo date

def changeEquipment (run : Run) (id : EquipmentId) (change : Equipment → Equipment) :
    Except RunError Run :=
  match run.scenario.equipmentOf id with
  | .error error => .error (.lookup error)
  | .ok _ =>
      .ok { run with
        site := { run.site with scenario := run.scenario.modifyEquipment id change } }

def arm (equipment : EquipmentId) (element : ElementId) (watch : SelectionWatch) :
    SelectionWatch :=
  if watch.equipment = equipment ∧ watch.action.isSome = true ∧ element ∈ watch.elements then
    { watch with armed := true }
  else watch

def taskSelected (run : Run) (equipment : EquipmentId) (element : ElementId) (task : TaskId) :
    Run × Except RunError Unit :=
  match run.changeEquipment equipment fun worker =>
      { worker with active := some ⟨element, task⟩ } with
  | .error error => (run, .error error)
  | .ok next =>
      ({ next with selections := next.selections.map (arm equipment element) }, .ok ())

def firesFor (equipment : EquipmentId) (watch : SelectionWatch) : Bool :=
  watch.equipment == equipment && watch.armed

def taskReleased (run : Run) (equipment : EquipmentId) : Run × Except RunError Unit :=
  match run.changeEquipment equipment fun worker => { worker with active := none } with
  | .error error => (run, .error error)
  | .ok next =>
      let due := (next.selections.filter (firesFor equipment)).filterMap (·.action)
      let selections := next.selections.map fun watch =>
        if firesFor equipment watch then { watch with action := none } else watch
      let (site, result) := next.site.applyAll due
      ({ next with site, selections }, result)

inductive Call where
  | parsePath (equipment : EquipmentId)
  | taskCompleted (task : TaskId) (date : Instant)
  | taskSelected (equipment : EquipmentId) (element : ElementId) (task : TaskId)
  | taskReleased (equipment : EquipmentId)
  | advanceTo (date : Instant)

def perform (run : Run) : Call → Run × Except RunError Unit
  | .parsePath equipment =>
      let (_, next, result) := run.parsePath equipment
      (next, result.map fun _ => ())
  | .taskCompleted task date => run.taskCompleted task date
  | .taskSelected equipment element task => run.taskSelected equipment element task
  | .taskReleased equipment => run.taskReleased equipment
  | .advanceTo date => run.advanceTo date

def performAll (run : Run) (calls : List Call) : Run :=
  calls.foldl (fun run call => (run.perform call).1) run

end Run

end PathDirectives
