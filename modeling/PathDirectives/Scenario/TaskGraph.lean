import PathDirectives.Calendar.Instant
import PathDirectives.Scenario.TaskSet

/-!
Tasks and the edges to their predecessors. A task keeps its own edges, in the order in which they
were first added and one per predecessor, and the date of its completion, which is set once.
-/

namespace PathDirectives

open Calendar

inductive TaskRole where
  | source
  | destination
  deriving DecidableEq, Repr

/-- The owner may start once `predecessor` is complete and `delay` has passed since. -/
structure Dependency where
  predecessor : TaskId
  delay : Span
  rule : String
  deriving DecidableEq

structure Task where
  name : String
  role : TaskRole
  process : ProcessId
  predecessors : List Dependency := []
  completedAt : Option Instant := none
  deriving DecidableEq

def Task.isComplete (task : Task) : Bool := task.completedAt.isSome

/-- All tasks of a scenario; the id of a task is its place. -/
structure TaskGraph where
  tasks : List Task := []
  deriving DecidableEq

inductive GraphError where
  | unknownTask (id : TaskId)
  deriving DecidableEq

def GraphError.message : GraphError → String
  | .unknownTask id => id.text ++ " is not part of this case"

namespace TaskGraph

def size (graph : TaskGraph) : Nat := graph.tasks.length

def ids (graph : TaskGraph) : List TaskId := (List.range graph.size).map TaskId.mk

def get? (graph : TaskGraph) (id : TaskId) : Option Task := graph.tasks[id.index]?

def get (graph : TaskGraph) (id : TaskId) : Except GraphError Task :=
  match graph.get? id with
  | some task => .ok task
  | none => .error (.unknownTask id)

def modify (graph : TaskGraph) (id : TaskId) (change : Task → Task) : TaskGraph :=
  ⟨graph.tasks.modify id.index change⟩

def addTask (graph : TaskGraph) (name : String) (role : TaskRole) (process : ProcessId) :
    TaskGraph :=
  let task : Task := { name, role, process }
  ⟨graph.tasks ++ [task]⟩

def predecessors (graph : TaskGraph) (id : TaskId) : List TaskId :=
  match graph.get? id with
  | some task => task.predecessors.map (·.predecessor)
  | none => []

def externalPredecessors (graph : TaskGraph) (set : TaskSet) : TaskSet :=
  (TaskSet.ofList (set.ids.flatMap graph.predecessors)).diff set

/-- An edge list with `edge` put in place of the first one with the same predecessor, or at the
end. -/
def putEdge (edge : Dependency) : List Dependency → List Dependency
  | [] => [edge]
  | other :: rest =>
      if other.predecessor = edge.predecessor then edge :: rest else other :: putEdge edge rest

/-- Adds an edge to a task, in place of one from the same predecessor. An edge from a task to itself
is left out. Tells whether the edge is a new one. -/
def addDependency (graph : TaskGraph) (id : TaskId) (edge : Dependency) :
    Except GraphError (TaskGraph × Bool) :=
  if edge.predecessor = id then .ok (graph, false)
  else
    match graph.get? edge.predecessor, graph.get? id with
    | none, _ => .error (.unknownTask edge.predecessor)
    | some _, none => .error (.unknownTask id)
    | some _, some task =>
        .ok
          (graph.modify id fun task => { task with predecessors := putEdge edge task.predecessors },
           !task.predecessors.any (·.predecessor == edge.predecessor))

def keptEdges (only : Option TaskSet) (edges : List Dependency) : List Dependency :=
  edges.filter fun edge =>
    match only with
    | some set => !set.contains edge.predecessor
    | none => false

def removeDependencies (graph : TaskGraph) (id : TaskId) (only : Option TaskSet) :
    Except GraphError (TaskGraph × Nat) :=
  match graph.get? id with
  | none => .error (.unknownTask id)
  | some task =>
      .ok
        (graph.modify id fun task => { task with predecessors := keptEdges only task.predecessors },
         task.predecessors.length - (keptEdges only task.predecessors).length)

def complete (graph : TaskGraph) (id : TaskId) (date : Instant) :
    Except GraphError (TaskGraph × Bool) :=
  match graph.get? id with
  | none => .error (.unknownTask id)
  | some task =>
      if task.isComplete then .ok (graph, false)
      else .ok (graph.modify id fun task => { task with completedAt := some date }, true)

def completedAt? (graph : TaskGraph) (id : TaskId) : Option Instant :=
  (graph.get? id).bind (·.completedAt)

def isComplete (graph : TaskGraph) (id : TaskId) : Bool :=
  (graph.completedAt? id).isSome

def edgeSatisfied (graph : TaskGraph) (date : Instant) (edge : Dependency) : Bool :=
  match graph.completedAt? edge.predecessor with
  | none => false
  | some completed =>
      match completed.add? edge.delay with
      | none => false
      | some ready => ready ≤ date

def dependenciesSatisfied (graph : TaskGraph) (id : TaskId) (date : Instant) : Bool :=
  match graph.get? id with
  | none => true
  | some task => task.predecessors.all (graph.edgeSatisfied date)

/-- Adds an edge from every predecessor to every task, in id order, up to the first that fails. -/
def addEdges (graph : TaskGraph) (delay : Span) (rule : String) :
    List (TaskId × TaskId) → TaskGraph × Except GraphError Unit
  | [] => (graph, .ok ())
  | (id, predecessor) :: rest =>
      match graph.addDependency id ⟨predecessor, delay, rule⟩ with
      | .ok (next, _) => next.addEdges delay rule rest
      | .error error => (graph, .error error)

def pairs (tasks predecessors : TaskSet) : List (TaskId × TaskId) :=
  tasks.ids.flatMap fun id => predecessors.ids.map fun predecessor => (id, predecessor)

def dropEdges (graph : TaskGraph) (only : Option TaskSet) :
    List TaskId → TaskGraph × Except GraphError Unit
  | [] => (graph, .ok ())
  | id :: rest =>
      match graph.removeDependencies id only with
      | .ok (next, _) => next.dropEdges only rest
      | .error error => (graph, .error error)

end TaskGraph

end PathDirectives
