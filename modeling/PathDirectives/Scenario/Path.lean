import PathDirectives.Calendar.Instant
import PathDirectives.Scenario.TaskSet

/-!
The path of one equipment: elements in working order, each with an id of its own and the line of
path text that it came from. Ids are handed out in turn and never again.
-/

namespace PathDirectives

open Calendar

inductive StepRate where
  | planned
  | perHour (rate : Float)
  | instant

structure Step where
  source : TaskId
  destination : Option TaskId := none
  quantity : Option Float := none
  duration : Option Span := none
  rate : StepRate := .planned
  ignoreConstraints : Bool := false

def Step.tasks (step : Step) : List TaskId := step.source :: step.destination.toList

inductive ElementKind where
  | steps (steps : List Step)
  | delay (duration : Span)
  | until (date : Instant)
  | idle (process : ProcessId) (duration : Span)

def ElementKind.stepList : ElementKind → List Step
  | .steps group => group
  | _ => []

structure Element where
  id : ElementId
  line : Nat
  kind : ElementKind

def Element.steps (element : Element) : List Step := element.kind.stepList

def Element.tasks (element : Element) : List TaskId := element.steps.flatMap Step.tasks

structure Path where
  elements : List Element := []
  nextId : Nat := 0

namespace Path

def ids (path : Path) : List ElementId := path.elements.map (·.id)

def size (path : Path) : Nat := path.elements.length

def isEmpty (path : Path) : Bool := path.elements.isEmpty

def get? (path : Path) (id : ElementId) : Option Element := path.elements.find? (·.id == id)

def contains (path : Path) (id : ElementId) : Bool := path.elements.any (·.id == id)

def allocate (path : Path) (line : Nat) (kind : ElementKind) : Path × Element :=
  ({ path with nextId := path.nextId + 1 }, ⟨⟨path.nextId⟩, line, kind⟩)

def push (path : Path) (line : Nat) (kind : ElementKind) : Path :=
  { elements := path.elements ++ [⟨⟨path.nextId⟩, line, kind⟩], nextId := path.nextId + 1 }

def remove (path : Path) (id : ElementId) : Path :=
  { path with elements := path.elements.eraseP (·.id == id) }

def removeAll (path : Path) (ids : List ElementId) : Path :=
  ids.foldl remove path

def insertFirst (path : Path) (element : Element) : Path :=
  { path with elements := element :: path.elements }

/-- A list with an element put after the first one called `anchor`, or else at the end. -/
def placeAfter (anchor : ElementId) (element : Element) : List Element → List Element
  | [] => [element]
  | head :: tail =>
      if head.id = anchor then head :: element :: tail
      else head :: placeAfter anchor element tail

/-- Puts an element after `anchor`, or at the end if that is not on the path. -/
def insertAfter (path : Path) (anchor : ElementId) (element : Element) : Path :=
  { path with elements := placeAfter anchor element path.elements }

def pushFirst (path : Path) (line : Nat) (kind : ElementKind) : Path :=
  let (path, element) := path.allocate line kind
  path.insertFirst element

def insertSteps (path : Path) (line : Nat) (anchor : ElementId) : List Step → Path
  | [] => path
  | step :: rest =>
      let (path, element) := path.allocate line (.steps [step])
      (path.insertAfter anchor element).insertSteps line element.id rest

/-- Brings the listed elements to the front; these and the others each keep their order. -/
def moveToFront (path : Path) (ids : List ElementId) : Path :=
  { path with
    elements :=
      path.elements.filter (fun element => ids.contains element.id) ++
        path.elements.filter fun element => !ids.contains element.id }

def countOf (path : Path) (ids : List ElementId) : Nat :=
  (path.elements.filter fun element => ids.contains element.id).length

end Path

end PathDirectives
