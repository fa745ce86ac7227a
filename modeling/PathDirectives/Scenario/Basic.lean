import PathDirectives.Scenario.Path
import PathDirectives.Scenario.TaskGraph
import PathDirectives.Text.Blank
import PathDirectives.Text.Lowercase
import PathDirectives.Text.Quoted

/-!
A scenario: the processes, tasks and equipment of one scheduling run. Names are looked up without
regard to the case of ASCII letters, and the first that fits is found.
-/

namespace PathDirectives

structure ActiveWork where
  element : ElementId
  task : TaskId
  deriving DecidableEq

/-- A worker and its path. Its id is not a field of its own: it is the place of the equipment in the
scenario, to which `Scenario.addEquipment` adds at the end and from which nothing is removed. -/
structure Equipment where
  name : String
  pathText : String := ""
  path : Path := {}
  inactiveProcess : Option ProcessId := none
  active : Option ActiveWork := none

structure Process where
  id : ProcessId
  name : String

structure Scenario where
  processes : List Process := []
  tasks : TaskGraph := {}
  equipment : List Equipment := []

inductive LookupError where
  | unknownProcess (name : String)
  | unknownEquipment (name : String)
  | unknownEquipmentId (id : EquipmentId)
  | graph (error : GraphError)
  deriving DecidableEq

def LookupError.message : LookupError → String
  | .unknownProcess name => "unknown process " ++ Text.quoted name
  | .unknownEquipment name => "unknown equipment " ++ Text.quoted name
  | .unknownEquipmentId id => id.text ++ " is not part of this case"
  | .graph error => error.message

namespace Scenario

/-- Process numbers start over once they are used up. -/
def addProcess (scenario : Scenario) (name : String) : Scenario :=
  { scenario with
    processes := scenario.processes ++ [⟨⟨scenario.processes.length % processCount⟩, name⟩] }

def addTask (scenario : Scenario) (name : String) (role : TaskRole) (process : ProcessId) :
    Scenario :=
  { scenario with tasks := scenario.tasks.addTask name role process }

def addEquipment (scenario : Scenario) (equipment : Equipment) : Scenario :=
  { scenario with equipment := scenario.equipment ++ [equipment] }

def processByName (scenario : Scenario) (name : String) : Except LookupError ProcessId :=
  let name := Text.trimmed name
  match scenario.processes.find? fun process => Text.sameWord process.name name with
  | some process => .ok process.id
  | none => .error (.unknownProcess name)

def processName? (scenario : Scenario) (id : ProcessId) : Option String :=
  scenario.processes[id.index]?.map (·.name)

def equipmentByName (scenario : Scenario) (name : String) : Except LookupError EquipmentId :=
  let name := Text.trimmed name
  match scenario.equipment.findIdx? fun equipment => Text.sameWord equipment.name name with
  | some index => .ok ⟨index⟩
  | none => .error (.unknownEquipment name)

def equipment? (scenario : Scenario) (id : EquipmentId) : Option Equipment :=
  scenario.equipment[id.index]?

def equipmentOf (scenario : Scenario) (id : EquipmentId) : Except LookupError Equipment :=
  match scenario.equipment? id with
  | some equipment => .ok equipment
  | none => .error (.unknownEquipmentId id)

def equipmentIds (scenario : Scenario) : List EquipmentId :=
  (List.range scenario.equipment.length).map EquipmentId.mk

def modifyEquipment (scenario : Scenario) (id : EquipmentId) (change : Equipment → Equipment) :
    Scenario :=
  { scenario with equipment := scenario.equipment.modify id.index change }

def changePath (scenario : Scenario) (id : EquipmentId) (change : Path → Path) :
    Except LookupError Scenario :=
  match scenario.equipment? id with
  | some _ =>
      .ok (scenario.modifyEquipment id fun equipment =>
        { equipment with path := change equipment.path })
  | none => .error (.unknownEquipmentId id)

def findTask? (scenario : Scenario) (name : String) (role : TaskRole) : Option TaskId :=
  (scenario.tasks.tasks.findIdx? fun task => task.role == role && Text.sameWord task.name name).map
    TaskId.mk

end Scenario

end PathDirectives
