/-!
Names by number for what a scenario holds. Tasks, equipment and processes are numbered by their
place in the scenario, and path elements by their place in the history of their path.
-/

namespace PathDirectives

structure EquipmentId where
  index : Nat
  deriving DecidableEq, Repr

structure TaskId where
  index : Nat
  deriving DecidableEq, Repr

structure ProcessId where
  index : Nat
  deriving DecidableEq, Repr

structure ElementId where
  index : Nat
  deriving DecidableEq, Repr

def EquipmentId.text (id : EquipmentId) : String := "equipment#" ++ Nat.repr id.index

def TaskId.text (id : TaskId) : String := "task#" ++ Nat.repr id.index

def ProcessId.text (id : ProcessId) : String := "process#" ++ Nat.repr id.index

def ElementId.text (id : ElementId) : String := "element#" ++ Nat.repr id.index

def idCount : Nat := 4294967296

def processCount : Nat := 65536

def EquipmentId.ofIndex? (index : Nat) : Option EquipmentId :=
  if index < idCount then some ⟨index⟩ else none

def TaskId.ofIndex? (index : Nat) : Option TaskId :=
  if index < idCount then some ⟨index⟩ else none

def ProcessId.ofIndex? (index : Nat) : Option ProcessId :=
  if index < processCount then some ⟨index⟩ else none

def ElementId.ofIndex? (index : Nat) : Option ElementId :=
  if index < idCount then some ⟨index⟩ else none

end PathDirectives
