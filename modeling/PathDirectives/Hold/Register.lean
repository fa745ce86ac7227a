import PathDirectives.Hold.Window
import PathDirectives.Keyed

/-!
The register of all holds: what is on each pair of an equipment and a task, and which counters wait
for each task. A handle names one counter or window for as long as the register lives.
-/

namespace PathDirectives

open Calendar

structure HoldKey where
  equipment : EquipmentId
  task : TaskId
  deriving DecidableEq

def HoldKey.text (key : HoldKey) : String :=
  "(" ++ key.equipment.text ++ ", " ++ key.task.text ++ ")"

structure Waits where
  counters : List WaitCounter := []
  windows : List TimeWindow := []
  deriving DecidableEq

/-- A waiting counter makes a task unavailable; else an open allowing window makes it available, and
else an open suppressing window or an allowing one that has not opened yet makes it unavailable. -/
def Waits.isAvailable (waits : Waits) (date : Instant) : Bool :=
  if waits.counters.any (·.isWaiting date) then false
  else if waits.windows.any fun window => window.isAllowing && window.isActive then true
  else
    !waits.windows.any fun window =>
      window.isSuppressing && window.isActive || window.isAllowing && window.isPending

structure CounterHandle where
  key : HoldKey
  index : Nat
  deriving DecidableEq

structure WindowHandle where
  key : HoldKey
  index : Nat
  deriving DecidableEq

inductive HoldError where
  | unknownWindow (handle : WindowHandle)
  deriving DecidableEq

def HoldError.message : HoldError → String
  | .unknownWindow handle =>
      "no time constraint #" ++ Nat.repr handle.index ++ " registered for " ++ handle.key.text

structure HoldRegister where
  waits : List (HoldKey × Waits) := []
  waiting : List (TaskId × List CounterHandle) := []
  deriving DecidableEq

namespace HoldRegister

def waits? (register : HoldRegister) (key : HoldKey) : Option Waits :=
  Keyed.find? key register.waits

def waitsOf (register : HoldRegister) (key : HoldKey) : Waits :=
  (register.waits? key).getD {}

def counter? (register : HoldRegister) (handle : CounterHandle) : Option WaitCounter :=
  (register.waits? handle.key).bind fun waits => waits.counters[handle.index]?

def window? (register : HoldRegister) (handle : WindowHandle) : Option TimeWindow :=
  (register.waits? handle.key).bind fun waits => waits.windows[handle.index]?

def addWait (register : HoldRegister) (key : HoldKey) (counter : WaitCounter) :
    HoldRegister × CounterHandle :=
  let handle : CounterHandle := ⟨key, (register.waitsOf key).counters.length⟩
  ({ waits :=
      Keyed.update key {} (fun waits => { waits with counters := waits.counters ++ [counter] })
        register.waits
     waiting := Keyed.file handle counter.predecessors.ids register.waiting },
   handle)

def addWindow (register : HoldRegister) (key : HoldKey) (window : TimeWindow) :
    HoldRegister × WindowHandle :=
  let handle : WindowHandle := ⟨key, (register.waitsOf key).windows.length⟩
  ({ register with
      waits :=
        Keyed.update key {} (fun waits => { waits with windows := waits.windows ++ [window] })
          register.waits },
   handle)

def modifyCounter (register : HoldRegister) (handle : CounterHandle)
    (change : WaitCounter → WaitCounter) : HoldRegister :=
  { register with
    waits :=
      Keyed.modify handle.key
        (fun waits => { waits with counters := waits.counters.modify handle.index change })
        register.waits }

def modifyWindow (register : HoldRegister) (handle : WindowHandle)
    (change : TimeWindow → TimeWindow) : HoldRegister :=
  { register with
    waits :=
      Keyed.modify handle.key
        (fun waits => { waits with windows := waits.windows.modify handle.index change })
        register.waits }

def tell (task : TaskId) (date : Instant) (told : HoldRegister × Nat) (handle : CounterHandle) :
    HoldRegister × Nat :=
  let (register, count) := told
  match register.counter? handle with
  | some counter =>
      (register.modifyCounter handle (·.taskCompleted task date),
       if counter.counts task then count + 1 else count)
  | none => (register, count)

def taskCompleted (register : HoldRegister) (task : TaskId) (date : Instant) :
    HoldRegister × Nat :=
  ((Keyed.find? task register.waiting).getD []).foldl (tell task date) (register, 0)

/-- Changes a window that must be there. -/
def changeWindow (register : HoldRegister) (handle : WindowHandle)
    (change : TimeWindow → TimeWindow) : Except HoldError HoldRegister :=
  match register.window? handle with
  | some _ => .ok (register.modifyWindow handle change)
  | none => .error (.unknownWindow handle)

def activate (register : HoldRegister) (handle : WindowHandle) : Except HoldError HoldRegister :=
  register.changeWindow handle TimeWindow.activate

def deactivate (register : HoldRegister) (handle : WindowHandle) :
    Except HoldError HoldRegister :=
  register.changeWindow handle TimeWindow.deactivate

def isAvailable (register : HoldRegister) (equipment : EquipmentId) (task : TaskId)
    (date : Instant) : Bool :=
  match register.waits? ⟨equipment, task⟩ with
  | some waits => waits.isAvailable date
  | none => true

def size (register : HoldRegister) : Nat := register.waits.length

def isEmpty (register : HoldRegister) : Bool := register.waits.isEmpty

def counterCount (register : HoldRegister) : Nat :=
  (register.waits.flatMap fun entry => entry.2.counters).length

def windowCount (register : HoldRegister) : Nat :=
  (register.waits.flatMap fun entry => entry.2.windows).length

end HoldRegister

end PathDirectives
