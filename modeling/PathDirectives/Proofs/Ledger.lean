import PathDirectives.Proofs.Register

/-!
The register against a ledger that keeps no index: one list of all counters and one of all windows,
and every counter visited on each completion. A register that starts empty answers every sequence of
calls as the ledger does, and its records are what the calls themselves say.
-/

namespace PathDirectives

open Calendar

inductive HoldCall where
  | addWait (key : HoldKey) (predecessors : TaskSet) (delay : Span) (origin : Origin)
  | addWindow (key : HoldKey) (mode : TimeMode) (start stop : Instant) (origin : Origin)
  | taskCompleted (task : TaskId) (date : Instant)
  | activate (handle : WindowHandle)
  | deactivate (handle : WindowHandle)

inductive HoldReply where
  | counter (handle : CounterHandle)
  | window (handle : WindowHandle)
  | told (count : Nat)
  | changed
  | refused (error : HoldError)

namespace HoldRegister

def settle (register : HoldRegister) : Except HoldError HoldRegister → HoldRegister × HoldReply
  | .ok next => (next, .changed)
  | .error error => (register, .refused error)

def perform (register : HoldRegister) : HoldCall → HoldRegister × HoldReply
  | .addWait key predecessors delay origin =>
      let (next, handle) := register.addWait key (WaitCounter.new predecessors delay origin)
      (next, .counter handle)
  | .addWindow key mode start stop origin =>
      let (next, handle) := register.addWindow key { mode, start, stop, origin }
      (next, .window handle)
  | .taskCompleted task date =>
      let (next, count) := register.taskCompleted task date
      (next, .told count)
  | .activate handle => register.settle (register.activate handle)
  | .deactivate handle => register.settle (register.deactivate handle)

def performAll (register : HoldRegister) (calls : List HoldCall) : HoldRegister :=
  calls.foldl (fun register call => (register.perform call).1) register

def replies (register : HoldRegister) : List HoldCall → List HoldReply
  | [] => []
  | call :: rest => (register.perform call).2 :: (register.perform call).1.replies rest

end HoldRegister

structure Ledger where
  counters : List (HoldKey × WaitCounter) := []
  windows : List (HoldKey × TimeWindow) := []

namespace Ledger

variable {α : Type}

def under (key : HoldKey) (entries : List (HoldKey × α)) : List α :=
  (entries.filter fun entry => entry.1 = key).map (·.2)

def changeUnder (key : HoldKey) (change : α → α) :
    Nat → List (HoldKey × α) → List (HoldKey × α)
  | _, [] => []
  | 0, (other, record) :: rest =>
      if other = key then (other, change record) :: rest
      else (other, record) :: changeUnder key change 0 rest
  | index + 1, (other, record) :: rest =>
      if other = key then (other, record) :: changeUnder key change index rest
      else (other, record) :: changeUnder key change (index + 1) rest

def waitsOf (ledger : Ledger) (key : HoldKey) : Waits :=
  ⟨under key ledger.counters, under key ledger.windows⟩

def awaiting (ledger : Ledger) (task : TaskId) : Nat :=
  ledger.counters.countP fun entry => entry.2.counts task

def changeWindow (ledger : Ledger) (handle : WindowHandle) (change : TimeWindow → TimeWindow) :
    Ledger × HoldReply :=
  if handle.index < (under handle.key ledger.windows).length then
    ({ ledger with windows := changeUnder handle.key change handle.index ledger.windows },
     .changed)
  else (ledger, .refused (.unknownWindow handle))

def perform (ledger : Ledger) : HoldCall → Ledger × HoldReply
  | .addWait key predecessors delay origin =>
      ({ ledger with
          counters := ledger.counters ++ [(key, WaitCounter.new predecessors delay origin)] },
       .counter ⟨key, (under key ledger.counters).length⟩)
  | .addWindow key mode start stop origin =>
      ({ ledger with windows := ledger.windows ++ [(key, { mode, start, stop, origin })] },
       .window ⟨key, (under key ledger.windows).length⟩)
  | .taskCompleted task date =>
      ({ ledger with
          counters := ledger.counters.map fun entry => (entry.1, entry.2.taskCompleted task date) },
       .told (ledger.awaiting task))
  | .activate handle => ledger.changeWindow handle TimeWindow.activate
  | .deactivate handle => ledger.changeWindow handle TimeWindow.deactivate

def performAll (ledger : Ledger) (calls : List HoldCall) : Ledger :=
  calls.foldl (fun ledger call => (ledger.perform call).1) ledger

def replies (ledger : Ledger) : List HoldCall → List HoldReply
  | [] => []
  | call :: rest => (ledger.perform call).2 :: (ledger.perform call).1.replies rest

@[simp] theorem under_nil (key : HoldKey) : under key ([] : List (HoldKey × α)) = [] := by
  simp [under]

@[simp] theorem under_cons (key other : HoldKey) (record : α) (entries : List (HoldKey × α)) :
    under key ((other, record) :: entries) =
      if other = key then record :: under key entries else under key entries := by
  by_cases same : other = key <;> simp [under, same]

theorem under_concat (key other : HoldKey) (record : α) (entries : List (HoldKey × α)) :
    under key (entries ++ [(other, record)]) =
      if other = key then under key entries ++ [record] else under key entries := by
  by_cases same : other = key <;> simp [under, List.filter_append, same]

theorem under_map (key : HoldKey) (change : α → α) (entries : List (HoldKey × α)) :
    under key (entries.map fun entry => (entry.1, change entry.2)) =
      (under key entries).map change := by
  simp [under, List.filter_map, Function.comp_def]

theorem under_changeUnder (key other : HoldKey) (change : α → α) (index : Nat)
    (entries : List (HoldKey × α)) :
    under key (changeUnder other change index entries) =
      if other = key then (under key entries).modify index change else under key entries := by
  induction entries generalizing index with
  | nil => cases index <;> simp [changeUnder]
  | cons entry rest ih =>
      obtain ⟨head, record⟩ := entry
      by_cases counted : head = other
      · subst counted
        by_cases own : head = key
        · subst own
          cases index with
          | zero => simp [changeUnder]
          | succ index => simpa [changeUnder] using ih index
        · cases index with
          | zero => simp [changeUnder, own]
          | succ index => simpa [changeUnder, own] using ih index
      · have passed : changeUnder other change index ((head, record) :: rest) =
            (head, record) :: changeUnder other change index rest := by
          cases index <;> simp [changeUnder, counted]
        rw [passed, under_cons, under_cons, ih]
        by_cases own : other = key
        · have apart : ¬ head = key := fun same => counted (same.trans own.symm)
          simp [own, apart]
        · simp [own]

end Ledger

def Waits.perform (key : HoldKey) (waits : Waits) : HoldCall → Waits
  | .addWait other predecessors delay origin =>
      if other = key then
        { waits with
          counters := waits.counters ++ [WaitCounter.new predecessors delay origin] }
      else waits
  | .addWindow other mode start stop origin =>
      if other = key then
        { waits with windows := waits.windows ++ [{ mode, start, stop, origin }] }
      else waits
  | .taskCompleted task date =>
      { waits with counters := waits.counters.map (·.taskCompleted task date) }
  | .activate handle =>
      if handle.key = key then
        { waits with windows := waits.windows.modify handle.index TimeWindow.activate }
      else waits
  | .deactivate handle =>
      if handle.key = key then
        { waits with windows := waits.windows.modify handle.index TimeWindow.deactivate }
      else waits

namespace Ledger

theorem waitsOf_changeWindow (ledger : Ledger) (handle : WindowHandle)
    (change : TimeWindow → TimeWindow) (key : HoldKey) :
    (ledger.changeWindow handle change).1.waitsOf key =
      if handle.key = key then
        { ledger.waitsOf key with
          windows := (ledger.waitsOf key).windows.modify handle.index change }
      else ledger.waitsOf key := by
  unfold changeWindow
  split
  · simp only [waitsOf, under_changeUnder]
    split <;> rfl
  · rename_i beyond
    split
    · rename_i same
      subst same
      simp only [waitsOf, List.modify_eq_self (Nat.le_of_not_lt beyond)]
    · rfl

theorem waitsOf_perform (ledger : Ledger) (call : HoldCall) (key : HoldKey) :
    (ledger.perform call).1.waitsOf key = (ledger.waitsOf key).perform key call := by
  cases call with
  | addWait other predecessors delay origin =>
      simp only [perform, waitsOf, under_concat, Waits.perform]
      split <;> rfl
  | addWindow other mode start stop origin =>
      simp only [perform, waitsOf, under_concat, Waits.perform]
      split <;> rfl
  | taskCompleted task date =>
      simp only [perform, waitsOf, Waits.perform]
      rw [under_map key fun counter : WaitCounter => counter.taskCompleted task date]
  | activate handle => exact ledger.waitsOf_changeWindow handle _ key
  | deactivate handle => exact ledger.waitsOf_changeWindow handle _ key

end Ledger

namespace HoldRegister

variable {register : HoldRegister}

theorem waitsOf_settle_changeWindow (register : HoldRegister) (handle : WindowHandle)
    (change : TimeWindow → TimeWindow) (key : HoldKey) :
    (register.settle (register.changeWindow handle change)).1.waitsOf key =
      if handle.key = key then
        { register.waitsOf key with
          windows := (register.waitsOf key).windows.modify handle.index change }
      else register.waitsOf key := by
  cases found : register.window? handle with
  | some window =>
      simp only [changeWindow, found, settle, waitsOf_modifyWindow, eq_comm]
  | none =>
      simp only [changeWindow, found, settle]
      split
      · rename_i same
        subst same
        rw [window?_eq, List.getElem?_eq_none_iff] at found
        rw [List.modify_eq_self found]
      · rfl

theorem Indexed.waitsOf_perform (indexed : register.Indexed) (call : HoldCall) (key : HoldKey) :
    (register.perform call).1.waitsOf key = (register.waitsOf key).perform key call := by
  cases call with
  | addWait other predecessors delay origin =>
      simp only [perform, waitsOf_addWait, Waits.perform, eq_comm]
      split
      · rename_i same
        subst same
        rfl
      · rfl
  | addWindow other mode start stop origin =>
      simp only [perform, waitsOf_addWindow, Waits.perform, eq_comm]
      split
      · rename_i same
        subst same
        rfl
      · rfl
  | taskCompleted task date =>
      have counters := indexed.counters_taskCompleted task date key
      have windows := register.windows_taskCompleted task date key
      simp only [perform, Waits.perform]
      rw [← counters, ← windows]
  | activate handle => exact register.waitsOf_settle_changeWindow handle _ key
  | deactivate handle => exact register.waitsOf_settle_changeWindow handle _ key

theorem Indexed.settle_changeWindow (indexed : register.Indexed) (handle : WindowHandle)
    (change : TimeWindow → TimeWindow) :
    (register.settle (register.changeWindow handle change)).1.Indexed := by
  cases found : register.window? handle with
  | some window =>
      simp only [changeWindow, found, settle]
      exact indexed.modifyWindow handle change
  | none =>
      simp only [changeWindow, found, settle]
      exact indexed

theorem Indexed.perform (indexed : register.Indexed) (call : HoldCall) :
    (register.perform call).1.Indexed := by
  cases call with
  | addWait key predecessors delay origin => exact indexed.addWait key _
  | addWindow key mode start stop origin => exact indexed.addWindow key _
  | taskCompleted task date => exact indexed.taskCompleted task date
  | activate handle => exact indexed.settle_changeWindow handle _
  | deactivate handle => exact indexed.settle_changeWindow handle _

theorem Indexed.performAll (indexed : register.Indexed) (calls : List HoldCall) :
    (register.performAll calls).Indexed := by
  induction calls generalizing register with
  | nil => exact indexed
  | cons call rest ih => exact ih (indexed.perform call)

/-! ### The register against the ledger -/

/-- The ledger keeps for every key what the register keeps, and as many of its counters wait for a
task as the index leads to. -/
structure Agrees (register : HoldRegister) (ledger : Ledger) : Prop where
  indexed : register.Indexed
  waitsOf : ∀ key, register.waitsOf key = ledger.waitsOf key
  awaiting : ∀ task, register.awaiting task = ledger.awaiting task

theorem agrees_empty : Agrees {} {} where
  indexed := indexed_empty
  waitsOf _ := rfl
  awaiting _ := rfl

theorem awaiting_settle_changeWindow (register : HoldRegister) (handle : WindowHandle)
    (change : TimeWindow → TimeWindow) (task : TaskId) :
    (register.settle (register.changeWindow handle change)).1.awaiting task =
      register.awaiting task := by
  cases found : register.window? handle with
  | some window => simp only [changeWindow, found, settle, awaiting_modifyWindow]
  | none => simp only [changeWindow, found, settle]

theorem Agrees.settle_changeWindow {ledger : Ledger} (agrees : register.Agrees ledger)
    (handle : WindowHandle) (change : TimeWindow → TimeWindow) :
    (register.settle (register.changeWindow handle change)).2 =
        (ledger.changeWindow handle change).2 ∧
      (∀ task, (register.settle (register.changeWindow handle change)).1.awaiting task =
        (ledger.changeWindow handle change).1.awaiting task) := by
  have same : (register.waitsOf handle.key).windows = Ledger.under handle.key ledger.windows := by
    rw [agrees.waitsOf]
    rfl
  cases found : register.window? handle with
  | some window =>
      have inside : handle.index < (Ledger.under handle.key ledger.windows).length := by
        rw [window?_eq] at found
        rw [← same]
        exact (List.getElem?_eq_some_iff.mp found).1
      simp only [changeWindow, found, settle, Ledger.changeWindow, inside, if_true, true_and]
      intro task
      rw [awaiting_modifyWindow, agrees.awaiting]
      rfl
  | none =>
      have beyond : ¬ handle.index < (Ledger.under handle.key ledger.windows).length := by
        rw [window?_eq, List.getElem?_eq_none_iff] at found
        rw [← same]
        exact Nat.not_lt.mpr found
      simp only [changeWindow, found, settle, Ledger.changeWindow, beyond, if_false, true_and]
      exact agrees.awaiting

theorem Agrees.perform {ledger : Ledger} (agrees : register.Agrees ledger) (call : HoldCall) :
    (register.perform call).2 = (ledger.perform call).2 ∧
      (register.perform call).1.Agrees (ledger.perform call).1 := by
  have indexed := agrees.indexed.perform call
  have waitsOf : ∀ key, (register.perform call).1.waitsOf key =
      (ledger.perform call).1.waitsOf key := by
    intro key
    rw [agrees.indexed.waitsOf_perform, ledger.waitsOf_perform, agrees.waitsOf]
  suffices answers : (register.perform call).2 = (ledger.perform call).2 ∧
      ∀ task, (register.perform call).1.awaiting task = (ledger.perform call).1.awaiting task from
    ⟨answers.1, indexed, waitsOf, answers.2⟩
  cases call with
  | addWait key predecessors delay origin =>
      constructor
      · simp only [HoldRegister.perform, addWait, Ledger.perform, agrees.waitsOf, Ledger.waitsOf]
      · intro task
        simp only [HoldRegister.perform, agrees.indexed.awaiting_addWait, agrees.awaiting,
          Ledger.perform, Ledger.awaiting, List.countP_append, List.countP_singleton]
  | addWindow key mode start stop origin =>
      constructor
      · simp only [HoldRegister.perform, addWindow, Ledger.perform, agrees.waitsOf, Ledger.waitsOf]
      · intro task
        simp only [HoldRegister.perform, awaiting_addWindow, agrees.awaiting, Ledger.perform,
          Ledger.awaiting]
  | taskCompleted task date =>
      constructor
      · simp only [HoldRegister.perform, agrees.indexed.count_taskCompleted, agrees.awaiting,
          Ledger.perform]
      · intro other
        simp only [HoldRegister.perform, agrees.indexed.awaiting_taskCompleted, agrees.awaiting,
          Ledger.perform, Ledger.awaiting, List.countP_map, Function.comp_def,
          WaitCounter.counts_taskCompleted]
        by_cases same : other = task <;> simp [same]
  | activate handle => exact agrees.settle_changeWindow handle _
  | deactivate handle => exact agrees.settle_changeWindow handle _

theorem Agrees.performAll {ledger : Ledger} (agrees : register.Agrees ledger)
    (calls : List HoldCall) :
    register.replies calls = ledger.replies calls ∧
      (register.performAll calls).Agrees (ledger.performAll calls) := by
  induction calls generalizing register ledger with
  | nil => exact ⟨rfl, agrees⟩
  | cons call rest ih =>
      obtain ⟨reply, next⟩ := agrees.perform call
      obtain ⟨replies, last⟩ := ih next
      exact ⟨by simp only [HoldRegister.replies, Ledger.replies, reply, replies], last⟩

end HoldRegister

/-! ### What the calls themselves say -/

namespace HoldCall

def report? : HoldCall → Option (TaskId × Instant)
  | .taskCompleted task date => some (task, date)
  | _ => none

def reports (calls : List HoldCall) : List (TaskId × Instant) := calls.filterMap report?

def switch? (handle : WindowHandle) : HoldCall → Option Bool
  | .activate other => if other = handle then some true else none
  | .deactivate other => if other = handle then some false else none
  | _ => none

def switches (handle : WindowHandle) (calls : List HoldCall) : List Bool :=
  calls.filterMap (switch? handle)

def concerns (key : HoldKey) : HoldCall → Bool
  | .addWait other .. => other = key
  | .addWindow other .. => other = key
  | .taskCompleted .. => true
  | .activate handle => handle.key = key
  | .deactivate handle => handle.key = key

/-- How many counters were added that wait for a task and have not been told of it since. -/
def awaited (task : TaskId) : List HoldCall → Nat
  | [] => 0
  | .addWait _ predecessors _ _ :: later =>
      (if task ∈ predecessors ∧ ¬ task ∈ (reports later).map (·.1) then 1 else 0) +
        awaited task later
  | _ :: later => awaited task later

theorem awaited_cons (task : TaskId) (call : HoldCall) (later : List HoldCall) :
    awaited task (call :: later) =
      (if task ∈ (reports later).map (·.1) then 0 else awaited task [call]) +
        awaited task later := by
  cases call with
  | addWait key predecessors delay origin =>
      by_cases told : task ∈ (reports later).map (·.1)
      · simp only [awaited, told, not_true_eq_false, and_false, if_false, if_true]
      · have none : reports [] = [] := rfl
        simp only [awaited, told, none, List.map_nil, List.not_mem_nil, not_false_eq_true,
          and_true, if_false, Nat.add_zero]
  | _ => simp [awaited]

def noteReport (predecessors : TaskSet) (noted : List (TaskId × Instant))
    (report : TaskId × Instant) : List (TaskId × Instant) :=
  if report.1 ∈ predecessors ∧ ¬ report.1 ∈ noted.map (·.1) then noted ++ [report] else noted

/-- The first report of each predecessor, in order. -/
def firstReports (predecessors : TaskSet) (reports : List (TaskId × Instant)) :
    List (TaskId × Instant) :=
  reports.foldl (noteReport predecessors) []

theorem firstReports_eq_self {predecessors : TaskSet} {reports : List (TaskId × Instant)}
    (inside : ∀ report ∈ reports, report.1 ∈ predecessors)
    (distinct : (reports.map (·.1)).Nodup) : firstReports predecessors reports = reports := by
  have noted (before : List (TaskId × Instant))
      (apart : ((before ++ reports).map (·.1)).Nodup) :
      reports.foldl (noteReport predecessors) before = before ++ reports := by
    induction reports generalizing before with
    | nil => simp
    | cons report rest ih =>
        have new : ¬ report.1 ∈ before.map (·.1) := by
          rw [List.map_append, List.nodup_append] at apart
          exact fun old => apart.2.2 _ old report.1 (by simp) rfl
        have taken : noteReport predecessors before report = before ++ [report] :=
          if_pos ⟨inside report List.mem_cons_self, new⟩
        rw [List.map_cons, List.nodup_cons] at distinct
        rw [List.foldl_cons, taken,
          ih (fun other member => inside other (List.mem_cons_of_mem _ member)) distinct.2 _
            (by simpa using apart),
          List.append_assoc, List.singleton_append]
  exact noted [] distinct

end HoldCall

namespace WaitCounter

variable {counter : WaitCounter}

structure Follows (counter : WaitCounter) (predecessors : TaskSet) (delay : Span)
    (origin : Origin) (noted : List (TaskId × Instant)) : Prop where
  predecessors_eq : counter.predecessors = predecessors
  releaseDelay_eq : counter.releaseDelay = delay
  origin_eq : counter.origin = origin
  remaining : counter.remaining + noted.length = predecessors.size
  lastDecremented : counter.lastDecremented = noted.getLast?.map (·.2)
  released : ∀ release, counter.releasedAt? = some release ↔
    noted.length = predecessors.size ∧ 0 < noted.length ∧
      ∃ last, noted.getLast? = some last ∧ last.2.add? delay = some release

structure Tracks (counter : WaitCounter) (noted : List (TaskId × Instant)) : Prop where
  sound : counter.Sound
  completed : ∀ task, task ∈ counter.completed ↔ task ∈ noted.map (·.1)
  size : counter.completed.size = noted.length
  lastDecremented : counter.lastDecremented = noted.getLast?.map (·.2)

theorem tracks_new (predecessors : TaskSet) (delay : Span) (origin : Origin) :
    (new predecessors delay origin).Tracks [] where
  sound := sound_new predecessors delay origin
  completed task := by simp [new]
  size := rfl
  lastDecremented := rfl

theorem Tracks.taskCompleted {noted : List (TaskId × Instant)} (tracks : counter.Tracks noted)
    (task : TaskId) (date : Instant) :
    (counter.taskCompleted task date).Tracks
      (HoldCall.noteReport counter.predecessors noted (task, date)) := by
  have sound := tracks.sound.taskCompleted task date
  by_cases counts : counter.counts task = true
  · obtain ⟨waited, fresh⟩ := counts_iff.mp counts
    have added : HoldCall.noteReport counter.predecessors noted (task, date) =
        noted ++ [(task, date)] := by
      rw [tracks.completed] at fresh
      simp [HoldCall.noteReport, waited, fresh]
    rw [taskCompleted_of_counts counts] at sound ⊢
    rw [added]
    refine ⟨sound, ?_, ?_, ?_⟩
    · intro other
      rw [TaskSet.mem_insert, tracks.completed]
      simp [or_comm]
    · simp [TaskSet.size_insert fresh, tracks.size]
    · simp
  · have left : HoldCall.noteReport counter.predecessors noted (task, date) = noted := by
      rw [counts_iff, tracks.completed] at counts
      simp only [HoldCall.noteReport, counts, if_false]
    rw [taskCompleted_of_not_counts counts, left]
    exact tracks

theorem Tracks.tellAll {noted : List (TaskId × Instant)} (tracks : counter.Tracks noted)
    (reports : List (TaskId × Instant)) :
    (counter.tellAll reports).Tracks
      (reports.foldl (HoldCall.noteReport counter.predecessors) noted) := by
  induction reports generalizing counter noted with
  | nil => exact tracks
  | cons report rest ih =>
      have next := ih (tracks.taskCompleted report.1 report.2)
      rw [taskCompleted_predecessors] at next
      exact next

theorem follows_tellAll (predecessors : TaskSet) (delay : Span) (origin : Origin)
    (reports : List (TaskId × Instant)) :
    ((new predecessors delay origin).tellAll reports).Follows predecessors delay origin
      (HoldCall.firstReports predecessors reports) := by
  have tracks := (tracks_new predecessors delay origin).tellAll reports
  change Tracks _ (HoldCall.firstReports predecessors reports) at tracks
  have sameDelay : ((new predecessors delay origin).tellAll reports).releaseDelay = delay :=
    tellAll_releaseDelay _ reports
  have total := tracks.sound.remaining
  rw [tracks.size, tellAll_predecessors] at total
  refine ⟨tellAll_predecessors _ reports, sameDelay, tellAll_origin _ reports, total,
    tracks.lastDecremented, ?_⟩
  intro release
  change _ = predecessors.size at total
  simp only [releasedAt?, tracks.lastDecremented, sameDelay]
  split
  · rename_i zero
    have full : (HoldCall.firstReports predecessors reports).length = predecessors.size := by omega
    cases last : (HoldCall.firstReports predecessors reports).getLast? with
    | none => simp
    | some report =>
        have filled : 0 < (HoldCall.firstReports predecessors reports).length := by
          rw [List.length_pos_iff]
          intro empty
          simp [empty] at last
        simp only [Option.map_some, Option.bind_some, full, true_and]
        rw [full] at filled
        simp [filled]
  · rename_i positive
    have short : (HoldCall.firstReports predecessors reports).length ≠ predecessors.size := by omega
    simp [short]

end WaitCounter

namespace Waits

theorem counters_perform {key : HoldKey} {waits : Waits} {index : Nat} {counter : WaitCounter}
    (found : waits.counters[index]? = some counter) (call : HoldCall) :
    (waits.perform key call).counters[index]? =
      some (counter.tellAll (HoldCall.reports [call])) := by
  cases call with
  | addWait other predecessors delay origin =>
      simp only [perform]
      split
      · rw [List.getElem?_append_left (List.getElem?_eq_some_iff.mp found).1]
        exact found
      · exact found
  | addWindow other mode start stop origin =>
      simp only [perform]
      split <;> exact found
  | taskCompleted task date =>
      simp [perform, found, HoldCall.reports, HoldCall.report?, WaitCounter.tellAll]
  | activate handle =>
      simp only [perform]
      split <;> exact found
  | deactivate handle =>
      simp only [perform]
      split <;> exact found

theorem windows_modify {waits : Waits} {index : Nat} {window : TimeWindow}
    (found : waits.windows[index]? = some window) (handle : WindowHandle)
    (change : TimeWindow → TimeWindow) (key : HoldKey) :
    (if handle.key = key then
        { waits with windows := waits.windows.modify handle.index change }
      else waits).windows[index]? =
      some (if handle = ⟨key, index⟩ then change window else window) := by
  obtain ⟨other, place⟩ := handle
  by_cases same : other = key
  · subst same
    by_cases here : place = index <;> simp [found, here]
  · simp [same, found]

theorem windows_perform {key : HoldKey} {waits : Waits} {index : Nat} {window : TimeWindow}
    (found : waits.windows[index]? = some window) (call : HoldCall) :
    (waits.perform key call).windows[index]? =
      some (window.switchAll (HoldCall.switches ⟨key, index⟩ [call])) := by
  cases call with
  | addWait other predecessors delay origin =>
      simp only [perform]
      split <;> exact found
  | addWindow other mode start stop origin =>
      simp only [perform]
      split
      · rw [List.getElem?_append_left (List.getElem?_eq_some_iff.mp found).1]
        exact found
      · exact found
  | taskCompleted task date => exact found
  | activate handle =>
      simp only [perform]
      rw [windows_modify found]
      by_cases named : handle = ⟨key, index⟩ <;>
        simp [HoldCall.switches, HoldCall.switch?, TimeWindow.switchAll, named]
  | deactivate handle =>
      simp only [perform]
      rw [windows_modify found]
      by_cases named : handle = ⟨key, index⟩ <;>
        simp [HoldCall.switches, HoldCall.switch?, TimeWindow.switchAll, named]

theorem perform_of_not_concerns {key : HoldKey} {call : HoldCall}
    (apart : call.concerns key = false) (waits : Waits) : waits.perform key call = waits := by
  cases call <;> simp_all [HoldCall.concerns, perform]

end Waits

namespace HoldRegister

variable {register : HoldRegister}

theorem performAll_append (register : HoldRegister) (before later : List HoldCall) :
    register.performAll (before ++ later) = (register.performAll before).performAll later :=
  List.foldl_append

theorem Indexed.waitsOf_performAll (indexed : register.Indexed) (calls : List HoldCall)
    (key : HoldKey) :
    (register.performAll calls).waitsOf key =
      calls.foldl (Waits.perform key) (register.waitsOf key) := by
  induction calls generalizing register with
  | nil => rfl
  | cons call rest ih =>
      rw [List.foldl_cons, ← indexed.waitsOf_perform]
      exact ih (indexed.perform call)

theorem Indexed.counter?_performAll (indexed : register.Indexed) {handle : CounterHandle}
    {counter : WaitCounter} (found : register.counter? handle = some counter)
    (calls : List HoldCall) :
    (register.performAll calls).counter? handle =
      some (counter.tellAll (HoldCall.reports calls)) := by
  induction calls generalizing register counter with
  | nil => exact found
  | cons call rest ih =>
      have next : (register.perform call).1.counter? handle =
          some (counter.tellAll (HoldCall.reports [call])) := by
        rw [counter?_eq] at found ⊢
        rw [indexed.waitsOf_perform]
        exact Waits.counters_perform found call
      have told : counter.tellAll (HoldCall.reports (call :: rest)) =
          (counter.tellAll (HoldCall.reports [call])).tellAll (HoldCall.reports rest) := by
        cases call <;> rfl
      rw [told]
      exact ih (indexed.perform call) next

theorem Indexed.window?_performAll (indexed : register.Indexed) {handle : WindowHandle}
    {window : TimeWindow} (found : register.window? handle = some window)
    (calls : List HoldCall) :
    (register.performAll calls).window? handle =
      some (window.switchAll (HoldCall.switches handle calls)) := by
  induction calls generalizing register window with
  | nil => exact found
  | cons call rest ih =>
      have next : (register.perform call).1.window? handle =
          some (window.switchAll (HoldCall.switches handle [call])) := by
        rw [window?_eq] at found ⊢
        rw [indexed.waitsOf_perform]
        exact Waits.windows_perform found call
      have switched : window.switchAll (HoldCall.switches handle (call :: rest)) =
          (window.switchAll (HoldCall.switches handle [call])).switchAll
            (HoldCall.switches handle rest) := by
        simp only [TimeWindow.switchAll, HoldCall.switches, ← List.foldl_append,
          ← List.filterMap_append, List.singleton_append]
      rw [switched]
      exact ih (indexed.perform call) next

theorem Indexed.awaiting_perform (indexed : register.Indexed) (call : HoldCall)
    (task : TaskId) :
    (register.perform call).1.awaiting task =
      (if task ∈ (HoldCall.reports [call]).map (·.1) then 0 else register.awaiting task) +
        HoldCall.awaited task [call] := by
  cases call with
  | addWait key predecessors delay origin =>
      have fresh : (WaitCounter.new predecessors delay origin).counts task =
          decide (task ∈ predecessors) := by
        simp [WaitCounter.counts, WaitCounter.new, TaskSet.contains]
        rfl
      have added := indexed.awaiting_addWait key (WaitCounter.new predecessors delay origin) task
      rw [fresh] at added
      simpa [HoldRegister.perform, HoldCall.reports, HoldCall.report?, HoldCall.awaited] using added
  | addWindow key mode start stop origin =>
      exact register.awaiting_addWindow key { mode, start, stop, origin } task
  | taskCompleted other date =>
      have told := indexed.awaiting_taskCompleted task other date
      simpa [HoldRegister.perform, HoldCall.reports, HoldCall.report?, HoldCall.awaited] using told
  | activate handle => exact register.awaiting_settle_changeWindow handle _ task
  | deactivate handle => exact register.awaiting_settle_changeWindow handle _ task

theorem Indexed.awaiting_performAll (indexed : register.Indexed) (calls : List HoldCall)
    (task : TaskId) :
    (register.performAll calls).awaiting task =
      (if task ∈ (HoldCall.reports calls).map (·.1) then 0 else register.awaiting task) +
        HoldCall.awaited task calls := by
  induction calls generalizing register with
  | nil => rfl
  | cons call rest ih =>
      have step : register.performAll (call :: rest) =
          (register.perform call).1.performAll rest := rfl
      have reported : HoldCall.reports (call :: rest) =
          HoldCall.reports [call] ++ HoldCall.reports rest :=
        List.filterMap_append (l := [call])
      rw [step, ih (indexed.perform call), indexed.awaiting_perform, reported, List.map_append,
        HoldCall.awaited_cons task call rest]
      by_cases later : task ∈ (HoldCall.reports rest).map (·.1)
      · simp [later]
      · simp only [later, if_false, List.mem_append, or_false]
        omega

/-- A register that has answered `calls`, against the ledger and against the calls themselves. -/
structure Exact (calls : List HoldCall) : Prop where
  replies : replies {} calls = Ledger.replies {} calls
  records : ∀ key, (performAll {} calls).waitsOf key = (Ledger.performAll {} calls).waitsOf key
  counter : ∀ before key predecessors delay origin later,
    calls = before ++ .addWait key predecessors delay origin :: later →
      ∃ handle counter,
        ((performAll {} before).perform (.addWait key predecessors delay origin)).2 =
            .counter handle ∧
          (performAll {} calls).counter? handle = some counter ∧
          counter.Follows predecessors delay origin
            (HoldCall.firstReports predecessors (HoldCall.reports later))
  window : ∀ before key mode start stop origin later,
    calls = before ++ .addWindow key mode start stop origin :: later →
      ∃ handle,
        ((performAll {} before).perform (.addWindow key mode start stop origin)).2 =
            .window handle ∧
          (performAll {} calls).window? handle =
            some
              { mode, start, stop, origin
                isActive := (HoldCall.switches handle later).getLast?.getD false
                started := !(HoldCall.switches handle later).isEmpty }
  told : ∀ task date,
    ((performAll {} calls).perform (.taskCompleted task date)).2 =
      .told (HoldCall.awaited task calls)
  apart : ∀ equipment task date,
    (performAll {} calls).isAvailable equipment task date =
      (performAll {} (calls.filter (HoldCall.concerns ⟨equipment, task⟩))).isAvailable
        equipment task date

theorem exact_after (calls : List HoldCall) : Exact calls where
  replies := (agrees_empty.performAll calls).1
  records := (agrees_empty.performAll calls).2.waitsOf
  counter before key predecessors delay origin later whole := by
    subst whole
    have indexed := indexed_empty.performAll before
    have added := (performAll {} before).counter?_addWait key
      (WaitCounter.new predecessors delay origin)
      ((performAll {} before).addWait key (WaitCounter.new predecessors delay origin)).2
    rw [if_pos rfl] at added
    refine ⟨_, _, rfl, ?_, WaitCounter.follows_tellAll predecessors delay origin _⟩
    rw [performAll_append]
    exact (indexed.addWait key _).counter?_performAll added later
  window before key mode start stop origin later whole := by
    subst whole
    have indexed := indexed_empty.performAll before
    have added := (performAll {} before).window?_addWindow key { mode, start, stop, origin }
      ((performAll {} before).addWindow key { mode, start, stop, origin }).2
    rw [if_pos rfl] at added
    refine ⟨_, rfl, ?_⟩
    rw [performAll_append]
    refine ((indexed.addWindow key _).window?_performAll added later).trans ?_
    rw [TimeWindow.switchAll_eq]
    rfl
  told task date := by
    have indexed := indexed_empty.performAll calls
    have count := indexed_empty.awaiting_performAll calls task
    have none : awaiting {} task = 0 := rfl
    rw [none, ite_self, Nat.zero_add] at count
    simp only [perform, indexed.count_taskCompleted, count]
  apart equipment task date := by
    rw [isAvailable_eq, isAvailable_eq, indexed_empty.waitsOf_performAll,
      indexed_empty.waitsOf_performAll, List.foldl_filter]
    congr 2
    funext waits call
    split
    · rfl
    · rename_i passed
      exact Waits.perform_of_not_concerns (by simpa using passed) waits

end HoldRegister

end PathDirectives
