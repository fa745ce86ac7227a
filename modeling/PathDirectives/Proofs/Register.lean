import PathDirectives.Hold.Register
import PathDirectives.Proofs.Counters

/-!
What each operation of the register does, seen through its handles and keys. The index from tasks to
counters is described by `Indexed`; with it, telling the register of a completion is the same as
telling every counter.
-/

namespace PathDirectives

open Calendar

theorem getElem?_concat_eq {α : Type} (items : List α) (item : α) (index : Nat) :
    (items ++ [item])[index]? = if index = items.length then some item else items[index]? := by
  rcases Nat.lt_trichotomy index items.length with below | equal | above
  · simp [List.getElem?_append_left below, Nat.ne_of_lt below]
  · simp [equal]
  · have beyond : (items ++ [item]).length ≤ index := by
      rw [List.length_append, List.length_singleton]
      exact above
    rw [if_neg (Nat.ne_of_gt above), List.getElem?_eq_none beyond,
      List.getElem?_eq_none (Nat.le_of_lt above)]

def Waits.windowsLet (waits : Waits) : Bool :=
  (waits.windows.any fun window => window.isAllowing && window.isActive) ||
    !waits.windows.any fun window =>
      window.isSuppressing && window.isActive || window.isAllowing && window.isPending

theorem Waits.isAvailable_iff (waits : Waits) (date : Instant) :
    waits.isAvailable date = true ↔
      waits.windowsLet = true ∧ ∀ counter ∈ waits.counters, counter.isWaiting date = false := by
  have released : ¬ waits.counters.any (·.isWaiting date) = true ↔
      ∀ counter ∈ waits.counters, counter.isWaiting date = false := by simp
  unfold isAvailable windowsLet
  rw [← released]
  by_cases waiting : waits.counters.any (·.isWaiting date) = true
  · rw [if_pos waiting]
    simp [waiting]
  · rw [if_neg waiting]
    by_cases anyOpen :
        (waits.windows.any fun window => window.isAllowing && window.isActive) = true
    · simp [waiting, anyOpen]
    · simp [waiting, anyOpen]

def TimeWindow.switchAll (window : TimeWindow) (switches : List Bool) : TimeWindow :=
  switches.foldl (fun window opens => if opens then window.activate else window.deactivate) window

theorem TimeWindow.switchAll_eq (window : TimeWindow) (switches : List Bool) :
    window.switchAll switches =
      { window with
        isActive := switches.getLast?.getD window.isActive
        started := window.started || !switches.isEmpty } := by
  induction switches generalizing window with
  | nil => simp [switchAll]
  | cons opens rest ih =>
      have step : window.switchAll (opens :: rest) =
          (if opens then window.activate else window.deactivate).switchAll rest := rfl
      rw [step, ih]
      cases opens <;> cases rest <;> simp [activate, deactivate, List.getLast?_cons]

namespace HoldRegister

variable {register : HoldRegister}

def handlesFor (register : HoldRegister) (task : TaskId) : List CounterHandle :=
  (Keyed.find? task register.waiting).getD []

theorem counter?_eq (register : HoldRegister) (handle : CounterHandle) :
    register.counter? handle = (register.waitsOf handle.key).counters[handle.index]? := by
  unfold counter? waitsOf
  cases register.waits? handle.key <;> simp

theorem window?_eq (register : HoldRegister) (handle : WindowHandle) :
    register.window? handle = (register.waitsOf handle.key).windows[handle.index]? := by
  unfold window? waitsOf
  cases register.waits? handle.key <;> simp

theorem isAvailable_eq (register : HoldRegister) (equipment : EquipmentId) (task : TaskId)
    (date : Instant) :
    register.isAvailable equipment task date =
      (register.waitsOf ⟨equipment, task⟩).isAvailable date := by
  unfold isAvailable waitsOf
  cases register.waits? ⟨equipment, task⟩ <;> simp [Waits.isAvailable]

@[simp] theorem waitsOf_empty (key : HoldKey) : waitsOf {} key = {} := by
  simp [waitsOf, waits?, Keyed.find?]

theorem waitsOf_addWait (register : HoldRegister) (key other : HoldKey) (counter : WaitCounter) :
    (register.addWait key counter).1.waitsOf other =
      if other = key then
        { register.waitsOf key with counters := (register.waitsOf key).counters ++ [counter] }
      else register.waitsOf other := by
  simp only [addWait, waitsOf, waits?, Keyed.find?_update]
  by_cases same : other = key
  · subst same
    simp
  · simp [same]

theorem waitsOf_addWindow (register : HoldRegister) (key other : HoldKey) (window : TimeWindow) :
    (register.addWindow key window).1.waitsOf other =
      if other = key then
        { register.waitsOf key with windows := (register.waitsOf key).windows ++ [window] }
      else register.waitsOf other := by
  simp only [addWindow, waitsOf, waits?, Keyed.find?_update]
  by_cases same : other = key
  · subst same
    simp
  · simp [same]

theorem waitsOf_modifyCounter (register : HoldRegister) (handle : CounterHandle)
    (change : WaitCounter → WaitCounter) (key : HoldKey) :
    (register.modifyCounter handle change).waitsOf key =
      if key = handle.key then
        { register.waitsOf key with
          counters := (register.waitsOf key).counters.modify handle.index change }
      else register.waitsOf key := by
  simp only [modifyCounter, waitsOf, waits?, Keyed.find?_modify]
  by_cases same : key = handle.key
  · subst same
    cases Keyed.find? handle.key register.waits <;> simp
  · simp [same]

theorem waitsOf_modifyWindow (register : HoldRegister) (handle : WindowHandle)
    (change : TimeWindow → TimeWindow) (key : HoldKey) :
    (register.modifyWindow handle change).waitsOf key =
      if key = handle.key then
        { register.waitsOf key with
          windows := (register.waitsOf key).windows.modify handle.index change }
      else register.waitsOf key := by
  simp only [modifyWindow, waitsOf, waits?, Keyed.find?_modify]
  by_cases same : key = handle.key
  · subst same
    cases Keyed.find? handle.key register.waits <;> simp
  · simp [same]

theorem handlesFor_addWait (register : HoldRegister) (key : HoldKey) (counter : WaitCounter)
    (task : TaskId) :
    (register.addWait key counter).1.handlesFor task =
      register.handlesFor task ++
        if task ∈ counter.predecessors then [(register.addWait key counter).2] else [] :=
  Keyed.find?_file _ task counter.predecessors.nodup register.waiting

@[simp] theorem handlesFor_modifyCounter (register : HoldRegister) (handle : CounterHandle)
    (change : WaitCounter → WaitCounter) (task : TaskId) :
    (register.modifyCounter handle change).handlesFor task = register.handlesFor task := rfl

@[simp] theorem handlesFor_modifyWindow (register : HoldRegister) (handle : WindowHandle)
    (change : TimeWindow → TimeWindow) (task : TaskId) :
    (register.modifyWindow handle change).handlesFor task = register.handlesFor task := rfl

theorem counter?_addWait (register : HoldRegister) (key : HoldKey) (counter : WaitCounter)
    (handle : CounterHandle) :
    (register.addWait key counter).1.counter? handle =
      if handle = (register.addWait key counter).2 then some counter
      else register.counter? handle := by
  obtain ⟨other, index⟩ := handle
  rw [counter?_eq, counter?_eq, waitsOf_addWait]
  by_cases same : other = key
  · subst same
    simp [getElem?_concat_eq, addWait]
  · simp [same, addWait]

theorem window?_addWindow (register : HoldRegister) (key : HoldKey) (window : TimeWindow)
    (handle : WindowHandle) :
    (register.addWindow key window).1.window? handle =
      if handle = (register.addWindow key window).2 then some window
      else register.window? handle := by
  obtain ⟨other, index⟩ := handle
  rw [window?_eq, window?_eq, waitsOf_addWindow]
  by_cases same : other = key
  · subst same
    simp [getElem?_concat_eq, addWindow]
  · simp [same, addWindow]

@[simp] theorem window?_addWait (register : HoldRegister) (key : HoldKey) (counter : WaitCounter)
    (handle : WindowHandle) :
    (register.addWait key counter).1.window? handle = register.window? handle := by
  rw [window?_eq, window?_eq, waitsOf_addWait]
  split
  · rename_i same
    rw [same]
  · rfl

@[simp] theorem counter?_addWindow (register : HoldRegister) (key : HoldKey)
    (window : TimeWindow) (handle : CounterHandle) :
    (register.addWindow key window).1.counter? handle = register.counter? handle := by
  rw [counter?_eq, counter?_eq, waitsOf_addWindow]
  split
  · rename_i same
    rw [same]
  · rfl

theorem counter?_addWait_handle (register : HoldRegister) (key : HoldKey) (counter : WaitCounter) :
    register.counter? (register.addWait key counter).2 = none := by
  rw [counter?_eq]
  exact List.getElem?_eq_none (Nat.le_refl _)

theorem window?_addWindow_handle (register : HoldRegister) (key : HoldKey) (window : TimeWindow) :
    register.window? (register.addWindow key window).2 = none := by
  rw [window?_eq]
  exact List.getElem?_eq_none (Nat.le_refl _)

theorem counter?_modifyCounter (register : HoldRegister) (handle other : CounterHandle)
    (change : WaitCounter → WaitCounter) :
    (register.modifyCounter handle change).counter? other =
      if other = handle then (register.counter? other).map change
      else register.counter? other := by
  obtain ⟨key, index⟩ := other
  rw [counter?_eq, counter?_eq, waitsOf_modifyCounter]
  by_cases same : key = handle.key
  · subst same
    simp only [if_true, List.getElem?_modify]
    by_cases here : handle.index = index
    · subst here
      simp
    · have apart : (⟨handle.key, index⟩ : CounterHandle) ≠ handle :=
        fun equal => here (by rw [← equal])
      simp [here, apart]
  · have apart : (⟨key, index⟩ : CounterHandle) ≠ handle := fun equal => same (by rw [← equal])
    simp [same, apart]

theorem window?_modifyWindow (register : HoldRegister) (handle other : WindowHandle)
    (change : TimeWindow → TimeWindow) :
    (register.modifyWindow handle change).window? other =
      if other = handle then (register.window? other).map change
      else register.window? other := by
  obtain ⟨key, index⟩ := other
  rw [window?_eq, window?_eq, waitsOf_modifyWindow]
  by_cases same : key = handle.key
  · subst same
    simp only [if_true, List.getElem?_modify]
    by_cases here : handle.index = index
    · subst here
      simp
    · have apart : (⟨handle.key, index⟩ : WindowHandle) ≠ handle :=
        fun equal => here (by rw [← equal])
      simp [here, apart]
  · have apart : (⟨key, index⟩ : WindowHandle) ≠ handle := fun equal => same (by rw [← equal])
    simp [same, apart]

@[simp] theorem windows_modifyCounter (register : HoldRegister) (handle : CounterHandle)
    (change : WaitCounter → WaitCounter) (key : HoldKey) :
    ((register.modifyCounter handle change).waitsOf key).windows =
      (register.waitsOf key).windows := by
  rw [waitsOf_modifyCounter]
  split <;> rfl

@[simp] theorem counters_modifyWindow (register : HoldRegister) (handle : WindowHandle)
    (change : TimeWindow → TimeWindow) (key : HoldKey) :
    ((register.modifyWindow handle change).waitsOf key).counters =
      (register.waitsOf key).counters := by
  rw [waitsOf_modifyWindow]
  split <;> rfl

/-- Under each task the index has exactly the counters that wait for it, each of them once. -/
structure Indexed (register : HoldRegister) : Prop where
  listed : ∀ task handle, handle ∈ register.handlesFor task ↔
    ∃ counter, register.counter? handle = some counter ∧ task ∈ counter.predecessors
  distinct : ∀ task, (register.handlesFor task).Nodup

theorem indexed_empty : Indexed {} where
  listed task handle := by simp [handlesFor, counter?_eq, Keyed.find?]
  distinct _ := List.nodup_nil

theorem Indexed.addWait (indexed : register.Indexed) (key : HoldKey) (counter : WaitCounter) :
    (register.addWait key counter).1.Indexed := by
  have fresh := register.counter?_addWait_handle key counter
  constructor
  · intro task handle
    rw [handlesFor_addWait, counter?_addWait, List.mem_append, indexed.listed]
    by_cases own : handle = (register.addWait key counter).2
    · subst own
      by_cases waits : task ∈ counter.predecessors <;> simp [waits, fresh]
    · by_cases waits : task ∈ counter.predecessors <;> simp [waits, own]
  · intro task
    rw [handlesFor_addWait, List.nodup_append]
    refine ⟨indexed.distinct task, ?_, ?_⟩
    · split <;> simp
    · intro old listed new added same
      subst same
      split at added
      · simp only [List.mem_singleton] at added
        subst added
        obtain ⟨other, found, _⟩ := (indexed.listed task _).mp listed
        simp [fresh] at found
      · simp at added

theorem Indexed.addWindow (indexed : register.Indexed) (key : HoldKey) (window : TimeWindow) :
    (register.addWindow key window).1.Indexed where
  listed task handle := by
    rw [counter?_addWindow]
    exact indexed.listed task handle
  distinct task := indexed.distinct task

/-! ### Telling counters of a completion -/

section Told

variable {task : TaskId} {date : Instant}

theorem tell_counter? (told : HoldRegister × Nat) (handle other : CounterHandle) :
    (tell task date told handle).1.counter? other =
      if other = handle then (told.1.counter? other).map (·.taskCompleted task date)
      else told.1.counter? other := by
  obtain ⟨register, count⟩ := told
  cases found : register.counter? handle with
  | none =>
      by_cases same : other = handle
      · subst same
        simp [tell, found]
      · simp [tell, found, same]
  | some counter => simp [tell, found, counter?_modifyCounter]

@[simp] theorem tell_windows (told : HoldRegister × Nat) (handle : CounterHandle) (key : HoldKey) :
    ((tell task date told handle).1.waitsOf key).windows = (told.1.waitsOf key).windows := by
  obtain ⟨register, count⟩ := told
  cases found : register.counter? handle <;> simp [tell, found]

@[simp] theorem tell_waiting (told : HoldRegister × Nat) (handle : CounterHandle) :
    (tell task date told handle).1.waiting = told.1.waiting := by
  obtain ⟨register, count⟩ := told
  cases found : register.counter? handle <;> simp [tell, found, modifyCounter]

theorem tell_count (told : HoldRegister × Nat) (handle : CounterHandle) :
    (tell task date told handle).2 =
      told.2 + if (told.1.counter? handle).any (·.counts task) then 1 else 0 := by
  obtain ⟨register, count⟩ := told
  cases found : register.counter? handle with
  | none => simp [tell, found]
  | some counter => by_cases counts : counter.counts task <;> simp [tell, found, counts]

theorem tellAll_counter? (told : HoldRegister × Nat) {handles : List CounterHandle}
    (distinct : handles.Nodup) (other : CounterHandle) :
    (handles.foldl (tell task date) told).1.counter? other =
      if other ∈ handles then (told.1.counter? other).map (·.taskCompleted task date)
      else told.1.counter? other := by
  induction handles generalizing told with
  | nil => simp
  | cons handle rest ih =>
      rw [List.nodup_cons] at distinct
      rw [List.foldl_cons, ih _ distinct.2, tell_counter?]
      by_cases own : other = handle
      · subst own
        simp [distinct.1]
      · simp [own]

theorem tellAll_windows (told : HoldRegister × Nat) (handles : List CounterHandle)
    (key : HoldKey) :
    ((handles.foldl (tell task date) told).1.waitsOf key).windows =
      (told.1.waitsOf key).windows := by
  induction handles generalizing told with
  | nil => rfl
  | cons handle rest ih => rw [List.foldl_cons, ih, tell_windows]

theorem tellAll_waiting (told : HoldRegister × Nat) (handles : List CounterHandle) :
    (handles.foldl (tell task date) told).1.waiting = told.1.waiting := by
  induction handles generalizing told with
  | nil => rfl
  | cons handle rest ih => rw [List.foldl_cons, ih, tell_waiting]

theorem tellAll_count (told : HoldRegister × Nat) {handles : List CounterHandle}
    (distinct : handles.Nodup) :
    (handles.foldl (tell task date) told).2 =
      told.2 + handles.countP fun handle => (told.1.counter? handle).any (·.counts task) := by
  induction handles generalizing told with
  | nil => simp
  | cons handle rest ih =>
      rw [List.nodup_cons] at distinct
      have others : (rest.countP fun other =>
          ((tell task date told handle).1.counter? other).any (·.counts task)) =
          rest.countP fun other => (told.1.counter? other).any (·.counts task) := by
        refine List.countP_congr fun other member => ?_
        have apart : other ≠ handle := fun same => distinct.1 (same ▸ member)
        rw [tell_counter?, if_neg apart]
      rw [List.foldl_cons, ih _ distinct.2, tell_count, others, List.countP_cons]
      omega

end Told

@[simp] theorem handlesFor_taskCompleted (register : HoldRegister) (task other : TaskId)
    (date : Instant) :
    (register.taskCompleted task date).1.handlesFor other = register.handlesFor other := by
  simp only [handlesFor, taskCompleted, tellAll_waiting]

@[simp] theorem windows_taskCompleted (register : HoldRegister) (task : TaskId) (date : Instant)
    (key : HoldKey) :
    ((register.taskCompleted task date).1.waitsOf key).windows =
      (register.waitsOf key).windows :=
  tellAll_windows _ _ key

@[simp] theorem window?_taskCompleted (register : HoldRegister) (task : TaskId) (date : Instant)
    (handle : WindowHandle) :
    (register.taskCompleted task date).1.window? handle = register.window? handle := by
  simp only [window?_eq, windows_taskCompleted]

/-- With an exact index every counter is told, since those left out do not wait for the task. -/
theorem Indexed.counter?_taskCompleted (indexed : register.Indexed) (task : TaskId)
    (date : Instant) (handle : CounterHandle) :
    (register.taskCompleted task date).1.counter? handle =
      (register.counter? handle).map (·.taskCompleted task date) := by
  have told := @tellAll_counter? task date (register, 0) _ (indexed.distinct task) handle
  refine told.trans ?_
  split
  · rfl
  · rename_i unlisted
    cases found : register.counter? handle with
    | none => rfl
    | some counter =>
        have other : ¬ task ∈ counter.predecessors := fun waits =>
          unlisted ((indexed.listed task handle).mpr ⟨counter, found, waits⟩)
        simp [WaitCounter.taskCompleted_of_not_mem other date]

theorem Indexed.counters_taskCompleted (indexed : register.Indexed) (task : TaskId)
    (date : Instant) (key : HoldKey) :
    ((register.taskCompleted task date).1.waitsOf key).counters =
      (register.waitsOf key).counters.map (·.taskCompleted task date) := by
  refine List.ext_getElem? fun index => ?_
  have told := indexed.counter?_taskCompleted task date ⟨key, index⟩
  rw [counter?_eq, counter?_eq] at told
  rw [told, List.getElem?_map]

theorem Indexed.taskCompleted (indexed : register.Indexed) (task : TaskId) (date : Instant) :
    (register.taskCompleted task date).1.Indexed where
  listed other handle := by
    rw [handlesFor_taskCompleted, indexed.listed, indexed.counter?_taskCompleted]
    cases register.counter? handle <;> simp
  distinct other := by
    rw [handlesFor_taskCompleted]
    exact indexed.distinct other

def completeAll (register : HoldRegister) (reports : List (TaskId × Instant)) : HoldRegister :=
  reports.foldl (fun register report => (register.taskCompleted report.1 report.2).1) register

theorem Indexed.completeAll (indexed : register.Indexed) (reports : List (TaskId × Instant)) :
    (register.completeAll reports).Indexed := by
  induction reports generalizing register with
  | nil => exact indexed
  | cons report rest ih => exact ih (indexed.taskCompleted report.1 report.2)

theorem Indexed.counter?_completeAll (indexed : register.Indexed)
    (reports : List (TaskId × Instant)) (handle : CounterHandle) :
    (register.completeAll reports).counter? handle =
      (register.counter? handle).map (·.tellAll reports) := by
  induction reports generalizing register with
  | nil => simp [HoldRegister.completeAll, WaitCounter.tellAll]
  | cons report rest ih =>
      refine (ih (indexed.taskCompleted report.1 report.2)).trans ?_
      rw [indexed.counter?_taskCompleted, Option.map_map]
      rfl

@[simp] theorem windows_completeAll (register : HoldRegister)
    (reports : List (TaskId × Instant)) (key : HoldKey) :
    ((register.completeAll reports).waitsOf key).windows = (register.waitsOf key).windows := by
  induction reports generalizing register with
  | nil => rfl
  | cons report rest ih =>
      exact (ih (register.taskCompleted report.1 report.2).1).trans (windows_taskCompleted _ _ _ _)

@[simp] theorem window?_completeAll (register : HoldRegister)
    (reports : List (TaskId × Instant)) (handle : WindowHandle) :
    (register.completeAll reports).window? handle = register.window? handle := by
  simp only [window?_eq, windows_completeAll]

/-- How many counters a completion of the task would take down. -/
def awaiting (register : HoldRegister) (task : TaskId) : Nat :=
  (register.handlesFor task).countP fun handle =>
    (register.counter? handle).any (·.counts task)

theorem Indexed.awaiting_addWait (indexed : register.Indexed) (key : HoldKey)
    (counter : WaitCounter) (task : TaskId) :
    (register.addWait key counter).1.awaiting task =
      register.awaiting task + if counter.counts task then 1 else 0 := by
  have fresh := register.counter?_addWait_handle key counter
  have before : ((register.handlesFor task).countP fun handle =>
      ((register.addWait key counter).1.counter? handle).any (·.counts task)) =
      register.awaiting task := by
    refine List.countP_congr fun handle listed => ?_
    obtain ⟨other, found, _⟩ := (indexed.listed task handle).mp listed
    have apart : handle ≠ (register.addWait key counter).2 := by
      intro same
      rw [same, fresh] at found
      exact absurd found (by simp)
    rw [counter?_addWait, if_neg apart]
  unfold awaiting at before ⊢
  rw [handlesFor_addWait, List.countP_append, before]
  by_cases waits : task ∈ counter.predecessors
  · simp [waits, counter?_addWait]
  · have passed : counter.counts task = false := by
      simp [WaitCounter.counts, TaskSet.contains, waits]
    simp [waits, passed]

theorem Indexed.awaiting_taskCompleted (indexed : register.Indexed) (task other : TaskId)
    (date : Instant) :
    (register.taskCompleted other date).1.awaiting task =
      if task = other then 0 else register.awaiting task := by
  have told : ∀ handle,
      ((register.taskCompleted other date).1.counter? handle).any (·.counts task) =
        ((register.counter? handle).any (·.counts task) && decide (task ≠ other)) := by
    intro handle
    rw [indexed.counter?_taskCompleted]
    cases register.counter? handle <;> simp [WaitCounter.counts_taskCompleted]
  unfold awaiting
  simp only [handlesFor_taskCompleted, told]
  by_cases same : task = other <;> simp [same]

theorem Indexed.count_taskCompleted (indexed : register.Indexed) (task : TaskId)
    (date : Instant) : (register.taskCompleted task date).2 = register.awaiting task := by
  have told := @tellAll_count task date (register, 0) _ (indexed.distinct task)
  rw [Nat.zero_add] at told
  exact told

theorem modifyCounter_of_none {handle : CounterHandle} (missing : register.counter? handle = none)
    (change : WaitCounter → WaitCounter) : register.modifyCounter handle change = register := by
  have same : Keyed.modify handle.key
      (fun waits : Waits => { waits with counters := waits.counters.modify handle.index change })
      register.waits = register.waits := by
    apply Keyed.modify_eq_self
    intro waits found
    have beyond : waits.counters.length ≤ handle.index := by
      simpa [counter?, waits?, found] using missing
    simp [List.modify_eq_self beyond]
  rw [modifyCounter, same]

theorem modifyWindow_of_none {handle : WindowHandle} (missing : register.window? handle = none)
    (change : TimeWindow → TimeWindow) : register.modifyWindow handle change = register := by
  have same : Keyed.modify handle.key
      (fun waits : Waits => { waits with windows := waits.windows.modify handle.index change })
      register.waits = register.waits := by
    apply Keyed.modify_eq_self
    intro waits found
    have beyond : waits.windows.length ≤ handle.index := by
      simpa [window?, waits?, found] using missing
    simp [List.modify_eq_self beyond]
  rw [modifyWindow, same]

theorem changeWindow_eq_ok_iff {handle : WindowHandle} {change : TimeWindow → TimeWindow}
    {next : HoldRegister} :
    register.changeWindow handle change = .ok next ↔
      (∃ window, register.window? handle = some window) ∧
        next = register.modifyWindow handle change := by
  unfold changeWindow
  split
  · rename_i window found
    simp [found, eq_comm]
  · rename_i missing
    simp [missing]

@[simp] theorem awaiting_modifyWindow (register : HoldRegister) (handle : WindowHandle)
    (change : TimeWindow → TimeWindow) (task : TaskId) :
    (register.modifyWindow handle change).awaiting task = register.awaiting task := by
  simp [awaiting, counter?_eq]

@[simp] theorem awaiting_addWindow (register : HoldRegister) (key : HoldKey)
    (window : TimeWindow) (task : TaskId) :
    (register.addWindow key window).1.awaiting task = register.awaiting task := by
  simp only [awaiting, counter?_addWindow]
  rfl

theorem Indexed.modifyWindow (indexed : register.Indexed) (handle : WindowHandle)
    (change : TimeWindow → TimeWindow) : (register.modifyWindow handle change).Indexed where
  listed task other := by
    rw [handlesFor_modifyWindow, indexed.listed, counter?_eq, counter?_eq, counters_modifyWindow]
  distinct task := by
    rw [handlesFor_modifyWindow]
    exact indexed.distinct task

end HoldRegister

end PathDirectives
