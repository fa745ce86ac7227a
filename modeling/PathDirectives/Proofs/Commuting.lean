import Mathlib.Data.List.Perm.Basic
import PathDirectives.Proofs.Drain
import PathDirectives.Proofs.Ownership

/-!
Changes that can change places: completions of one date among each other, and a completion with an
action that opens or closes a window or edits the edges of the task graph.
-/

namespace PathDirectives

open Calendar

theorem modify_comm {α : Type} {first second : α → α}
    (commute : ∀ value, first (second value) = second (first value)) (values : List α)
    (left right : Nat) :
    (values.modify left first).modify right second =
      (values.modify right second).modify left first := by
  apply List.ext_getElem?
  intro index
  simp only [List.getElem?_modify, Option.map_eq_map, Option.map_map]
  congr 1
  funext value
  simp only [Function.comp_apply]
  by_cases here : left = index
  · by_cases there : right = index
    · simp [here, there, commute]
    · simp [here, there]
  · by_cases there : right = index
    · simp [here, there]
    · simp [here, there]

namespace Keyed

variable {κ α : Type} [DecidableEq κ] {first second : α → α}

theorem modify_comm (commute : ∀ value, first (second value) = second (first value))
    (left right : κ) (entries : List (κ × α)) :
    modify right second (modify left first entries) =
      modify left first (modify right second entries) := by
  induction entries with
  | nil => rfl
  | cons entry rest ih =>
      obtain ⟨head, value⟩ := entry
      by_cases here : head = left
      · subst here
        by_cases there : head = right
        · subst there
          simp [modify, commute]
        · simp [modify, there]
      · by_cases there : head = right
        · subst there
          simp [modify, here]
        · simp [modify, here, there, ih]

end Keyed

theorem WaitCounter.taskCompleted_comm (counter : WaitCounter) (first second : TaskId)
    (date : Instant) :
    (counter.taskCompleted first date).taskCompleted second date =
      (counter.taskCompleted second date).taskCompleted first date := by
  by_cases same : first = second
  · rw [same]
  · have left := counter.counts_taskCompleted second first date
    have right := counter.counts_taskCompleted first second date
    simp only [ne_eq, Ne.symm same, same, not_false_eq_true, decide_true, Bool.and_true]
      at left right
    by_cases one : counter.counts first = true
    · by_cases two : counter.counts second = true
      · rw [taskCompleted_of_counts (left.trans two), taskCompleted_of_counts (right.trans one),
          taskCompleted_of_counts one, taskCompleted_of_counts two]
        have inserted : (counter.completed.insert first).insert second =
            (counter.completed.insert second).insert first := by
          apply TaskSet.ext_members
          intro task
          simp only [TaskSet.mem_insert]
          exact or_left_comm
        simp [inserted]
      · have still : ¬ (counter.taskCompleted first date).counts second = true := left ▸ two
        rw [taskCompleted_of_not_counts still, taskCompleted_of_not_counts two]
    · have still : ¬ (counter.taskCompleted second date).counts first = true := right ▸ one
      rw [taskCompleted_of_not_counts still, taskCompleted_of_not_counts one]

namespace HoldRegister

variable {register : HoldRegister} {task : TaskId} {date : Instant}

theorem modifyCounter_comm {first second : WaitCounter → WaitCounter}
    (commute : ∀ counter, first (second counter) = second (first counter))
    (register : HoldRegister) (left right : CounterHandle) :
    (register.modifyCounter left first).modifyCounter right second =
      (register.modifyCounter right second).modifyCounter left first := by
  let changeAt (index : Nat) (change : WaitCounter → WaitCounter) (waits : Waits) : Waits :=
    { waits with counters := waits.counters.modify index change }
  have apart : ∀ waits, changeAt left.index first (changeAt right.index second waits) =
      changeAt right.index second (changeAt left.index first waits) := by
    intro waits
    simp only [changeAt, modify_comm commute]
  simp only [modifyCounter]
  congr 1
  exact Keyed.modify_comm apart left.key right.key register.waits

theorem modifyWindow_modifyCounter (register : HoldRegister) (handle : WindowHandle)
    (other : CounterHandle) (first : TimeWindow → TimeWindow)
    (second : WaitCounter → WaitCounter) :
    (register.modifyWindow handle first).modifyCounter other second =
      (register.modifyCounter other second).modifyWindow handle first := by
  let change (waits : Waits) : Waits :=
    { waits with windows := waits.windows.modify handle.index first }
  let count (waits : Waits) : Waits :=
    { waits with counters := waits.counters.modify other.index second }
  have apart : ∀ waits, change (count waits) = count (change waits) := fun _ => rfl
  simp only [modifyCounter, modifyWindow]
  congr 1
  exact Keyed.modify_comm apart handle.key other.key register.waits

theorem taskCompleted_eq_foldl (register : HoldRegister) (task : TaskId) (date : Instant) :
    (register.taskCompleted task date).1 =
      (register.handlesFor task).foldl
        (fun register handle => register.modifyCounter handle (·.taskCompleted task date))
        register := by
  have step (told : HoldRegister × Nat) (handle : CounterHandle) :
      (tell task date told handle).1 =
        told.1.modifyCounter handle (·.taskCompleted task date) := by
    obtain ⟨register, count⟩ := told
    cases found : register.counter? handle with
    | none => simp [tell, found, modifyCounter_of_none found]
    | some counter => simp [tell, found]
  have every (handles : List CounterHandle) (told : HoldRegister × Nat) :
      (handles.foldl (tell task date) told).1 =
        handles.foldl
          (fun register handle => register.modifyCounter handle (·.taskCompleted task date))
          told.1 := by
    induction handles generalizing told with
    | nil => rfl
    | cons handle rest ih => rw [List.foldl_cons, ih, step, List.foldl_cons]
  exact every (register.handlesFor task) (register, 0)

theorem taskCompleted_modifyCounter (register : HoldRegister) (first second : TaskId)
    (date : Instant) (handle : CounterHandle) :
    ((register.modifyCounter handle (·.taskCompleted first date)).taskCompleted second date).1 =
      (register.taskCompleted second date).1.modifyCounter handle (·.taskCompleted first date) := by
  rw [taskCompleted_eq_foldl, taskCompleted_eq_foldl, handlesFor_modifyCounter]
  apply List.foldl_hom fun register =>
    HoldRegister.modifyCounter register handle (·.taskCompleted first date)
  intro middle other
  exact modifyCounter_comm (fun counter => counter.taskCompleted_comm second first date) middle _ _

theorem taskCompleted_comm (register : HoldRegister) (first second : TaskId) (date : Instant) :
    ((register.taskCompleted first date).1.taskCompleted second date).1 =
      ((register.taskCompleted second date).1.taskCompleted first date).1 := by
  rw [taskCompleted_eq_foldl register first]
  rw [taskCompleted_eq_foldl _ first, handlesFor_taskCompleted]
  symm
  apply List.foldl_hom fun register => (HoldRegister.taskCompleted register second date).1
  intro middle handle
  exact (middle.taskCompleted_modifyCounter first second date handle).symm

theorem taskCompleted_modifyWindow (register : HoldRegister) (task : TaskId) (date : Instant)
    (handle : WindowHandle) (change : TimeWindow → TimeWindow) :
    ((register.modifyWindow handle change).taskCompleted task date).1 =
      (register.taskCompleted task date).1.modifyWindow handle change := by
  rw [taskCompleted_eq_foldl, taskCompleted_eq_foldl, handlesFor_modifyWindow]
  apply List.foldl_hom fun register => HoldRegister.modifyWindow register handle change
  intro middle other
  exact middle.modifyWindow_modifyCounter handle other change _

end HoldRegister

/-! ### The task graph -/

namespace TaskGraph

variable {graph next : TaskGraph} {task : TaskId} {date : Instant}

def mark (graph : TaskGraph) (task : TaskId) (date : Instant) : TaskGraph :=
  graph.modify task fun stored => { stored with completedAt := some date }

theorem eq_mark_of_complete (completed : graph.complete task date = .ok (next, true)) :
    next = graph.mark task date := by
  unfold complete at completed
  split at completed
  · simp at completed
  · split at completed
    · simp at completed
    · simp only [Except.ok.injEq, Prod.mk.injEq, and_true] at completed
      exact completed.symm

theorem modify_mark (graph : TaskGraph) (task : TaskId) (date : Instant) (id : TaskId)
    (change : Task → Task)
    (apart : ∀ stored : Task, change { stored with completedAt := some date } =
      { change stored with completedAt := some date }) :
    (graph.mark task date).modify id change = (graph.modify id change).mark task date := by
  simp only [mark, modify]
  congr 1
  exact PathDirectives.modify_comm (fun stored => (apart stored).symm) graph.tasks _ _

theorem mark_comm (graph : TaskGraph) (first second : TaskId) (date : Instant) :
    (graph.mark first date).mark second date = (graph.mark second date).mark first date := by
  simp only [mark, modify]
  rw [modify_comm fun _ => rfl]

theorem isComplete_mark_of_ne {first second : TaskId} (apart : first ≠ second)
    (graph : TaskGraph) (date : Instant) :
    (graph.mark first date).isComplete second = graph.isComplete second := by
  rw [isComplete, isComplete, mark, completedAt?_modify, completedAt?]
  simp only [if_neg apart.symm]

theorem get?_mark (graph : TaskGraph) (task other : TaskId) (date : Instant) :
    (graph.mark task date).get? other =
      (graph.get? other).map fun stored =>
        if other = task then { stored with completedAt := some date } else stored := by
  obtain ⟨place⟩ := task
  obtain ⟨index⟩ := other
  simp only [mark, modify, get?, List.getElem?_modify, TaskId.mk.injEq, eq_comm]
  rfl

theorem predecessors_marked (stored : Task) (id task : TaskId) (date : Instant) :
    (if id = task then { stored with completedAt := some date } else stored).predecessors =
      stored.predecessors := by
  split
  · rfl
  · rfl

theorem addDependency_mark (graph : TaskGraph) (task : TaskId) (date : Instant) (id : TaskId)
    (edge : Dependency) :
    (graph.mark task date).addDependency id edge =
      (graph.addDependency id edge).map fun added => (added.1.mark task date, added.2) := by
  unfold addDependency
  by_cases itself : edge.predecessor = id
  · rw [if_pos itself, if_pos itself]
    rfl
  · rw [if_neg itself, if_neg itself, get?_mark, get?_mark]
    cases graph.get? edge.predecessor with
    | none => rfl
    | some other =>
        cases graph.get? id with
        | none => rfl
        | some owner =>
            have edited := graph.modify_mark task date id
              (fun stored => { stored with predecessors := putEdge edge stored.predecessors })
              fun _ => rfl
            simp only [Option.map_some, predecessors_marked, edited, Except.map]

theorem addEdges_mark (graph : TaskGraph) (task : TaskId) (date : Instant) (delay : Span)
    (rule : String) (pairs : List (TaskId × TaskId)) :
    ((graph.mark task date).addEdges delay rule pairs).1 =
      (graph.addEdges delay rule pairs).1.mark task date := by
  induction pairs generalizing graph with
  | nil => rfl
  | cons pair rest ih =>
      obtain ⟨id, predecessor⟩ := pair
      rw [addEdges, addEdges, addDependency_mark]
      cases graph.addDependency id ⟨predecessor, delay, rule⟩ with
      | error error => rfl
      | ok added => exact ih added.1

theorem removeDependencies_mark (graph : TaskGraph) (task : TaskId) (date : Instant) (id : TaskId)
    (only : Option TaskSet) :
    (graph.mark task date).removeDependencies id only =
      (graph.removeDependencies id only).map fun left => (left.1.mark task date, left.2) := by
  unfold removeDependencies
  rw [get?_mark]
  cases graph.get? id with
  | none => rfl
  | some owner =>
      have edited := graph.modify_mark task date id
        (fun stored => { stored with predecessors := keptEdges only stored.predecessors })
        fun _ => rfl
      simp only [Option.map_some, predecessors_marked, edited, Except.map]

theorem dropEdges_mark (graph : TaskGraph) (task : TaskId) (date : Instant)
    (only : Option TaskSet) (ids : List TaskId) :
    ((graph.mark task date).dropEdges only ids).1 =
      (graph.dropEdges only ids).1.mark task date := by
  induction ids generalizing graph with
  | nil => rfl
  | cons id rest ih =>
      rw [dropEdges, dropEdges, removeDependencies_mark]
      cases graph.removeDependencies id only with
      | error error => rfl
      | ok left => exact ih left.1

end TaskGraph

/-! ### Actions -/

namespace Action

def changesPath (action : Action) : Bool := action.owner?.isSome && action.window?.isNone

variable {action : Action} {id : EquipmentId}

theorem OnPathOf.changesPath (own : action.OnPathOf id) : action.changesPath = true := by
  rw [Action.changesPath, own.1, own.2]
  rfl

theorem edit_of_changesPath (changes : action.changesPath = true) (graph : TaskGraph) :
    action.edit graph = graph := by
  cases action with
  | addDependencies tasks predecessors delay rule | removeDependencies tasks only =>
      simp [Action.changesPath, owner?] at changes
  | _ => rfl

theorem switch_of_changesPath (changes : action.changesPath = true) (register : HoldRegister) :
    action.switch register = register := by
  rw [Action.changesPath, Bool.and_eq_true] at changes
  exact action.switch_of_plain (Option.isNone_iff_eq_none.mp changes.2) register

theorem edit_mark (action : Action) (graph : TaskGraph) (task : TaskId) (date : Instant) :
    action.edit (graph.mark task date) = (action.edit graph).mark task date := by
  cases action with
  | addDependencies tasks predecessors delay rule => exact graph.addEdges_mark task date _ _ _
  | removeDependencies tasks only => exact graph.dropEdges_mark task date _ _
  | _ => rfl

theorem switch_taskCompleted (action : Action) (register : HoldRegister) (task : TaskId)
    (date : Instant) :
    action.switch (register.taskCompleted task date).1 =
      ((action.switch register).taskCompleted task date).1 := by
  cases action with
  | activateWindow handle | deactivateWindow handle =>
      exact (register.taskCompleted_modifyWindow task date handle _).symm
  | _ => rfl

def editAll (actions : List Action) (graph : TaskGraph) : TaskGraph :=
  actions.foldl (fun graph action => action.edit graph) graph

def switchAll (actions : List Action) (register : HoldRegister) : HoldRegister :=
  actions.foldl (fun register action => action.switch register) register

theorem completedAt?_editAll (actions : List Action) (graph : TaskGraph) (task : TaskId) :
    (editAll actions graph).completedAt? task = graph.completedAt? task := by
  induction actions generalizing graph with
  | nil => rfl
  | cons action rest ih =>
      exact (ih (action.edit graph)).trans (action.completedAt?_edit graph task)

theorem editAll_mark (actions : List Action) (graph : TaskGraph) (task : TaskId)
    (date : Instant) :
    editAll actions (graph.mark task date) = (editAll actions graph).mark task date := by
  apply List.foldl_hom fun graph => TaskGraph.mark graph task date
  intro graph action
  exact action.edit_mark graph task date

theorem switchAll_taskCompleted (actions : List Action) (register : HoldRegister) (task : TaskId)
    (date : Instant) :
    switchAll actions (register.taskCompleted task date).1 =
      ((switchAll actions register).taskCompleted task date).1 := by
  apply List.foldl_hom fun register => (HoldRegister.taskCompleted register task date).1
  intro register action
  exact action.switch_taskCompleted register task date

end Action

namespace Site

theorem applyEach_parts (site : Site) (actions : List Action) :
    (site.applyEach actions).scenario.tasks = Action.editAll actions site.scenario.tasks ∧
      (site.applyEach actions).holds = Action.switchAll actions site.holds := by
  induction actions generalizing site with
  | nil => exact ⟨rfl, rfl⟩
  | cons action rest ih =>
      obtain ⟨tasks, holds⟩ := ih (site.apply action).1
      obtain ⟨edited, switched⟩ := site.apply_parts action
      rw [edited] at tasks
      rw [switched] at holds
      exact ⟨tasks, holds⟩

end Site

namespace CompletionWatch

variable {watch : CompletionWatch} {task first second : TaskId}

def Last (task : TaskId) (watch : CompletionWatch) : Prop :=
  task ∈ watch.waiting ∧ ∀ other ∈ watch.waiting, other = task

theorem last_iff :
    watch.Last task ↔
      task ∈ watch.waiting ∧ (watch.waiting.filter (· != task)).isEmpty = true := by
  simp only [Last, TaskSet.isEmpty_iff, TaskSet.mem_filter, bne_iff_ne, ne_eq, not_and, not_not]

theorem delay_hear (task : TaskId) (watch : CompletionWatch) :
    (watch.hear task).delay = watch.delay := by
  unfold hear
  split
  · dsimp only
    split
    · rfl
    · rfl
  · rfl

theorem action_hear_of_last (last : watch.Last task) : (watch.hear task).action = none := by
  obtain ⟨waits, alone⟩ := last_iff.mp last
  rw [hear, if_pos waits]
  simp only [alone, if_true]

theorem action_hear_of_not_last (open_ : ¬ watch.Last task) :
    (watch.hear task).action = watch.action := by
  unfold hear
  split
  · rename_i waits
    have others : ¬ (watch.waiting.filter (· != task)).isEmpty = true :=
      fun alone => open_ (last_iff.mpr ⟨waits, alone⟩)
    simp only [others, Bool.false_eq_true, if_false]
  · rfl

theorem fires?_of_last (last : watch.Last task) :
    watch.fires? task = watch.action.map fun action => (watch.delay, action) :=
  if_pos (last_iff.mp last)

theorem fires?_of_not_last (open_ : ¬ watch.Last task) : watch.fires? task = none :=
  if_neg fun ends => open_ (last_iff.mpr ends)

theorem waiting_hear_comm (first second : TaskId) (watch : CompletionWatch) :
    ((watch.hear first).hear second).waiting = ((watch.hear second).hear first).waiting := by
  apply TaskSet.ext_members
  intro task
  simp only [mem_hear]
  exact and_right_comm

def LastTwo (first second : TaskId) (watch : CompletionWatch) : Prop :=
  (first ∈ watch.waiting ∨ second ∈ watch.waiting) ∧
    ∀ other ∈ watch.waiting, other = first ∨ other = second

theorem lastTwo_comm : watch.LastTwo first second ↔ watch.LastTwo second first := by
  simp only [LastTwo, or_comm]

theorem lastTwo_iff :
    watch.LastTwo first second ↔ watch.Last first ∨ (watch.hear first).Last second := by
  simp only [LastTwo, Last, mem_hear]
  constructor
  · rintro ⟨either, among⟩
    by_cases later : second ∈ watch.waiting ∧ second ≠ first
    · refine .inr ⟨later, ?_⟩
      intro other waits
      exact (among other waits.1).resolve_left waits.2
    · have alone : ∀ other ∈ watch.waiting, other = first := by
        intro other waits
        rcases among other waits with here | rfl
        · exact here
        · by_contra apart
          exact later ⟨waits, apart⟩
      refine .inl ⟨?_, alone⟩
      rcases either with waits | waits
      · exact waits
      · exact alone second waits ▸ waits
  · rintro (⟨waits, alone⟩ | ⟨waits, alone⟩)
    · exact ⟨.inl waits, fun other member => .inl (alone other member)⟩
    · refine ⟨.inr waits.1, ?_⟩
      intro other member
      by_cases same : other = first
      · exact .inl same
      · exact .inr (alone other ⟨member, same⟩)

theorem not_last_of_last (last : watch.Last first) (second : TaskId) :
    ¬ (watch.hear first).Last second := by
  rintro ⟨waits, -⟩
  obtain ⟨member, apart⟩ := (mem_hear first second watch).mp waits
  exact apart (last.2 second member)

def firesTwo (first second : TaskId) (watch : CompletionWatch) : List (Span × Action) :=
  (watch.fires? first).toList ++ ((watch.hear first).fires? second).toList

/-- Whether a watch has heard of two tasks and put its action on the agenda shows only in whether it
waited for others. -/
theorem hear_two (first second : TaskId) (watch : CompletionWatch) :
    (watch.LastTwo first second → ((watch.hear first).hear second).action = none ∧
        watch.firesTwo first second =
          (watch.action.map fun action => (watch.delay, action)).toList) ∧
      (¬ watch.LastTwo first second → ((watch.hear first).hear second).action = watch.action ∧
        watch.firesTwo first second = []) := by
  rw [lastTwo_iff, firesTwo]
  by_cases now : watch.Last first
  · have past := not_last_of_last now second
    have told := action_hear_of_last now
    simp [now, action_hear_of_not_last past, fires?_of_last now, fires?_of_not_last past, told]
  · have kept := action_hear_of_not_last now
    by_cases later : (watch.hear first).Last second
    · have silent := fires?_of_not_last now
      simp [later, action_hear_of_last later, silent, fires?_of_last later, kept, delay_hear]
    · simp [now, later, action_hear_of_not_last later, fires?_of_not_last now,
        fires?_of_not_last later, kept]

theorem hear_comm (first second : TaskId) (watch : CompletionWatch) :
    (watch.hear first).hear second = (watch.hear second).hear first := by
  have waiting := waiting_hear_comm first second watch
  have delay : ((watch.hear first).hear second).delay = ((watch.hear second).hear first).delay := by
    simp only [delay_hear]
  have action : ((watch.hear first).hear second).action =
      ((watch.hear second).hear first).action := by
    obtain ⟨fires, waits⟩ := hear_two first second watch
    obtain ⟨turnedFires, turnedWaits⟩ := hear_two second first watch
    by_cases both : watch.LastTwo first second
    · rw [(fires both).1, (turnedFires (lastTwo_comm.mp both)).1]
    · rw [(waits both).1, (turnedWaits (fun turned => both (lastTwo_comm.mp turned))).1]
  generalize (watch.hear first).hear second = left at waiting delay action
  generalize (watch.hear second).hear first = right at waiting delay action
  cases left
  cases right
  simp_all

theorem firesTwo_comm (first second : TaskId) (watch : CompletionWatch) :
    watch.firesTwo first second = watch.firesTwo second first := by
  obtain ⟨fires, waits⟩ := hear_two first second watch
  obtain ⟨turnedFires, turnedWaits⟩ := hear_two second first watch
  by_cases both : watch.LastTwo first second
  · rw [(fires both).2, (turnedFires (lastTwo_comm.mp both)).2]
  · rw [(waits both).2, (turnedWaits (fun turned => both (lastTwo_comm.mp turned))).2]

/-- All watches put the same on the agenda whichever of two completions comes first. -/
theorem fired_perm (first second : TaskId) (watches : List CompletionWatch) :
    (watches.filterMap (fires? first) ++
        (watches.map (hear first)).filterMap (fires? second)).Perm
      (watches.filterMap (fires? second) ++
        (watches.map (hear second)).filterMap (fires? first)) := by
  have each (one other : TaskId) :
      (watches.filterMap (fires? one) ++ (watches.map (hear one)).filterMap (fires? other)).Perm
        (watches.flatMap (firesTwo one other)) := by
    rw [List.filterMap_map, List.filterMap_eq_flatMap_toList, List.filterMap_eq_flatMap_toList]
    exact List.flatMap_append_perm watches _ _
  refine (each first second).trans ?_
  have same : firesTwo first second = firesTwo second first :=
    funext fun watch => firesTwo_comm first second watch
  rw [same]
  exact (each second first).symm

end CompletionWatch

end PathDirectives
