import PathDirectives.Proofs.Advances
import PathDirectives.Proofs.Drain
import PathDirectives.Proofs.Ownership

/-!
What one equipment sees of a site and of an agenda: its path and its work, the holds on it, the
completions of tasks, and the actions of its own. Those of other equipment change nothing of that,
and those of its own change what it sees in the same way whatever else there is.
-/

namespace PathDirectives

open Calendar

section Folds

variable {α σ : Type} {Same : σ → σ → Prop} {concerns : α → Bool} {step : σ → α → σ}
  (equivalence : Equivalence Same)
  (other : ∀ state item, concerns item = false → Same state (step state item))
  (own : ∀ first second item, concerns item = true → Same first second →
    Same (step first item) (step second item))

include equivalence other own

theorem foldl_filter_same (items : List α) {first second : σ} (same : Same first second) :
    Same (items.foldl step first) ((items.filter concerns).foldl step second) := by
  induction items generalizing first second with
  | nil => exact same
  | cons item rest ih =>
      cases concerned : concerns item with
      | true =>
          rw [List.filter_cons_of_pos concerned]
          exact ih (own first second item concerned same)
      | false =>
          rw [List.filter_cons_of_neg (by simp [concerned])]
          have skipped := equivalence.symm (other first item concerned)
          exact ih (equivalence.trans skipped same)

theorem foldl_same_of_filter {left right : List α}
    (among : right.filter concerns = left.filter concerns) {first second : σ}
    (same : Same first second) : Same (left.foldl step first) (right.foldl step second) := by
  have fromLeft := foldl_filter_same equivalence other own left same
  have fromRight := foldl_filter_same equivalence other own right (equivalence.refl second)
  rw [among] at fromRight
  exact equivalence.trans fromLeft (equivalence.symm fromRight)

end Folds

def Action.concerns (id : EquipmentId) (action : Action) : Bool := action.owner? == some id

theorem Action.not_concerns {id other : EquipmentId} {action : Action} (apart : other ≠ id)
    (owned : ∀ owner ∈ action.owner?, owner = other) : action.concerns id = false := by
  rw [concerns, beq_eq_false_iff_ne]
  intro same
  exact apart (owned id same).symm

theorem Waits.eq_of_parts {first second : Waits} (counters : second.counters = first.counters)
    (windows : second.windows = first.windows) : second = first := by
  cases first
  cases second
  exact congrArg₂ Waits.mk counters windows

/-! ### Sites -/

/-- The sites do not differ in what an equipment sees of them. -/
structure Site.Alike (id : EquipmentId) (first second : Site) : Prop where
  equipment? : second.scenario.equipment? id = first.scenario.equipment? id
  completedAt? : ∀ task,
    second.scenario.tasks.completedAt? task = first.scenario.tasks.completedAt? task
  waitsOf : ∀ task, second.holds.waitsOf ⟨id, task⟩ = first.holds.waitsOf ⟨id, task⟩

theorem Scenario.equipment?_modifyEquipment (scenario : Scenario) (id other : EquipmentId)
    (change : Equipment → Equipment) :
    (scenario.modifyEquipment id change).equipment? other =
      if other = id then (scenario.equipment? other).map change else scenario.equipment? other := by
  obtain ⟨place⟩ := id
  obtain ⟨index⟩ := other
  simp only [Scenario.modifyEquipment, Scenario.equipment?, List.getElem?_modify,
    EquipmentId.mk.injEq]
  by_cases same : place = index
  · simp [same]
  · simp [same, Ne.symm same]

namespace Site

variable {id : EquipmentId} {site first second : Site} {action : Action}

theorem alike_equivalence (id : EquipmentId) : Equivalence (Alike id) := by
  constructor
  · intro site
    exact ⟨rfl, fun _ => rfl, fun _ => rfl⟩
  · intro first second alike
    exact ⟨alike.equipment?.symm, fun task => (alike.completedAt? task).symm,
      fun task => (alike.waitsOf task).symm⟩
  · intro first second third left right
    exact ⟨right.equipment?.trans left.equipment?,
      fun task => (right.completedAt? task).trans (left.completedAt? task),
      fun task => (right.waitsOf task).trans (left.waitsOf task)⟩

theorem alike_refl (id : EquipmentId) (site : Site) : Alike id site site :=
  (alike_equivalence id).refl site

theorem editPath_alike {owner : EquipmentId} (apart : owner ≠ id) (site : Site)
    (change : Path → Path) : Alike id site (site.editPath owner change).1 := by
  unfold editPath Scenario.changePath
  cases site.scenario.equipment? owner with
  | none => exact alike_refl id site
  | some equipment =>
      refine ⟨?_, fun _ => rfl, fun _ => rfl⟩
      exact (site.scenario.equipment?_modifyEquipment owner id _).trans (if_neg apart.symm)

theorem changeWindow_alike {handle : WindowHandle} (apart : handle.key.equipment ≠ id)
    (site : Site) (change : TimeWindow → TimeWindow) :
    Alike id site (site.editHolds (site.holds.changeWindow handle change)).1 := by
  unfold editHolds HoldRegister.changeWindow
  cases site.holds.window? handle with
  | none => exact alike_refl id site
  | some window =>
      refine ⟨rfl, fun _ => rfl, ?_⟩
      intro task
      have elsewhere : (⟨id, task⟩ : HoldKey) ≠ handle.key := by
        intro same
        exact apart (congrArg HoldKey.equipment same).symm
      exact (HoldRegister.waitsOf_modifyWindow _ _ _ _).trans (if_neg elsewhere)

theorem apply_other (site : Site) (action : Action) (foreign : action.concerns id = false) :
    Alike id site (site.apply action).1 := by
  simp only [Action.concerns, beq_eq_false_iff_ne, ne_eq] at foreign
  cases action with
  | addDependencies tasks predecessors delay rule =>
      exact ⟨rfl, TaskGraph.completedAt?_addEdges _ _ _ _, fun _ => rfl⟩
  | removeDependencies tasks only =>
      exact ⟨rfl, TaskGraph.completedAt?_dropEdges _ _ _, fun _ => rfl⟩
  | removeElements owner elements | insertIdle owner line process duration
  | moveToFront owner elements | insertSteps owner line anchor steps =>
      exact editPath_alike (fun same => foreign (congrArg some same)) site _
  | forceComplete owner line steps ignoreConstraints =>
      simp only [apply]
      split
      · exact alike_refl id site
      · exact editPath_alike (fun same => foreign (congrArg some same)) site _
  | activateWindow handle | deactivateWindow handle =>
      exact changeWindow_alike (fun same => foreign (congrArg some same)) site _

theorem Alike.editPath (alike : Alike id first second) (change : Path → Path) :
    Alike id (first.editPath id change).1 (second.editPath id change).1 := by
  unfold Site.editPath Scenario.changePath
  rw [alike.equipment?]
  cases found : first.scenario.equipment? id with
  | none => exact alike
  | some equipment =>
      refine ⟨?_, alike.completedAt?, alike.waitsOf⟩
      simp only [Scenario.equipment?_modifyEquipment, alike.equipment?]

theorem Alike.changeWindow (alike : Alike id first second) {handle : WindowHandle}
    (own : handle.key.equipment = id) (change : TimeWindow → TimeWindow) :
    Alike id (first.editHolds (first.holds.changeWindow handle change)).1
      (second.editHolds (second.holds.changeWindow handle change)).1 := by
  have here : second.holds.waitsOf handle.key = first.holds.waitsOf handle.key := by
    subst own
    exact alike.waitsOf handle.key.task
  have found : second.holds.window? handle = first.holds.window? handle := by
    rw [HoldRegister.window?_eq, HoldRegister.window?_eq, here]
  unfold editHolds HoldRegister.changeWindow
  rw [found]
  cases first.holds.window? handle with
  | none => exact alike
  | some window =>
      refine ⟨alike.equipment?, alike.completedAt?, ?_⟩
      intro task
      simp only [HoldRegister.waitsOf_modifyWindow, alike.waitsOf]

theorem apply_own (first second : Site) (action : Action) (own : action.concerns id = true)
    (alike : Alike id first second) :
    Alike id (first.apply action).1 (second.apply action).1 := by
  simp only [Action.concerns, beq_iff_eq] at own
  cases action with
  | addDependencies tasks predecessors delay rule | removeDependencies tasks only =>
      simp [Action.owner?] at own
  | removeElements owner elements | insertIdle owner line process duration
  | moveToFront owner elements | insertSteps owner line anchor steps =>
      obtain rfl : owner = id := Option.some.inj own
      exact alike.editPath _
  | forceComplete owner line steps ignoreConstraints =>
      obtain rfl : owner = id := Option.some.inj own
      have open_ : second.openSteps steps ignoreConstraints =
          first.openSteps steps ignoreConstraints := by
        simp only [openSteps, TaskGraph.isComplete, alike.completedAt?]
      simp only [apply, open_]
      split
      · exact alike
      · exact alike.editPath _
  | activateWindow handle | deactivateWindow handle =>
      exact alike.changeWindow (Option.some.inj own) _

theorem Alike.applyEach (alike : Alike id first second) {left right : List Action}
    (among : right.filter (Action.concerns id) = left.filter (Action.concerns id)) :
    Alike id (first.applyEach left) (second.applyEach right) :=
  foldl_same_of_filter (alike_equivalence id) apply_other apply_own among alike

end Site

namespace Agenda

variable {α : Type}

/-- A queue with an item behind those of its own date and of earlier ones. -/
def slotIn (date : Instant) (item : α) (queue : List (Instant × α)) : List (Instant × α) :=
  queue.filter (fun entry => decide (entry.1 ≤ date)) ++
    (date, item) :: queue.filter fun entry => decide (date < entry.1)

theorem slotIn_append {date : Instant} {front back : List (Instant × α)}
    (past : ∀ entry ∈ front, entry.1 ≤ date) (ahead : ∀ entry ∈ back, date < entry.1)
    (item : α) : slotIn date item (front ++ back) = front ++ (date, item) :: back := by
  have front_due : front.filter (fun entry => decide (entry.1 ≤ date)) = front :=
    List.filter_eq_self.mpr fun entry member => decide_eq_true (past entry member)
  have back_due : back.filter (fun entry => decide (entry.1 ≤ date)) = [] := by
    apply List.filter_eq_nil_iff.mpr
    intro entry member
    simpa using Instant.not_le.mpr (ahead entry member)
  have front_ahead : front.filter (fun entry => decide (date < entry.1)) = [] := by
    apply List.filter_eq_nil_iff.mpr
    intro entry member
    simpa using Instant.not_lt.mpr (past entry member)
  have back_ahead : back.filter (fun entry => decide (date < entry.1)) = back :=
    List.filter_eq_self.mpr fun entry member => decide_eq_true (ahead entry member)
  rw [slotIn, List.filter_append, List.filter_append, front_due, back_due, front_ahead, back_ahead,
    List.append_nil, List.nil_append]

theorem filter_queue_push (keeps : α → Bool) (agenda : Agenda α) (date : Instant) (item : α) :
    (agenda.push date item).queue.filter (fun entry => keeps entry.2) =
      if keeps item = true then slotIn date item (agenda.queue.filter fun entry => keeps entry.2)
      else agenda.queue.filter fun entry => keeps entry.2 := by
  obtain ⟨front, back, parts, pushed, past, ahead⟩ := agenda.queue_push date item
  rw [pushed, parts, List.filter_append, List.filter_append]
  by_cases kept : keeps item = true
  · have past_kept : ∀ entry ∈ front.filter (fun entry => keeps entry.2), entry.1 ≤ date :=
      fun entry member => past entry (List.mem_filter.mp member).1
    have ahead_kept : ∀ entry ∈ back.filter (fun entry => keeps entry.2), date < entry.1 :=
      fun entry member => ahead entry (List.mem_filter.mp member).1
    rw [if_pos kept, slotIn_append past_kept ahead_kept]
    simp [kept]
  · rw [if_neg kept]
    simp [kept]

end Agenda

/-- The agendas do not differ in the actions of a kind. -/
def Agenda.SameAmong (keeps : Action → Bool) (first second : Agenda Action) : Prop :=
  second.queue.filter (fun entry => keeps entry.2) = first.queue.filter fun entry => keeps entry.2

namespace Agenda

variable {keeps : Action → Bool} {first second : Agenda Action}

theorem sameAmong_equivalence (keeps : Action → Bool) : Equivalence (SameAmong keeps) := by
  constructor
  · intro agenda
    rfl
  · intro first second same
    exact Eq.symm same
  · intro first second third left right
    exact Eq.trans right left

theorem sameAmong_push (agenda : Agenda Action) (date : Instant) {action : Action}
    (other : keeps action = false) : SameAmong keeps agenda (agenda.push date action) := by
  rw [SameAmong, filter_queue_push, if_neg (by simp [other])]

theorem SameAmong.push (same : SameAmong keeps first second) (date : Instant) (action : Action) :
    SameAmong keeps (first.push date action) (second.push date action) := by
  rw [SameAmong] at same
  rw [SameAmong, filter_queue_push, filter_queue_push, same]

theorem sameAmong_pushAfter (agenda : Agenda Action) (date : Instant) (delay : Span)
    {action : Action} (other : keeps action = false) :
    SameAmong keeps agenda (Run.pushAfter agenda date delay action) := by
  unfold Run.pushAfter
  split
  · exact agenda.sameAmong_push _ other
  · exact (sameAmong_equivalence keeps).refl agenda

theorem SameAmong.pushAfter (same : SameAmong keeps first second) (date : Instant) (delay : Span)
    (action : Action) :
    SameAmong keeps (Run.pushAfter first date delay action)
      (Run.pushAfter second date delay action) := by
  unfold Run.pushAfter
  split
  · exact same.push _ action
  · exact same

theorem SameAmong.pushEach (same : SameAmong keeps first second) (date : Instant)
    {left right : List (Span × Action)}
    (among : right.filter (fun fired => keeps fired.2) =
      left.filter fun fired => keeps fired.2) :
    SameAmong keeps (Run.pushEach first date left) (Run.pushEach second date right) := by
  apply foldl_same_of_filter (sameAmong_equivalence keeps) ?_ ?_ among same
  · intro agenda fired other
    exact agenda.sameAmong_pushAfter date fired.1 other
  · intro before after fired _ alike
    exact alike.pushAfter date fired.1 fired.2

theorem SameAmong.filter_date (same : SameAmong keeps first second) (test : Instant → Bool) :
    (second.queue.filter fun entry => test entry.1).filter (fun entry => keeps entry.2) =
      (first.queue.filter fun entry => test entry.1).filter fun entry => keeps entry.2 := by
  rw [SameAmong] at same
  rw [List.filter_comm, same, List.filter_comm]

end Agenda

theorem Run.advanceTo_applies {run : Run} {date : Instant}
    (advances : (run.advanceTo date).2 = .ok ()) :
    ∃ rest, (run.advanceTo date).1 =
        { run with
          site := run.site.applyEach
            ((run.agenda.queue.filter fun entry => decide (entry.1 ≤ date)).map (·.2))
          agenda := rest
          now := run.now.later date } ∧
      rest.queue = run.agenda.queue.filter fun entry => decide (date < entry.1) := by
  have whole : run.advanceTo date = ((run.advanceTo date).1, .ok ()) := Prod.ext rfl advances
  obtain ⟨site, agenda, drained, reached⟩ := advanceTo_eq_ok_iff.mp whole
  obtain ⟨logged, ahead⟩ := Site.log_eq_filter drained
  obtain ⟨-, applied⟩ := Site.log_of_ok drained
  refine ⟨agenda, ?_, ahead⟩
  rw [reached, applied, logged]

theorem TaskGraph.eq_of_complete {graph next : TaskGraph} {task : TaskId} {date : Instant}
    {first : Bool}
    (completed : graph.complete task date = .ok (next, first)) :
    first = !graph.isComplete task := by
  unfold complete at completed
  split at completed
  · simp at completed
  · rename_i stored found
    have same : graph.isComplete task = stored.isComplete := by
      simp [isComplete, completedAt?, found, Task.isComplete]
    split at completed
    · rename_i complete
      simp only [Except.ok.injEq, Prod.mk.injEq] at completed
      simp [← completed.2, same, complete]
    · rename_i incomplete
      simp only [Except.ok.injEq, Prod.mk.injEq] at completed
      simp [← completed.2, same, incomplete]

theorem Run.report_cases {run : Run} {task : TaskId} {date : Instant}
    (reports : (run.taskCompleted task date).2 = .ok ()) :
    (run.scenario.tasks.isComplete task = true ∧ (run.taskCompleted task date).1 = run) ∨
      ∃ graph, run.scenario.tasks.isComplete task = false ∧
        run.scenario.tasks.complete task date = .ok (graph, true) ∧
          run.taskCompleted task date = (run.enter graph task date).advanceTo date := by
  cases completed : run.scenario.tasks.complete task date with
  | error error => simp [Run.taskCompleted, completed] at reports
  | ok entry =>
      obtain ⟨graph, news⟩ := entry
      have known := TaskGraph.eq_of_complete completed
      cases news with
      | false =>
          have passes : (run.taskCompleted task date).1 = run := by
            rw [Run.taskCompleted, completed]
          exact .inl ⟨by simpa using known.symm, passes⟩
      | true => exact .inr ⟨graph, by simpa using known.symm, rfl, taskCompleted_first completed⟩

end PathDirectives
