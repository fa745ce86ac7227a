import Mathlib.Data.List.Basic
import PathDirectives.Proofs.Counters
import PathDirectives.Proofs.Steps

/-!
Completion watches against their index. The index lists, for each task, just the places of the
watches that wait for it, so that telling those listed is telling all.
-/

namespace PathDirectives

open Calendar

namespace CompletionWatch

def hear (task : TaskId) (watch : CompletionWatch) : CompletionWatch :=
  if task ∈ watch.waiting then
    let waiting := watch.waiting.filter (· != task)
    if waiting.isEmpty then { watch with waiting, action := none } else { watch with waiting }
  else watch

def fires? (task : TaskId) (watch : CompletionWatch) : Option (Span × Action) :=
  if task ∈ watch.waiting ∧ (watch.waiting.filter (· != task)).isEmpty = true then
    watch.action.map fun action => (watch.delay, action)
  else none

theorem mem_hear (task other : TaskId) (watch : CompletionWatch) :
    other ∈ (watch.hear task).waiting ↔ other ∈ watch.waiting ∧ other ≠ task := by
  unfold hear
  by_cases waits : task ∈ watch.waiting
  · rw [if_pos waits]
    dsimp only
    split <;> simp
  · rw [if_neg waits]
    constructor
    · intro member
      exact ⟨member, fun same => waits (same ▸ member)⟩
    · exact fun both => both.1

theorem action_of_hear {task : TaskId} {watch : CompletionWatch} {action : Action}
    (acts : (watch.hear task).action = some action) : watch.action = some action := by
  unfold hear at acts
  split at acts
  · dsimp only at acts
    split at acts
    · simp at acts
    · exact acts
  · exact acts

/-- Watches whose action is of another kind, or has been queued, do not matter to what is left after
a completion. -/
theorem filter_hear (keeps : Action → Bool) (task : TaskId) (watches : List CompletionWatch) :
    (watches.map (hear task)).filter (·.action.any keeps) =
      ((watches.filter (·.action.any keeps)).map (hear task)).filter (·.action.any keeps) := by
  rw [List.filter_map, List.filter_map, List.filter_filter]
  congr 1
  apply List.filter_congr
  intro watch _
  cases acts : (watch.hear task).action with
  | none => simp [acts]
  | some action => simp [acts, action_of_hear acts]

theorem filter_fires? (keeps : Action → Bool) (task : TaskId) (watches : List CompletionWatch) :
    (watches.filterMap (fires? task)).filter (fun fired => keeps fired.2) =
      (watches.filter (·.action.any keeps)).filterMap (fires? task) := by
  rw [List.filter_filterMap, List.filterMap_filter]
  apply List.filterMap_congr
  intro watch _
  unfold fires?
  cases watch.action with
  | none => simp
  | some action =>
      by_cases ends : task ∈ watch.waiting ∧ (watch.waiting.filter (· != task)).isEmpty = true
      · rw [if_pos ends]
        cases kept : keeps action <;> simp [kept]
      · rw [if_neg ends]
        simp

theorem isSome_eq_any (watch : CompletionWatch) :
    watch.action.isSome = watch.action.any fun _ => true := by
  cases watch.action with
  | none => rfl
  | some action => rfl

theorem filter_map_hear (task : TaskId) (watches : List CompletionWatch) :
    (watches.map (hear task)).filter (·.action.isSome) =
      ((watches.filter (·.action.isSome)).map (hear task)).filter (·.action.isSome) := by
  simp only [isSome_eq_any]
  exact filter_hear _ task watches

theorem filterMap_fires? (task : TaskId) (watches : List CompletionWatch) :
    watches.filterMap (fires? task) =
      (watches.filter (·.action.isSome)).filterMap (fires? task) := by
  simp only [isSome_eq_any, ← filter_fires?, List.filter_true]

def placesFrom (task : TaskId) (place : Nat) : List CompletionWatch → List Nat
  | [] => []
  | watch :: rest =>
      if task ∈ watch.waiting then place :: placesFrom task (place + 1) rest
      else placesFrom task (place + 1) rest

theorem placesFrom_append (task : TaskId) (place : Nat) (watches : List CompletionWatch)
    (last : CompletionWatch) :
    placesFrom task place (watches ++ [last]) =
      placesFrom task place watches ++
        if task ∈ last.waiting then [place + watches.length] else [] := by
  induction watches generalizing place with
  | nil =>
      simp only [List.nil_append, placesFrom, List.length_nil, Nat.add_zero]
  | cons watch rest ih =>
      simp only [List.cons_append, placesFrom, ih, List.length_cons]
      rw [show place + 1 + rest.length = place + (rest.length + 1) by omega]
      split <;> rfl

theorem placesFrom_hear (task other : TaskId) (place : Nat) (watches : List CompletionWatch) :
    placesFrom other place (watches.map (hear task)) =
      if other = task then [] else placesFrom other place watches := by
  induction watches generalizing place with
  | nil => simp [placesFrom]
  | cons watch rest ih =>
      simp only [List.map_cons, placesFrom, mem_hear, ih]
      by_cases same : other = task
      · simp [same]
      · simp [same]

end CompletionWatch

namespace Run

open CompletionWatch

/-- An agenda with several actions due their delays after a date. -/
def pushEach (agenda : Agenda Action) (date : Instant) (fired : List (Span × Action)) :
    Agenda Action :=
  fired.foldl (fun agenda (delay, action) => pushAfter agenda date delay action) agenda

def entryAfter? (date : Instant) (fired : Span × Action) : Option (Instant × Action) :=
  (date.add? fired.1).map fun due => (due, fired.2)

theorem queue_pushAfter_perm (agenda : Agenda Action) (date : Instant) (delay : Span)
    (action : Action) :
    (pushAfter agenda date delay action).queue.Perm
      (agenda.queue ++ (entryAfter? date (delay, action)).toList) := by
  unfold pushAfter entryAfter?
  cases date.add? delay with
  | none => simp
  | some due => exact (agenda.queue_push_perm due action).trans (List.perm_append_singleton _ _).symm

theorem queue_pushEach_perm (agenda : Agenda Action) (date : Instant)
    (fired : List (Span × Action)) :
    (pushEach agenda date fired).queue.Perm
      (agenda.queue ++ fired.filterMap (entryAfter? date)) := by
  induction fired generalizing agenda with
  | nil => simp [pushEach]
  | cons first rest ih =>
      obtain ⟨delay, action⟩ := first
      refine (ih (pushAfter agenda date delay action)).trans ?_
      refine ((queue_pushAfter_perm agenda date delay action).append_right _).trans ?_
      rw [List.append_assoc, List.filterMap_cons]
      cases entryAfter? date (delay, action) <;> rfl

theorem tellWatch_here {task : TaskId} {date : Instant} {front rest : List CompletionWatch}
    {watch : CompletionWatch} {agenda : Agenda Action} (waits : task ∈ watch.waiting) :
    tellWatch task date (front ++ watch :: rest, agenda) front.length =
      (front ++ watch.hear task :: rest,
        pushEach agenda date (watch.fires? task).toList) := by
  have found : (front ++ watch :: rest)[front.length]? = some watch := by simp
  have replaced (next : CompletionWatch) :
      (front ++ watch :: rest).set front.length next = front ++ next :: rest := by
    simp
  simp only [tellWatch, found, replaced, hear, fires?, waits, true_and]
  obtain ⟨waiting, delay, action⟩ := watch
  cases (waiting.filter (· != task)).isEmpty <;> cases action <;> rfl

theorem tell_placesFrom (task : TaskId) (date : Instant) (front rest : List CompletionWatch)
    (agenda : Agenda Action) :
    (placesFrom task front.length rest).foldl (tellWatch task date) (front ++ rest, agenda) =
      (front ++ rest.map (hear task), pushEach agenda date (rest.filterMap (fires? task))) := by
  induction rest generalizing front agenda with
  | nil => simp [placesFrom, pushEach]
  | cons watch rest ih =>
      have step := ih (front ++ [watch.hear task])
      simp only [List.length_append, List.length_singleton, List.append_assoc,
        List.singleton_append] at step
      rw [placesFrom, List.map_cons, List.filterMap_cons]
      by_cases waits : task ∈ watch.waiting
      · rw [if_pos waits, List.foldl_cons, tellWatch_here waits, step]
        cases watch.fires? task <;> rfl
      · have same : watch.hear task = watch := if_neg waits
        have silent : watch.fires? task = none := if_neg fun both => waits both.1
        rw [if_neg waits, silent, same]
        rw [same] at step
        exact step agenda

def WatchIndexed (run : Run) : Prop :=
  ∀ task, run.watchersOf task = placesFrom task 0 run.completions

variable {run : Run}

theorem WatchIndexed.tellWatches (indexed : run.WatchIndexed) (task : TaskId) (date : Instant) :
    run.tellWatches task date =
      (run.completions.map (hear task),
        pushEach run.agenda date (run.completions.filterMap (fires? task))) := by
  rw [Run.tellWatches, indexed task]
  exact tell_placesFrom task date [] run.completions run.agenda

theorem WatchIndexed.enter (indexed : run.WatchIndexed) (graph : TaskGraph) (task : TaskId)
    (date : Instant) : (run.enter graph task date).WatchIndexed := by
  intro other
  have told : (run.enter graph task date).completions = run.completions.map (hear task) :=
    congrArg (·.1) (indexed.tellWatches task date)
  rw [told, placesFrom_hear]
  change (Keyed.find? other (Keyed.erase task run.watchers)).getD [] = _
  rw [Keyed.find?_erase]
  split
  · rfl
  · exact indexed other

theorem WatchIndexed.schedule (indexed : run.WatchIndexed) (effect : Effect) :
    (run.schedule effect).1.WatchIndexed := by
  cases effect with
  | onCompletion tasks delay action =>
      simp only [Run.schedule]
      split
      · exact indexed
      · intro task
        rw [watchersOf, Keyed.find?_file _ _ (TaskSet.nodup _), placesFrom_append, Nat.zero_add]
        exact congrArg (· ++ _) (indexed task)
  | _ => exact indexed

end Run

end PathDirectives
