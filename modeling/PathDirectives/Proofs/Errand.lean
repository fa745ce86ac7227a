import PathDirectives.Proofs.Instants
import PathDirectives.Proofs.Outcome
import PathDirectives.Proofs.Watches

/-!
What is to become of an action that waits for completions, by itself. It waits while a task is
incomplete, is then queued for the latest completion and the delay, and is applied by the first
advance that reaches that date.
-/

namespace PathDirectives

open Calendar

/-- The tasks are all complete, and this is the date of the latest completion. -/
structure LastCompletion (completed : TaskId → Option Instant) (tasks : TaskSet) (last : Instant) :
    Prop where
  all : ∀ task ∈ tasks, ∃ date, completed task = some date ∧ date ≤ last
  one : ∃ task ∈ tasks, completed task = some last

def TaskSet.incomplete (completed : TaskId → Option Instant) (tasks : TaskSet) : TaskSet :=
  tasks.filter fun task => !(completed task).isSome

theorem TaskSet.mem_incomplete {completed : TaskId → Option Instant} {tasks : TaskSet}
    {task : TaskId} : task ∈ tasks.incomplete completed ↔ task ∈ tasks ∧ completed task = none := by
  simp [incomplete]

theorem TaskSet.isEmpty_eq_false {tasks : TaskSet} {task : TaskId} (member : task ∈ tasks) :
    tasks.isEmpty = false := by
  rw [Bool.eq_false_iff, Ne, isEmpty_iff]
  exact fun empty => empty task member

/-- How far an action has come that waits for a date or for completions. -/
inductive Stage where
  | waiting
  | dropped
  | queued (due : Instant)
  | applied (due : Instant)
  deriving DecidableEq

inductive Stage.Right (completed : TaskId → Option Instant) (tasks : TaskSet) (delay : Span) :
    Stage → Prop where
  | waiting {task : TaskId} (member : task ∈ tasks) (incomplete : completed task = none) :
      Right completed tasks delay .waiting
  | dropped {last : Instant} (latest : LastCompletion completed tasks last)
      (beyond : last.add? delay = none) : Right completed tasks delay .dropped
  | queued {last due : Instant} (latest : LastCompletion completed tasks last)
      (added : last.add? delay = some due) : Right completed tasks delay (.queued due)
  | applied {last due : Instant} (latest : LastCompletion completed tasks last)
      (added : last.add? delay = some due) : Right completed tasks delay (.applied due)

structure Errand where
  effect : Effect
  stage : Stage

def Effect.isDeferred : Effect → Bool
  | .onDate .. | .onCompletion .. => true
  | .now _ | .onSelection .. => false

def Effect.errand? : Effect → Option Errand
  | .onDate date action => some ⟨.onDate date action, .queued date⟩
  | .onCompletion tasks delay action => some ⟨.onCompletion tasks delay action, .waiting⟩
  | .now _ | .onSelection .. => none

namespace Errand

/-- An errand that waits for completions goes on the agenda once its tasks are all complete, for the
latest completion and the delay. -/
def settle (completed : TaskId → Option Instant) (errand : Errand) : Errand :=
  match errand with
  | ⟨.onCompletion tasks delay action, .waiting⟩ =>
      if tasks.ids.all fun task => (completed task).isSome then
        match (Run.latest? (tasks.ids.filterMap completed)).bind (·.add? delay) with
        | some due => ⟨.onCompletion tasks delay action, .queued due⟩
        | none => ⟨.onCompletion tasks delay action, .dropped⟩
      else errand
  | _ => errand

def advance (date : Instant) (errand : Errand) : Errand :=
  match errand.stage with
  | .queued due => if due ≤ date then { errand with stage := .applied due } else errand
  | _ => errand

def queued? (errand : Errand) : Option (Instant × Action) :=
  match errand.stage with
  | .queued due => some (due, errand.effect.action)
  | _ => none

def applied? (errand : Errand) : Option (Instant × Action) :=
  match errand.stage with
  | .applied due => some (due, errand.effect.action)
  | _ => none

def watch? (completed : TaskId → Option Instant) (errand : Errand) : Option CompletionWatch :=
  match errand with
  | ⟨.onCompletion tasks delay action, .waiting⟩ =>
      some ⟨tasks.incomplete completed, delay, some action⟩
  | _ => none

/-- The stage of an errand is one that it can be in, and its action opens and closes no window. -/
structure Right (completed : TaskId → Option Instant) (errand : Errand) : Prop where
  plain : errand.effect.action.window? = none
  stage : match errand.effect with
    | .onDate date _ => errand.stage = .queued date ∨ errand.stage = .applied date
    | .onCompletion tasks delay _ => errand.stage.Right completed tasks delay
    | _ => False

end Errand

variable {completed later : TaskId → Option Instant} {tasks : TaskSet} {delay : Span}
  {last : Instant}

namespace LastCompletion

theorem latest? (latest : LastCompletion completed tasks last) :
    Run.latest? (tasks.ids.filterMap completed) = some last := by
  refine Run.latest?_eq_some_iff.mpr ⟨?_, fun date member => ?_⟩
  · obtain ⟨task, inside, found⟩ := latest.one
    exact List.mem_filterMap.mpr ⟨task, inside, found⟩
  · obtain ⟨task, inside, found⟩ := List.mem_filterMap.mp member
    obtain ⟨known, same, below⟩ := latest.all task inside
    exact Option.some.inj (same.symm.trans found) ▸ below

theorem nothing_incomplete (latest : LastCompletion completed tasks last) :
    (tasks.incomplete completed).isEmpty = true := by
  refine TaskSet.isEmpty_iff.mpr fun task among => ?_
  obtain ⟨member, missing⟩ := TaskSet.mem_incomplete.mp among
  obtain ⟨date, found, _⟩ := latest.all task member
  simp [found] at missing

theorem extend (latest : LastCompletion completed tasks last)
    (kept : ∀ task date, completed task = some date → later task = some date) :
    LastCompletion later tasks last where
  all task member := by
    obtain ⟨date, found, below⟩ := latest.all task member
    exact ⟨date, kept task date found, below⟩
  one := by
    obtain ⟨task, member, found⟩ := latest.one
    exact ⟨task, member, kept task last found⟩

end LastCompletion

theorem incomplete_or_last (completed : TaskId → Option Instant) (filled : tasks.isEmpty = false) :
    (∃ task ∈ tasks, completed task = none) ∨ ∃ last, LastCompletion completed tasks last := by
  by_cases incomplete : ∃ task ∈ tasks, completed task = none
  · exact .inl incomplete
  · have known (task : TaskId) (member : task ∈ tasks) : ∃ date, completed task = some date :=
      Option.ne_none_iff_exists'.mp fun none => incomplete ⟨task, member, none⟩
    refine .inr ?_
    cases found : Run.latest? (tasks.ids.filterMap completed) with
    | none =>
        have nothing := Run.latest?_eq_none_iff.mp found
        obtain ⟨task, member⟩ := List.exists_mem_of_ne_nil tasks.ids fun empty => by
          simp [TaskSet.isEmpty, empty] at filled
        obtain ⟨date, complete⟩ := known task member
        have inside := List.mem_filterMap.mpr ⟨task, member, complete⟩
        simp [nothing] at inside
    | some last =>
        obtain ⟨member, bound⟩ := Run.latest?_eq_some_iff.mp found
        obtain ⟨task, inside, complete⟩ := List.mem_filterMap.mp member
        refine ⟨last, fun other inside => ?_, task, inside, complete⟩
        obtain ⟨date, complete⟩ := known other inside
        exact ⟨date, complete, bound date (List.mem_filterMap.mpr ⟨other, inside, complete⟩)⟩

theorem Stage.Right.filled {stage : Stage} (right : stage.Right completed tasks delay) :
    tasks.isEmpty = false := by
  cases right with
  | waiting member _ => exact TaskSet.isEmpty_eq_false member
  | dropped latest _ | queued latest _ | applied latest _ =>
      obtain ⟨task, member, _⟩ := latest.one
      exact TaskSet.isEmpty_eq_false member

namespace Errand

variable {action : Action} {errand : Errand}

theorem settle_of_incomplete {task : TaskId} (member : task ∈ tasks)
    (incomplete : completed task = none) :
    settle completed ⟨.onCompletion tasks delay action, .waiting⟩ =
      ⟨.onCompletion tasks delay action, .waiting⟩ := by
  have some_open : ¬ (tasks.ids.all fun task => (completed task).isSome) = true := by
    intro all
    simpa [incomplete] using List.all_eq_true.mp all task member
  simp only [settle, if_neg some_open]

theorem settle_of_last (latest : LastCompletion completed tasks last) :
    settle completed ⟨.onCompletion tasks delay action, .waiting⟩ =
      match last.add? delay with
      | some due => ⟨.onCompletion tasks delay action, .queued due⟩
      | none => ⟨.onCompletion tasks delay action, .dropped⟩ := by
  have all : (tasks.ids.all fun task => (completed task).isSome) = true := by
    refine List.all_eq_true.mpr fun task member => ?_
    obtain ⟨date, found, _⟩ := latest.all task member
    simp [found]
  simp only [settle, if_pos all, latest.latest?, Option.bind_some]

theorem waits_or (errand : Errand) :
    (∃ tasks delay action, errand = ⟨.onCompletion tasks delay action, .waiting⟩) ∨
      ∀ completed, errand.settle completed = errand ∧ errand.watch? completed = none := by
  obtain ⟨effect, stage⟩ := errand
  cases effect with
  | onCompletion tasks delay action =>
      cases stage with
      | waiting => exact .inl ⟨tasks, delay, action, rfl⟩
      | _ => exact .inr fun _ => ⟨rfl, rfl⟩
  | _ => exact .inr fun _ => ⟨rfl, rfl⟩

theorem settle_right (filled : tasks.isEmpty = false) (plain : action.window? = none) :
    (settle completed ⟨.onCompletion tasks delay action, .waiting⟩).Right completed := by
  rcases incomplete_or_last completed filled with ⟨task, member, incomplete⟩ | ⟨last, latest⟩
  · rw [settle_of_incomplete member incomplete]
    exact ⟨plain, .waiting member incomplete⟩
  · rw [settle_of_last latest]
    cases added : last.add? delay with
    | none => exact ⟨plain, .dropped latest added⟩
    | some due => exact ⟨plain, .queued latest added⟩

theorem Right.settle_eq (right : errand.Right completed) : errand.settle completed = errand := by
  rcases errand.waits_or with ⟨tasks, delay, action, rfl⟩ | still
  · cases right.stage with
    | waiting member incomplete => exact settle_of_incomplete member incomplete
  · exact (still completed).1

theorem Right.extend (right : errand.Right completed)
    (kept : ∀ task date, completed task = some date → later task = some date) :
    (errand.settle later).Right later := by
  rcases errand.waits_or with ⟨tasks, delay, action, rfl⟩ | still
  · exact settle_right (Stage.Right.filled right.stage) right.plain
  · rw [(still later).1]
    refine ⟨right.plain, ?_⟩
    have stage := right.stage
    obtain ⟨effect, stage⟩ := errand
    cases effect with
    | onCompletion tasks delay action =>
        cases stage with
        | waiting => exact absurd (still later).2 (by simp [watch?])
        | dropped =>
            cases right.stage with
            | dropped latest beyond => exact .dropped (latest.extend kept) beyond
        | queued due =>
            cases right.stage with
            | queued latest added => exact .queued (latest.extend kept) added
        | applied due =>
            cases right.stage with
            | applied latest added => exact .applied (latest.extend kept) added
    | _ => exact stage

theorem Right.advance (right : errand.Right completed) (date : Instant) :
    (errand.advance date).Right completed := by
  obtain ⟨effect, stage⟩ := errand
  unfold Errand.advance
  split
  · rename_i due same
    dsimp only at same
    subst same
    split
    · refine ⟨right.plain, ?_⟩
      have stage := right.stage
      cases effect with
      | onCompletion tasks delay action =>
          cases right.stage with
          | queued latest added => exact .applied latest added
      | onDate date action =>
          rcases stage with same | same
          · exact .inr (congrArg _ (Stage.queued.inj same))
          · simp at same
      | _ => exact stage
    · exact right
  · exact right

theorem watch?_advance (errand : Errand) (completed : TaskId → Option Instant) (date : Instant) :
    (errand.advance date).watch? completed = errand.watch? completed := by
  obtain ⟨effect, stage⟩ := errand
  cases stage with
  | queued due =>
      simp only [advance]
      split <;> cases effect <;> rfl
  | _ => rfl

theorem queued?_advance (errand : Errand) (date : Instant) :
    (errand.advance date).queued? = errand.queued?.filter fun entry => decide (date < entry.1) := by
  obtain ⟨effect, stage⟩ := errand
  cases stage with
  | queued due =>
      by_cases reached : due ≤ date
      · have past : ¬ date < due := Instant.not_lt.mpr reached
        simp [advance, queued?, Option.filter, reached, past]
      · have ahead : date < due := Instant.not_le.mp reached
        simp [advance, queued?, Option.filter, reached, ahead]
  | _ => rfl

theorem applied?_advance (errand : Errand) (date : Instant) :
    (errand.advance date).applied? =
      errand.applied?.or (errand.queued?.filter fun entry => decide (entry.1 ≤ date)) := by
  obtain ⟨effect, stage⟩ := errand
  cases stage with
  | queued due =>
      by_cases reached : due ≤ date <;> simp [advance, queued?, applied?, Option.filter, reached]
  | _ => rfl

theorem applied?_settle (errand : Errand) (completed : TaskId → Option Instant) :
    (errand.settle completed).applied? = errand.applied? := by
  rcases errand.waits_or with ⟨tasks, delay, action, rfl⟩ | still
  · simp only [settle]
    split
    · split <;> rfl
    · rfl
  · rw [(still completed).1]

theorem Right.plain_fires (right : errand.Right completed) {task : TaskId} {date : Instant}
    {entry : Instant × Action}
    (fires : ((errand.watch? completed).bind (·.fires? task)).bind (Run.entryAfter? date) =
      some entry) : entry.2.window? = none := by
  rcases errand.waits_or with ⟨tasks, delay, action, rfl⟩ | still
  · obtain ⟨fired, acts, put⟩ := Option.bind_eq_some_iff.mp fires
    obtain ⟨watch, own, acts⟩ := Option.bind_eq_some_iff.mp acts
    obtain rfl := Option.some.inj own
    unfold CompletionWatch.fires? at acts
    split at acts
    · obtain rfl := Option.some.inj acts
      obtain ⟨due, _, rfl⟩ := Option.map_eq_some_iff.mp put
      exact right.plain
    · simp at acts
  · simp [(still completed).2] at fires

theorem applied?_or_queued? (errand : Errand) : errand.applied? = none ∨ errand.queued? = none := by
  obtain ⟨effect, stage⟩ := errand
  cases stage with
  | applied due => exact .inr rfl
  | _ => exact .inl rfl

theorem queued?_or_watch? (errand : Errand) (completed : TaskId → Option Instant) :
    errand.queued? = none ∨ errand.watch? completed = none := by
  rcases errand.waits_or with ⟨tasks, delay, action, rfl⟩ | still
  · exact .inl rfl
  · exact .inr (still completed).2

/-! ### One more completion -/

section Told

variable {task : TaskId} {date : Instant}
  (told : ∀ other, later other = if other = task then some date else completed other)

include told

theorem incomplete_told (tasks : TaskSet) :
    (tasks.incomplete completed).filter (· != task) = tasks.incomplete later := by
  refine TaskSet.ext_members fun other => ?_
  rw [TaskSet.mem_filter, TaskSet.mem_incomplete, TaskSet.mem_incomplete, told other]
  by_cases same : other = task <;> simp [same]

theorem last_told (ordered : ∀ other done, completed other = some done → done ≤ date)
    (member : task ∈ tasks) (latest : LastCompletion later tasks last) : last = date := by
  have reported : later task = some date := by rw [told, if_pos rfl]
  obtain ⟨known, found, below⟩ := latest.all task member
  obtain rfl := Option.some.inj (found.symm.trans reported)
  refine Instant.le_antisymm ?_ below
  obtain ⟨other, _, complete⟩ := latest.one
  rw [told] at complete
  split at complete
  · exact Option.some.inj complete ▸ Instant.le_refl _
  · exact ordered other last complete

theorem told_of_mem (fresh : completed task = none) (member : task ∈ tasks)
    (ordered : ∀ other done, completed other = some done → done ≤ date)
    (waiting : errand = ⟨.onCompletion tasks delay action, .waiting⟩) :
    (errand.settle later).watch? later =
        ((errand.watch? completed).map (·.hear task)).filter (·.action.isSome) ∧
      (errand.settle later).queued? =
        ((errand.watch? completed).bind (·.fires? task)).bind (Run.entryAfter? date) := by
  have waits : task ∈ tasks.incomplete completed := TaskSet.mem_incomplete.mpr ⟨member, fresh⟩
  have watched : errand.watch? completed =
      some ⟨tasks.incomplete completed, delay, some action⟩ := by
    rw [waiting]
    rfl
  rw [watched, Option.map_some, Option.bind_some, CompletionWatch.hear, CompletionWatch.fires?,
    if_pos waits, incomplete_told told, waiting]
  rcases incomplete_or_last later (TaskSet.isEmpty_eq_false member) with
    ⟨other, inside, missing⟩ | ⟨last, latest⟩
  · have rest := TaskSet.isEmpty_eq_false (TaskSet.mem_incomplete.mpr ⟨inside, missing⟩)
    rw [settle_of_incomplete inside missing]
    simp [watch?, queued?, rest, Option.filter]
  · have nothing := latest.nothing_incomplete
    rw [settle_of_last latest, last_told told ordered member latest]
    cases added : date.add? delay <;>
      simp [watch?, queued?, Run.entryAfter?, waits, nothing, added, Option.filter, Effect.action]

theorem told_of_not_mem {other : TaskId} (apart : ¬ task ∈ tasks) (inside : other ∈ tasks)
    (missing : completed other = none)
    (waiting : errand = ⟨.onCompletion tasks delay action, .waiting⟩) :
    errand.settle later = errand ∧ errand.watch? later = errand.watch? completed ∧
      (errand.watch? completed).map (·.hear task) = errand.watch? completed ∧
        (errand.watch? completed).bind (·.fires? task) = none := by
  have still : later other = none := by
    rw [told, if_neg fun same : other = task => apart (same ▸ inside)]
    exact missing
  have silent : ¬ task ∈ tasks.incomplete completed :=
    fun among => apart (TaskSet.mem_incomplete.mp among).1
  have same : tasks.incomplete later = tasks.incomplete completed := by
    rw [← incomplete_told told]
    refine TaskSet.ext_members fun id => ?_
    rw [TaskSet.mem_filter]
    refine ⟨fun both => both.1, fun among => ⟨among, ?_⟩⟩
    rw [bne_iff_ne]
    rintro rfl
    exact silent among
  rw [waiting]
  refine ⟨settle_of_incomplete inside still, ?_, ?_, ?_⟩
  · simp only [watch?, same]
  · simp only [watch?, Option.map_some, CompletionWatch.hear, if_neg silent]
  · simp only [watch?, Option.bind_some, CompletionWatch.fires?, silent, false_and, if_false]

theorem told_cases (fresh : completed task = none)
    (ordered : ∀ other done, completed other = some done → done ≤ date)
    (right : errand.Right completed) :
    (errand.settle later).watch? later =
        ((errand.watch? completed).map (·.hear task)).filter (·.action.isSome) ∧
      (errand.settle later).queued? =
        errand.queued?.or
          (((errand.watch? completed).bind (·.fires? task)).bind (Run.entryAfter? date)) := by
  rcases errand.waits_or with ⟨tasks, delay, action, waiting⟩ | still
  · by_cases member : task ∈ tasks
    · obtain ⟨watched, queued⟩ := told_of_mem told fresh member ordered waiting
      refine ⟨watched, ?_⟩
      rw [queued, waiting]
      rfl
    · subst waiting
      cases right.stage with
      | waiting inside missing =>
          obtain ⟨settled, same, heard, silent⟩ := told_of_not_mem told member inside missing rfl
          rw [settled, same, heard, silent]
          exact ⟨rfl, rfl⟩
  · rw [(still later).1, (still later).2, (still completed).2]
    simp

end Told

end Errand

end PathDirectives
