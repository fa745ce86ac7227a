import PathDirectives.Proofs.Completions
import PathDirectives.Proofs.Reach
import PathDirectives.Proofs.Watches

/-!
Whose an action is. A directive asks for holds on its own equipment and for actions on its own path,
and otherwise for edges only; whatever waits for tasks or for a selection works on a single path.
-/

namespace PathDirectives

open Calendar

/-- The equipment whose path or windows an action changes; none for those that change edges. -/
def Action.owner? : Action → Option EquipmentId
  | .addDependencies .. | .removeDependencies .. => none
  | .removeElements id _ => some id
  | .insertIdle id .. => some id
  | .forceComplete id .. => some id
  | .moveToFront id _ => some id
  | .insertSteps id .. => some id
  | .activateWindow handle | .deactivateWindow handle => some handle.key.equipment

def Action.OnPathOf (id : EquipmentId) (action : Action) : Prop :=
  action.owner? = some id ∧ action.window? = none

theorem Action.OnPathOf.owner_eq {id owner : EquipmentId} {action : Action}
    (own : action.OnPathOf id) (owns : owner ∈ action.owner?) : owner = id := by
  rw [own.1] at owns
  exact (Option.some.inj owns).symm

def Effect.Own (id : EquipmentId) : Effect → Prop
  | .now action | .onDate _ action => ∀ owner ∈ action.owner?, owner = id
  | .onCompletion _ _ action => action.OnPathOf id
  | .onSelection equipment _ action => equipment = id ∧ action.OnPathOf id

def Registration.Own (id : EquipmentId) : Registration → Prop
  | .wait key _ | .window key _ => key.equipment = id

namespace Interpreter

variable {interpreter : Interpreter}

theorem interpret_own {line : WalkedLine} {directive : Directive} {outcome : LineOutcome}
    (interpreted : interpreter.interpret line directive = .ok outcome) :
    outcome.All (Registration.Own interpreter.id) (Effect.Own interpreter.id) := by
  refine (interpret_all interpreted).mono ?_ ?_
  · intro registration records
    cases records <;> rfl
  · intro effect requests
    cases requests with
    | dependFree | dependOn | dependClear =>
        intro owner owns
        simp [Action.owner?] at owns
    | removeOnDate | removeAtStart | forceComplete | injectSchedulePath =>
        intro owner owns
        exact (Option.some.inj owns).symm
    | deadhead | removeCompleted | removeAvailable => exact ⟨rfl, rfl⟩
    | reprioritise => exact ⟨rfl, rfl, rfl⟩

end Interpreter

namespace Run

variable {run : Run} {id : EquipmentId}

theorem readPath_own {equipment : Equipment} {reading : PathReading}
    (read : run.readPath id equipment = (reading, .ok ())) :
    reading.outcome.All (Registration.Own id) (Effect.Own id) := by
  apply readPath_all ?_ read
  intro line kind command directive graph outcome resolved interpreted
  exact Interpreter.interpret_own interpreted

/-! ### What waits -/

/-- What waits for tasks is filed under them and will change a path; what waits for a selection will
change the path of its own equipment. -/
structure OwnWatches (run : Run) : Prop where
  indexed : run.WatchIndexed
  completions : ∀ watch ∈ run.completions, ∀ action ∈ watch.action, ∃ owner, action.OnPathOf owner
  selections : ∀ watch ∈ run.selections, ∀ action ∈ watch.action, action.OnPathOf watch.equipment

theorem OwnWatches.register (own : run.OwnWatches) (registration : Registration) :
    (run.register registration).OwnWatches := by
  cases registration with
  | wait key counter => exact ⟨own.indexed, own.completions, own.selections⟩
  | window key window => exact ⟨own.indexed, own.completions, own.selections⟩

theorem OwnWatches.registerAll (own : run.OwnWatches) (registrations : List Registration) :
    (registrations.foldl Run.register run).OwnWatches := by
  induction registrations generalizing run with
  | nil => exact own
  | cons registration rest ih => exact ih (own.register registration)

theorem OwnWatches.schedule (own : run.OwnWatches) {effect : Effect} (asked : effect.Own id) :
    (run.schedule effect).1.OwnWatches := by
  have indexed := own.indexed.schedule effect
  cases effect with
  | now action | onDate date action => exact ⟨indexed, own.completions, own.selections⟩
  | onCompletion tasks delay action =>
      simp only [Run.schedule] at indexed ⊢
      split at indexed
      · rename_i complete
        rw [if_pos complete]
        exact ⟨indexed, own.completions, own.selections⟩
      · rename_i incomplete
        rw [if_neg incomplete]
        refine ⟨indexed, ?_, own.selections⟩
        intro watch member other acts
        rcases List.mem_append.mp member with old | new
        · exact own.completions watch old other acts
        · rw [List.mem_singleton] at new
          subst new
          exact ⟨id, Option.some.inj acts ▸ asked⟩
  | onSelection equipment elements action =>
      refine ⟨indexed, own.completions, ?_⟩
      intro watch member other acts
      rcases List.mem_append.mp member with old | new
      · exact own.selections watch old other acts
      · rw [List.mem_singleton] at new
        subst new
        obtain ⟨rfl, changes⟩ := asked
        exact Option.some.inj acts ▸ changes

theorem OwnWatches.commit (own : run.OwnWatches) {outcome : LineOutcome}
    (asked : outcome.All (Registration.Own id) (Effect.Own id)) :
    (run.commit outcome).1.OwnWatches := by
  have step : ∀ next : Run, ∀ effect ∈ outcome.effects, next.OwnWatches →
      (next.schedule effect).1.OwnWatches := by
    intro next effect member before
    exact before.schedule (asked.effects effect member)
  exact scheduleAll_preserves step (own.registerAll outcome.registrations)

theorem OwnWatches.enter (own : run.OwnWatches) (graph : TaskGraph) (task : TaskId)
    (date : Instant) : (run.enter graph task date).OwnWatches := by
  refine ⟨own.indexed.enter graph task date, ?_, own.selections⟩
  intro watch member action acts
  change watch ∈ (run.tellWatches task date).1 at member
  rw [own.indexed.tellWatches] at member
  obtain ⟨old, inside, rfl⟩ := List.mem_map.mp member
  exact own.completions old inside action (CompletionWatch.action_of_hear acts)

theorem OwnWatches.advanceTo (own : run.OwnWatches) (date : Instant) :
    (run.advanceTo date).1.OwnWatches := by
  unfold Run.advanceTo
  split
  · exact ⟨own.indexed, own.completions, own.selections⟩
  · exact ⟨own.indexed, own.completions, own.selections⟩

theorem OwnWatches.changeEquipment (own : run.OwnWatches) {next : Run}
    {change : Equipment → Equipment} (changed : run.changeEquipment id change = .ok next) :
    next.OwnWatches := by
  rw [eq_of_changeEquipment changed]
  exact ⟨own.indexed, own.completions, own.selections⟩

theorem OwnWatches.perform (own : run.OwnWatches) (call : Call) :
    (run.perform call).1.OwnWatches := by
  cases run.performing call with
  | kept performs => exact performs ▸ own
  | @installed _ _ reading _ _ read committed performs =>
      have after := own.commit (readPath_own read)
      rw [committed] at after
      rw [performs]
      exact ⟨after.indexed, after.completions, after.selections⟩
  | completed _ performs =>
      rw [performs]
      exact (own.enter _ _ _).advanceTo _
  | @selected id element _ next changed performs =>
      have after := own.changeEquipment changed
      rw [performs]
      refine ⟨after.indexed, after.completions, ?_⟩
      intro watch member action acts
      obtain ⟨old, inside, rfl⟩ := List.mem_map.mp member
      unfold arm at acts ⊢
      split at acts
      · rename_i arms
        rw [if_pos arms]
        exact after.selections old inside action acts
      · rename_i arms
        rw [if_neg arms]
        exact after.selections old inside action acts
  | @released id _ next changed performs =>
      have after := own.changeEquipment changed
      rw [performs]
      refine ⟨after.indexed, after.completions, ?_⟩
      intro watch member action acts
      obtain ⟨old, inside, rfl⟩ := List.mem_map.mp member
      unfold disarm at acts ⊢
      split at acts
      · simp at acts
      · rename_i stays
        rw [if_neg stays]
        exact after.selections old inside action acts
  | advanced performs =>
      rw [performs]
      exact own.advanceTo _

structure Orderly (run : Run) : Prop where
  inStep : run.site.InStep
  watches : run.OwnWatches

theorem Orderly.perform (orderly : run.Orderly) (call : Call) : (run.perform call).1.Orderly :=
  ⟨inStep_perform orderly.inStep call, orderly.watches.perform call⟩

theorem Orderly.performAll (orderly : run.Orderly) (calls : List Call) :
    (run.performAll calls).Orderly := by
  induction calls generalizing run with
  | nil => exact orderly
  | cons call rest ih => exact ih (orderly.perform call)

theorem orderly_of_reaches {config : Config} {scenario : Scenario} {library : ScheduleLibrary}
    {compiles : Bool} {first : Run} (built : build config scenario library compiles = .ok first)
    (reaches : first.Reaches run) : run.Orderly := by
  induction reaches with
  | start =>
      obtain ⟨compiled, -, rfl⟩ := eq_start_of_build built
      refine ⟨inStep_of_build built, ?_, ?_, ?_⟩
      · intro task
        rfl
      · intro watch member
        simp [Run.start] at member
      · intro watch member
        simp [Run.start] at member
  | call before call ih => exact ih.perform call
  | @finishSetup run before ih =>
      unfold finishSetup
      split
      · exact ih
      · exact ⟨ih.inStep, ih.watches.indexed, ih.watches.completions, ih.watches.selections⟩

end Run

end PathDirectives
