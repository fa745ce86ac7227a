import PathDirectives.Proofs.Drain
import PathDirectives.Proofs.Reach

/-!
What an advance loses. Of the actions that can be queued only the removal of the edges of an unknown
task fails. The first of these that is due ends the advance, and whatever stands behind it under the
same date is gone.
-/

namespace PathDirectives

open Calendar

theorem first_fault_unique {α : Type} {Clean : α → Prop} {front front' behind behind' : List α}
    {fault fault' : α} (same : front ++ fault :: behind = front' ++ fault' :: behind')
    (clean : ∀ entry ∈ front, Clean entry) (clean' : ∀ entry ∈ front', Clean entry)
    (bad : ¬ Clean fault) (bad' : ¬ Clean fault') :
    front = front' ∧ fault = fault' ∧ behind = behind' := by
  induction front generalizing front' with
  | nil =>
      cases front' with
      | nil =>
          obtain ⟨rfl, rfl⟩ := List.cons.inj same
          exact ⟨rfl, rfl, rfl⟩
      | cons head tail =>
          obtain ⟨rfl, _⟩ := List.cons.inj same
          exact absurd (clean' _ List.mem_cons_self) bad
  | cons head tail ih =>
      cases front' with
      | nil =>
          obtain ⟨rfl, _⟩ := List.cons.inj same
          exact absurd (clean _ List.mem_cons_self) bad'
      | cons head' tail' =>
          obtain ⟨rfl, rest⟩ := List.cons.inj same
          obtain ⟨rfl, fault, behind⟩ := ih rest
            (fun entry member => clean entry (List.mem_cons_of_mem _ member))
            fun entry member => clean' entry (List.mem_cons_of_mem _ member)
          exact ⟨rfl, fault, behind⟩

namespace Site

variable {named : TaskId → Prop} {site next : Site}

theorem unknownTask?_of_error {action : Action} {error : RunError}
    (valid : action.Valid named site) (failed : site.apply action = (next, .error error)) :
    ∃ task, action.unknownTask? site.scenario.tasks = some task ∧
      RunError.graph (.unknownTask task) = error := by
  have own := apply_result valid
  rw [failed] at own
  cases unknown : action.unknownTask? site.scenario.tasks with
  | none => simp [unknown] at own
  | some task =>
      simp only [unknown, Except.error.injEq] at own
      exact ⟨task, rfl, own.symm⟩

theorem unknownTask?_of_applyAll_ok {actions : List Action}
    (valid : ∀ action ∈ actions, action.Valid named site)
    (applied : site.applyAll actions = (next, .ok ())) :
    ∀ action ∈ actions, action.unknownTask? site.scenario.tasks = none := by
  induction actions generalizing site with
  | nil => simp
  | cons action rest ih =>
      have own := apply_result (valid action List.mem_cons_self)
      have grows := site.grows_apply action
      simp only [applyAll] at applied
      split at applied
      · rename_i middle first
        rw [first] at own grows
        intro other member
        rcases List.mem_cons.mp member with rfl | later
        · cases unknown : other.unknownTask? site.scenario.tasks with
          | none => rfl
          | some task => simp [unknown] at own
        · rw [← Action.unknownTask?_grows grows]
          exact ih (fun other member => (valid other (List.mem_cons_of_mem _ member)).grows grows)
            applied other later
      · simp at applied

end Site

namespace Run

variable {run : Run} {date : Instant}

def log (run : Run) (date : Instant) : List (Instant × Action) :=
  run.site.log run.agenda date

/-- An entry that takes edges from tasks of the scenario only, if from any. -/
def Clean (run : Run) (entry : Instant × Action) : Prop :=
  entry.2.unknownTask? run.scenario.tasks = none

/-- Every queued action has been applied by an advance or is still queued. -/
def KeepsDue (run : Run) (date : Instant) : Prop :=
  run.agenda.queue.Perm (run.log date ++ (run.advanceTo date).1.agenda.queue)

inductive Advance (run : Run) (date : Instant) : Prop where
  | clear (succeeds : (run.advanceTo date).2 = .ok ())
      (parts : run.agenda.queue = run.log date ++ (run.advanceTo date).1.agenda.queue)
      (clean : ∀ entry ∈ run.log date, run.Clean entry)
      (due : ∀ entry ∈ run.log date, entry.1 ≤ date)
      (ahead : ∀ entry ∈ (run.advanceTo date).1.agenda.queue, date < entry.1)
  | cut {done lost : List (Instant × Action)} {failed : Instant × Action} {task : TaskId}
      (fails : (run.advanceTo date).2 = .error (RunError.graph (.unknownTask task)))
      (parts : run.agenda.queue =
        done ++ failed :: (lost ++ (run.advanceTo date).1.agenda.queue))
      (applied : run.log date = done ++ [failed])
      (clean : ∀ entry ∈ done, run.Clean entry)
      (fault : failed.2.unknownTask? run.scenario.tasks = some task) (due : failed.1 ≤ date)
      (gone : ∀ entry ∈ lost, entry.1 = failed.1)
      (ahead : ∀ entry ∈ (run.advanceTo date).1.agenda.queue, failed.1 < entry.1)

theorem Valid.advance {named : TaskId → Prop} (valid : run.Valid named) (date : Instant) :
    run.Advance date := by
  cases drained : run.site.drain run.agenda date with
  | mk site outcome =>
      obtain ⟨rest, result⟩ := outcome
      have moves : (run.advanceTo date).1.agenda = rest ∧ (run.advanceTo date).2 = result := by
        unfold Run.advanceTo
        rw [drained]
        cases result <;> exact ⟨rfl, rfl⟩
      have each (entries : List (Instant × Action)) (among : entries ⊆ run.agenda.queue) :
          ∀ action ∈ entries.map (·.2), action.Valid named run.site := by
        intro action member
        obtain ⟨entry, inside, rfl⟩ := List.mem_map.mp member
        exact valid.queued entry (among inside)
      cases result with
      | ok =>
          obtain ⟨due, queued, past, ahead, applied⟩ := Site.drain_ok drained
          obtain ⟨logged, _⟩ := Site.log_of_ok drained
          have same : run.log date = due := List.append_cancel_right (logged.symm.trans queued)
          have among : due ⊆ run.agenda.queue := queued ▸ List.subset_append_left due rest.queue
          have clean := Site.unknownTask?_of_applyAll_ok (each due among) applied
          refine .clear moves.2 (moves.1.symm ▸ logged) ?_ (same.symm ▸ past) (moves.1.symm ▸ ahead)
          intro entry member
          exact clean entry.2 (List.mem_map_of_mem (same ▸ member))
      | error error =>
          obtain ⟨done, failed, lost, cut⟩ := Site.cut_of_error drained
          have among : done ⊆ run.agenda.queue := cut.parts ▸ List.subset_append_left done _
          have clean := Site.unknownTask?_of_applyAll_ok (each done among) cut.before
          have grows := run.site.grows_applyAll (done.map (·.2))
          rw [cut.before] at grows
          have queued : failed ∈ run.agenda.queue := by simp [cut.parts]
          obtain ⟨task, fault, rfl⟩ :=
            Site.unknownTask?_of_error ((valid.queued failed queued).grows grows) cut.fails
          rw [Action.unknownTask?_grows grows] at fault
          refine .cut moves.2 (moves.1.symm ▸ cut.parts) cut.logged (fun entry member => ?_) fault
            cut.due cut.gone (moves.1.symm ▸ cut.ahead)
          exact clean entry.2 (List.mem_map_of_mem member)

theorem advanceTo_site (run : Run) (date : Instant) :
    (run.advanceTo date).1.site = run.site.applyEach ((run.log date).map (·.2)) := by
  cases drained : run.site.drain run.agenda date with
  | mk site outcome =>
      obtain ⟨rest, result⟩ := outcome
      have moves : (run.advanceTo date).1.site = site := by
        unfold advanceTo
        rw [drained]
        cases result <;> rfl
      rw [moves]
      cases result with
      | ok => exact (Site.log_of_ok drained).2
      | error error =>
          obtain ⟨done, failed, lost, cut⟩ := Site.cut_of_error drained
          have one (middle : Site) : middle.applyEach [failed.2] = (middle.apply failed.2).1 := rfl
          rw [log, cut.logged, List.map_append, Site.applyEach_append, List.map_singleton, one,
            cut.fails]

structure Losses (run : Run) (date : Instant) : Prop where
  site : (run.advanceTo date).1.site = run.site.applyEach ((run.log date).map (·.2))
  clear : (∀ entry ∈ run.agenda.queue, entry.1 ≤ date → run.Clean entry) →
    (run.advanceTo date).2 = .ok () ∧
      run.agenda.queue = run.log date ++ (run.advanceTo date).1.agenda.queue ∧
        (∀ entry ∈ run.log date, entry.1 ≤ date) ∧
          ∀ entry ∈ (run.advanceTo date).1.agenda.queue, date < entry.1
  cut : ∀ done failed behind task, run.agenda.queue = done ++ failed :: behind →
    failed.1 ≤ date → (∀ entry ∈ done, run.Clean entry) →
      failed.2.unknownTask? run.scenario.tasks = some task →
        (run.advanceTo date).2 = .error (RunError.graph (.unknownTask task)) ∧
          run.log date = done ++ [failed] ∧
            (run.advanceTo date).1.agenda.queue = behind.filter (failed.1 < ·.1)
  keeps_iff : run.KeepsDue date ↔
    ∀ done failed behind, run.agenda.queue = done ++ failed :: behind → failed.1 ≤ date →
      (∀ entry ∈ done, run.Clean entry) → ¬ run.Clean failed →
        ∀ entry ∈ behind, failed.1 < entry.1

theorem not_clean {entry : Instant × Action} {task : TaskId}
    (fault : entry.2.unknownTask? run.scenario.tasks = some task) : ¬ run.Clean entry := by
  simp [Clean, fault]

theorem Advance.clean_of_clear {done behind : List (Instant × Action)} {entry : Instant × Action}
    (parts : run.agenda.queue = run.log date ++ (run.advanceTo date).1.agenda.queue)
    (clean : ∀ entry ∈ run.log date, run.Clean entry)
    (ahead : ∀ entry ∈ (run.advanceTo date).1.agenda.queue, date < entry.1)
    (queued : run.agenda.queue = done ++ entry :: behind) (due : entry.1 ≤ date) :
    run.Clean entry := by
  have member : entry ∈ run.agenda.queue := by simp [queued]
  rw [parts] at member
  rcases List.mem_append.mp member with applied | left
  · exact clean entry applied
  · exact absurd (ahead entry left) (Instant.not_lt.mpr due)

theorem Advance.cut_of_fault (advance : run.Advance date)
    {done behind : List (Instant × Action)} {failed : Instant × Action} {task : TaskId}
    (queued : run.agenda.queue = done ++ failed :: behind) (due : failed.1 ≤ date)
    (clean : ∀ entry ∈ done, run.Clean entry)
    (fault : failed.2.unknownTask? run.scenario.tasks = some task) :
    (run.advanceTo date).2 = .error (RunError.graph (.unknownTask task)) ∧
      run.log date = done ++ [failed] ∧
        (run.advanceTo date).1.agenda.queue = behind.filter (failed.1 < ·.1) := by
  cases advance with
  | clear _ parts allClean _ ahead =>
      exact absurd (clean_of_clear parts allClean ahead queued due) (not_clean fault)
  | @cut front lost first other fails parts applied before bad _ gone ahead =>
      obtain ⟨rfl, rfl, rfl⟩ := first_fault_unique (queued.symm.trans parts) clean before
        (not_clean fault) (not_clean bad)
      obtain rfl := Option.some.inj (fault.symm.trans bad)
      refine ⟨fails, applied, ?_⟩
      have none_lost : lost.filter (fun entry => decide (failed.1 < entry.1)) = [] := by
        refine List.filter_eq_nil_iff.mpr fun entry member => ?_
        rw [decide_eq_true_eq, gone entry member]
        exact Int.lt_irrefl _
      have all_left := List.filter_eq_self.mpr fun entry member =>
        decide_eq_true (ahead entry member)
      rw [List.filter_append, none_lost, all_left, List.nil_append]

/-- Of any run that a host can bring about, with whatever elements it has put on the paths. -/
theorem advance_loses_behind_fault {config : Config} {scenario : Scenario}
    {library : ScheduleLibrary} {compiles : Bool} {first run : Run}
    (built : build config scenario library compiles = .ok first) (reached : first.Reaches run)
    (date : Instant) : run.Losses date := by
  obtain ⟨compiled, _, rfl⟩ := eq_start_of_build built
  have anything : compiled.Names fun _ => True :=
    ⟨fun _ _ _ _ => trivial, fun _ _ _ _ _ _ => trivial⟩
  have valid := reached.valid (valid_start config library (fun _ _ => trivial) anything)
  have advance := valid.advance date
  refine ⟨run.advanceTo_site date, fun allClean => ?_, ?_, ?_⟩
  · cases advance with
    | clear succeeds parts _ due ahead => exact ⟨succeeds, parts, due, ahead⟩
    | @cut done lost failed task fails parts _ _ fault due _ _ =>
        have queued : failed ∈ run.agenda.queue := by simp [parts]
        exact absurd (allClean failed queued due) (not_clean fault)
  · intro done failed behind task queued due clean fault
    exact advance.cut_of_fault queued due clean fault
  · constructor
    · intro keeps done failed behind queued due clean bad entry member
      obtain ⟨task, fault⟩ := Option.ne_none_iff_exists'.mp bad
      obtain ⟨_, applied, left⟩ := advance.cut_of_fault queued due clean fault
      rw [KeepsDue, applied, left, queued, List.append_assoc, List.perm_append_left_iff,
        List.singleton_append, List.perm_cons] at keeps
      have still := keeps.mem_iff.mp member
      exact of_decide_eq_true (List.mem_filter.mp still).2
    · intro last
      cases advance with
      | clear _ parts _ _ _ =>
          rw [KeepsDue, ← parts]
      | @cut done lost failed task _ parts applied clean fault due gone _ =>
          have none_lost : lost = [] := by
            refine List.eq_nil_iff_forall_not_mem.mpr fun entry member => ?_
            have later := last done failed _ parts due clean (not_clean fault) entry
              (List.mem_append_left _ member)
            rw [gone entry member] at later
            exact Int.lt_irrefl _ later
          rw [KeepsDue, applied, parts, none_lost]
          simp

end Run

namespace Quarry

def strayScenario : Scenario :=
  { tasks := ⟨["Hole", "Face"].map fun name => { name, role := .source, process := ⟨0⟩ }⟩
    equipment :=
      [{ name := "Drill"
         pathText := "Hole '!dependclear date=2024-01-02"
         path := Path.push {} 1 (.steps [{ source := ⟨9⟩ }]) },
       { name := "Loader"
         pathText := "Face '!timeconstrain start=2024-01-01 end=2024-01-02" }] }

def strayConfig : Config := { config with timeMode := .suppress }

def strayOpening : Run :=
  match Run.build strayConfig strayScenario {} true with
  | .ok run => run
  | .error _ => opening

theorem stray_built : Run.build strayConfig strayScenario {} true = .ok strayOpening := by
  have builds : (Run.build strayConfig strayScenario {} true).isOk = true := by decide +kernel
  unfold strayOpening
  cases built : Run.build strayConfig strayScenario {} true with
  | error error => simp [built, Except.isOk, Except.toBool] at builds
  | ok run => rfl

def stray : Run :=
  strayOpening.performAll [.parsePath ⟨0⟩, .parsePath ⟨1⟩, .advanceTo (moment 1 0)]

theorem stray_reached : strayOpening.Reaches stray := Run.Reaches.start.performAll _

theorem stray_advance_loses_behind_fault :
    Run.build strayConfig strayScenario {} true = .ok strayOpening ∧
      strayOpening.Reaches stray ∧ stray.agenda.size = 2 ∧ stray.Losses (moment 2 0) :=
  ⟨stray_built, stray_reached, by decide +kernel,
    Run.advance_loses_behind_fault stray_built stray_reached (moment 2 0)⟩

/-- The failing removal takes the closing of the window with it, which then stays open. -/
theorem stray_advance_loses_closing :
    Run.build strayConfig strayScenario {} true = .ok strayOpening ∧
      strayOpening.Reaches stray ∧ ¬ stray.KeepsDue (moment 2 0) ∧
        (stray.advanceTo (moment 2 0)).2.isOk = false ∧
          (stray.performAll [.advanceTo (moment 2 0), .advanceTo (moment 3 0)]).isAvailable
            ⟨1⟩ ⟨1⟩ (moment 3 0) = false := by
  have computed : stray.agenda.queue.length = 2 ∧
      (stray.log (moment 2 0)).length +
        (stray.advanceTo (moment 2 0)).1.agenda.queue.length = 1 ∧
          (stray.advanceTo (moment 2 0)).2.isOk = false ∧
            (stray.performAll [.advanceTo (moment 2 0), .advanceTo (moment 3 0)]).isAvailable
              ⟨1⟩ ⟨1⟩ (moment 3 0) = false := by
    decide +kernel
  obtain ⟨queued, accounted, fails, held⟩ := computed
  refine ⟨stray_built, stray_reached, fun keeps => ?_, fails, held⟩
  have same := keeps.length_eq
  rw [List.length_append, accounted, queued] at same
  omega

end Quarry

end PathDirectives
