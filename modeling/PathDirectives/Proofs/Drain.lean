import PathDirectives.Proofs.Validity

/-!
What a drain has applied, and what it has not: the due actions in order up to the first that fails,
and those of the same date behind that one, which are gone.
-/

namespace PathDirectives

open Calendar

namespace Site

variable {site next : Site} {agenda rest : Agenda Action} {now : Instant} {actions : List Action}

def applyEach (site : Site) (actions : List Action) : Site :=
  actions.foldl (fun site action => (site.apply action).1) site

/-- Those of several actions that are applied if one that fails is the last. -/
def tried (site : Site) : List Action → List Action
  | [] => []
  | action :: rest =>
      match site.apply action with
      | (next, .ok ()) => action :: next.tried rest
      | (_, .error _) => [action]

def log (site : Site) (agenda : Agenda Action) (now : Instant) : List (Instant × Action) :=
  match _popped : agenda.popDue now with
  | none => []
  | some (batch, rest) =>
      match site.applyAll batch.2 with
      | (next, .ok ()) => (batch.2.map fun action => (batch.1, action)) ++ next.log rest now
      | (_, .error _) => (site.tried batch.2).map fun action => (batch.1, action)
termination_by agenda.dateCount
decreasing_by exact Agenda.popDue_shorter _popped

theorem applyEach_append (site : Site) (first second : List Action) :
    site.applyEach (first ++ second) = (site.applyEach first).applyEach second :=
  List.foldl_append

theorem map_dated (date : Instant) (actions : List Action) :
    ((actions.map fun action => (date, action)).map (·.2)) = actions := by
  simp [Function.comp_def]

theorem applyAll_ok (applied : site.applyAll actions = (next, .ok ())) :
    next = site.applyEach actions ∧ site.tried actions = actions := by
  induction actions generalizing site with
  | nil =>
      simp only [applyAll, Prod.mk.injEq, and_true] at applied
      exact ⟨applied.symm, rfl⟩
  | cons action rest ih =>
      simp only [applyAll] at applied
      split at applied
      · rename_i middle first
        obtain ⟨reached, all⟩ := ih applied
        refine ⟨?_, by rw [tried, first]; exact congrArg _ all⟩
        rw [reached, applyEach, applyEach, List.foldl_cons, first]
      · simp at applied

theorem applyAll_error {error : RunError} (applied : site.applyAll actions = (next, .error error)) :
    ∃ done failed behind, actions = done ++ failed :: behind ∧
      site.tried actions = done ++ [failed] ∧
        site.applyAll done = (site.applyEach done, .ok ()) ∧
          (site.applyEach done).apply failed = (next, .error error) := by
  induction actions generalizing site with
  | nil => simp [applyAll] at applied
  | cons action rest ih =>
      simp only [applyAll] at applied
      split at applied
      · rename_i middle first
        obtain ⟨done, failed, behind, rfl, all, before, fails⟩ := ih applied
        have reached : site.applyEach (action :: done) = middle.applyEach done := by
          rw [applyEach, applyEach, List.foldl_cons, first]
        refine ⟨action :: done, failed, behind, rfl, ?_, ?_, ?_⟩
        · rw [tried, first]
          exact congrArg _ all
        · rw [applyAll, first, reached]
          exact before
        · rw [reached]
          exact fails
      · rename_i middle other first
        refine ⟨[], action, rest, rfl, ?_, rfl, ?_⟩
        · rw [tried, first]
          rfl
        · exact first.trans applied

section Batch

variable {batch : Instant × List Action} {behind : Agenda Action} {middle : Site}
  (popped : agenda.popDue now = some (batch, behind))

include popped

theorem log_of_applied (applied : site.applyAll batch.2 = (middle, .ok ())) :
    site.log agenda now = (batch.2.map fun action => (batch.1, action)) ++ middle.log behind now := by
  rw [log, popped]
  dsimp only
  rw [applied]

theorem log_of_failed {error : RunError}
    (failed : site.applyAll batch.2 = (middle, .error error)) :
    site.log agenda now = (site.tried batch.2).map fun action => (batch.1, action) := by
  rw [log, popped]
  dsimp only
  rw [failed]

end Batch

theorem log_of_ok (drained : site.drain agenda now = (next, rest, .ok ())) :
    agenda.queue = site.log agenda now ++ rest.queue ∧
      next = site.applyEach ((site.log agenda now).map (·.2)) := by
  fun_induction site.drain agenda now with
  | case1 site agenda empty =>
      simp only [Prod.mk.injEq, and_true] at drained
      obtain ⟨rfl, rfl⟩ := drained
      rw [log, empty]
      exact ⟨rfl, rfl⟩
  | case2 site agenda batch behind popped middle applied ih =>
      obtain ⟨queued, reached⟩ := ih drained
      obtain ⟨split, _⟩ := Agenda.queue_of_popDue popped
      obtain ⟨here, _⟩ := applyAll_ok applied
      rw [log_of_applied popped applied]
      constructor
      · rw [split, queued, List.append_assoc]
      · rw [List.map_append, map_dated, applyEach_append, ← here]
        exact reached
  | case3 site agenda batch behind popped middle error failed => simp at drained

theorem log_eq_filter (drained : site.drain agenda now = (next, rest, .ok ())) :
    site.log agenda now = agenda.queue.filter (fun entry => decide (entry.1 ≤ now)) ∧
      rest.queue = agenda.queue.filter fun entry => decide (now < entry.1) := by
  obtain ⟨due, queued, past, ahead, _⟩ := drain_ok drained
  obtain ⟨logged, _⟩ := log_of_ok drained
  have same : site.log agenda now = due := List.append_cancel_right (logged.symm.trans queued)
  have all_due := List.filter_eq_self.mpr fun entry member => decide_eq_true (past entry member)
  have none_due : rest.queue.filter (fun entry => decide (entry.1 ≤ now)) = [] :=
    List.filter_eq_nil_iff.mpr fun entry member => by
      simpa using Instant.not_le.mpr (ahead entry member)
  have none_ahead : due.filter (fun entry => decide (now < entry.1)) = [] :=
    List.filter_eq_nil_iff.mpr fun entry member => by
      simpa using Instant.not_lt.mpr (past entry member)
  have all_ahead := List.filter_eq_self.mpr fun entry member =>
    decide_eq_true (ahead entry member)
  rw [same, queued, List.filter_append, List.filter_append, all_due, none_due, none_ahead,
    all_ahead, List.append_nil, List.nil_append]
  exact ⟨rfl, rfl⟩

/-- A drain that ends at an entry which fails: that entry is the last to be applied, and the others
of its date are gone. -/
structure Cut (site : Site) (agenda : Agenda Action) (now : Instant) (next : Site)
    (rest : Agenda Action) (error : RunError) (done : List (Instant × Action))
    (failed : Instant × Action) (lost : List (Instant × Action)) : Prop where
  parts : agenda.queue = done ++ failed :: (lost ++ rest.queue)
  logged : site.log agenda now = done ++ [failed]
  due : failed.1 ≤ now
  gone : ∀ entry ∈ lost, entry.1 = failed.1
  ahead : ∀ entry ∈ rest.queue, failed.1 < entry.1
  before : site.applyAll (done.map (·.2)) = (site.applyEach (done.map (·.2)), .ok ())
  fails : (site.applyEach (done.map (·.2))).apply failed.2 = (next, .error error)

theorem Cut.afterBatch {batch : Instant × List Action} {behind : Agenda Action} {middle : Site}
    {error : RunError} {done lost : List (Instant × Action)} {failed : Instant × Action}
    (cut : middle.Cut behind now next rest error done failed lost)
    (popped : agenda.popDue now = some (batch, behind))
    (applied : site.applyAll batch.2 = (middle, .ok ())) :
    site.Cut agenda now next rest error ((batch.2.map fun action => (batch.1, action)) ++ done)
      failed lost := by
  have reached : site.applyEach (((batch.2.map fun action => (batch.1, action)) ++ done).map (·.2)) =
      middle.applyEach (done.map (·.2)) := by
    rw [List.map_append, map_dated, applyEach_append, ← (applyAll_ok applied).1]
  refine ⟨?_, ?_, cut.due, cut.gone, cut.ahead, ?_, ?_⟩
  · rw [(Agenda.queue_of_popDue popped).1, cut.parts, List.append_assoc]
  · rw [log_of_applied popped applied, cut.logged, List.append_assoc]
  · rw [reached, List.map_append, map_dated]
    exact applyAll_append_ok applied cut.before
  · rw [reached]
    exact cut.fails

theorem cut_of_batch {batch : Instant × List Action} {error : RunError}
    (popped : agenda.popDue now = some (batch, rest))
    (failed : site.applyAll batch.2 = (next, .error error)) :
    ∃ done last lost, site.Cut agenda now next rest error done last lost := by
  obtain ⟨done, last, lost, parts, tried, before, fails⟩ := applyAll_error failed
  obtain ⟨split, due⟩ := Agenda.queue_of_popDue popped
  refine ⟨done.map fun action => (batch.1, action), (batch.1, last),
    lost.map fun action => (batch.1, action), ?_, ?_, due, ?_, Agenda.lt_of_popDue popped, ?_, ?_⟩
  · rw [split, parts]
    simp
  · rw [log_of_failed popped failed, tried, List.map_append]
    rfl
  · intro entry member
    obtain ⟨action, _, rfl⟩ := List.mem_map.mp member
    rfl
  · rw [map_dated]
    exact before
  · rw [map_dated]
    exact fails

theorem cut_of_error {error : RunError}
    (drained : site.drain agenda now = (next, rest, .error error)) :
    ∃ done failed lost, site.Cut agenda now next rest error done failed lost := by
  fun_induction site.drain agenda now with
  | case1 site agenda empty => simp at drained
  | case2 site agenda batch behind popped middle applied ih =>
      obtain ⟨done, failed, lost, cut⟩ := ih drained
      exact ⟨_, failed, lost, cut.afterBatch popped applied⟩
  | case3 site agenda batch behind popped middle other failed =>
      simp only [Prod.mk.injEq, Except.error.injEq] at drained
      obtain ⟨rfl, rfl, rfl⟩ := drained
      exact cut_of_batch popped failed

end Site

end PathDirectives
