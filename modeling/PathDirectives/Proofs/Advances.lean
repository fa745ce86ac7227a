import PathDirectives.Proofs.Instants
import PathDirectives.Proofs.Steps

/-!
Advancing in steps. No action reads the clock or queues another, and the agenda is emptied from its
front, so that a way in several steps ends where the way to its latest date in one step ends.
-/

namespace PathDirectives

open Calendar

namespace Agenda

variable {α : Type} {agenda rest : Agenda α} {batch : Batch α} {earlier later : Instant}

theorem popDue_of_le (ordered : earlier ≤ later) (popped : agenda.popDue earlier = some (batch, rest)) :
    agenda.popDue later = some (batch, rest) := by
  obtain ⟨batches, total, increasing, filled, counted⟩ := agenda
  cases batches with
  | nil => simp [popDue] at popped
  | cons head tail =>
      simp only [popDue] at popped ⊢
      split at popped
      · rename_i due
        rw [if_pos (Instant.le_trans due ordered)]
        exact popped
      · simp at popped

theorem popDue_none_of_le (ordered : earlier ≤ later) (ahead : agenda.popDue later = none) :
    agenda.popDue earlier = none := by
  cases popped : agenda.popDue earlier with
  | none => rfl
  | some parts => rw [popDue_of_le ordered popped] at ahead; simp at ahead

end Agenda

namespace Site

variable {site middle next : Site} {agenda between rest : Agenda Action}
  {earlier later now : Instant}

theorem drain_of_ahead (ahead : agenda.popDue now = none) :
    site.drain agenda now = (site, agenda, .ok ()) := by
  rw [drain, ahead]

section Batch

variable {batch : Batch Action} (popped : agenda.popDue now = some (batch, between))

include popped

theorem drain_of_applied (applied : site.applyAll batch.2 = (middle, .ok ())) :
    site.drain agenda now = middle.drain between now := by
  rw [drain, popped]
  dsimp only
  rw [applied]

theorem drain_of_failed {error : RunError}
    (failed : site.applyAll batch.2 = (middle, .error error)) :
    site.drain agenda now = (middle, between, .error error) := by
  rw [drain, popped]
  dsimp only
  rw [failed]

end Batch

theorem ahead_of_drain (drained : site.drain agenda now = (next, rest, .ok ())) :
    rest.popDue now = none := by
  fun_induction site.drain agenda now with
  | case1 site agenda ahead =>
      simp only [Prod.mk.injEq, and_true] at drained
      exact drained.2 ▸ ahead
  | case2 site agenda batch behind popped middle applied ih => exact ih drained
  | case3 site agenda batch behind popped middle error failed => simp at drained

theorem drain_onward (ordered : earlier ≤ later)
    (drained : site.drain agenda earlier = (middle, between, .ok ())) :
    middle.drain between later = site.drain agenda later := by
  fun_induction site.drain agenda earlier with
  | case1 site agenda ahead =>
      simp only [Prod.mk.injEq, and_true] at drained
      obtain ⟨rfl, rfl⟩ := drained
      rfl
  | case2 site agenda batch behind popped here applied ih =>
      rw [drain_of_applied (Agenda.popDue_of_le ordered popped) applied]
      exact ih drained
  | case3 site agenda batch behind popped here error failed => simp at drained

theorem drain_error_of_le {error : RunError} (ordered : earlier ≤ later)
    (failed : site.drain agenda earlier = (middle, between, .error error)) :
    site.drain agenda later = (middle, between, .error error) := by
  fun_induction site.drain agenda earlier with
  | case1 site agenda ahead => simp at failed
  | case2 site agenda batch behind popped here applied ih =>
      rw [drain_of_applied (Agenda.popDue_of_le ordered popped) applied]
      exact ih failed
  | case3 site agenda batch behind popped here other fails =>
      rw [drain_of_failed (Agenda.popDue_of_le ordered popped) fails]
      exact failed

end Site

namespace Run

variable {run middle last : Run} {first second date latest : Instant}

theorem advanceTo_eq_ok_iff :
    run.advanceTo date = (last, .ok ()) ↔
      ∃ site agenda, run.site.drain run.agenda date = (site, agenda, .ok ()) ∧
        last = { run with site, agenda, now := run.now.later date } := by
  unfold advanceTo
  constructor
  · intro advanced
    split at advanced
    · rename_i site agenda drained
      simp only [Prod.mk.injEq, and_true] at advanced
      exact ⟨site, agenda, drained, advanced.symm⟩
    · simp at advanced
  · rintro ⟨site, agenda, drained, rfl⟩
    rw [drained]

theorem eq_ok_of_advances (advances : (run.advanceTo date).2.isOk = true) :
    run.advanceTo date = ((run.advanceTo date).1, .ok ()) :=
  Prod.ext rfl (eq_ok_of_isOk advances)

theorem advanceTo_advanceTo (advanced : run.advanceTo first = (middle, .ok ())) :
    middle.advanceTo second = (last, .ok ()) ↔
      run.advanceTo (first.later second) = (last, .ok ()) := by
  obtain ⟨site, agenda, drained, rfl⟩ := advanceTo_eq_ok_iff.mp advanced
  have onward : site.drain agenda second = run.site.drain run.agenda (first.later second) := by
    rcases Instant.le_total first second with up | down
    · rw [Instant.later_of_le up]
      exact Site.drain_onward up drained
    · rw [Instant.later_of_ge down, drained]
      exact Site.drain_of_ahead
        (Agenda.popDue_none_of_le down (Site.ahead_of_drain drained))
  rw [advanceTo_eq_ok_iff, advanceTo_eq_ok_iff, ← onward, ← Instant.later_assoc]

theorem advanceTo_ok_of_le (ordered : first ≤ second)
    (advanced : run.advanceTo second = (last, .ok ())) :
    ∃ middle, run.advanceTo first = (middle, .ok ()) := by
  obtain ⟨site, agenda, drained, rfl⟩ := advanceTo_eq_ok_iff.mp advanced
  cases early : run.site.drain run.agenda first with
  | mk here behind =>
      obtain ⟨left, result⟩ := behind
      cases result with
      | ok => exact ⟨_, advanceTo_eq_ok_iff.mpr ⟨here, left, early, rfl⟩⟩
      | error error =>
          rw [Site.drain_error_of_le ordered early] at drained
          simp at drained

theorem accepts_advanceTo_cons {dates : List Instant} :
    (run.accepts ((date :: dates).map .advanceTo) = true ∧
        run.performAll ((date :: dates).map .advanceTo) = last) ↔
      ∃ middle, run.advanceTo date = (middle, .ok ()) ∧
        middle.accepts (dates.map .advanceTo) = true ∧
          middle.performAll (dates.map .advanceTo) = last := by
  simp only [List.map_cons, accepts, perform, performAll, List.foldl_cons, Bool.and_eq_true]
  constructor
  · rintro ⟨⟨succeeds, accepted⟩, reached⟩
    exact ⟨_, Prod.ext rfl (eq_ok_of_isOk succeeds), accepted, reached⟩
  · rintro ⟨middle, advanced, accepted, reached⟩
    rw [advanced]
    exact ⟨⟨rfl, accepted⟩, reached⟩

theorem advance_each_iff {dates : List Instant} (latest : latest? dates = some date) :
    (run.accepts (dates.map .advanceTo) = true ∧
        run.performAll (dates.map .advanceTo) = last) ↔
      run.advanceTo date = (last, .ok ()) := by
  induction dates generalizing run date with
  | nil => simp [latest?] at latest
  | cons head tail ih =>
      rw [accepts_advanceTo_cons]
      simp only [latest?] at latest
      cases behind : latest? tail with
      | none =>
          rw [behind] at latest
          obtain rfl : head = date := by simpa using latest
          rw [latest?_eq_none_iff] at behind
          subst behind
          simp [accepts, performAll]
      | some other =>
          rw [behind] at latest
          obtain rfl : head.later other = date := by simpa using latest
          constructor
          · rintro ⟨middle, advanced, inTail⟩
            exact (advanceTo_advanceTo advanced).mp ((ih behind).mp inTail)
          · intro reached
            obtain ⟨middle, advanced⟩ :=
              advanceTo_ok_of_le (head.le_later_left other) reached
            exact ⟨middle, advanced, (ih behind).mpr ((advanceTo_advanceTo advanced).mpr reached)⟩

/-- Where advances lead that follow each other without another call between depends on the latest
of their dates alone: they succeed just if an advance to that date does, and end in the same run.
So it is for two dates in order, and for any row of dates. -/
theorem advances_end_at_latest (run : Run) :
    (∀ {first second : Instant} {middle last : Run}, first ≤ second →
        run.advanceTo first = (middle, .ok ()) → middle.advanceTo second = (last, .ok ()) →
          run.advanceTo second = (last, .ok ())) ∧
      ∀ {dates : List Instant} {latest : Instant} {last : Run}, latest ∈ dates →
        (∀ date ∈ dates, date ≤ latest) →
          ((run.accepts (dates.map .advanceTo) = true ∧
              run.performAll (dates.map .advanceTo) = last) ↔
            run.advanceTo latest = (last, .ok ())) := by
  constructor
  · intro first second middle last ordered early late
    rw [advanceTo_advanceTo early, Instant.later_of_le ordered] at late
    exact late
  · intro dates latest last member bound
    exact advance_each_iff (latest?_eq_some_iff.mpr ⟨member, bound⟩)

end Run

namespace Quarry

def waiting : Run := opening.performAll [.parsePath loader]

def polls : List Instant := [moment 1 12, moment 2 6, moment 1 20, moment 3 0]

theorem polls_end_at_latest :
    (waiting.agenda.size = 2 ∧
      (waiting.accepts (polls.map .advanceTo) = true ∧
        waiting.performAll (polls.map .advanceTo) = (waiting.advanceTo (moment 3 0)).1)) ∧
      (waiting.advanceTo (moment 3 0)).2 = .ok () ∧
        (waiting.advanceTo (moment 2 6)).1.advanceTo (moment 3 0) =
          waiting.advanceTo (moment 3 0) := by
  obtain ⟨queued, dayTwo, stepwise, atOnce⟩ : waiting.agenda.size = 2 ∧
      (waiting.advanceTo (moment 2 6)).2.isOk = true ∧
        ((waiting.advanceTo (moment 2 6)).1.advanceTo (moment 3 0)).2.isOk = true ∧
          (waiting.advanceTo (moment 3 0)).2.isOk = true := by
    decide +kernel
  obtain ⟨two_steps, many_steps⟩ := Run.advances_end_at_latest waiting
  have late := Run.eq_ok_of_advances stepwise
  refine ⟨⟨queued, ?_⟩, Run.eq_ok_of_isOk atOnce, ?_⟩
  · exact (many_steps (by decide +kernel) (by decide +kernel)).mpr (Run.eq_ok_of_advances atOnce)
  · exact late.trans
      (two_steps (by decide +kernel) (Run.eq_ok_of_advances dayTwo) late).symm

end Quarry

end PathDirectives
