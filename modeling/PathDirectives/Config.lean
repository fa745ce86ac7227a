import PathDirectives.Calendar.Layout

/-!
The settings of one run: its window, whether directives must be enabled, and what a directive that
leaves something out falls back on.
-/

namespace PathDirectives

open Calendar

inductive TimeMode where
  | suppress
  | allow
  deriving DecidableEq, Repr

/-- What has to happen to a set of tasks before a removal: all of them are complete, or all of
their direct predecessors are. -/
inductive RemoveTrigger where
  | completed
  | available
  deriving DecidableEq, Repr

structure Config where
  runStart : Instant
  runEnd : Instant
  requireEnable : Bool := true
  releaseDelay : Span := Span.zero
  timeMode : TimeMode := .suppress
  removeTrigger : RemoveTrigger := .completed
  deriving DecidableEq

inductive ConfigError where
  | emptyRunWindow (start stop : Instant)
  | negativeReleaseDelay
  deriving DecidableEq

def ConfigError.message : ConfigError → String
  | .emptyRunWindow start stop =>
      "run window is empty: start " ++ start.text ++ " is not before end " ++ stop.text
  | .negativeReleaseDelay => "configuration error: default_release_delay must not be negative"

namespace Config

def validate (config : Config) : Except ConfigError Unit :=
  if config.runEnd ≤ config.runStart then .error (.emptyRunWindow config.runStart config.runEnd)
  else if config.releaseDelay.nanoseconds < 0 then .error .negativeReleaseDelay
  else .ok ()

def contains (config : Config) (instant : Instant) : Bool :=
  config.runStart ≤ instant && instant < config.runEnd

theorem validate_eq_ok_iff (config : Config) :
    config.validate = .ok () ↔
      config.runStart < config.runEnd ∧ 0 ≤ config.releaseDelay.nanoseconds := by
  unfold validate
  split
  · rename_i empty
    simp only [reduceCtorEq, false_iff, not_and]
    exact fun order => absurd order (Instant.not_lt.mpr empty)
  · rename_i nonempty
    split
    · rename_i negative
      simp only [reduceCtorEq, false_iff, not_and]
      omega
    · rename_i nonnegative
      simp only [true_iff]
      exact ⟨Instant.not_le.mp nonempty, by omega⟩

end Config

end PathDirectives
