import PathDirectives.Config
import PathDirectives.Hold.Counter

/-!
Dated windows on a task. A window is told when it opens and when it closes; until then it
is pending.
-/

namespace PathDirectives

open Calendar

structure TimeWindow where
  mode : TimeMode
  start : Instant
  stop : Instant
  isActive : Bool := false
  /-- Whether it has been opened or closed before. -/
  started : Bool := false
  origin : Origin
  deriving DecidableEq

namespace TimeWindow

def isSuppressing (window : TimeWindow) : Bool := window.mode == .suppress

def isAllowing (window : TimeWindow) : Bool := window.mode == .allow

def isPending (window : TimeWindow) : Bool := !window.started

def activate (window : TimeWindow) : TimeWindow :=
  { window with started := true, isActive := true }

def deactivate (window : TimeWindow) : TimeWindow :=
  { window with started := true, isActive := false }

end TimeWindow

end PathDirectives
