import PathDirectives.Directive.Basic

/-!
The gate of one path. Where directives must be enabled, one that comes before any `enable` is an
error; after a `disable` directives are passed over.
-/

namespace PathDirectives

inductive DirectiveError where
  | gate (kind : DirectiveKind)
  | argument (kind : DirectiveKind) (error : ArgumentError)
  | noIdleProcess
  | noSchedule (scenario : String) (kind : ScheduleKind)
  deriving DecidableEq

def ScheduleKind.name : ScheduleKind → String
  | .output => "Output"
  | .input => "Input"

def DirectiveError.message : DirectiveError → String
  | .gate kind =>
      "`!" ++ kind.name ++ "` is not enabled for this path; " ++
        "put `'!enable` on an earlier line to turn path directives on"
  | .argument kind error => "`!" ++ kind.name ++ "`: " ++ error.message
  | .noIdleProcess =>
      "`!deadhead` needs a process: pass process=<name> or give the equipment an inactive process"
  | .noSchedule scenario kind =>
      "`!injectschedulepath`: case `" ++ scenario ++ "` has no " ++ kind.name ++
        " schedule loaded"

inductive Gate where
  | closed
  | opened
  | disabled
  deriving DecidableEq, Repr

namespace Gate

def new (required : Bool) : Gate := if required then .closed else .opened

/-- The gate after a directive, and whether that directive is to be followed. -/
def pass (gate : Gate) (kind : DirectiveKind) : Except DirectiveError (Gate × Bool) :=
  match kind, gate with
  | .enable, _ => .ok (.opened, false)
  | .disable, _ => .ok (.disabled, false)
  | _, .opened => .ok (.opened, true)
  | _, .disabled => .ok (.disabled, false)
  | _, .closed => .error (.gate kind)

end Gate

end PathDirectives
