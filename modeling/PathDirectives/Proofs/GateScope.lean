import PathDirectives.Proofs.Installation
import PathDirectives.Proofs.LineSlices

/-!
The commands of a path that are followed. Of the words that only the gate heeds, the last one before
a command decides whether that command is followed or passed over. Only the very first command of a
path can be refused.
-/

namespace PathDirectives

structure Recognised where
  line : Nat
  kind : DirectiveKind
  command : Command

namespace WalkedLine

def commands (line : WalkedLine) : List Command := (line.comment.map scanComment).getD []

/-- On a line without elements only the gate's own words count. -/
def recognise? (line : WalkedLine) (command : Command) : Option Recognised :=
  match DirectiveKind.ofName? command.name with
  | none => none
  | some kind =>
      if kind.isGate || !line.elements.isEmpty then some ⟨line.number, kind, command⟩ else none

def recognised (line : WalkedLine) : List Recognised := line.commands.filterMap line.recognise?

theorem line_of_recognised {line : WalkedLine} {entry : Recognised}
    (member : entry ∈ line.recognised) : entry.line = line.number := by
  obtain ⟨command, -, found⟩ := List.mem_filterMap.mp member
  unfold recognise? at found
  split at found
  · simp at found
  · split at found
    · simp only [Option.some.injEq] at found
      rw [← found]
    · simp at found

end WalkedLine

def Equipment.lines (equipment : Equipment) : List WalkedLine :=
  walk equipment.pathText equipment.path.elements

def Equipment.recognised (equipment : Equipment) : List Recognised :=
  equipment.lines.flatMap WalkedLine.recognised

def lastWord? (before : List Recognised) : Option DirectiveKind :=
  ((before.filter (·.kind.isGate)).getLast?).map (·.kind)

def isEnabled (required : Bool) (before : List Recognised) : Bool :=
  match lastWord? before with
  | some word => word == .enable
  | none => !required

/-- The commands to be followed among those that stand behind others. -/
def admitted (required : Bool) (before : List Recognised) : List Recognised → List Recognised
  | [] => []
  | entry :: rest =>
      let later := admitted required (before ++ [entry]) rest
      if !entry.kind.isGate && isEnabled required before then entry :: later else later

def Equipment.followed (equipment : Equipment) (required : Bool) : List Recognised :=
  admitted required [] equipment.recognised

/-- The first command is one that needs the gate, and the gate has to be enabled. -/
def Refused (required : Bool) (commands : List Recognised) (entry : Recognised) : Prop :=
  required = true ∧ entry.kind.isGate = false ∧ ∃ rest, commands = entry :: rest

section Before

variable {required : Bool} {before : List Recognised} {entry : Recognised}

theorem admitted_append (required : Bool) (before first second : List Recognised) :
    admitted required before (first ++ second) =
      admitted required before first ++ admitted required (before ++ first) second := by
  induction first generalizing before with
  | nil => simp [admitted]
  | cons entry rest ih =>
      have parts := ih (before ++ [entry])
      rw [List.append_assoc, List.singleton_append] at parts
      rw [List.cons_append, admitted, admitted, parts]
      split
      · rfl
      · rfl

theorem admitted_sublist (required : Bool) (before commands : List Recognised) :
    (admitted required before commands).Sublist commands := by
  induction commands generalizing before with
  | nil => exact List.Sublist.refl []
  | cons entry rest ih =>
      rw [admitted]
      split
      · exact (ih _).cons_cons entry
      · exact (ih _).cons entry

theorem lastWord?_concat_gate (own : entry.kind.isGate = true) :
    lastWord? (before ++ [entry]) = some entry.kind := by
  simp [lastWord?, List.filter_append, own]

theorem lastWord?_concat_other (other : entry.kind.isGate = false) :
    lastWord? (before ++ [entry]) = lastWord? before := by
  simp [lastWord?, List.filter_append, other]

def Gate.after (required : Bool) (before : List Recognised) : Gate :=
  match lastWord? before with
  | some word => if word = .enable then .opened else .disabled
  | none => Gate.new required

theorem after_concat_other (other : entry.kind.isGate = false) :
    Gate.after required (before ++ [entry]) = Gate.after required before := by
  rw [Gate.after, lastWord?_concat_other other, Gate.after]

theorem pass_own (own : entry.kind.isGate = true) (required : Bool) (before : List Recognised)
    (gate : Gate) :
    gate.pass entry.kind = .ok (Gate.after required (before ++ [entry]), false) := by
  rw [Gate.after, lastWord?_concat_gate own]
  cases same : entry.kind <;> simp_all [DirectiveKind.isGate, Gate.pass]

theorem pass_opened {kind : DirectiveKind} (other : kind.isGate = false) :
    Gate.opened.pass kind = .ok (.opened, true) := by
  cases kind <;> simp_all [DirectiveKind.isGate, Gate.pass]

theorem pass_disabled {kind : DirectiveKind} (other : kind.isGate = false) :
    Gate.disabled.pass kind = .ok (.disabled, false) := by
  cases kind <;> simp_all [DirectiveKind.isGate, Gate.pass]

theorem pass_closed {kind : DirectiveKind} (other : kind.isGate = false) :
    Gate.closed.pass kind = .error (.gate kind) := by
  cases kind <;> simp_all [DirectiveKind.isGate, Gate.pass]

theorem isEnabled_iff :
    isEnabled required before = true ↔ Gate.after required before = .opened := by
  unfold isEnabled Gate.after
  cases lastWord? before with
  | none => cases required <;> simp [Gate.new]
  | some word =>
      by_cases same : word = .enable
      · simp [same]
      · simp [same]

theorem before_eq_nil_of_closed (closed : Gate.after required before = .closed)
    (passed : ∀ entry, ¬ Refused required before entry) : before = [] := by
  cases before with
  | nil => rfl
  | cons first rest =>
      unfold Gate.after at closed
      split at closed
      · split at closed
        · simp at closed
        · simp at closed
      · rename_i none
        have needed : required = true := by
          cases required with
          | true => rfl
          | false => simp [Gate.new] at closed
        have other : first.kind.isGate = false := by
          simp only [lastWord?, Option.map_eq_none_iff, List.getLast?_eq_none_iff,
            List.filter_eq_nil_iff] at none
          simpa using none first List.mem_cons_self
        exact absurd ⟨needed, other, rest, rfl⟩ (passed first)

theorem Refused.append {commands : List Recognised} (refused : Refused required commands entry)
    (more : List Recognised) : Refused required (commands ++ more) entry := by
  obtain ⟨needed, other, rest, rfl⟩ := refused
  exact ⟨needed, other, rest ++ more, rfl⟩

theorem line_of_admitted {lines : List WalkedLine}
    (member : entry ∈ admitted required before (lines.flatMap WalkedLine.recognised)) :
    ∃ line ∈ lines, entry.line = line.number := by
  have inside := (admitted_sublist required before _).subset member
  obtain ⟨line, among, on⟩ := List.mem_flatMap.mp inside
  exact ⟨line, among, WalkedLine.line_of_recognised on⟩

theorem Equipment.followed_on_line {equipment : Equipment} {front behind : List WalkedLine}
    {line : WalkedLine}
    (lines : equipment.lines = front ++ line :: behind) (required : Bool) :
    (equipment.followed required).filter (·.line == line.number) =
      admitted required (front.flatMap WalkedLine.recognised) line.recognised := by
  have distinct : ((front ++ line :: behind).map (·.number)).Nodup := by
    rw [← lines, Equipment.lines, walk, numbers_walkFrom]
    exact List.nodup_range'
  simp only [List.map_append, List.map_cons, List.nodup_append, List.nodup_cons] at distinct
  obtain ⟨-, ⟨later, -⟩, apart⟩ := distinct
  have whole : equipment.recognised = front.flatMap WalkedLine.recognised ++
      (line.recognised ++ behind.flatMap WalkedLine.recognised) := by
    rw [Equipment.recognised, lines, List.flatMap_append, List.flatMap_cons]
  rw [Equipment.followed, whole, admitted_append, admitted_append, List.filter_append,
    List.filter_append, List.nil_append]
  have none_before : (admitted required []
      (front.flatMap WalkedLine.recognised)).filter (·.line == line.number) = [] := by
    apply List.filter_eq_nil_iff.mpr
    intro entry member
    obtain ⟨other, among, on⟩ := line_of_admitted member
    have different := apart other.number (List.mem_map_of_mem among) line.number
      List.mem_cons_self
    simpa [on] using different
  have none_behind (before : List Recognised) : (admitted required before
      (behind.flatMap WalkedLine.recognised)).filter (·.line == line.number) = [] := by
    apply List.filter_eq_nil_iff.mpr
    intro entry member
    obtain ⟨other, among, on⟩ := line_of_admitted member
    have inside : other.number ∈ behind.map (·.number) := List.mem_map_of_mem among
    simp only [beq_iff_eq, on]
    intro same
    exact later (same ▸ inside)
  have all_here (before : List Recognised) :
      (admitted required before line.recognised).filter
          (·.line == line.number) =
        admitted required before line.recognised := by
    apply List.filter_eq_self.mpr
    intro entry member
    have inside := (admitted_sublist _ before _).subset member
    simpa using WalkedLine.line_of_recognised inside
  rw [none_before, none_behind, all_here, List.nil_append, List.append_nil]

end Before

/-! ### One line -/

namespace Interpreter

variable {interpreter : Interpreter}

def resolved (interpreter : Interpreter) (entry : Recognised) : Except ArgumentError Directive :=
  Directive.resolve interpreter.config interpreter.scenario entry.kind entry.command

def heed (interpreter : Interpreter) (gate : Gate) :
    List Recognised → Gate × Except DirectiveError (List Directive)
  | [] => (gate, .ok [])
  | entry :: more =>
      match gate.pass entry.kind with
      | .error error => (gate, .error error)
      | .ok (next, false) => interpreter.heed next more
      | .ok (next, true) =>
          match interpreter.resolved entry with
          | .error error => (next, .error (.argument entry.kind error))
          | .ok directive =>
              let (last, rest) := interpreter.heed next more
              (last, rest.map (directive :: ·))

theorem follow_eq_heed (line : WalkedLine) (gate : Gate) (commands : List Command) :
    interpreter.follow (!line.elements.isEmpty) gate commands =
      interpreter.heed gate (commands.filterMap line.recognise?) := by
  induction commands generalizing gate with
  | nil => rfl
  | cons command more ih =>
      cases known : DirectiveKind.ofName? command.name with
      | none =>
          have skipped : line.recognise? command = none := by simp [WalkedLine.recognise?, known]
          rw [List.filterMap_cons_none skipped, ← ih]
          simp [follow, known]
      | some kind =>
          by_cases counts : (kind.isGate || !line.elements.isEmpty) = true
          · have taken : line.recognise? command = some ⟨line.number, kind, command⟩ := by
              simp [WalkedLine.recognise?, known, counts]
            have kept : (!kind.isGate && !!line.elements.isEmpty) = false := by
              cases own : kind.isGate <;> simp_all
            rw [List.filterMap_cons_some taken]
            simp only [follow, known, kept, Bool.false_eq_true, if_false, heed, ih]
            rfl
          · have skipped : line.recognise? command = none := by
              simp [WalkedLine.recognise?, known, counts]
            have left : (!kind.isGate && !!line.elements.isEmpty) = true := by
              cases own : kind.isGate <;> simp_all
            rw [List.filterMap_cons_none skipped, ← ih]
            simp only [follow, known, left, if_true]

theorem directives_eq_heed (interpreter : Interpreter) (line : WalkedLine) (gate : Gate) :
    interpreter.directives line gate = interpreter.heed gate line.recognised := by
  unfold directives WalkedLine.recognised WalkedLine.commands
  cases line.comment with
  | none => rfl
  | some comment => exact follow_eq_heed line gate (scanComment comment)

inductive Admitting (interpreter : Interpreter) (required : Bool) (before own : List Recognised)
    (result : Gate × Except DirectiveError (List Directive)) : Prop where
  | followed {directives : List Directive}
      (each : directives.map Except.ok =
        (admitted required before own).map interpreter.resolved)
      (admits : result = (Gate.after required (before ++ own), .ok directives))
  | argument {entry : Recognised} {gate : Gate} {error : ArgumentError}
      (member : entry ∈ admitted required before own)
      (fails : interpreter.resolved entry = .error error)
      (admits : result = (gate, .error (.argument entry.kind error)))

section Step

variable {required : Bool} {before more : List Recognised} {entry : Recognised}

theorem Admitting.pass_over {result : Gate × Except DirectiveError (List Directive)}
    (later : interpreter.Admitting required (before ++ [entry]) more result)
    (drops : admitted required before (entry :: more) =
      admitted required (before ++ [entry]) more) :
    interpreter.Admitting required before (entry :: more) result := by
  cases later with
  | followed each admits =>
      rw [List.append_assoc, List.singleton_append] at admits
      exact .followed (drops ▸ each) admits
  | argument member fails admits => exact .argument (drops ▸ member) fails admits

theorem Admitting.resolve {gate : Gate} {directive : Directive}
    (later : interpreter.Admitting required (before ++ [entry]) more (interpreter.heed gate more))
    (keeps : admitted required before (entry :: more) =
      entry :: admitted required (before ++ [entry]) more)
    (known : interpreter.resolved entry = .ok directive) :
    interpreter.Admitting required before (entry :: more)
      ((interpreter.heed gate more).1, (interpreter.heed gate more).2.map (directive :: ·)) := by
  cases later with
  | @followed others each admits =>
      rw [List.append_assoc, List.singleton_append] at admits
      have whole : (directive :: others).map Except.ok =
          (admitted required before (entry :: more)).map interpreter.resolved := by
        rw [keeps, List.map_cons, List.map_cons, each, known]
      exact .followed whole (by rw [admits]; rfl)
  | argument member fails admits =>
      have inside := keeps ▸ List.mem_cons_of_mem entry member
      exact .argument inside fails (Prod.ext rfl (by rw [admits]; rfl))

end Step

theorem admitting (required : Bool) (before own : List Recognised)
    (passed : ∀ entry, ¬ Refused required (before ++ own) entry) :
    interpreter.Admitting required before own
      (interpreter.heed (Gate.after required before) own) := by
  induction own generalizing before with
  | nil =>
      have nothing : ([] : List Directive).map Except.ok =
          (admitted required before []).map interpreter.resolved := by simp [admitted]
      exact .followed nothing (by simp [heed])
  | cons entry more ih =>
      have later := ih (before ++ [entry]) (by simpa using passed)
      cases word : entry.kind.isGate with
      | true =>
          simp only [heed, pass_own word required before]
          exact later.pass_over (by simp [admitted, word])
      | false =>
          rw [after_concat_other word] at later
          cases gate : Gate.after required before with
          | opened =>
              have enabled := isEnabled_iff.mpr gate
              have keeps : admitted required before (entry :: more) =
                  entry :: admitted required (before ++ [entry]) more := by
                simp [admitted, word, enabled]
              rw [gate] at later
              simp only [heed, pass_opened word]
              cases known : interpreter.resolved entry with
              | error error =>
                  have inside : entry ∈ admitted required before (entry :: more) := by simp [keeps]
                  exact .argument inside known rfl
              | ok directive => exact later.resolve keeps known
          | disabled =>
              have dropped : isEnabled required before = false := by
                rw [Bool.eq_false_iff, ne_eq, isEnabled_iff, gate]
                decide
              rw [gate] at later
              simp only [heed, pass_disabled word]
              exact later.pass_over (by simp [admitted, dropped])
          | closed =>
              have first : before = [] :=
                before_eq_nil_of_closed gate fun other refused => passed other (refused.append _)
              subst first
              have needed : required = true := by
                cases required with
                | true => rfl
                | false => simp [Gate.after, lastWord?, Gate.new] at gate
              exact absurd ⟨needed, word, more, rfl⟩ (passed entry)

theorem interpret_error_ne_gate {line : WalkedLine} {directive : Directive}
    {kind : DirectiveKind} :
    interpreter.interpret line directive ≠ .error (.gate kind) := by
  cases directive with
  | deadhead duration process =>
      simp only [interpret]
      split
      · simp
      · simp
  | injectSchedulePath name equipment start stop source =>
      simp only [interpret, scheduledSteps]
      cases interpreter.library.steps? name source with
      | none => simp
      | some schedule =>
          dsimp only
          split
          · simp
          · simp
  | _ => simp [interpret]

end Interpreter

/-! ### A whole path -/

namespace Run

variable {run : Run} {id : EquipmentId} {equipment : Equipment}

def resolved (run : Run) (entry : Recognised) : Except ArgumentError Directive :=
  Directive.resolve run.config run.scenario entry.kind entry.command

structure Heeds (run : Run) (required : Bool) (id : EquipmentId) (equipment : Equipment)
    (report : LineReport) : Prop where
  directives : report.directives.map Except.ok =
    ((equipment.followed required).filter (·.line == report.line.number)).map run.resolved
  interpreted : ∃ graph last,
    run.interpretAll id equipment report.line graph {} report.directives =
      .ok (last, report.outcome)

/-- A command is at fault: an argument, its directive, or an edge that the directive asks for. -/
inductive Blames (run : Run) (id : EquipmentId) (equipment : Equipment) (entry : Recognised) :
    RunError → Prop where
  | argument {error : ArgumentError} (fails : run.resolved entry = .error error) :
      Blames run id equipment entry
        (.onLine equipment.name entry.line (.argument entry.kind error))
  | directive {line : WalkedLine} {directive : Directive} {graph : TaskGraph}
      {error : DirectiveError} (stands : entry.line = line.number)
      (known : run.resolved entry = .ok directive)
      (fails : (run.interpreter id equipment graph).interpret line directive = .error error) :
      Blames run id equipment entry (.onLine equipment.name entry.line error)
  | edge {line : WalkedLine} {directive : Directive} {graph last : TaskGraph}
      {part : LineOutcome} {error : GraphError} (stands : entry.line = line.number)
      (known : run.resolved entry = .ok directive)
      (asks : (run.interpreter id equipment graph).interpret line directive = .ok part)
      (fails : stage graph part.effects = (last, .error error)) :
      Blames run id equipment entry (RunError.graph error)

theorem interpretAll_blames {line : WalkedLine} {graph : TaskGraph} {outcome : LineOutcome}
    {directives : List Directive} {entries : List Recognised} {error : RunError}
    (stand : ∀ entry ∈ entries, entry.line = line.number)
    (each : directives.map Except.ok = entries.map run.resolved)
    (fails : run.interpretAll id equipment line graph outcome directives = .error error) :
    ∃ entry ∈ entries, run.Blames id equipment entry error := by
  induction directives generalizing entries graph outcome with
  | nil => simp [interpretAll] at fails
  | cons directive rest ih =>
      cases entries with
      | nil => simp at each
      | cons entry others =>
          simp only [List.map_cons, List.cons.injEq] at each
          have here := stand entry List.mem_cons_self
          simp only [interpretAll] at fails
          split at fails
          · rename_i error interpreted
            simp only [Except.error.injEq] at fails
            subst fails
            rw [← here]
            exact ⟨entry, List.mem_cons_self, .directive here each.1.symm interpreted⟩
          · rename_i part interpreted
            split at fails
            · rename_i last error staged
              simp only [Except.error.injEq] at fails
              subst fails
              exact ⟨entry, List.mem_cons_self, .edge here each.1.symm interpreted staged⟩
            · have later := fun other member => stand other (List.mem_cons_of_mem entry member)
              obtain ⟨other, member, blamed⟩ := ih later each.2 fails
              exact ⟨other, List.mem_cons_of_mem entry member, blamed⟩

structure ReadTo (run : Run) (id : EquipmentId) (equipment : Equipment) (front : List WalkedLine)
    (reading : PathReading) : Prop where
  gate : reading.gate = Gate.after run.config.requireEnable (front.flatMap WalkedLine.recognised)
  lines : reading.reports.map (·.line) = front
  each : ∀ report ∈ reading.reports, run.Heeds run.config.requireEnable id equipment report

theorem readLine_cases {front behind : List WalkedLine} {line : WalkedLine} {reading : PathReading}
    (lines : equipment.lines = front ++ line :: behind)
    (passed : ∀ entry, ¬ Refused run.config.requireEnable equipment.recognised entry)
    (before : run.ReadTo id equipment front reading) :
    (∃ next, run.readLine id equipment reading line = .ok next ∧
        run.ReadTo id equipment (front ++ [line]) next) ∨
      ∃ error, run.readLine id equipment reading line = .error error ∧
        ∃ entry ∈ equipment.followed run.config.requireEnable,
          run.Blames id equipment entry error := by
  have own := Equipment.followed_on_line lines run.config.requireEnable
  have inside : ∀ entry ∈ admitted run.config.requireEnable (front.flatMap WalkedLine.recognised)
      line.recognised,
      entry ∈ equipment.followed run.config.requireEnable ∧ entry.line = line.number := by
    intro entry member
    rw [← own, List.mem_filter] at member
    exact ⟨member.1, by simpa using member.2⟩
  have nowhere : ∀ entry, ¬ Refused run.config.requireEnable
      (front.flatMap WalkedLine.recognised ++ line.recognised) entry := by
    intro entry refused
    apply passed entry
    rw [Equipment.recognised, lines, List.flatMap_append, List.flatMap_cons, ← List.append_assoc]
    exact refused.append _
  have admits : (run.interpreter id equipment reading.graph).Admitting _ _ _ _ :=
    Interpreter.admitting _ _ _ nowhere
  rw [← before.gate, ← Interpreter.directives_eq_heed] at admits
  cases admits with
  | argument member fails admits =>
      refine .inr ⟨_, by rw [readLine, admits], _, (inside _ member).1, ?_⟩
      rw [← (inside _ member).2]
      exact .argument fails
  | @followed directives each admits =>
      simp only [readLine, admits]
      cases done : run.interpretAll id equipment line reading.graph {} directives with
      | error error =>
          have stand := fun entry member => (inside entry member).2
          obtain ⟨entry, member, blamed⟩ := interpretAll_blames stand each done
          exact .inr ⟨error, rfl, entry, (inside entry member).1, blamed⟩
      | ok pair =>
          obtain ⟨graph, outcome⟩ := pair
          refine .inl ⟨_, rfl, ?_, ?_, ?_⟩
          · simp
          · simp [before.lines]
          · intro report member
            rcases List.mem_append.mp member with earlier | here
            · exact before.each report earlier
            · rw [List.mem_singleton] at here
              subst here
              exact ⟨own ▸ each, _, _, done⟩

theorem readLines_cases {front ahead : List WalkedLine} {reading : PathReading}
    (lines : equipment.lines = front ++ ahead)
    (passed : ∀ entry, ¬ Refused run.config.requireEnable equipment.recognised entry)
    (before : run.ReadTo id equipment front reading) :
    (∃ last, run.readLines id equipment reading ahead = (last, .ok ()) ∧
        run.ReadTo id equipment (front ++ ahead) last) ∨
      ∃ last error, run.readLines id equipment reading ahead = (last, .error error) ∧
        ∃ entry ∈ equipment.followed run.config.requireEnable,
          run.Blames id equipment entry error := by
  induction ahead generalizing front reading with
  | nil => exact .inl ⟨reading, rfl, (List.append_nil front).symm ▸ before⟩
  | cons line more ih =>
      have regroup : front ++ line :: more = front ++ [line] ++ more := by simp
      simp only [readLines]
      rcases run.readLine_cases lines passed before with
        ⟨next, read, after⟩ | ⟨error, fails, blamed⟩
      · rw [read, regroup]
        exact ih (regroup ▸ lines) after
      · rw [fails]
        exact .inr ⟨reading, error, rfl, blamed⟩

theorem readLines_refused (run : Run) (id : EquipmentId) (equipment : Equipment)
    {entry : Recognised} {ahead : List WalkedLine} {reading : PathReading}
    (closed : reading.gate = .closed)
    (refused : Refused true (ahead.flatMap WalkedLine.recognised) entry) :
    ∃ last, run.readLines id equipment reading ahead =
      (last, .error (.onLine equipment.name entry.line (.gate entry.kind))) := by
  obtain ⟨-, other, rest, starts⟩ := refused
  induction ahead generalizing reading with
  | nil => simp at starts
  | cons line more ih =>
      have admits := (run.interpreter id equipment reading.graph).directives_eq_heed line
        reading.gate
      rw [List.flatMap_cons] at starts
      cases own : line.recognised with
      | nil =>
          rw [own, Interpreter.heed] at admits
          rw [own, List.nil_append] at starts
          simp only [readLines, readLine, admits, interpretAll]
          exact ih closed starts
      | cons first others =>
          rw [own, List.cons_append, List.cons.injEq] at starts
          obtain ⟨rfl, -⟩ := starts
          have here : first ∈ line.recognised := by simp [own]
          rw [own, Interpreter.heed, closed, pass_closed other] at admits
          refine ⟨reading, ?_⟩
          simp only [readLines, readLine, closed, admits, WalkedLine.line_of_recognised here]

structure Scoped (run : Run) (required : Bool) (id : EquipmentId) (equipment : Equipment) :
    Prop where
  refused : ∀ name line kind,
    (run.parsePath id).2.2 = .error (.onLine name line (.gate kind)) ↔
      name = equipment.name ∧
        ∃ entry, Refused required equipment.recognised entry ∧ entry.line = line ∧ entry.kind = kind
  followed : (run.parsePath id).2.2.isOk = true →
    (run.parsePath id).1.map (·.line) = equipment.lines ∧
      ∀ report ∈ (run.parsePath id).1, run.Heeds required id equipment report
  blamed : ∀ error, (run.parsePath id).2.2 = .error error →
    (∃ entry, Refused required equipment.recognised entry) ∨
      ∃ entry ∈ equipment.followed required, run.Blames id equipment entry error

theorem Blames.ne_gate {entry : Recognised} {error : RunError}
    (blamed : run.Blames id equipment entry error) (name : String) (line : Nat)
    (kind : DirectiveKind) : error ≠ .onLine name line (.gate kind) := by
  cases blamed with
  | argument fails => simp
  | directive stands known fails =>
      intro same
      simp only [RunError.onLine.injEq] at same
      rw [same.2.2] at fails
      exact Interpreter.interpret_error_ne_gate fails
  | edge => simp [RunError.graph]

theorem readPath_cases (run : Run) (id : EquipmentId) (equipment : Equipment) :
    (∃ entry last, Refused run.config.requireEnable equipment.recognised entry ∧
        run.readPath id equipment =
          (last, .error (.onLine equipment.name entry.line (.gate entry.kind)))) ∨
      (∀ entry, ¬ Refused run.config.requireEnable equipment.recognised entry) ∧
        ((∃ last, run.readPath id equipment = (last, .ok ()) ∧
            run.ReadTo id equipment equipment.lines last) ∨
          ∃ last error, run.readPath id equipment = (last, .error error) ∧
            ∃ entry ∈ equipment.followed run.config.requireEnable,
              run.Blames id equipment entry error) := by
  by_cases some_refused : ∃ entry, Refused run.config.requireEnable equipment.recognised entry
  · obtain ⟨entry, refused⟩ := some_refused
    have needed := refused.1
    let start : PathReading :=
      { graph := run.scenario.tasks, gate := Gate.new run.config.requireEnable }
    have closed : start.gate = .closed := by
      simp [start, needed, Gate.new]
    obtain ⟨last, fails⟩ := run.readLines_refused id equipment closed (needed ▸ refused)
    exact .inl ⟨entry, last, refused, fails⟩
  · rw [not_exists] at some_refused
    have start : run.ReadTo id equipment []
        { graph := run.scenario.tasks, gate := Gate.new run.config.requireEnable } :=
      ⟨rfl, rfl, by simp⟩
    exact .inr ⟨some_refused, readLines_cases rfl some_refused start⟩

theorem scoped_of_unparsed (unparsed : run.isParsed id = false)
    (found : run.scenario.equipmentOf id = .ok equipment) :
    run.Scoped run.config.requireEnable id equipment := by
  rcases run.readPath_cases id equipment with ⟨entry, last, refused, fails⟩ | ⟨passed, ends⟩
  · have parses : run.parsePath id =
        (last.reports, run, .error (.onLine equipment.name entry.line (.gate entry.kind))) := by
      simp [parsePath, unparsed, found, fails]
    constructor
    · intro name line kind
      simp only [parses, Except.error.injEq, RunError.onLine.injEq, DirectiveError.gate.injEq]
      constructor
      · rintro ⟨rfl, rfl, rfl⟩
        exact ⟨rfl, entry, refused, rfl, rfl⟩
      · rintro ⟨rfl, other, also, rfl, rfl⟩
        obtain ⟨-, -, rest, starts⟩ := refused
        obtain ⟨-, -, more, again⟩ := also
        rw [starts, List.cons.injEq] at again
        obtain ⟨rfl, -⟩ := again
        exact ⟨rfl, rfl, rfl⟩
    · intro succeeds
      simp [parses, Except.isOk, Except.toBool] at succeeds
    · intro _ _
      exact .inl ⟨entry, refused⟩
  · rcases ends with ⟨last, read, whole⟩ | ⟨last, error, fails, entry, member, blamed⟩
    · obtain ⟨next, committed, -⟩ := commit_staged found read
      have parses : run.parsePath id =
          (last.reports, { next with parsed := next.parsed ++ [id] }, .ok true) := by
        simp [parsePath, unparsed, found, read, committed]
      constructor
      · intro name line kind
        simp [parses, passed]
      · intro _
        rw [parses]
        exact ⟨whole.lines, whole.each⟩
      · intro error failed
        simp [parses] at failed
    · have parses : run.parsePath id = (last.reports, run, .error error) := by
        simp [parsePath, unparsed, found, fails]
      constructor
      · intro name line kind
        simp only [parses, Except.error.injEq]
        constructor
        · intro same
          exact absurd same (blamed.ne_gate name line kind)
        · rintro ⟨_, other, refused, _⟩
          exact absurd refused (passed other)
      · intro succeeds
        simp [parses, Except.isOk, Except.toBool] at succeeds
      · intro other failed
        rw [parses, Except.error.injEq] at failed
        subst failed
        exact .inr ⟨entry, member, blamed⟩

/-- Whatever was called before, on this equipment or on others, the gate of a path depends on the
settings and on the commands of that path. -/
theorem gate_scopes_path (first : Run) (calls : List Call)
    (unparsed : (first.performAll calls).isParsed id = false)
    (found : (first.performAll calls).scenario.equipmentOf id = .ok equipment) :
    (first.performAll calls).Scoped first.config.requireEnable id equipment := by
  have scopes := scoped_of_unparsed unparsed found
  rw [first.performAll_config calls] at scopes
  exact scopes

end Run

namespace Quarry

def gatedConfig : Config := { config with requireEnable := true }

def gatedText : String :=
  "Face '!enable !waiton {Hole,Shot}\n'!waitfree\nFace '!disable !waiton Nosuch"

def gatedScenario : Scenario :=
  { scenario with
    equipment :=
      [{ name := "Loader"
         pathText := gatedText
         path := (Path.push {} 1 (.steps [{ source := loaded }])).push 3
           (.steps [{ source := loaded }]) },
        { name := "Truck"
          pathText
          path := Path.push {} 1 (.steps [{ source := loaded }]) }] }

def gated : Run := Run.start gatedConfig gatedScenario {}

def behindLoader : Run := gated.performAll [.parsePath loader]

theorem loader_scopes_and_truck_refused :
    (∃ equipment, gated.isParsed loader = false ∧
        gated.scenario.equipmentOf loader = .ok equipment ∧
          (equipment.recognised.length = 4 ∧ (equipment.followed true).length = 1 ∧
            (gated.parsePath loader).2.2.isOk = true) ∧
              gated.Scoped true loader equipment) ∧
      ∃ equipment, behindLoader.isParsed truck = false ∧
        behindLoader.scenario.equipmentOf truck = .ok equipment ∧
          (behindLoader.parsePath truck).2.2.isOk = false ∧
            behindLoader.Scoped true truck equipment := by
  constructor
  · have unparsed : gated.isParsed loader = false := by decide
    refine ⟨_, unparsed, rfl, by decide +kernel, ?_⟩
    exact Run.gate_scopes_path gated [] unparsed rfl
  · obtain ⟨unparsed, present, refused⟩ : behindLoader.isParsed truck = false ∧
        (behindLoader.scenario.equipmentOf truck).isOk = true ∧
          (behindLoader.parsePath truck).2.2.isOk = false := by
      decide +kernel
    cases found : behindLoader.scenario.equipmentOf truck with
    | error error => simp [found, Except.isOk, Except.toBool] at present
    | ok equipment =>
        refine ⟨equipment, unparsed, rfl, refused, ?_⟩
        exact Run.gate_scopes_path gated [.parsePath loader] unparsed found

end Quarry

end PathDirectives
