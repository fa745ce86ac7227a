import Mathlib.Data.List.Forall2
import PathDirectives.Proofs.Instants
import PathDirectives.Proofs.Steps

/-!
Which rows of a schedule are injected. Outside leap seconds the overlap of a row and a window is
exact to the nanosecond; but a row is chosen by whole milliseconds, and a row is taken for the
opposite of what it is where these do not tell.
-/

namespace PathDirectives

open Calendar

namespace Calendar

variable {first second start stop windowStart windowStop : Instant}

theorem Instant.lt_iff_clock_lt (firstPlain : first.inLeapSecond = false)
    (secondPlain : second.inLeapSecond = false) : first < second ↔ first.clock < second.clock := by
  rw [← Instant.not_le, le_iff_clock_le secondPlain firstPlain]
  omega

theorem Instant.later_plain (firstPlain : first.inLeapSecond = false)
    (secondPlain : second.inLeapSecond = false) :
    (first.later second).inLeapSecond = false ∧
      (first.later second).clock = max first.clock second.clock := by
  have order := le_iff_clock_le firstPlain secondPlain
  unfold later
  split
  · rename_i ordered
    have clocks := order.mp ordered
    exact ⟨secondPlain, by omega⟩
  · rename_i unordered
    have clocks := mt order.mpr unordered
    exact ⟨firstPlain, by omega⟩

theorem Instant.earlier_plain (firstPlain : first.inLeapSecond = false)
    (secondPlain : second.inLeapSecond = false) :
    (first.earlier second).inLeapSecond = false ∧
      (first.earlier second).clock = min first.clock second.clock := by
  have order := le_iff_clock_le firstPlain secondPlain
  unfold earlier
  split
  · rename_i ordered
    have clocks := order.mp ordered
    exact ⟨firstPlain, by omega⟩
  · rename_i unordered
    have clocks := mt order.mpr unordered
    exact ⟨secondPlain, by omega⟩

theorem Instant.since_of_plain (firstPlain : first.inLeapSecond = false)
    (secondPlain : second.inLeapSecond = false) :
    (second.since first).nanoseconds = second.clock - first.clock := by
  have firstBelow : ¬ 1000000000 ≤ first.nano := by simpa [inLeapSecond] using firstPlain
  have secondBelow : ¬ 1000000000 ≤ second.nano := by simpa [inLeapSecond] using secondPlain
  simp [since, firstBelow, secondBelow]

theorem overlap_of_plain (startPlain : start.inLeapSecond = false)
    (stopPlain : stop.inLeapSecond = false) (windowStartPlain : windowStart.inLeapSecond = false)
    (windowStopPlain : windowStop.inLeapSecond = false) :
    overlap start stop windowStart windowStop =
      ⟨max 0 (min stop.clock windowStop.clock - max start.clock windowStart.clock)⟩ := by
  obtain ⟨beginPlain, beginClock⟩ := Instant.later_plain startPlain windowStartPlain
  obtain ⟨finishPlain, finishClock⟩ := Instant.earlier_plain stopPlain windowStopPlain
  have order := Instant.lt_iff_clock_lt beginPlain finishPlain
  have passed := Instant.since_of_plain beginPlain finishPlain
  unfold overlap
  dsimp only
  split
  · rename_i before
    have apart := order.mp before
    cases span : (stop.earlier windowStop).since (start.later windowStart) with
    | mk nanoseconds =>
        rw [span] at passed
        dsimp only at passed
        congr 1
        omega
  · rename_i notBefore
    have behind := mt order.mpr notBefore
    unfold Span.zero
    congr 1
    omega

theorem Span.milliseconds_of_nonneg {span : Span} (forward : 0 ≤ span.nanoseconds) :
    span.milliseconds = span.nanoseconds / 1000000 :=
  Int.tdiv_eq_ediv_of_nonneg forward

end Calendar

namespace ScheduledStep

/-- The row does not end before it starts, and does neither in a leap second. -/
structure Regular (row : ScheduledStep) : Prop where
  forward : row.start ≤ row.stop
  start : row.start.inLeapSecond = false
  stop : row.stop.inLeapSecond = false

instance (row : ScheduledStep) : Decidable row.Regular :=
  decidable_of_iff (row.start ≤ row.stop ∧ row.start.inLeapSecond = false ∧
    row.stop.inLeapSecond = false)
    ⟨fun ⟨forward, start, stop⟩ => ⟨forward, start, stop⟩,
      fun regular => ⟨regular.forward, regular.start, regular.stop⟩⟩

def isFor (equipment : String) (row : ScheduledStep) : Bool :=
  Text.sameWord row.equipment (Text.trimmed equipment)

def isPlaced (scenario : Scenario) (row : ScheduledStep) : Bool :=
  (scenario.findTask? row.source .source).isSome &&
    row.destination.all fun name => (scenario.findTask? name .destination).isSome

def length (row : ScheduledStep) : Int := row.stop.clock - row.start.clock

def shared (start stop : Instant) (row : ScheduledStep) : Int :=
  max 0 (min row.stop.clock stop.clock - max row.start.clock start.clock)

/-- Whether some time of a row is in a window, or its instant is if it takes no time. -/
def liesIn (start stop : Instant) (row : ScheduledStep) : Bool :=
  if row.start < row.stop then 0 < row.shared start stop
  else start ≤ row.start && row.start < stop

/-- Whether a row takes some time and whole milliseconds do not tell if that is in a window: all of
it is less than one and outside, or it is longer and less than one of it is inside. -/
def isBlurred (start stop : Instant) (row : ScheduledStep) : Bool :=
  row.start < row.stop &&
    if row.length < 1000000 then row.shared start stop == 0
    else 0 < row.shared start stop && row.shared start stop < 1000000

structure Gives (scenario : Scenario) (start stop : Instant) (row : ScheduledStep) (step : Step) :
    Prop where
  source : scenario.findTask? row.source .source = some step.source
  destination : step.destination =
    row.destination.bind fun name => scenario.findTask? name .destination
  duration : step.duration = some ⟨row.shared start stop⟩
  quantity : step.quantity =
    some (row.quantity * (shareInside row.start row.stop start stop).toFloat)
  planned : step.rate = .planned
  held : step.ignoreConstraints = false

variable {row : ScheduledStep} {scenario : Scenario} {start stop : Instant}

theorem shared_nonneg (start stop : Instant) (row : ScheduledStep) : 0 ≤ row.shared start stop :=
  Int.le_max_left _ _

theorem Regular.lt_iff (regular : row.Regular) : row.start < row.stop ↔ 0 < row.length := by
  rw [Instant.lt_iff_clock_lt regular.start regular.stop, length]
  omega

theorem shared_le_length (takesTime : 0 < row.length) : row.shared start stop ≤ row.length := by
  unfold shared length at *
  omega

theorem Regular.isNothing_of_lt (regular : row.Regular) (startPlain : start.inLeapSecond = false)
    (stopPlain : stop.inLeapSecond = false) (takesTime : row.start < row.stop) :
    (shareInside row.start row.stop start stop).isNothing = true ↔
      row.shared start stop < 1000000 ∧ 1000000 ≤ row.length := by
  have positive := regular.lt_iff.mp takesTime
  have total : (row.stop.since row.start).nanoseconds = row.length :=
    Instant.since_of_plain regular.start regular.stop
  have inside : overlap row.start row.stop start stop = ⟨row.shared start stop⟩ :=
    overlap_of_plain regular.start regular.stop startPlain stopPlain
  have notBefore := row.shared_nonneg start stop
  have whole : (row.stop.since row.start).milliseconds = row.length / 1000000 := by
    rw [Span.milliseconds_of_nonneg (by omega), total]
  have part : Span.milliseconds ⟨row.shared start stop⟩ = row.shared start stop / 1000000 :=
    Span.milliseconds_of_nonneg notBefore
  unfold shareInside
  dsimp only
  rw [if_neg (by omega), inside, whole, part]
  simp only [Share.isNothing, Bool.or_eq_true, Bool.and_eq_true, decide_eq_true_eq, beq_iff_eq,
    bne_iff_ne]
  omega

theorem Regular.isNothing_of_not_lt (regular : row.Regular) (instantly : ¬ row.start < row.stop) :
    (shareInside row.start row.stop start stop).isNothing = true ↔
      ¬ (start ≤ row.start ∧ row.start < stop) := by
  have total : (row.stop.since row.start).nanoseconds = row.length :=
    Instant.since_of_plain regular.start regular.stop
  have none := mt regular.lt_iff.mpr instantly
  unfold shareInside
  dsimp only
  rw [if_pos (by omega)]
  split
  · rename_i within
    simp [Share.isNothing, within]
  · rename_i outside
    simp only [Share.isNothing, outside, not_false_eq_true, iff_true]
    decide

theorem Regular.isNothing_iff (regular : row.Regular) (startPlain : start.inLeapSecond = false)
    (stopPlain : stop.inLeapSecond = false) :
    (shareInside row.start row.stop start stop).isNothing = true ↔
      row.liesIn start stop = row.isBlurred start stop := by
  by_cases takesTime : row.start < row.stop
  · have notBefore := row.shared_nonneg start stop
    have bound : row.shared start stop ≤ row.length :=
      shared_le_length (regular.lt_iff.mp takesTime)
    rw [regular.isNothing_of_lt startPlain stopPlain takesTime]
    rw [liesIn, if_pos takesTime, isBlurred, decide_eq_true takesTime, Bool.true_and]
    by_cases short : row.length < 1000000
    · rw [if_pos short, Bool.eq_iff_iff, decide_eq_true_eq, beq_iff_eq]
      omega
    · rw [if_neg short, Bool.eq_iff_iff, Bool.and_eq_true, decide_eq_true_eq, decide_eq_true_eq]
      omega
  · rw [regular.isNothing_of_not_lt takesTime]
    rw [liesIn, if_neg takesTime, isBlurred, decide_eq_false takesTime, Bool.false_and,
      Bool.and_eq_false_iff, decide_eq_false_iff_not, decide_eq_false_iff_not]
    exact not_and_or

/-! ### Rows and steps -/

def isAsked (scenario : Scenario) (equipment : String) (row : ScheduledStep) : Bool :=
  row.isFor equipment && row.isPlaced scenario

/-- A row that is asked for and lies in the window. -/
def isWanted (scenario : Scenario) (equipment : String) (start stop : Instant)
    (row : ScheduledStep) : Bool :=
  row.isAsked scenario equipment && row.liesIn start stop

/-- A row that is asked for and found in the window by whole milliseconds. -/
def isChosen (scenario : Scenario) (equipment : String) (start stop : Instant)
    (row : ScheduledStep) : Bool :=
  row.isAsked scenario equipment && (row.liesIn start stop != row.isBlurred start stop)

theorem Regular.gives (regular : row.Regular) (startPlain : start.inLeapSecond = false)
    (stopPlain : stop.inLeapSecond = false) {source : TaskId} {destination : Option TaskId}
    (from_ : scenario.findTask? row.source .source = some source)
    (ends : destination = row.destination.bind fun name => scenario.findTask? name .destination) :
    row.Gives scenario start stop
      (Interpreter.scheduledStep?.planned start stop row source destination
        (shareInside row.start row.stop start stop)) where
  source := from_
  destination := ends
  duration := by
    have inside := overlap_of_plain regular.start regular.stop startPlain stopPlain
    exact congrArg some inside
  quantity := rfl
  planned := rfl
  held := rfl

theorem Regular.scheduledStep?_cases (regular : row.Regular)
    (startPlain : start.inLeapSecond = false) (stopPlain : stop.inLeapSecond = false) :
    (row.isPlaced scenario && (row.liesIn start stop != row.isBlurred start stop)) = true ∧
        (∃ step, Interpreter.scheduledStep? scenario start stop row = some step ∧
          row.Gives scenario start stop step) ∨
      (row.isPlaced scenario && (row.liesIn start stop != row.isBlurred start stop)) = false ∧
        Interpreter.scheduledStep? scenario start stop row = none := by
  have nothing := regular.isNothing_iff startPlain stopPlain
  unfold Interpreter.scheduledStep?
  dsimp only
  split
  · rename_i outside
    refine .inr ⟨?_, rfl⟩
    rw [nothing.mp outside, bne_self_eq_false, Bool.and_false]
  · rename_i inside
    have told := mt nothing.mpr inside
    rw [bne_iff_ne.mpr told, Bool.and_true]
    split
    · rename_i missing
      exact .inr ⟨by simp [isPlaced, missing], rfl⟩
    · rename_i source from_ nowhere
      refine .inl ⟨by simp [isPlaced, from_, nowhere], _, rfl, ?_⟩
      exact regular.gives startPlain stopPlain from_ (by simp [nowhere])
    · rename_i source name from_ named
      cases ends : scenario.findTask? name .destination with
      | none => exact .inr ⟨by simp [isPlaced, named, ends], rfl⟩
      | some destination =>
          refine .inl ⟨by simp [isPlaced, from_, named, ends], _, rfl, ?_⟩
          exact regular.gives startPlain stopPlain from_ (by simp [named, ends])

theorem chosen_eq_wanted_iff {equipment : String} {schedule : List ScheduledStep} :
    schedule.filter (isChosen scenario equipment start stop) =
        schedule.filter (isWanted scenario equipment start stop) ↔
      ∀ row ∈ schedule, row.isAsked scenario equipment = true →
        row.isBlurred start stop = false := by
  constructor
  · intro same row member asked
    have both : row ∈ schedule.filter (isChosen scenario equipment start stop) ↔
        row ∈ schedule.filter (isWanted scenario equipment start stop) := by
      rw [same]
    simp only [List.mem_filter, member, true_and, isChosen, isWanted, asked, Bool.true_and] at both
    cases blurred : row.isBlurred start stop with
    | false => rfl
    | true => simp [blurred] at both
  · intro clear
    apply List.filter_congr
    intro row member
    unfold isChosen isWanted
    cases asked : row.isAsked scenario equipment with
    | false => rfl
    | true => simp [clear row member asked]

end ScheduledStep

structure Injects (scenario : Scenario) (equipment : String) (start stop : Instant)
    (schedule : List ScheduledStep) (steps : List Step) : Prop where
  each : List.Forall₂ (ScheduledStep.Gives scenario start stop)
    (schedule.filter (ScheduledStep.isChosen scenario equipment start stop)) steps
  wanted_iff :
    schedule.filter (ScheduledStep.isChosen scenario equipment start stop) =
        schedule.filter (ScheduledStep.isWanted scenario equipment start stop) ↔
      ∀ row ∈ schedule, row.isAsked scenario equipment = true → row.isBlurred start stop = false

namespace Interpreter

variable {interpreter : Interpreter} {name equipment : String} {start stop : Instant}
  {kind : ScheduleKind} {schedule : List ScheduledStep}

theorem scheduledSteps_each (startPlain : start.inLeapSecond = false)
    (stopPlain : stop.inLeapSecond = false) (regular : ∀ row ∈ schedule, row.Regular)
    (scenario : Scenario) (equipment : String) :
    List.Forall₂ (ScheduledStep.Gives scenario start stop)
      (schedule.filter (ScheduledStep.isChosen scenario equipment start stop))
      ((schedule.filter (ScheduledStep.isFor equipment)).filterMap
        (scheduledStep? scenario start stop)) := by
  induction schedule with
  | nil => exact .nil
  | cons row rest ih =>
      obtain ⟨own, others⟩ := List.forall_mem_cons.mp regular
      have behind := ih others
      cases worked : row.isFor equipment with
      | false =>
          have passed : row.isChosen scenario equipment start stop = false := by
            simp [ScheduledStep.isChosen, ScheduledStep.isAsked, worked]
          rw [List.filter_cons_of_neg (by simp [passed]),
            List.filter_cons_of_neg (by simp [worked])]
          exact behind
      | true =>
          have chosen : row.isChosen scenario equipment start stop =
              (row.isPlaced scenario && (row.liesIn start stop != row.isBlurred start stop)) := by
            simp [ScheduledStep.isChosen, ScheduledStep.isAsked, worked]
          rw [List.filter_cons_of_pos worked]
          rcases own.scheduledStep?_cases startPlain stopPlain with ⟨kept, step, found, gives⟩ |
            ⟨dropped, missing⟩
          · rw [List.filter_cons_of_pos (chosen.trans kept), List.filterMap_cons_some found]
            exact .cons gives behind
          · rw [List.filter_cons_of_neg (by simp [chosen.trans dropped]),
              List.filterMap_cons_none missing]
            exact behind

/-- Outside leap seconds a schedule gives a step for each row that is found in the window by whole
milliseconds; these are the rows in the window just if milliseconds tell of each row asked for. -/
theorem scheduledSteps_inject (filed : interpreter.library.steps? name kind = some schedule)
    (startPlain : start.inLeapSecond = false) (stopPlain : stop.inLeapSecond = false)
    (regular : ∀ row ∈ schedule, row.Regular) :
    ∃ steps, interpreter.scheduledSteps name equipment start stop kind = .ok steps ∧
      Injects interpreter.scenario equipment start stop schedule steps := by
  refine ⟨_, ?_, scheduledSteps_each startPlain stopPlain regular interpreter.scenario equipment,
    ScheduledStep.chosen_eq_wanted_iff⟩
  unfold scheduledSteps
  rw [filed]
  rfl

end Interpreter

namespace Quarry

def microsAfter (day hour : Nat) (micros : Int) : Instant :=
  (Instant.ofClock? ((moment day hour).clock + micros * 1000)).getD Instant.first

def drillRow (start stop : Instant) : ScheduledStep :=
  { equipment := "Drill", source := "Hole", destination := none, start, stop, quantity := 10.0 }

def blink : ScheduledStep := drillRow (moment 3 0) (microsAfter 3 0 500)

def logbook : List ScheduledStep :=
  [drillRow (moment 1 22) (moment 2 2), blink, drillRow (moment 1 0) (moment 1 0),
    drillRow (microsAfter 2 0 (-400)) (moment 2 1)]

def clerk (rows : List ScheduledStep) : Interpreter :=
  { config
    scenario
    graph := scenario.tasks
    library := ({} : ScheduleLibrary).insert "Survey" .output rows
    id := loader
    equipment := { name := "Loader" } }

theorem clerk_filed (rows : List ScheduledStep) :
    (clerk rows).library.steps? "Survey" .output = some rows :=
  ScheduleLibrary.steps?_insert_self _ _ _ _

theorem logbook_injected :
    (clerk logbook).library.steps? "Survey" .output = some logbook ∧
      (moment 1 0).inLeapSecond = false ∧ (moment 2 0).inLeapSecond = false ∧
        (∀ row ∈ logbook, row.Regular) ∧
          logbook.map (·.isWanted scenario " drill " (moment 1 0) (moment 2 0)) =
              [true, false, true, true] ∧
            logbook.map (·.isChosen scenario " drill " (moment 1 0) (moment 2 0)) =
                [true, true, true, false] ∧
              ∃ steps, (clerk logbook).scheduledSteps "Survey" " drill " (moment 1 0) (moment 2 0)
                  .output = .ok steps ∧
                Injects scenario " drill " (moment 1 0) (moment 2 0) logbook steps := by
  have regular : ∀ row ∈ logbook, row.Regular := by decide +kernel
  have startPlain : (moment 1 0).inLeapSecond = false := by decide +kernel
  have stopPlain : (moment 2 0).inLeapSecond = false := by decide +kernel
  exact ⟨clerk_filed logbook, startPlain, stopPlain, regular, by decide +kernel, by decide +kernel,
    Interpreter.scheduledSteps_inject (clerk_filed logbook) startPlain stopPlain regular⟩

theorem blink_injected_outside :
    moment 1 0 < moment 2 0 ∧ moment 2 0 < blink.start ∧ blink.Regular ∧
      ∃ step, (clerk [blink]).scheduledSteps "Survey" "Drill" (moment 1 0) (moment 2 0) .output =
          .ok [step] ∧ step.duration = some Span.zero := by
  refine ⟨by decide +kernel, by decide +kernel, by decide +kernel, ?_⟩
  have computed : (((clerk [blink]).scheduledSteps "Survey" "Drill" (moment 1 0) (moment 2 0)
      .output).toOption.map (List.map (·.duration))) = some [some Span.zero] := by
    decide +kernel
  cases injected : (clerk [blink]).scheduledSteps "Survey" "Drill" (moment 1 0) (moment 2 0)
      .output with
  | error error => simp [injected, Except.toOption] at computed
  | ok steps =>
      rw [injected] at computed
      obtain ⟨step, rfl, noTime⟩ := List.map_eq_singleton_iff.mp (Option.some.inj computed)
      exact ⟨step, rfl, noTime⟩

end Quarry

end PathDirectives
