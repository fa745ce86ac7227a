import Mathlib.Data.List.Induction
import PathDirectives.Proofs.CompiledPaths
import PathDirectives.Proofs.PathHistory

/-!
Reprioritisation. A line that is reprioritised comes to the front of its path when its equipment
releases its work, the first time after it has worked on the line. This happens once, whatever
other calls come between and whatever becomes of the path meanwhile.
-/

namespace PathDirectives

open Calendar

theorem any_dropWhile_iff {α : Type} {begins ends : α → Bool} {items : List α}
    (apart : ∀ item, begins item = true → ends item = false) :
    (items.dropWhile fun item => !begins item).any ends = true ↔
      ∃ before item after, items = before ++ item :: after ∧ ends item = true ∧
        before.any begins = true := by
  induction items with
  | nil => simp
  | cons head tail ih =>
      have peel : (∃ before item after, head :: tail = before ++ item :: after ∧
          ends item = true ∧ before.any begins = true) ↔
            ∃ before item after, tail = before ++ item :: after ∧ ends item = true ∧
              (begins head || before.any begins) = true := by
        constructor
        · rintro ⟨before, item, after, whole, ending, among⟩
          cases before with
          | nil => simp at among
          | cons first before =>
              obtain ⟨rfl, rfl⟩ := List.cons.inj whole
              exact ⟨before, item, after, rfl, ending, among⟩
        · rintro ⟨before, item, after, rfl, ending, among⟩
          exact ⟨head :: before, item, after, rfl, ending, among⟩
      rw [peel]
      cases begun : begins head with
      | false => simpa [begun] using ih
      | true =>
          rw [List.dropWhile_cons_of_neg (by simp [begun]), List.any_cons, apart head begun,
            Bool.false_or, List.any_eq_true]
          constructor
          · rintro ⟨item, member, ending⟩
            obtain ⟨before, after, rfl⟩ := List.append_of_mem member
            exact ⟨before, item, after, rfl, ending, rfl⟩
          · rintro ⟨before, item, after, rfl, ending, -⟩
            exact ⟨item, by simp, ending⟩

theorem any_dropWhile_snoc {α : Type} {begins ends : α → Bool} {item : α}
    (apart : begins item = true → ends item = false) (items : List α) :
    ((items ++ [item]).dropWhile fun item => !begins item).any ends =
      ((items.dropWhile fun item => !begins item).any ends ||
        items.any begins && ends item) := by
  induction items with
  | nil =>
      cases begun : begins item with
      | false => simp [begun]
      | true => simp [begun, apart begun]
  | cons head tail ih =>
      cases begun : begins head with
      | false => simpa [begun] using ih
      | true => simp [begun, Bool.or_assoc]

/-- A reprioritisation that has been asked for, with the elements of its line and the calls that
have come since. -/
structure Reprioritisation where
  equipment : EquipmentId
  elements : List ElementId
  since : List Run.Call

namespace Reprioritisation

def selects (wish : Reprioritisation) : Run.Call → Bool
  | .taskSelected id element _ => id == wish.equipment && wish.elements.contains element
  | _ => false

def releases (wish : Reprioritisation) : Run.Call → Bool
  | .taskReleased id => id == wish.equipment
  | _ => false

def isTakenUp (wish : Reprioritisation) : Bool := wish.since.any wish.selects

/-- The equipment has released its work since it took up one of the elements. -/
def isDone (wish : Reprioritisation) : Bool :=
  (wish.since.dropWhile fun call => !wish.selects call).any wish.releases

/-- The next call is the one that brings the elements to the front. -/
def isDueAt (wish : Reprioritisation) (call : Run.Call) : Bool :=
  wish.releases call && wish.isTakenUp && !wish.isDone

def heard (call : Run.Call) (wish : Reprioritisation) : Reprioritisation :=
  { wish with since := wish.since ++ [call] }

def action (wish : Reprioritisation) : Action := .moveToFront wish.equipment wish.elements

def watch (wish : Reprioritisation) : SelectionWatch where
  equipment := wish.equipment
  elements := wish.elements
  armed := wish.isTakenUp
  action := if wish.isDone then none else some wish.action

def fronted (wish : Reprioritisation) (elements : List Element) : List Element :=
  elements.filter (fun element => wish.elements.contains element.id) ++
    elements.filter fun element => !wish.elements.contains element.id

variable {wish : Reprioritisation} {call : Run.Call}

theorem not_releases_of_selects (selects : wish.selects call = true) :
    wish.releases call = false := by
  cases call with
  | taskSelected => rfl
  | _ => simp [Reprioritisation.selects] at selects

theorem any_selects_iff {calls : List Run.Call} : calls.any wish.selects = true ↔
    ∃ element ∈ wish.elements, ∃ task, .taskSelected wish.equipment element task ∈ calls := by
  rw [List.any_eq_true]
  constructor
  · rintro ⟨call, member, selects⟩
    cases call with
    | taskSelected id element task =>
        simp only [Reprioritisation.selects, Bool.and_eq_true, beq_iff_eq,
          List.contains_iff_mem] at selects
        obtain ⟨rfl, listed⟩ := selects
        exact ⟨element, listed, task, member⟩
    | _ => simp [Reprioritisation.selects] at selects
  · rintro ⟨element, listed, task, member⟩
    exact ⟨_, member, by simp [selects, listed]⟩

theorem releases_iff : wish.releases call = true ↔ call = .taskReleased wish.equipment := by
  cases call <;> simp [releases]

theorem isDone_iff : wish.isDone = true ↔
    ∃ before after, wish.since = before ++ .taskReleased wish.equipment :: after ∧
      ∃ element ∈ wish.elements, ∃ task,
        .taskSelected wish.equipment element task ∈ before := by
  rw [isDone, any_dropWhile_iff fun _ => not_releases_of_selects]
  simp only [releases_iff, any_selects_iff]
  constructor
  · rintro ⟨before, _, after, whole, rfl, among⟩
    exact ⟨before, after, whole, among⟩
  · rintro ⟨before, after, whole, among⟩
    exact ⟨before, _, after, whole, rfl, among⟩

theorem isDueAt_iff : wish.isDueAt call = true ↔
    call = .taskReleased wish.equipment ∧
      (∃ element ∈ wish.elements, ∃ task,
        .taskSelected wish.equipment element task ∈ wish.since) ∧
        ¬ ∃ before after, wish.since = before ++ .taskReleased wish.equipment :: after ∧
          ∃ element ∈ wish.elements, ∃ task,
            .taskSelected wish.equipment element task ∈ before := by
  rw [← isDone_iff, isDueAt, Bool.and_eq_true, Bool.and_eq_true, releases_iff, isTakenUp,
    any_selects_iff, and_assoc, Bool.not_eq_true', Bool.not_eq_true]

theorem isTakenUp_of_isDone (done : wish.isDone = true) : wish.isTakenUp = true := by
  obtain ⟨before, after, whole, element, listed, task, member⟩ := isDone_iff.mp done
  refine any_selects_iff.mpr ⟨element, listed, task, ?_⟩
  rw [whole]
  exact List.mem_append_left _ member

theorem isTakenUp_heard : (wish.heard call).isTakenUp = (wish.isTakenUp || wish.selects call) := by
  change (wish.since ++ [call]).any wish.selects = _
  rw [List.any_append, List.any_cons, List.any_nil, Bool.or_false]
  rfl

theorem isDone_heard : (wish.heard call).isDone =
    (wish.isDone || wish.isTakenUp && wish.releases call) :=
  any_dropWhile_snoc not_releases_of_selects wish.since

theorem watch_heard : (wish.heard call).watch =
    { wish.watch with
      armed := wish.isTakenUp || wish.selects call
      action := if wish.isDone || wish.isTakenUp && wish.releases call then none
        else some wish.action } := by
  rw [← isTakenUp_heard, ← isDone_heard]
  rfl

theorem watch_selected (wish : Reprioritisation) (id : EquipmentId) (element : ElementId)
    (task : TaskId) :
    (wish.heard (.taskSelected id element task)).watch = Run.arm id element wish.watch := by
  have unreleasing : wish.releases (.taskSelected id element task) = false := rfl
  rw [watch_heard, unreleasing, Bool.and_false, Bool.or_false]
  by_cases own : wish.equipment = id ∧ element ∈ wish.elements
  · obtain ⟨rfl, listed⟩ := own
    have selecting : wish.selects (.taskSelected wish.equipment element task) = true := by
      simp [selects, listed]
    cases done : wish.isDone with
    | false => simp [selecting, watch, Run.arm, done, listed]
    | true => simp [selecting, watch, Run.arm, done, isTakenUp_of_isDone done]
  · have unselecting : wish.selects (.taskSelected id element task) = false := by
      simpa [selects, eq_comm (a := id)] using own
    have stays : Run.arm id element wish.watch = wish.watch :=
      if_neg fun arms => own ⟨arms.1, arms.2.2⟩
    rw [stays, unselecting, Bool.or_false]
    rfl

theorem watch_released (wish : Reprioritisation) (id : EquipmentId) :
    (wish.heard (.taskReleased id)).watch = Run.disarm id wish.watch := by
  have unselecting : wish.selects (.taskReleased id) = false := rfl
  rw [watch_heard, unselecting, Bool.or_false]
  by_cases own : wish.equipment = id
  · have releasing : wish.releases (.taskReleased id) = true := by simp [releases, own]
    cases taken : wish.isTakenUp with
    | false => simp [releasing, watch, Run.disarm, Run.firesFor, taken]
    | true => simp [releasing, watch, Run.disarm, Run.firesFor, taken, own]
  · have unreleasing : wish.releases (.taskReleased id) = false := by
      simp [releases, Ne.symm own]
    have stays : Run.firesFor id wish.watch = false := by simp [Run.firesFor, watch, own]
    rw [unreleasing, Bool.and_false, Bool.or_false, Run.disarm, stays]
    rfl

theorem watch_passed (unselecting : wish.selects call = false)
    (unreleasing : wish.releases call = false) : (wish.heard call).watch = wish.watch := by
  rw [watch_heard, unselecting, unreleasing, Bool.or_false, Bool.and_false, Bool.or_false]
  rfl

end Reprioritisation

namespace Path

def fronted (path : Path) (wishes : List Reprioritisation) : Path :=
  wishes.foldl (fun path wish => path.moveToFront wish.elements) path

theorem elements_fronted (path : Path) (wishes : List Reprioritisation) :
    (path.fronted wishes).elements =
      wishes.foldl (fun elements wish => wish.fronted elements) path.elements := by
  induction wishes generalizing path with
  | nil => rfl
  | cons wish rest ih => exact ih _

theorem nextId_fronted (path : Path) (wishes : List Reprioritisation) :
    (path.fronted wishes).nextId = path.nextId := by
  induction wishes generalizing path with
  | nil => rfl
  | cons wish rest ih => exact ih _

theorem foremost_fronted (path : Path) (wishes : List Reprioritisation) :
    ∀ last ∈ wishes.getLast?, ∃ front behind, (path.fronted wishes).elements = front ++ behind ∧
      (∀ element ∈ front, element.id ∈ last.elements) ∧
        ∀ element ∈ behind, element.id ∉ last.elements := by
  intro last final
  obtain ⟨earlier, rfl⟩ := List.getLast?_eq_some_iff.mp final
  rw [elements_fronted, List.foldl_append]
  refine ⟨_, _, rfl, fun element member => ?_, fun element member => ?_⟩
  · exact List.contains_iff_mem.mp (List.mem_filter.mp member).2
  · simpa using (List.mem_filter.mp member).2

end Path

def ReadDirective.reprioritisation? (id : EquipmentId) (since : List Run.Call)
    (read : ReadDirective) : Option Reprioritisation :=
  match read.2 with
  | .reprioritise => some ⟨id, read.1.scope.elements, since⟩
  | _ => none

def Effect.watch? : Effect → Option SelectionWatch
  | .onSelection equipment elements action => some { equipment, elements, action := some action }
  | _ => none

namespace Interpreter

variable {interpreter : Interpreter} {line : WalkedLine} {directive : Directive}
  {part : LineOutcome}

theorem reprioritise_of_kind (same : directive.kind = .reprioritise) :
    directive = .reprioritise := by
  cases directive <;> simp [Directive.kind] at same ⊢

theorem interpret_watches (interpreted : interpreter.interpret line directive = .ok part) :
    part.effects.filterMap Effect.watch? =
      (ReadDirective.reprioritisation? interpreter.id [] (line, directive)).toList.map
        Reprioritisation.watch := by
  by_cases own : directive.kind = .reprioritise
  · obtain rfl := reprioritise_of_kind own
    obtain rfl := Except.ok.inj interpreted
    rfl
  · have none_asked : part.effects.filterMap Effect.watch? = [] := by
      refine List.filterMap_eq_nil_iff.mpr fun effect member => ?_
      cases (interpret_all interpreted).effects effect member with
      | reprioritise => exact absurd rfl own
      | _ => rfl
    rw [none_asked]
    cases directive with
    | reprioritise => exact absurd rfl own
    | _ => rfl

end Interpreter

namespace Run

variable {run next first : Run} {id : EquipmentId} {wishes : List Reprioritisation}

def wishesOf (run : Run) (since : List Call) : Call → List Reprioritisation
  | .parsePath id =>
      match run.parsePath id with
      | (reports, _, .ok true) =>
          (reports.flatMap LineReport.reads).filterMap
            (ReadDirective.reprioritisation? id since)
      | _ => []
  | _ => []

/-- The reprioritisations that have been installed in the course of several calls, in order, each
with the calls that have come since. -/
def wishesIn (run : Run) : List Call → List Reprioritisation
  | [] => []
  | call :: since => run.wishesOf since call ++ (run.perform call).1.wishesIn since

theorem wishesOf_heard (run : Run) (since : List Call) (call later : Call) :
    run.wishesOf (since ++ [later]) call =
      (run.wishesOf since call).map (Reprioritisation.heard later) := by
  have heard (id : EquipmentId) (read : ReadDirective) :
      read.reprioritisation? id (since ++ [later]) =
        (read.reprioritisation? id since).map (Reprioritisation.heard later) := by
    unfold ReadDirective.reprioritisation?
    split <;> rfl
  cases call with
  | parsePath id =>
      simp only [wishesOf]
      split
      · rw [List.map_filterMap]
        exact List.filterMap_congr fun read _ => heard id read
      · rfl
  | _ => rfl

theorem wishesIn_snoc (run : Run) (calls : List Call) (call : Call) :
    run.wishesIn (calls ++ [call]) =
      (run.wishesIn calls).map (Reprioritisation.heard call) ++
        (run.performAll calls).wishesOf [] call := by
  induction calls generalizing run with
  | nil => exact List.append_nil _
  | cons head rest ih =>
      rw [List.cons_append, wishesIn, wishesIn, ih, wishesOf_heard, List.map_append,
        List.append_assoc]
      rfl

/-! ### Watches -/

theorem selections_registerAll (run : Run) (registrations : List Registration) :
    (registrations.foldl register run).selections = run.selections := by
  induction registrations generalizing run with
  | nil => rfl
  | cons registration rest ih =>
      rw [List.foldl_cons, ih]
      cases registration <;> rfl

theorem selections_schedule (run : Run) (effect : Effect) :
    (run.schedule effect).1.selections = run.selections ++ effect.watch?.toList := by
  cases effect with
  | now action | onDate date action => exact (List.append_nil _).symm
  | onCompletion tasks delay action =>
      simp only [schedule]
      split <;> exact (List.append_nil _).symm
  | onSelection owner elements action => rfl

theorem selections_scheduleAll {effects : List Effect}
    (scheduled : run.scheduleAll effects = (next, .ok ())) :
    next.selections = run.selections ++ effects.filterMap Effect.watch? := by
  induction effects generalizing run with
  | nil =>
      simp only [scheduleAll, Prod.mk.injEq, and_true] at scheduled
      subst scheduled
      exact (List.append_nil _).symm
  | cons effect rest ih =>
      rw [scheduleAll] at scheduled
      split at scheduled
      · rename_i middle first
        have own := run.selections_schedule effect
        rw [first] at own
        rw [ih scheduled, own, List.append_assoc]
        cases asked : effect.watch? <;> simp [asked]
      · simp at scheduled

theorem Reads.watches {equipment : Equipment} {graph : TaskGraph} {reads : List ReadDirective}
    {parts : List LineOutcome} (followed : run.Reads id equipment graph reads parts) :
    (LineOutcome.joined parts).effects.filterMap Effect.watch? =
      (reads.filterMap (ReadDirective.reprioritisation? id [])).map Reprioritisation.watch := by
  induction followed with
  | nil => rfl
  | @cons graph read part rest parts interpreted _ _ ih =>
      have own := Interpreter.interpret_watches interpreted
      simp only [LineOutcome.joined, List.flatMap_cons, List.filterMap_append] at ih ⊢
      rw [ih, own]
      change (ReadDirective.reprioritisation? id [] read).toList.map _ ++ _ = _
      cases asked : read.reprioritisation? id [] <;> simp [asked]

theorem wishesOf_parsed {since : List Call} (parses : (run.parsePath id).2.2 = .ok true) :
    run.wishesOf since (.parsePath id) =
      ((run.parsePath id).1.flatMap LineReport.reads).filterMap
        (ReadDirective.reprioritisation? id since) := by
  rw [wishesOf]
  generalize run.parsePath id = parsed at parses ⊢
  obtain ⟨reports, next, result⟩ := parsed
  obtain rfl : result = .ok true := parses
  rfl

theorem wishesOf_unparsed {since : List Call} (fails : (run.parsePath id).2.2 ≠ .ok true) :
    run.wishesOf since (.parsePath id) = [] := by
  rw [wishesOf]
  split
  · rename_i parsed
    exact absurd (congrArg (·.2.2) parsed) fails
  · rfl

theorem selections_parsePath (run : Run) (id : EquipmentId) :
    (run.parsePath id).2.1.selections =
      run.selections ++ (run.wishesOf [] (.parsePath id)).map Reprioritisation.watch := by
  by_cases parses : (run.parsePath id).2.2 = .ok true
  · obtain ⟨equipment, parts, followed⟩ := parsePath_followed parses
    obtain ⟨last, committed, same⟩ := followed.installed
    rw [same, wishesOf_parsed parses, ← followed.reads.watches]
    exact (selections_scheduleAll committed).trans
      (congrArg (· ++ _) (run.selections_registerAll _))
  · rw [parsePath_unchanged parses, wishesOf_unparsed parses, List.map_nil, List.append_nil]

def IsStill (run : Run) : Prop := ∀ action ∈ run.timed, action.isMove = false

structure Watching (run : Run) (wishes : List Reprioritisation) : Prop where
  selections : run.selections = wishes.map Reprioritisation.watch
  known : ∀ wish ∈ wishes, run.site.HasEquipment wish.equipment
  still : run.IsStill

theorem selections_advanceTo (run : Run) (date : Instant) :
    (run.advanceTo date).1.selections = run.selections := by
  unfold advanceTo
  split <;> rfl

theorem selections_changeEquipment {change : Equipment → Equipment}
    (changed : run.changeEquipment id change = .ok next) : next.selections = run.selections := by
  rw [eq_of_changeEquipment changed]

theorem hasEquipment_of_changed {change : Equipment → Equipment}
    (changed : run.changeEquipment id change = .ok next) : run.site.HasEquipment id := by
  unfold changeEquipment at changed
  split at changed
  · simp at changed
  · rename_i equipment found
    exact Site.hasEquipment_of_path? (path?_of_equipmentOf found)

theorem missing_of_error {change : Equipment → Equipment} {error : RunError}
    (fails : run.changeEquipment id change = .error error) : ¬ run.site.HasEquipment id := by
  intro has
  obtain ⟨next, changed⟩ := changeEquipment_ok has change
  simp [fails] at changed

namespace Watching

theorem apart (watching : run.Watching wishes) (missing : ¬ run.site.HasEquipment id)
    {wish : Reprioritisation} (member : wish ∈ wishes) : id ≠ wish.equipment :=
  fun same => missing (same ▸ watching.known wish member)

theorem heard_map (watching : run.Watching wishes) {call : Call}
    {change : SelectionWatch → SelectionWatch}
    (each : ∀ wish ∈ wishes, (wish.heard call).watch = change wish.watch) :
    (wishes.map (Reprioritisation.heard call)).map Reprioritisation.watch =
      run.selections.map change := by
  rw [watching.selections, List.map_map, List.map_map]
  exact List.map_congr_left each

theorem passed (watching : run.Watching wishes) {call : Call}
    (unheard : ∀ wish ∈ wishes, wish.selects call = false ∧ wish.releases call = false) :
    (wishes.map (Reprioritisation.heard call)).map Reprioritisation.watch = run.selections := by
  have kept : ∀ wish ∈ wishes, (wish.heard call).watch = id wish.watch :=
    fun wish member => wish.watch_passed (unheard wish member).1 (unheard wish member).2
  rw [watching.heard_map kept, List.map_id]

theorem selections_perform (watching : run.Watching wishes) (call : Call) :
    (run.perform call).1.selections =
      (wishes.map (Reprioritisation.heard call) ++ run.wishesOf [] call).map
        Reprioritisation.watch := by
  rw [List.map_append]
  cases call with
  | parsePath id =>
      rw [watching.passed fun _ _ => ⟨rfl, rfl⟩]
      exact run.selections_parsePath id
  | taskCompleted task date =>
      rw [watching.passed fun _ _ => ⟨rfl, rfl⟩]
      refine .trans ?_ (List.append_nil _).symm
      change (run.taskCompleted task date).1.selections = run.selections
      unfold taskCompleted
      split
      · rfl
      · rfl
      · exact selections_advanceTo _ date
  | advanceTo date =>
      rw [watching.passed fun _ _ => ⟨rfl, rfl⟩]
      exact (run.selections_advanceTo date).trans (List.append_nil _).symm
  | taskSelected id element task =>
      refine .trans ?_ (List.append_nil _).symm
      cases changed : run.changeEquipment id _ with
      | error error =>
          rw [watching.passed fun wish member => ?_]
          · rw [perform, taskSelected, changed]
          · have apart := watching.apart (missing_of_error changed) member
            simp [Reprioritisation.selects, Reprioritisation.releases, apart]
      | ok next =>
          rw [watching.heard_map fun wish _ => wish.watch_selected id element task]
          rw [perform, taskSelected, changed]
          exact congrArg (List.map _) (selections_changeEquipment changed)
  | taskReleased id =>
      refine .trans ?_ (List.append_nil _).symm
      cases changed : run.changeEquipment id fun worker => { worker with active := none } with
      | error error =>
          rw [watching.passed fun wish member => ?_]
          · rw [perform, taskReleased, changed]
          · have apart := watching.apart (missing_of_error changed) member
            simp [Reprioritisation.selects, Reprioritisation.releases, apart]
      | ok next =>
          rw [watching.heard_map fun wish _ => wish.watch_released id]
          rw [perform, taskReleased, changed]
          exact congrArg (List.map _) (selections_changeEquipment changed)

end Watching

theorem IsStill.of_le (still : run.IsStill) (less : next.timed ≤ run.timed) : next.IsStill :=
  fun action member => still action (Multiset.mem_of_le less member)

theorem IsStill.register (still : run.IsStill) (registration : Registration) :
    (run.register registration).IsStill := by
  cases registration with
  | wait key counter => exact still
  | window key dated =>
      intro action member
      simp only [timed, Run.register, Agenda.actions_push, Multiset.cons_add,
        Multiset.mem_cons] at member
      obtain rfl | rfl | before := member
      · rfl
      · rfl
      · exact still action before

theorem IsStill.registerAll (still : run.IsStill) (registrations : List Registration) :
    (registrations.foldl Run.register run).IsStill := by
  induction registrations generalizing run with
  | nil => exact still
  | cons registration rest ih => exact ih (still.register registration)

theorem IsStill.schedule (still : run.IsStill) {effect : Effect} (timely : effect.Timely) :
    (run.schedule effect).1.IsStill := by
  intro action member
  have among := Multiset.mem_of_le (run.timed_schedule_le effect) member
  rw [Multiset.mem_add] at among
  obtain own | before := among
  · cases effect with
    | now | onSelection => simp [Effect.timed] at own
    | onDate date other | onCompletion tasks delay other =>
        obtain rfl := Multiset.mem_singleton.mp own
        exact timely.2
  · exact still action before

theorem IsStill.changeEquipment (still : run.IsStill) {change : Equipment → Equipment}
    (changed : run.changeEquipment id change = .ok next) : next.IsStill := by
  rw [eq_of_changeEquipment changed]
  exact still

theorem readPath_timely {equipment : Equipment} {reading : PathReading}
    (read : run.readPath id equipment = (reading, .ok ())) :
    reading.outcome.All (fun _ => True) Effect.Timely := by
  refine readPath_all ?_ read
  intro line kind command directive graph outcome _ interpreted
  exact ⟨fun _ _ => trivial, Interpreter.interpret_timely interpreted⟩

theorem IsStill.perform (still : run.IsStill) (indexed : run.WatchIndexed) (call : Call) :
    (run.perform call).1.IsStill := by
  cases run.turn call with
  | kept performs =>
      rw [performs]
      exact still
  | @installed id equipment reading next found read committed performs =>
      have timely := (readPath_timely read).effects
      have after : (run.commit reading.outcome).1.IsStill := by
        refine scheduleAll_preserves ?_ (still.registerAll reading.outcome.registrations)
        intro middle effect member before
        exact before.schedule (timely effect member)
      rw [committed] at after
      rw [performs]
      exact after
  | @completed graph task date performs =>
      rw [performs]
      exact (still.of_le (timed_enter_le indexed graph task date)).of_le
        ((Multiset.le_add_left _ _).trans (timed_advanceTo_le _ date))
  | selected changed performs | released changed performs =>
      have changes := still.changeEquipment changed
      rw [performs]
      exact changes
  | advanced performs =>
      rw [performs]
      exact still.of_le ((Multiset.le_add_left _ _).trans (run.timed_advanceTo_le _))

theorem effectsOf_timely (run : Run) (call : Call) :
    ∀ effect ∈ run.effectsOf call, effect.Timely := by
  cases call with
  | parsePath id =>
      simp only [effectsOf]
      split
      · simp
      · split
        · simp
        · split
          · simp
          · rename_i read
            exact (readPath_timely read).effects
  | _ => simp [effectsOf]

theorem now_of_immediate {effects : List Effect} {firing : Firing}
    (member : firing ∈ run.immediate effects) : .now firing.action ∈ effects := by
  induction effects generalizing run with
  | nil => simp [immediate] at member
  | cons effect rest ih =>
      cases effect with
      | now action =>
          rcases List.mem_cons.mp member with rfl | later
          · exact List.mem_cons_self
          · exact List.mem_cons_of_mem _ (ih later)
      | _ => exact List.mem_cons_of_mem _ (ih member)

theorem IsStill.log (still : run.IsStill) (date : Instant) :
    ∀ entry ∈ run.log date, entry.2.isMove = false := by
  intro entry member
  have less := (Multiset.le_add_right _ _).trans (run.timed_advanceTo_le date)
  exact still entry.2 (Multiset.mem_of_le less (List.mem_map_of_mem member))

theorem advance_still (still : run.IsStill) (indexed : run.WatchIndexed) {call : Call}
    {date : Instant} (advances : run.advanceOf? call = some (next, date)) : next.IsStill := by
  cases call with
  | taskCompleted task date =>
      simp only [advanceOf?] at advances
      split at advances
      · obtain ⟨rfl, rfl⟩ := Prod.mk.inj (Option.some.inj advances)
        exact still.of_le (timed_enter_le indexed _ _ _)
      · simp at advances
  | advanceTo date =>
      obtain ⟨rfl, rfl⟩ := Prod.mk.inj (Option.some.inj advances)
      exact still
  | _ => simp [advanceOf?] at advances

/-- Only a release brings elements to the front. -/
theorem IsStill.firings (still : run.IsStill) (indexed : run.WatchIndexed) {call : Call}
    (other : ∀ id, call ≠ .taskReleased id) :
    ((run.firings call).map (·.action)).filter Action.isMove = [] := by
  rw [List.filter_eq_nil_iff]
  intro action member
  obtain ⟨firing, fired, rfl⟩ := List.mem_map.mp member
  rw [Bool.not_eq_true]
  cases call with
  | parsePath id =>
      exact Action.isMove_of_isPrompt
        (run.effectsOf_timely (.parsePath id) _ (now_of_immediate fired))
  | taskReleased id => exact absurd rfl (other id)
  | taskCompleted task date | advanceTo date | taskSelected id element task =>
      simp only [Run.firings] at fired
      split at fired
      · rename_i middle date advances
        have among := List.mem_map_of_mem (f := (·.action)) fired
        rw [Site.firings_actions] at among
        obtain ⟨entry, logged, same⟩ := List.mem_map.mp among
        exact same ▸ (advance_still still indexed advances).log date entry logged
      · simp at fired

theorem hasEquipment_of_wishesOf {call : Call} {wish : Reprioritisation}
    (member : wish ∈ run.wishesOf [] call) : run.site.HasEquipment wish.equipment := by
  cases call with
  | parsePath id =>
      by_cases parses : (run.parsePath id).2.2 = .ok true
      · obtain ⟨equipment, parts, followed⟩ := parsePath_followed parses
        rw [wishesOf_parsed parses] at member
        obtain ⟨read, -, own⟩ := List.mem_filterMap.mp member
        obtain rfl : wish.equipment = id := by
          unfold ReadDirective.reprioritisation? at own
          split at own
          · exact (congrArg Reprioritisation.equipment (Option.some.inj own)).symm
          · simp at own
        exact Site.hasEquipment_of_path? (path?_of_equipmentOf followed.found)
      · simp [wishesOf_unparsed parses] at member
  | _ => simp [wishesOf] at member

theorem Watching.perform (watching : run.Watching wishes) (indexed : run.WatchIndexed)
    (call : Call) :
    (run.perform call).1.Watching
      (wishes.map (Reprioritisation.heard call) ++ run.wishesOf [] call) where
  selections := watching.selections_perform call
  known := by
    intro wish member
    refine (run.grows_perform call).hasEquipment ?_
    rcases List.mem_append.mp member with old | new
    · obtain ⟨before, inside, rfl⟩ := List.mem_map.mp old
      exact watching.known before inside
    · exact hasEquipment_of_wishesOf new
  still := watching.still.perform indexed call

theorem watching_performAll {config : Config} {scenario : Scenario} {library : ScheduleLibrary}
    {compiles : Bool} (built : build config scenario library compiles = .ok first)
    (calls : List Call) : (first.performAll calls).Watching (first.wishesIn calls) := by
  induction calls using List.reverseRecOn with
  | nil =>
      obtain ⟨compiled, -, rfl⟩ := eq_start_of_build built
      exact ⟨rfl, by simp [wishesIn], fun action member => absurd member (Multiset.notMem_zero _)⟩
  | append_singleton calls call ih =>
      have orderly := orderly_of_reaches built (Reaches.start.performAll calls)
      rw [wishesIn_snoc, performAll, List.foldl_append]
      exact ih.perform orderly.watches.indexed call

/-! ### Releases -/

/-- The reprioritisations that are due at the release of an equipment. -/
def dueAt (wishes : List Reprioritisation) (id : EquipmentId) : List Reprioritisation :=
  wishes.filter (·.isDueAt (.taskReleased id))

theorem equipment_of_due {wish : Reprioritisation} (due : wish ∈ dueAt wishes id) :
    wish.equipment = id := by
  have released := (Reprioritisation.isDueAt_iff.mp (List.mem_filter.mp due).2).1
  exact (Call.taskReleased.inj released).symm

theorem Watching.setOff (watching : run.Watching wishes) (id : EquipmentId) :
    run.setOff id = (dueAt wishes id).map Reprioritisation.action := by
  rw [dueAt, Run.setOff, watching.selections, List.filterMap_filter, List.filterMap_map,
    ← List.filterMap_eq_map, List.filterMap_filter]
  refine List.filterMap_congr fun wish _ => ?_
  simp only [Function.comp_apply, firesFor, Reprioritisation.watch, Reprioritisation.isDueAt,
    Reprioritisation.releases, Bool.and_eq_true, beq_iff_eq, eq_comm (a := id)]
  by_cases own : wish.equipment = id ∧ wish.isTakenUp = true
  · cases done : wish.isDone <;> simp [own]
  · simp [own]

theorem applyAll_moves {site : Site} (has : site.HasEquipment id)
    (own : ∀ wish ∈ wishes, wish.equipment = id) :
    (site.applyAll (wishes.map Reprioritisation.action)).2 = .ok () := by
  have valid : ∀ action ∈ wishes.map Reprioritisation.action,
      action.Valid (fun _ => False) site := by
    intro action member
    obtain ⟨wish, inside, rfl⟩ := List.mem_map.mp member
    obtain rfl := own wish inside
    exact has
  exact Site.applyAll_succeeds valid fun _ => False.elim

theorem path?_moves {site : Site} (own : ∀ wish ∈ wishes, wish.equipment = id)
    (other : EquipmentId) :
    (site.applyEach (wishes.map Reprioritisation.action)).path? other =
      if other = id then
        (site.path? other).map (·.fronted wishes)
      else site.path? other := by
  induction wishes generalizing site with
  | nil => simp [Site.applyEach, Path.fronted]
  | cons wish rest ih =>
      obtain rfl := own wish List.mem_cons_self
      have later := fun wish member => own wish (List.mem_cons_of_mem _ member)
      rw [List.map_cons, Site.applyEach, List.foldl_cons]
      refine (ih later).trans ?_
      rw [Reprioritisation.action, Site.apply, Site.path?_editPath]
      split
      · rw [Option.map_map]
        rfl
      · rfl

theorem Watching.not_due (watching : run.Watching wishes) {call : Call}
    (unheard : ∀ id, call = .taskReleased id → ¬ run.site.HasEquipment id) :
    wishes.filter (·.isDueAt call) = [] := by
  rw [List.filter_eq_nil_iff]
  intro wish member due
  obtain ⟨released, -⟩ := Reprioritisation.isDueAt_iff.mp due
  exact unheard _ released (watching.known wish member)

structure Reprioritised (run : Run) (wishes : List Reprioritisation) (call : Call) : Prop where
  due : ∀ wish ∈ wishes, wish.isDueAt call = true ↔
    call = .taskReleased wish.equipment ∧
      (∃ element ∈ wish.elements, ∃ task,
        .taskSelected wish.equipment element task ∈ wish.since) ∧
        ¬ ∃ before after, wish.since = before ++ .taskReleased wish.equipment :: after ∧
          ∃ element ∈ wish.elements, ∃ task,
            .taskSelected wish.equipment element task ∈ before
  moves : ((run.firings call).map (·.action)).filter Action.isMove =
    (wishes.filter (·.isDueAt call)).map Reprioritisation.action
  traced : ∀ id path, run.site.path? id = some path →
    ∃ after, (run.perform call).1.site.path? id = some after ∧
      Traced id path (run.firings call) after
  released : ∀ id path, call = .taskReleased id → run.site.path? id = some path →
    (run.perform call).2 = .ok () ∧
      ∃ after, (run.perform call).1.site.path? id = some after ∧ after.nextId = path.nextId ∧
        after.elements =
          (wishes.filter (·.isDueAt call)).foldl (fun elements wish => wish.fronted elements)
            path.elements ∧
        ∀ last ∈ (wishes.filter (·.isDueAt call)).getLast?,
          ∃ front behind, after.elements = front ++ behind ∧
            (∀ element ∈ front, element.id ∈ last.elements) ∧
              ∀ element ∈ behind, element.id ∉ last.elements
  others : ∀ id other, call = .taskReleased id → other ≠ id →
    (run.perform call).1.site.path? other = run.site.path? other

theorem moves_actions (wishes : List Reprioritisation) :
    (wishes.map Reprioritisation.action).filter Action.isMove =
      wishes.map Reprioritisation.action := by
  rw [List.filter_eq_self]
  intro action member
  obtain ⟨wish, -, rfl⟩ := List.mem_map.mp member
  rfl

theorem Watching.release (watching : run.Watching wishes) (has : run.site.HasEquipment id) :
    (run.perform (.taskReleased id)).2 = .ok () ∧
      (run.firings (.taskReleased id)).map (·.action) =
        (dueAt wishes id).map Reprioritisation.action ∧
        ∀ other, (run.perform (.taskReleased id)).1.site.path? other =
          if other = id then
            (run.site.path? other).map (·.fronted (dueAt wishes id))
          else run.site.path? other := by
  obtain ⟨next, changed⟩ := changeEquipment_ok has fun worker => { worker with active := none }
  have there := (grows_changeEquipment changed).hasEquipment has
  have own : ∀ wish ∈ dueAt wishes id, wish.equipment = id := fun _ => equipment_of_due
  have sets : next.setOff id = (dueAt wishes id).map Reprioritisation.action := by
    rw [Run.setOff, selections_changeEquipment changed]
    exact watching.setOff id
  have succeeds := applyAll_moves there own
  have all := (Site.applyAll_ok (Prod.ext rfl succeeds)).2
  have performs : run.perform (.taskReleased id) =
      ({ next with
          site := (next.site.applyAll (next.setOff id)).1
          selections := next.selections.map (disarm id) },
        (next.site.applyAll (next.setOff id)).2) := by
    rw [Run.perform, taskReleased, changed]
    rfl
  refine ⟨?_, ?_, fun other => ?_⟩
  · rw [performs, sets]
    exact succeeds
  · rw [Run.firings, changed]
    dsimp only
    rw [Site.firings_actions, sets, all]
  · rw [performs]
    dsimp only
    rw [sets, Site.applyAll_site, all, path?_moves own, path?_changeEquipment changed]

theorem perform_release_unknown (missing : ¬ run.site.HasEquipment id) :
    (run.perform (.taskReleased id)).1 = run ∧ run.firings (.taskReleased id) = [] := by
  cases changed : run.changeEquipment id fun worker => { worker with active := none } with
  | error error =>
      constructor
      · rw [perform, taskReleased, changed]
      · rw [Run.firings, changed]
  | ok next => exact absurd (hasEquipment_of_changed changed) missing

theorem Watching.reprioritised (watching : run.Watching wishes) (indexed : run.WatchIndexed)
    (call : Call) : run.Reprioritised wishes call where
  due wish _ := Reprioritisation.isDueAt_iff
  moves := by
    by_cases release : ∃ id, call = .taskReleased id
    · obtain ⟨id, rfl⟩ := release
      by_cases has : run.site.HasEquipment id
      · obtain ⟨-, fires, -⟩ := watching.release has
        rw [fires, moves_actions]
        rfl
      · rw [(perform_release_unknown has).2, watching.not_due fun _ same =>
          Call.taskReleased.inj same ▸ has]
        rfl
    · rw [not_exists] at release
      rw [watching.still.firings indexed release,
        watching.not_due fun id same => absurd same (release id)]
      rfl
  traced := by
    intro id path here
    obtain ⟨after, there, traced⟩ := perform_traced .start here call
    exact ⟨after, there, traced⟩
  released := by
    rintro id path rfl here
    obtain ⟨succeeds, -, paths⟩ := watching.release (Site.hasEquipment_of_path? here)
    have there : (run.perform (.taskReleased id)).1.site.path? id =
        some (path.fronted (dueAt wishes id)) := by
      rw [paths id, if_pos rfl, here]
      rfl
    exact ⟨succeeds, _, there, path.nextId_fronted _, path.elements_fronted _,
      path.foremost_fronted _⟩
  others := by
    rintro id other rfl apart
    by_cases has : run.site.HasEquipment id
    · obtain ⟨-, -, paths⟩ := watching.release has
      rw [paths other, if_neg apart]
    · rw [(perform_release_unknown has).1]

/-- Reprioritisations act once, after any calls of a run that is built and at any further one. -/
theorem reprioritises_once {config : Config} {scenario : Scenario} {library : ScheduleLibrary}
    {compiles : Bool} (built : build config scenario library compiles = .ok first)
    (calls : List Call) (call : Call) :
    (first.performAll calls).Reprioritised (first.wishesIn calls) call := by
  have orderly := orderly_of_reaches built (Reaches.start.performAll calls)
  exact (watching_performAll built calls).reprioritised orderly.watches.indexed call

end Run

namespace Quarry

def reorderScenario : Scenario :=
  { scenario with
    equipment :=
      [{ name := "Loader"
         pathText := "Hole\nShot '!reprioritise\nFace '!reprioritise"
         path := ((Path.push {} 1 (.steps [{ source := drilled }])).push 2
           (.steps [{ source := blasted }])).push 3 (.steps [{ source := loaded }]) }] }

def reorder : Run := Run.start config reorderScenario {}

def reorderCalls : List Run.Call :=
  [.parsePath loader, .taskReleased loader, .taskSelected loader ⟨2⟩ loaded,
    .taskSelected loader ⟨1⟩ blasted, .taskCompleted blasted (moment 2 0)]

theorem reorder_reprioritises :
    Run.build config reorderScenario {} false = .ok reorder ∧
      ((reorder.performAll reorderCalls).site.path? loader).map Path.ids = some [⟨0⟩, ⟨1⟩, ⟨2⟩] ∧
        ((reorder.performAll (reorderCalls ++ [.taskReleased loader])).site.path? loader).map
            Path.ids = some [⟨2⟩, ⟨1⟩, ⟨0⟩] ∧
          (reorder.performAll reorderCalls).Reprioritised (reorder.wishesIn reorderCalls)
            (.taskReleased loader) := by
  have built : Run.build config reorderScenario {} false = .ok reorder := rfl
  exact ⟨built, by decide +kernel, by decide +kernel, Run.reprioritises_once built _ _⟩

end Quarry

end PathDirectives
