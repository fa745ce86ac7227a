import PathDirectives.Proofs.Firings
import PathDirectives.Proofs.PathEdits

/-!
The paths of a run over its whole history. No element is lost but by a removal that its own line
has asked for, none comes back, none is there twice, and two that a run has begun with change places
only by a reprioritisation of one of them.
-/

namespace PathDirectives

open Calendar

def Site.HasElement (site : Site) (id : EquipmentId) (element : Element) : Prop :=
  ∃ path, site.path? id = some path ∧ element ∈ path.elements

theorem Site.hasElement_iff {site : Site} {id : EquipmentId} {element : Element} {path : Path}
    (here : site.path? id = some path) : site.HasElement id element ↔ element ∈ path.elements := by
  constructor
  · rintro ⟨other, found, member⟩
    obtain rfl := Option.some.inj (here.symm.trans found)
    exact member
  · exact fun member => ⟨path, here, member⟩

namespace Firing

def next (firing : Firing) : Site := (firing.site.apply firing.action).1

def Puts (id : EquipmentId) (element : Element) (firing : Firing) : Prop :=
  ¬ firing.site.HasElement id element ∧ firing.next.HasElement id element

def Takes (id : EquipmentId) (element : Element) (firing : Firing) : Prop :=
  firing.site.HasElement id element ∧ ¬ firing.next.HasElement id element

end Firing

/-- Firings, one after the other, have made one path of another. -/
inductive Traced (id : EquipmentId) (start : Path) : List Firing → Path → Prop where
  | start : Traced id start [] start
  | fired {firings : List Firing} {firing : Firing} {path after : Path}
      (before : Traced id start firings path) (here : firing.site.path? id = some path)
      (there : firing.next.path? id = some after) : Traced id start (firings ++ [firing]) after

namespace Traced

variable {id : EquipmentId} {start path : Path} {firings : List Firing}
  {first second element : Element}

theorem apply {site : Site} {action : Action} {after : Path}
    (before : Traced id start firings path) (here : site.path? id = some path)
    (there : (site.apply action).1.path? id = some after) :
    Traced id start (firings ++ [⟨site, action⟩]) after :=
  .fired before here there

theorem edits {firing : Firing} {path after : Path} (here : firing.site.path? id = some path)
    (there : firing.next.path? id = some after) : firing.action.Edits id path after := by
  obtain ⟨other, found, edits⟩ := firing.site.apply_edits firing.action here
  obtain rfl := Option.some.inj (there.symm.trans found)
  exact edits

theorem sound (traced : Traced id start firings path) (sound : start.Sound) : path.Sound := by
  induction traced with
  | start => exact sound
  | fired _ here there ih => exact (edits here there).sound ih

theorem nextId_le (traced : Traced id start firings path) : start.nextId ≤ path.nextId := by
  induction traced with
  | start => exact Nat.le_refl _
  | fired _ here there ih => exact Nat.le_trans ih (edits here there).nextId_le

theorem old_or_new (traced : Traced id start firings path) (sound : start.Sound)
    (member : element ∈ path.elements) :
    element ∈ start.elements ∨ start.nextId ≤ element.id.index := by
  induction traced with
  | start => exact .inl member
  | fired before here there ih =>
      rcases (edits here there).old_or_new (before.sound sound) member with kept | ⟨fresh, -⟩
      · exact ih kept
      · exact .inr (Nat.le_trans before.nextId_le fresh)

theorem id_stays_off (traced : Traced id start firings path) (sound : start.Sound)
    {gone : ElementId} (handed_out : gone.index < start.nextId) (off : gone ∉ start.ids) :
    gone ∉ path.ids := by
  intro back
  obtain ⟨element, member, rfl⟩ := List.mem_map.mp back
  rcases traced.old_or_new sound member with old | fresh
  · exact off (List.mem_map_of_mem old)
  · exact Nat.lt_irrefl _ (Nat.lt_of_lt_of_le handed_out fresh)

theorem missing (traced : Traced id start firings path) (sound : start.Sound)
    (member : element ∈ start.elements) (gone : element ∉ path.elements) :
    ∃ firing ∈ firings, ∃ elements, firing.action = .removeElements id elements ∧
      element.id ∈ elements ∧ firing.Takes id element := by
  induction traced with
  | start => exact absurd member gone
  | @fired firings firing path after before here there ih =>
      by_cases still : element ∈ path.elements
      · obtain ⟨elements, removes, listed⟩ :=
          (edits here there).lost (before.sound sound) still gone
        refine ⟨firing, by simp, elements, removes, listed, ?_, ?_⟩
        · exact (Site.hasElement_iff here).mpr still
        · exact mt (Site.hasElement_iff there).mp gone
      · obtain ⟨earlier, inside, rest⟩ := ih still
        exact ⟨earlier, List.mem_append_left _ inside, rest⟩

theorem ordered (traced : Traced id start firings path) (sound : start.Sound)
    (ordered : [first, second].Sublist start.elements) (here : first ∈ path.elements)
    (there : second ∈ path.elements) :
    [first, second].Sublist path.elements ∨
      ∃ firing ∈ firings, ∃ elements, firing.action = .moveToFront id elements ∧
        (first.id ∈ elements ↔ second.id ∉ elements) := by
  induction traced with
  | start => exact .inl ordered
  | @fired firings firing path after before found reached ih =>
      have step := edits found reached
      have old (element : Element) (began : element ∈ start.elements)
          (member : element ∈ after.elements) : element ∈ path.elements := by
        rcases step.old_or_new (before.sound sound) member with kept | ⟨fresh, -⟩
        · exact kept
        · have below := Nat.lt_of_lt_of_le (sound.below element began) before.nextId_le
          exact absurd fresh (Nat.not_le.mpr below)
      have first_old := old first (ordered.subset (by simp)) here
      have second_old := old second (ordered.subset (by simp)) there
      rcases ih first_old second_old with kept | ⟨earlier, inside, rest⟩
      · rcases step.ordered (before.sound sound) kept here there with still | moved
        · exact .inl still
        · exact .inr ⟨firing, by simp, moved⟩
      · exact .inr ⟨earlier, List.mem_append_left _ inside, rest⟩

theorem below_of_puts (traced : Traced id start firings path) (sound : start.Sound) :
    ∀ firing ∈ firings, firing.Puts id element → element.id.index < path.nextId := by
  induction traced with
  | start => simp
  | @fired firings firing path after before here there ih =>
      have step := edits here there
      intro other member puts
      rcases List.mem_append.mp member with earlier | own
      · exact Nat.lt_of_lt_of_le (ih other earlier puts) step.nextId_le
      · obtain rfl := List.mem_singleton.mp own
        have inside := (Site.hasElement_iff there).mp puts.2
        exact (step.sound (before.sound sound)).below element inside

theorem put_once (traced : Traced id start firings path) (sound : start.Sound)
    (member : element ∈ path.elements) (new : element ∉ start.elements) :
    ∃ front firing behind, firings = front ++ firing :: behind ∧ firing.Puts id element ∧
      (∀ other ∈ front ++ behind, ¬ other.Puts id element) ∧
        firing.action.adds? = some (id, element.line) := by
  induction traced with
  | start => exact absurd member new
  | @fired firings firing path after before here there ih =>
      have step := edits here there
      by_cases old : element ∈ path.elements
      · obtain ⟨front, earlier, behind, rfl, puts, once, owns⟩ := ih old
        refine ⟨front, earlier, behind ++ [firing], by simp, puts, ?_, owns⟩
        intro other inside
        rw [← List.append_assoc, List.mem_append, List.mem_singleton] at inside
        rcases inside with among | rfl
        · exact once other among
        · exact fun puts => puts.1 ((Site.hasElement_iff here).mpr old)
      · rcases step.old_or_new (before.sound sound) member with kept | ⟨fresh, owns⟩
        · exact absurd kept old
        · refine ⟨firings, firing, [], rfl, ⟨?_, (Site.hasElement_iff there).mpr member⟩, ?_, owns⟩
          · exact mt (Site.hasElement_iff here).mp old
          · rw [List.append_nil]
            intro other inside puts
            have handed_out := before.below_of_puts sound other inside puts
            exact Nat.not_le.mpr handed_out fresh

end Traced

/-! ### Calls -/

namespace Run

variable {run next first : Run} {id : EquipmentId} {start path : Path} {firings : List Firing}

theorem traced_applyEach {site : Site} (traced : Traced id start firings path)
    (here : site.path? id = some path) (actions : List Action) :
    ∃ after, (site.applyEach actions).path? id = some after ∧
      Traced id start (firings ++ site.firings actions) after := by
  induction actions generalizing site firings path with
  | nil => exact ⟨path, here, by simpa [Site.firings] using traced⟩
  | cons action rest ih =>
      obtain ⟨middle, there, -⟩ := site.apply_edits action here
      obtain ⟨after, reached, whole⟩ := ih (traced.apply here there) there
      refine ⟨after, reached, ?_⟩
      rw [List.append_assoc] at whole
      exact whole

theorem path?_registerAll (run : Run) (registrations : List Registration) :
    (registrations.foldl register run).site.path? id = run.site.path? id := by
  have same : (registrations.foldl register run).site.scenario = run.site.scenario :=
    run.registerAll_scenario registrations
  rw [Site.path?, Site.path?, same]

theorem path?_changeEquipment {owner : EquipmentId} {active : Option ActiveWork}
    (changed : run.changeEquipment owner (fun worker => { worker with active }) = .ok next) :
    next.site.path? id = run.site.path? id := by
  obtain rfl := eq_of_changeEquipment changed
  simp only [Site.path?, Scenario.equipment?_modifyEquipment]
  split
  · rw [Option.map_map]
    rfl
  · rfl

theorem traced_scheduleAll (traced : Traced id start firings path)
    (here : run.site.path? id = some path) {effects : List Effect}
    (scheduled : run.scheduleAll effects = (next, .ok ())) :
    ∃ after, next.site.path? id = some after ∧
      Traced id start (firings ++ run.immediate effects) after := by
  induction effects generalizing run firings path with
  | nil =>
      simp only [scheduleAll, Prod.mk.injEq, and_true] at scheduled
      subst scheduled
      exact ⟨path, here, by simpa [immediate] using traced⟩
  | cons effect rest ih =>
      rw [scheduleAll] at scheduled
      split at scheduled
      · rename_i middle first
        cases effect with
        | now action =>
            obtain ⟨edited, there, -⟩ := run.site.apply_edits action here
            obtain rfl : (run.schedule (.now action)).1 = middle := congrArg Prod.fst first
            obtain ⟨after, reached, whole⟩ := ih (traced.apply here there) there scheduled
            refine ⟨after, reached, ?_⟩
            rw [List.append_assoc] at whole
            exact whole
        | onDate date action | onSelection owner elements action =>
            obtain rfl : (run.schedule _).1 = middle := congrArg Prod.fst first
            exact ih traced here scheduled
        | onCompletion tasks delay action =>
            obtain rfl : (run.schedule (.onCompletion tasks delay action)).1 = middle :=
              congrArg Prod.fst first
            refine ih traced ?_ scheduled
            simp only [schedule]
            split <;> exact here
      · simp at scheduled

theorem perform_traced (traced : Traced id start firings path)
    (here : run.site.path? id = some path) (call : Call) :
    ∃ after, (run.perform call).1.site.path? id = some after ∧
      Traced id start (firings ++ run.firings call) after := by
  cases run.turn call with
  | kept performs _ fires =>
      rw [performs, fires, List.append_nil]
      exact ⟨path, here, traced⟩
  | @installed _ _ reading _ _ _ committed performs _ fires =>
      have registered := (run.path?_registerAll reading.outcome.registrations).trans here
      obtain ⟨after, reached, whole⟩ := traced_scheduleAll traced registered committed
      rw [performs, fires]
      exact ⟨after, reached, whole⟩
  | @completed graph task date performs _ fires =>
      have entered : (run.enter graph task date).site.path? id = some path := here
      rw [performs, fires, advanceTo_site]
      exact traced_applyEach traced entered _
  | selected changed performs _ fires =>
      rw [performs, fires, List.append_nil]
      exact ⟨path, (path?_changeEquipment changed).trans here, traced⟩
  | released changed performs _ fires =>
      rw [performs, fires]
      exact traced_applyEach traced ((path?_changeEquipment changed).trans here) _
  | advanced performs _ fires =>
      rw [performs, fires, advanceTo_site]
      exact traced_applyEach traced here _

theorem History.traced {requests : List Request} (history : first.History run requests firings)
    (began : first.site.path? id = some start) :
    ∃ path, run.site.path? id = some path ∧ Traced id start firings path := by
  induction history with
  | start => exact ⟨start, began, .start⟩
  | call _ call ih =>
      obtain ⟨path, here, traced⟩ := ih
      exact perform_traced traced here call
  | finishSetup _ ih =>
      unfold Run.finishSetup
      split <;> exact ih

end Run

/-- An action on a path is one that the directive can ask for: of its own kind, on its own
equipment, and with the elements or the number of its own line. -/
def Action.AskedBy (id : EquipmentId) (line : WalkedLine) (kind : DirectiveKind) : Action → Prop
  | .removeElements owner elements =>
      owner = id ∧ kind = .remove ∧ elements = line.scope.elements
  | .moveToFront owner elements =>
      owner = id ∧ kind = .reprioritise ∧ elements = line.scope.elements
  | .insertIdle owner number _ _ => owner = id ∧ kind = .deadhead ∧ number = line.number
  | .forceComplete owner number _ _ => owner = id ∧ kind = .forceComplete ∧ number = line.number
  | .insertSteps owner number _ _ =>
      owner = id ∧ kind = .injectSchedulePath ∧ number = line.number
  | _ => True

theorem Action.isOnPath_of_adds {action : Action} {id : EquipmentId} {line : Nat}
    (owns : action.adds? = some (id, line)) : action.isOnPath = true := by
  cases action with
  | insertIdle | forceComplete | insertSteps => rfl
  | _ => simp [adds?] at owns

theorem Action.AskedBy.of_adds {action : Action} {id owner : EquipmentId} {line : WalkedLine}
    {number : Nat} {kind : DirectiveKind} (asked : action.AskedBy id line kind)
    (owns : action.adds? = some (owner, number)) :
    owner = id ∧ line.number = number ∧
      kind ∈ [DirectiveKind.deadhead, .forceComplete, .injectSchedulePath] := by
  cases action with
  | insertIdle | forceComplete | insertSteps =>
      obtain ⟨rfl, rfl⟩ := Prod.mk.inj (Option.some.inj owns)
      obtain ⟨rfl, rfl, rfl⟩ := asked
      simp
  | _ => simp [adds?] at owns

theorem Interpreter.interpret_asks {interpreter : Interpreter} {line : WalkedLine}
    {directive : Directive} {part : LineOutcome}
    (interpreted : interpreter.interpret line directive = .ok part) :
    ∀ effect ∈ part.effects, effect.action.AskedBy interpreter.id line directive.kind := by
  intro effect member
  cases (interpret_all interpreted).effects effect member with
  | dependFree | dependOn | dependClear => trivial
  | _ => exact ⟨rfl, rfl, rfl⟩

def Action.isPrompt : Action → Bool
  | .addDependencies .. | .insertSteps .. => true
  | _ => false

def Action.isMove : Action → Bool
  | .moveToFront .. => true
  | _ => false

theorem Action.isMove_of_isPrompt {action : Action} (prompt : action.isPrompt = true) :
    action.isMove = false := by
  cases action with
  | addDependencies | insertSteps => rfl
  | _ => simp [isPrompt] at prompt

/-- What an effect waits for goes with its action: edges and steps are added at once, elements are
moved by a selection, and everything else is done later. -/
def Effect.Timely : Effect → Prop
  | .now action => action.isPrompt = true
  | .onSelection id elements action => action = .moveToFront id elements
  | .onDate _ action | .onCompletion _ _ action => action.isPrompt = false ∧ action.isMove = false

theorem Interpreter.interpret_timely {interpreter : Interpreter} {line : WalkedLine}
    {directive : Directive} {part : LineOutcome}
    (interpreted : interpreter.interpret line directive = .ok part) :
    ∀ effect ∈ part.effects, effect.Timely := by
  intro effect member
  cases (interpret_all interpreted).effects effect member with
  | dependFree | dependOn | reprioritise | injectSchedulePath => rfl
  | _ => exact ⟨rfl, rfl⟩

/-- A request is one of its directive, on elements that its path began with or got since. -/
structure Request.Sound (first : Run) (request : Request) : Prop where
  asks : request.effect.action.AskedBy request.equipment request.line request.directive.kind
  own_line : ∀ element ∈ request.line.elements, element.line = request.line.number
  old_or_new : ∀ start, first.site.path? request.equipment = some start → start.Sound →
    ∀ element ∈ request.line.elements,
      element ∈ start.elements ∨ start.nextId ≤ element.id.index

namespace Run

variable {run first : Run} {id : EquipmentId} {start path : Path} {firings : List Firing}

theorem mem_requestsOn {equipment : Equipment} {graph : TaskGraph} {reads : List ReadDirective}
    {request : Request} (member : request ∈ run.requestsOn id equipment graph reads) :
    request.equipment = id ∧ (request.line, request.directive) ∈ reads ∧
      request.effect.action.AskedBy id request.line request.directive.kind := by
  induction reads generalizing graph with
  | nil => simp [requestsOn] at member
  | cons read rest ih =>
      rw [requestsOn, List.mem_append] at member
      rcases member with own | later
      · split at own
        · rename_i part interpreted
          obtain ⟨effect, inside, rfl⟩ := List.mem_map.mp own
          exact ⟨rfl, List.mem_cons_self, Interpreter.interpret_asks interpreted effect inside⟩
        · simp at own
      · obtain ⟨own, inside, asks⟩ := ih later
        exact ⟨own, List.mem_cons_of_mem _ inside, asks⟩

theorem path?_of_equipmentOf {equipment : Equipment}
    (found : run.scenario.equipmentOf id = .ok equipment) :
    run.site.path? id = some equipment.path := by
  have stored : run.site.scenario.equipment? id = some equipment := equipment?_of_equipmentOf found
  rw [Site.path?, stored]
  rfl

theorem History.requests_sound {requests : List Request}
    (history : first.History run requests firings) :
    ∀ request ∈ requests, request.Sound first := by
  induction history with
  | start => simp
  | @call run requests firings before call ih =>
      intro request member
      rcases List.mem_append.mp member with earlier | own
      · exact ih request earlier
      · cases run.turn call with
        | @installed id equipment reading next found read committed performs asks fires =>
            rw [asks] at own
            obtain ⟨reports, parts, reported, lines, -⟩ := readLines_reads read
            simp only [List.nil_append] at reported
            subst reported
            obtain ⟨rfl, inside, asks⟩ := mem_requestsOn own
            obtain ⟨report, among, read⟩ := List.mem_flatMap.mp inside
            obtain ⟨directive, -, same⟩ := List.mem_map.mp read
            have onLine : report.line = request.line := congrArg Prod.fst same
            have walked : request.line ∈ walk equipment.pathText equipment.path.elements := by
              rw [← lines, ← onLine]
              exact List.mem_map_of_mem among
            refine ⟨asks, line_eq_number walked, ?_⟩
            intro start began sound element member
            obtain ⟨path, here, traced⟩ := before.traced began
            obtain rfl := Option.some.inj ((path?_of_equipmentOf found).symm.trans here)
            exact traced.old_or_new sound (mem_walkFrom walked element member)
        | kept _ asks _ | completed _ asks _ | selected _ _ asks _ | released _ _ asks _
        | advanced _ asks _ => simp [asks] at own
  | finishSetup _ ih => exact ih

section Built

variable {Good : Path → Prop} (pushed : ∀ path : Path, path.IdsInTurn → Good path)

include pushed

theorem compileEquipment_path {scenario : Scenario} {equipment compiled : Equipment}
    (good : Good equipment.path) (done : compileEquipment scenario equipment = .ok compiled) :
    Good compiled.path := by
  unfold compileEquipment at done
  split at done
  · obtain ⟨path, compiles, rfl⟩ := map_eq_ok.mp done
    have none_yet : Path.IdsInTurn {} := rfl
    exact pushed _ (idsInTurn_compileFrom none_yet compiles)
  · exact Except.ok.inj done ▸ good

theorem paths_of_build {config : Config} {scenario : Scenario} {library : ScheduleLibrary}
    {compiles : Bool} (built : build config scenario library compiles = .ok first)
    (placed : ∀ equipment ∈ scenario.equipment, Good equipment.path) :
    ∀ equipment ∈ first.scenario.equipment, Good equipment.path := by
  unfold build at built
  split at built
  · simp at built
  · split at built
    · split at built
      · simp at built
      · rename_i compiled done
        obtain rfl := Except.ok.inj built
        obtain ⟨others, each, rfl⟩ := map_eq_ok.mp done
        intro after member
        obtain ⟨before, inside, own⟩ := mem_of_mapM_ok each after member
        exact compileEquipment_path pushed (placed before inside) own
    · obtain rfl := Except.ok.inj built
      exact placed

end Built

theorem idsInTurn_of_build {config : Config} {scenario : Scenario} {library : ScheduleLibrary}
    {compiles : Bool} (built : build config scenario library compiles = .ok first)
    (placed : ∀ equipment ∈ scenario.equipment, equipment.path.IdsInTurn) :
    ∀ equipment ∈ first.scenario.equipment, equipment.path.IdsInTurn :=
  paths_of_build (fun _ inTurn => inTurn) built placed

theorem start_sound (inTurn : ∀ equipment ∈ first.scenario.equipment, equipment.path.IdsInTurn)
    (began : first.site.path? id = some start) : start.Sound := by
  obtain ⟨equipment, found, rfl⟩ := Option.map_eq_some_iff.mp began
  exact (inTurn equipment (List.mem_of_getElem? found)).sound

theorem exists_start (reaches : first.Reaches run) (here : run.site.path? id = some path) :
    ∃ start, first.site.path? id = some start := by
  have has : id.index < first.scenario.equipment.length :=
    reaches.grows.equipment ▸ Site.hasEquipment_of_path? here
  have held : first.site.scenario.equipment? id = some first.scenario.equipment[id.index] :=
    List.getElem?_eq_getElem has
  exact ⟨_, congrArg (Option.map fun equipment : Equipment => equipment.path) held⟩

/-! ### The paths of a reached run -/

/-- A directive of a kind on a line of a path has asked for an action. -/
def HasAsked (requests : List Request) (id : EquipmentId) (line : Nat) (kind : DirectiveKind)
    (action : Action) : Prop :=
  ∃ request ∈ requests, request.equipment = id ∧ request.line.number = line ∧
    request.directive.kind = kind ∧ request.effect.action = action

structure PathKept (first run : Run) (requests : List Request) (firings : List Firing)
    (id : EquipmentId) (start path : Path) : Prop where
  distinct : path.ids.Nodup
  below : ∀ element ∈ path.elements, element.id.index < path.nextId
  gone : ∀ earlier later before after, first.Reaches earlier → earlier.Reaches run →
    run.Reaches later → earlier.site.path? id = some before → later.site.path? id = some after →
      ∀ gone ∈ before.ids, gone ∉ path.ids → gone ∉ after.ids
  missing : ∀ element ∈ start.elements, element ∉ path.elements →
    ∃ firing ∈ firings, ∃ elements, firing.action = .removeElements id elements ∧
      element.id ∈ elements ∧ firing.Takes id element ∧
        HasAsked requests id element.line .remove firing.action
  swapped : ∀ first second, [first, second].Sublist start.elements →
    [second, first].Sublist path.elements →
      ∃ firing ∈ firings, ∃ elements, firing.action = .moveToFront id elements ∧
        (first.id ∈ elements ↔ second.id ∉ elements) ∧
          ∃ line ∈ [first.line, second.line],
            HasAsked requests id line .reprioritise firing.action
  added : ∀ element ∈ path.elements, element ∉ start.elements →
    ∃ front firing behind, firings = front ++ firing :: behind ∧ firing.Puts id element ∧
      (∀ other ∈ front ++ behind, ¬ other.Puts id element) ∧
        ∃ kind ∈ [DirectiveKind.deadhead, .forceComplete, .injectSchedulePath],
          HasAsked requests id element.line kind firing.action

theorem requested_of_fired {requests : List Request} {firing : Firing}
    (once : ((firings.map (·.action)).filter Action.isOnPath).Subperm
      ((requests.map (·.effect.action)).filter Action.isOnPath))
    (fired : firing ∈ firings) (onPath : firing.action.isOnPath = true) :
    ∃ request ∈ requests, request.effect.action = firing.action := by
  have member : firing.action ∈ (firings.map (·.action)).filter Action.isOnPath :=
    List.mem_filter.mpr ⟨List.mem_map_of_mem fired, onPath⟩
  exact List.mem_map.mp (List.mem_filter.mp (once.subset member)).1

theorem line_of_listed {request : Request} (sound : request.Sound first)
    (began : first.site.path? request.equipment = some start) (startSound : start.Sound)
    {element : Element} (member : element ∈ start.elements)
    (listed : element.id ∈ request.line.scope.elements) : request.line.number = element.line := by
  obtain ⟨other, inside, same⟩ := List.mem_map.mp listed
  rcases sound.old_or_new start began startSound other inside with old | fresh
  · obtain rfl := startSound.eq_of_id old member same
    exact (sound.own_line other inside).symm
  · rw [same] at fresh
    exact absurd (startSound.below element member) (Nat.not_lt.mpr fresh)

theorem History.pathKept {requests : List Request} (history : first.History run requests firings)
    (once : ((firings.map (·.action)).filter Action.isOnPath).Subperm
      ((requests.map (·.effect.action)).filter Action.isOnPath))
    (began : first.site.path? id = some start) (sound : start.Sound)
    (here : run.site.path? id = some path) :
    PathKept first run requests firings id start path := by
  obtain ⟨other, found, traced⟩ := history.traced began
  obtain rfl := Option.some.inj (found.symm.trans here)
  have now := traced.sound sound
  refine ⟨now.distinct, now.below, ?_, ?_, ?_, ?_⟩
  · intro earlier later before after toEarlier fromEarlier toLater was is gone member off
    obtain ⟨_, _, past⟩ := exists_history_iff.mpr toEarlier
    obtain ⟨_, _, since⟩ := exists_history_iff.mpr fromEarlier
    obtain ⟨_, _, onward⟩ := exists_history_iff.mpr toLater
    obtain ⟨_, same, begins⟩ := past.traced began
    obtain rfl := Option.some.inj (same.symm.trans was)
    obtain ⟨_, same, grows⟩ := since.traced was
    obtain rfl := Option.some.inj (same.symm.trans found)
    obtain ⟨_, same, ends⟩ := onward.traced found
    obtain rfl := Option.some.inj (same.symm.trans is)
    obtain ⟨element, inside, rfl⟩ := List.mem_map.mp member
    have handed_out := (begins.sound sound).below element inside
    exact ends.id_stays_off now (Nat.lt_of_lt_of_le handed_out grows.nextId_le) off
  · intro element member lost
    obtain ⟨firing, fired, elements, removes, listed, takes⟩ := traced.missing sound member lost
    obtain ⟨request, asked, same⟩ := requested_of_fired once fired (by rw [removes]; rfl)
    have known := history.requests_sound request asked
    have asks := known.asks
    rw [same, removes] at asks
    obtain ⟨own, kind, rfl⟩ := asks
    subst own
    have line := line_of_listed known began sound member listed
    exact ⟨firing, fired, _, removes, listed, takes, request, asked, rfl, line, kind, same⟩
  · intro front back ordered swapped
    have back_here := swapped.subset (by simp : back ∈ [back, front])
    have front_here := swapped.subset (by simp : front ∈ [back, front])
    rcases traced.ordered sound ordered front_here back_here with
      kept | ⟨firing, fired, elements, moves, one⟩
    · exact absurd swapped (not_pair_of_pair now.nodup kept)
    · obtain ⟨request, asked, same⟩ := requested_of_fired once fired (by rw [moves]; rfl)
      have known := history.requests_sound request asked
      have asks := known.asks
      rw [same, moves] at asks
      obtain ⟨own, kind, rfl⟩ := asks
      subst own
      have asked_on (element : Element) (member : element ∈ start.elements)
          (listed : element.id ∈ request.line.scope.elements) :
          HasAsked requests request.equipment element.line .reprioritise firing.action :=
        ⟨request, asked, rfl, line_of_listed known began sound member listed, kind, same⟩
      refine ⟨firing, fired, _, moves, one, ?_⟩
      by_cases moved : front.id ∈ request.line.scope.elements
      · exact ⟨front.line, by simp, asked_on front (ordered.subset (by simp)) moved⟩
      · have other := not_not.mp (mt one.mpr moved)
        exact ⟨back.line, by simp, asked_on back (ordered.subset (by simp)) other⟩
  · intro element member new
    obtain ⟨front, firing, behind, rfl, puts, alone, owns⟩ := traced.put_once sound member new
    have onPath := Action.isOnPath_of_adds owns
    obtain ⟨request, asked, same⟩ := requested_of_fired once (by simp) onPath
    have asks := (history.requests_sound request asked).asks
    rw [same] at asks
    obtain ⟨own, line, kind⟩ := Action.AskedBy.of_adds asks owns
    exact ⟨front, firing, behind, rfl, puts, alone, _, kind,
      request, asked, own.symm, line, rfl, same⟩

structure Kept (first run : Run) (requests : List Request) (firings : List Firing) : Prop where
  once : ((firings.map (·.action)).filter Action.isOnPath).Subperm
    ((requests.map (·.effect.action)).filter Action.isOnPath)
  paths : ∀ id path, run.site.path? id = some path →
    ∃ start, first.site.path? id = some start ∧
      PathKept first run requests firings id start path

/-- Paths lose and duplicate nothing, whatever calls a run has had. -/
theorem paths_lose_nothing {config : Config} {scenario : Scenario} {library : ScheduleLibrary}
    {compiles : Bool} (built : build config scenario library compiles = .ok first)
    (placed : ∀ equipment ∈ scenario.equipment, equipment.path.IdsInTurn)
    (reaches : first.Reaches run) :
    (∃ requests firings, first.History run requests firings) ∧
      ∀ requests firings, first.History run requests firings →
        Kept first run requests firings := by
  refine ⟨exists_history_iff.mpr reaches, fun requests firings history => ?_⟩
  have once := history.fires_once built
  refine ⟨once, fun id path here => ?_⟩
  obtain ⟨start, began⟩ := exists_start reaches here
  have sound := start_sound (idsInTurn_of_build built placed) began
  exact ⟨start, began, history.pathKept once began sound here⟩

end Run

namespace Quarry

def reshuffleScenario : Scenario :=
  { scenario with
    equipment :=
      [{ name := "Loader"
         pathText := "Hole '!remove Shot\nShot '!deadhead 2h\nFace '!reprioritise"
         path := ((Path.push {} 1 (.steps [{ source := drilled }])).push 2
           (.steps [{ source := blasted }])).push 3 (.steps [{ source := loaded }])
         inactiveProcess := some ⟨0⟩ }] }

def reshuffle : Run := Run.start config reshuffleScenario {}

def reshuffleCalls : List Run.Call :=
  [.parsePath loader, .taskSelected loader ⟨2⟩ loaded, .taskReleased loader,
    .taskCompleted blasted (moment 2 0)]

theorem reshuffle_loses_nothing :
    Run.build config reshuffleScenario {} false = .ok reshuffle ∧
      (∀ equipment ∈ reshuffleScenario.equipment, equipment.path.IdsInTurn) ∧
        ((reshuffle.performAll reshuffleCalls).site.path? loader).map Path.ids =
            some [⟨3⟩, ⟨2⟩, ⟨1⟩] ∧
          (∃ requests firings,
              reshuffle.History (reshuffle.performAll reshuffleCalls) requests firings) ∧
            ∀ requests firings,
              reshuffle.History (reshuffle.performAll reshuffleCalls) requests firings →
                Run.Kept reshuffle (reshuffle.performAll reshuffleCalls) requests firings := by
  have built : Run.build config reshuffleScenario {} false = .ok reshuffle := rfl
  have placed : ∀ equipment ∈ reshuffleScenario.equipment, equipment.path.IdsInTurn := by
    intro equipment member
    obtain rfl := List.mem_singleton.mp member
    rfl
  have reaches : reshuffle.Reaches (reshuffle.performAll reshuffleCalls) :=
    Run.Reaches.start.performAll reshuffleCalls
  exact ⟨built, placed, by decide +kernel, Run.paths_lose_nothing built placed reaches⟩

end Quarry

end PathDirectives
