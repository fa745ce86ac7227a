import Mathlib.Logic.Function.Basic
import PathDirectives.Proofs.PathHistory
import PathDirectives.Proofs.Proration

/-!
Injected work on a path. The steps that a directive injects come right behind the last element of
its line, one element for each and in their order. Every directive starts behind that same element,
so that of several directives on a line the last comes first.
-/

namespace PathDirectives

def Element.content (element : Element) : Nat × ElementKind := (element.line, element.kind)

def Step.contentOn (line : Nat) (step : Step) : Nat × ElementKind := (line, .steps [step])

theorem Step.contentOn_injective (line : Nat) : Function.Injective (Step.contentOn line) := by
  intro first second same
  simpa [contentOn] using same

namespace Path

variable {old path : Path} {added : ElementId → List Element} {anchor : Element}

def newElements (line : Nat) : Nat → List Step → List Element
  | _, [] => []
  | index, step :: rest => ⟨⟨index⟩, line, .steps [step]⟩ :: newElements line (index + 1) rest

theorem le_of_mem_newElements {index : Nat} {steps : List Step} {element : Element}
    (member : element ∈ newElements line index steps) : index ≤ element.id.index := by
  induction steps generalizing index with
  | nil => simp [newElements] at member
  | cons step rest ih =>
      rcases List.mem_cons.mp member with rfl | later
      · exact Nat.le_refl _
      · exact Nat.le_of_succ_le (ih later)

theorem content_newElements (line index : Nat) (steps : List Step) :
    (newElements line index steps).map Element.content = steps.map (Step.contentOn line) := by
  induction steps generalizing index with
  | nil => rfl
  | cons step rest ih => exact congrArg _ (ih (index + 1))

theorem placeAfter_split {front behind : List Element} {element : Element}
    (apart : ∀ other ∈ front, other.id ≠ anchor.id) :
    placeAfter anchor.id element (front ++ anchor :: behind) =
      front ++ anchor :: element :: behind := by
  induction front with
  | nil => simp [placeAfter]
  | cons head tail ih =>
      have head_apart := apart head List.mem_cons_self
      have tail_apart := fun other member => apart other (List.mem_cons_of_mem head member)
      rw [List.cons_append, placeAfter, if_neg head_apart, ih tail_apart]
      rfl

theorem Sound.apart_of_split (sound : path.Sound) {front behind : List Element}
    (split : path.elements = front ++ anchor :: behind) :
    (∀ other ∈ front, other.id ≠ anchor.id) ∧ ∀ other ∈ behind, other.id ≠ anchor.id := by
  have distinct := sound.distinct
  rw [Path.ids, split, List.map_append, List.map_cons] at distinct
  obtain ⟨-, behind_distinct, apart⟩ := List.nodup_append.mp distinct
  constructor
  · intro other member
    exact apart _ (List.mem_map_of_mem member) _ List.mem_cons_self
  · intro other member same
    exact (List.nodup_cons.mp behind_distinct).1 (same ▸ List.mem_map_of_mem member)

theorem elements_insertSteps (sound : path.Sound) {front behind : List Element}
    (split : path.elements = front ++ anchor :: behind) (line : Nat) (steps : List Step) :
    (path.insertSteps line anchor.id steps).elements =
      front ++ anchor :: (newElements line path.nextId steps ++ behind) := by
  induction steps generalizing path front anchor with
  | nil => exact split
  | cons step rest ih =>
      let own : Element := ⟨⟨path.nextId⟩, line, .steps [step]⟩
      let next : Path := ⟨placeAfter anchor.id own path.elements, path.nextId + 1⟩
      have grows : ExtendsBy line path next :=
        extendsBy_of_perm _ (sublist_placeAfter anchor.id own _) (placeAfter_perm anchor.id own _)
          rfl
      have placed : next.elements = (front ++ [anchor]) ++ own :: behind := by
        change placeAfter anchor.id own path.elements = _
        rw [split, placeAfter_split (sound.apart_of_split split).1, List.append_assoc]
        rfl
      have later := ih (grows.sound sound) placed
      rw [List.append_assoc] at later
      exact later

/-- A path that has come from another by putting new elements behind its elements. -/
structure Grown (old : Path) (added : ElementId → List Element) (path : Path) : Prop where
  elements : path.elements = old.elements.flatMap fun element => element :: added element.id
  sound : path.Sound
  nextId_le : old.nextId ≤ path.nextId
  fresh : ∀ element ∈ old.elements, ∀ new ∈ added element.id, old.nextId ≤ new.id.index

theorem Sound.grown (sound : old.Sound) : Grown old (fun _ => []) old where
  elements := by simp
  sound := sound
  nextId_le := Nat.le_refl _
  fresh := by simp

theorem flatMap_update {elements : List Element} {key : ElementId} {here : List Element}
    (apart : ∀ element ∈ elements, element.id ≠ key) :
    (elements.flatMap fun element => element :: Function.update added key here element.id) =
      elements.flatMap fun element => element :: added element.id :=
  List.flatMap_congr fun element member => by rw [Function.update_of_ne (apart element member)]

theorem Grown.insertSteps (grown : Grown old added path) (sound : old.Sound)
    (member : anchor ∈ old.elements) (line : Nat) (steps : List Step) :
    Grown old
      (Function.update added anchor.id
        (newElements line path.nextId steps ++ added anchor.id))
      (path.insertSteps line anchor.id steps) where
  elements := by
    obtain ⟨front, behind, split⟩ := List.append_of_mem member
    obtain ⟨front_apart, behind_apart⟩ := sound.apart_of_split split
    have whole := grown.elements
    rw [split, List.flatMap_append, List.flatMap_cons, List.cons_append] at whole
    rw [elements_insertSteps grown.sound whole, split, List.flatMap_append, List.flatMap_cons,
      flatMap_update front_apart, flatMap_update behind_apart, Function.update_self]
    simp
  sound := (path.insertSteps_extendsBy line anchor.id steps).sound grown.sound
  nextId_le := Nat.le_trans grown.nextId_le
    (path.insertSteps_extendsBy line anchor.id steps).nextId_le
  fresh := by
    intro element inside new among
    by_cases same : element.id = anchor.id
    · rw [same, Function.update_self, List.mem_append] at among
      rcases among with own | before
      · exact Nat.le_trans grown.nextId_le (le_of_mem_newElements own)
      · exact grown.fresh anchor member new before
    · rw [Function.update_of_ne same] at among
      exact grown.fresh element inside new among

theorem Grown.insertBlocks (grown : Grown old added path) (sound : old.Sound)
    (member : anchor ∈ old.elements) (line : Nat) (blocks : List (List Step)) :
    ∃ here, here.map Element.content = blocks.reverse.flatten.map (Step.contentOn line) ∧
      Grown old (Function.update added anchor.id (here ++ added anchor.id))
        (blocks.foldl (fun path steps => path.insertSteps line anchor.id steps) path) := by
  induction blocks generalizing added path with
  | nil => exact ⟨[], rfl, by simpa using grown⟩
  | cons steps rest ih =>
      obtain ⟨later, contents, whole⟩ := ih (grown.insertSteps sound member line steps)
      refine ⟨later ++ newElements line path.nextId steps, ?_, ?_⟩
      · rw [List.map_append, contents, content_newElements]
        simp
      · rw [Function.update_self, Function.update_idem] at whole
        rw [List.append_assoc]
        exact whole

theorem takeWhile_added (added : ElementId → List Element) {elements here : List Element}
    {bound : Nat}
    (below : ∀ element ∈ elements, element.id.index < bound)
    (fresh : ∀ new ∈ here, bound ≤ new.id.index) :
    (here ++ elements.flatMap fun element => element :: added element.id).takeWhile
      (fun element => bound ≤ element.id.index) = here := by
  rw [List.takeWhile_append_of_pos (by simpa using fresh)]
  cases elements with
  | nil => simp
  | cons head tail =>
      have old : ¬ bound ≤ head.id.index := Nat.not_le.mpr (below head List.mem_cons_self)
      simp [old]

theorem added_unique {elements : List Element} {bound : Nat}
    {first second : ElementId → List Element}
    (below : ∀ element ∈ elements, element.id.index < bound)
    (first_fresh : ∀ element ∈ elements, ∀ new ∈ first element.id, bound ≤ new.id.index)
    (second_fresh : ∀ element ∈ elements, ∀ new ∈ second element.id, bound ≤ new.id.index)
    (same : (elements.flatMap fun element => element :: first element.id) =
      elements.flatMap fun element => element :: second element.id) :
    ∀ element ∈ elements, first element.id = second element.id := by
  induction elements with
  | nil => simp
  | cons head tail ih =>
      have tail_below := fun element member => below element (List.mem_cons_of_mem head member)
      rw [List.flatMap_cons, List.flatMap_cons, List.cons_append, List.cons_append,
        List.cons.injEq] at same
      have here : first head.id = second head.id := by
        rw [← takeWhile_added first tail_below (first_fresh head List.mem_cons_self),
          same.2, takeWhile_added second tail_below (second_fresh head List.mem_cons_self)]
      rw [here, List.append_cancel_left_eq] at same
      have others := ih tail_below
        (fun element member => first_fresh element (List.mem_cons_of_mem head member))
        (fun element member => second_fresh element (List.mem_cons_of_mem head member)) same.2
      intro element member
      rcases List.mem_cons.mp member with rfl | later
      · exact here
      · exact others element later

end Path

def Effect.enact (path : Path) : Effect → Path
  | .now (.insertSteps _ line anchor steps) => path.insertSteps line anchor steps
  | _ => path

def Effect.Allowed (id : EquipmentId) (effect : Effect) : Prop :=
  effect.Timely ∧ ∃ line kind, effect.action.AskedBy id line kind

theorem Effect.enact_of_kind {effect : Effect} {id : EquipmentId} {line : WalkedLine}
    {kind : DirectiveKind} (asked : effect.action.AskedBy id line kind)
    (other : kind ≠ .injectSchedulePath) (path : Path) : effect.enact path = path := by
  cases effect with
  | now action =>
      cases action with
      | insertSteps owner number anchor steps => exact absurd asked.2.1 other
      | _ => rfl
  | _ => rfl

def LineReport.last? (report : LineReport) : Option Element := report.line.elements.getLast?

namespace Run

variable {first run next : Run} {id : EquipmentId} {equipment : Equipment}

theorem equipment?_schedule (run : Run) {effect : Effect} (allowed : effect.Allowed id)
    (other : EquipmentId) :
    (run.schedule effect).1.scenario.equipment? other =
      if other = id then
        (run.scenario.equipment? other).map fun equipment =>
          { equipment with path := effect.enact equipment.path }
      else run.scenario.equipment? other := by
  obtain ⟨timely, line, kind, asked⟩ := allowed
  have kept (found : Option Equipment) :
      found = if other = id then
        found.map fun equipment => { equipment with path := equipment.path } else found := by
    split
    · exact Option.map_id'.symm
    · rfl
  cases effect with
  | now action =>
      cases action with
      | insertSteps owner number anchor steps =>
          obtain ⟨rfl, -⟩ := asked
          exact run.site.equipment?_editPath owner _ other
      | addDependencies tasks predecessors delay rule => exact kept _
      | _ => simp [Effect.Timely, Action.isPrompt] at timely
  | onCompletion tasks delay action =>
      simp only [schedule]
      split <;> exact kept _
  | onDate date action | onSelection owner elements action => exact kept _

theorem equipment?_scheduleAll {effects : List Effect}
    (allowed : ∀ effect ∈ effects, effect.Allowed id)
    (scheduled : run.scheduleAll effects = (next, .ok ())) (other : EquipmentId) :
    next.scenario.equipment? other =
      if other = id then
        (run.scenario.equipment? other).map fun equipment =>
          { equipment with path := effects.foldl Effect.enact equipment.path }
      else run.scenario.equipment? other := by
  induction effects generalizing run with
  | nil =>
      simp only [scheduleAll, Prod.mk.injEq, and_true] at scheduled
      subst scheduled
      split
      · exact Option.map_id'.symm
      · rfl
  | cons effect rest ih =>
      rw [scheduleAll] at scheduled
      split at scheduled
      · rename_i middle first
        have own := run.equipment?_schedule (allowed effect List.mem_cons_self) other
        rw [first] at own
        rw [ih (fun later member => allowed later (List.mem_cons_of_mem _ member)) scheduled, own]
        split
        · rw [Option.map_map]
          rfl
        · rfl
      · simp at scheduled

/-! ### What a line injects -/

/-- The steps that a directive injects: those of the rows that are filed for its equipment, in their
order. -/
def block? (run : Run) : Directive → Option (List Step)
  | .injectSchedulePath name source start stop kind =>
      (run.library.steps? name kind).map fun rows =>
        (rows.filter (ScheduledStep.isFor source)).filterMap
          (Interpreter.scheduledStep? run.scenario start stop)
  | _ => none

/-- The steps of each injecting directive of a line, in the order in which they are written. -/
def blocks (run : Run) (report : LineReport) : List (List Step) :=
  report.directives.filterMap run.block?

def inject (run : Run) (path : Path) (read : ReadDirective) : Path :=
  match run.block? read.2, read.1.elements.getLast? with
  | some steps, some last => path.insertSteps read.1.number last.id steps
  | _, _ => path

theorem block?_of_kind {directive : Directive} (other : directive.kind ≠ .injectSchedulePath) :
    run.block? directive = none := by
  cases directive with
  | injectSchedulePath => exact absurd rfl other
  | _ => rfl

theorem interpret_injects {graph : TaskGraph} {line : WalkedLine} {name source : String}
    {start stop : Calendar.Instant} {kind : ScheduleKind} {part : LineOutcome}
    (interpreted : (run.interpreter id equipment graph).interpret line
      (.injectSchedulePath name source start stop kind) = .ok part) :
    ∃ steps, run.block? (.injectSchedulePath name source start stop kind) = some steps ∧
      part.effects = match line.elements.getLast? with
        | none => []
        | some last =>
            if steps.isEmpty then [] else [.now (.insertSteps id line.number last.id steps)] := by
  have lasts : line.scope.elements.getLast? = line.elements.getLast?.map (·.id) :=
    List.getLast?_map
  simp only [Interpreter.interpret, lasts] at interpreted
  split at interpreted
  · simp at interpreted
  · rename_i steps scheduled
    refine ⟨steps, ?_, ?_⟩
    · unfold Interpreter.scheduledSteps at scheduled
      split at scheduled
      · simp at scheduled
      · rename_i rows filed
        obtain rfl := Except.ok.inj scheduled
        exact congrArg (Option.map _) filed
    · cases found : line.elements.getLast? with
      | none =>
          rw [found] at interpreted
          obtain rfl := Except.ok.inj interpreted
          rfl
      | some last =>
          rw [found] at interpreted
          obtain rfl := Except.ok.inj interpreted
          cases steps <;> rfl

theorem interpret_enact {graph : TaskGraph} {read : ReadDirective} {part : LineOutcome}
    (interpreted : (run.interpreter id equipment graph).interpret read.1 read.2 = .ok part)
    (path : Path) : part.effects.foldl Effect.enact path = run.inject path read := by
  by_cases injects : read.2.kind = .injectSchedulePath
  · obtain ⟨line, directive⟩ := read
    cases directive with
    | injectSchedulePath name source start stop kind =>
        obtain ⟨steps, found, effects⟩ := interpret_injects interpreted
        rw [effects]
        dsimp only [inject]
        rw [found]
        cases line.elements.getLast? with
        | none => rfl
        | some last =>
            cases steps <;> rfl
    | _ => simp [Directive.kind] at injects
  · have kept := fun effect member =>
      Effect.enact_of_kind (Interpreter.interpret_asks interpreted effect member) injects path
    dsimp only [inject]
    rw [block?_of_kind injects]
    generalize part.effects = effects at kept
    induction effects with
    | nil => rfl
    | cons effect rest ih =>
        rw [List.foldl_cons, kept effect List.mem_cons_self]
        exact ih fun other member => kept other (List.mem_cons_of_mem _ member)

theorem Reads.enact {graph : TaskGraph} {reads : List ReadDirective} {parts : List LineOutcome}
    (followed : run.Reads id equipment graph reads parts) (path : Path) :
    (LineOutcome.joined parts).effects.foldl Effect.enact path =
      reads.foldl run.inject path := by
  induction followed generalizing path with
  | nil => rfl
  | cons interpreted _ _ ih =>
      simp only [LineOutcome.joined, List.flatMap_cons, List.foldl_append] at ih ⊢
      rw [interpret_enact interpreted, ih]
      rfl

theorem Reads.allowed {graph : TaskGraph} {reads : List ReadDirective}
    {parts : List LineOutcome} (followed : run.Reads id equipment graph reads parts) :
    ∀ effect ∈ (LineOutcome.joined parts).effects, effect.Allowed id := by
  induction followed with
  | nil => simp [LineOutcome.joined]
  | cons interpreted _ _ ih =>
      intro effect member
      simp only [LineOutcome.joined, List.flatMap_cons, List.mem_append] at member ih
      rcases member with own | later
      · exact ⟨Interpreter.interpret_timely interpreted effect own, _, _,
          Interpreter.interpret_asks interpreted effect own⟩
      · exact ih effect later

theorem Reads.block_found {graph : TaskGraph} {reads : List ReadDirective}
    {parts : List LineOutcome} (followed : run.Reads id equipment graph reads parts) :
    ∀ read ∈ reads, read.2.kind = .injectSchedulePath →
      ∃ steps, run.block? read.2 = some steps := by
  intro read member injects
  obtain ⟨place, placed⟩ := List.mem_iff_getElem?.mp member
  obtain ⟨part, -, interpreted⟩ := followed.at_place placed
  obtain ⟨line, directive⟩ := read
  cases directive with
  | injectSchedulePath =>
      obtain ⟨steps, found, -⟩ := interpret_injects interpreted
      exact ⟨steps, found⟩
  | _ => simp [Directive.kind] at injects

theorem inject_report (report : LineReport) (path : Path) :
    report.reads.foldl run.inject path =
      match report.last? with
      | none => path
      | some last =>
          (run.blocks report).foldl
            (fun path steps => path.insertSteps report.line.number last.id steps) path := by
  unfold LineReport.reads blocks
  generalize report.directives = directives
  cases found : report.last? with
  | none =>
      induction directives generalizing path with
      | nil => rfl
      | cons directive rest ih =>
          have own : run.inject path (report.line, directive) = path := by
            unfold LineReport.last? at found
            simp [inject, found]
          rw [List.map_cons, List.foldl_cons, own]
          exact ih path
  | some last =>
      induction directives generalizing path with
      | nil => rfl
      | cons directive rest ih =>
          rw [List.map_cons, List.foldl_cons, ih, List.filterMap_cons]
          unfold LineReport.last? at found
          cases steps : run.block? directive with
          | none => simp [inject, steps]
          | some steps => simp [inject, steps, found]

section Reports

variable {old path : Path} {added : ElementId → List Element}

theorem grown_report (run : Run) (grown : old.Grown added path) (sound : old.Sound)
    {report : LineReport} (inside : ∀ last ∈ report.last?, last ∈ old.elements) :
    ∃ after, old.Grown after (report.reads.foldl run.inject path) ∧
      (∀ last ∈ report.last?, ∃ here, after last.id = here ++ added last.id ∧
        here.map Element.content =
          (run.blocks report).reverse.flatten.map (Step.contentOn report.line.number)) ∧
        ∀ key, (∀ last ∈ report.last?, last.id ≠ key) → after key = added key := by
  rw [inject_report]
  cases found : report.last? with
  | none => exact ⟨added, grown, by simp, fun _ _ => rfl⟩
  | some anchor =>
      obtain ⟨here, contents, whole⟩ := grown.insertBlocks sound (inside anchor found)
        report.line.number (run.blocks report)
      refine ⟨_, whole, ?_, fun key apart => ?_⟩
      · intro last lasts
        obtain rfl := Option.some.inj lasts
        exact ⟨here, Function.update_self anchor.id _ added, contents⟩
      · exact Function.update_of_ne (apart anchor rfl).symm _ added

theorem grown_reports (run : Run) (grown : old.Grown added path) (sound : old.Sound)
    {reports : List LineReport}
    (distinct : reports.Pairwise fun first second =>
      ∀ anchor ∈ first.last?, ∀ last ∈ second.last?, anchor.id ≠ last.id)
    (inside : ∀ report ∈ reports, ∀ last ∈ report.last?, last ∈ old.elements)
    (bare : ∀ report ∈ reports, ∀ last ∈ report.last?, added last.id = []) :
    ∃ after, old.Grown after ((reports.flatMap LineReport.reads).foldl run.inject path) ∧
      (∀ report ∈ reports, ∀ last ∈ report.last?, (after last.id).map Element.content =
        (run.blocks report).reverse.flatten.map (Step.contentOn report.line.number)) ∧
        ∀ key, (∀ report ∈ reports, ∀ last ∈ report.last?, last.id ≠ key) →
          after key = added key := by
  induction reports generalizing path added with
  | nil => exact ⟨added, grown, by simp, fun _ _ => rfl⟩
  | cons report rest ih =>
      obtain ⟨apart, rest_distinct⟩ := List.pairwise_cons.mp distinct
      obtain ⟨own_inside, rest_inside⟩ := List.forall_mem_cons.mp inside
      obtain ⟨own_bare, rest_bare⟩ := List.forall_mem_cons.mp bare
      obtain ⟨middle, one, own, kept⟩ := run.grown_report grown sound own_inside
      have middle_bare : ∀ other ∈ rest, ∀ last ∈ other.last?, middle last.id = [] := by
        intro other member last lasts
        rw [kept last.id fun anchor anchors => apart other member anchor anchors last lasts]
        exact rest_bare other member last lasts
      obtain ⟨after, whole, contents, others⟩ := ih one rest_distinct rest_inside middle_bare
      rw [List.flatMap_cons, List.foldl_append]
      refine ⟨after, whole, List.forall_mem_cons.mpr ⟨?_, contents⟩, ?_⟩
      · intro last lasts
        obtain ⟨here, stands, steps⟩ := own last lasts
        rw [others last.id fun other member later laters =>
          (apart other member last lasts later laters).symm, stands, own_bare last lasts,
          List.append_nil, steps]
      · intro key away
        obtain ⟨own_away, rest_away⟩ := List.forall_mem_cons.mp away
        rw [others key rest_away, kept key own_away]

end Reports

/-! ### A path that is parsed -/

theorem lasts_sublist {reports : List LineReport} {text : String} {elements : List Element}
    (lines : reports.map (·.line) = walk text elements) :
    (reports.filterMap LineReport.last?).Sublist elements := by
  have whole : (reports.flatMap (·.line.elements)).Sublist elements := by
    have same := congrArg (List.flatMap (·.elements)) lines
    rw [List.flatMap_map] at same
    rw [same]
    exact slices_sublist 1 (Text.lines text.toList) elements
  refine List.Sublist.trans ?_ whole
  clear lines whole
  induction reports with
  | nil => exact List.Sublist.refl _
  | cons report rest ih =>
      rw [List.flatMap_cons]
      cases found : report.last? with
      | none =>
          rw [List.filterMap_cons_none found]
          exact ih.trans (List.sublist_append_right _ _)
      | some last =>
          rw [List.filterMap_cons_some found]
          exact (List.singleton_sublist.mpr (List.mem_of_getLast? found)).append ih

/-- A path is another one with new elements put behind the last element of each line: in some order,
one for each step that the directives of the line inject. -/
structure PutBehind (run : Run) (order : List (List Step) → List Step) (reports : List LineReport)
    (old new : Path) (added : ElementId → List Element) : Prop where
  elements : new.elements = old.elements.flatMap fun element => element :: added element.id
  behind : ∀ report ∈ reports, ∀ last ∈ report.last?, (added last.id).map Element.content =
    (order (run.blocks report)).map (Step.contentOn report.line.number)
  elsewhere : ∀ element ∈ old.elements,
    (∀ report ∈ reports, ∀ last ∈ report.last?, last.id ≠ element.id) → added element.id = []
  fresh : ∀ element ∈ old.elements, ∀ new ∈ added element.id, old.nextId ≤ new.id.index
  distinct : new.ids.Nodup

/-- The path of an equipment is parsed, and its lines inject their steps in some order; nothing else
of any equipment is changed. -/
structure Injecting (run : Run) (id : EquipmentId) (order : List (List Step) → List Step)
    (equipment : Equipment) (reports : List LineReport) (next : Run) : Prop where
  found : run.scenario.equipmentOf id = .ok equipment
  lines : reports.map (·.line) = walk equipment.pathText equipment.path.elements
  read : ∀ report ∈ reports, ∀ directive ∈ report.directives,
    directive.kind = .injectSchedulePath → ∃ steps, run.block? directive = some steps
  injected : ∃ new added, next.scenario.equipment? id = some { equipment with path := new } ∧
    run.PutBehind order reports equipment.path new added
  others : ∀ other, other ≠ id →
    next.scenario.equipment? other = run.scenario.equipment? other

theorem Followed.equipment? {reports : List LineReport} {parts : List LineOutcome}
    (followed : run.Followed id equipment reports parts next) (other : EquipmentId) :
    next.scenario.equipment? other =
      if other = id then
        (run.scenario.equipment? other).map fun worker =>
          { worker with
            path := (reports.flatMap LineReport.reads).foldl run.inject worker.path }
      else run.scenario.equipment? other := by
  obtain ⟨last, committed, rfl⟩ := followed.installed
  have scheduled := equipment?_scheduleAll followed.reads.allowed committed other
  simp only [followed.reads.enact, registerAll_scenario] at scheduled
  exact scheduled

theorem Followed.injecting {reports : List LineReport} {parts : List LineOutcome}
    (followed : run.Followed id equipment reports parts next) (sound : equipment.path.Sound) :
    run.Injecting id (fun blocks => blocks.reverse.flatten) equipment reports next where
  found := followed.found
  lines := followed.lines
  read report member directive inside injects := by
    refine followed.reads.block_found (report.line, directive) ?_ injects
    exact List.mem_flatMap.mpr ⟨report, member, List.mem_map_of_mem inside⟩
  injected := by
    have inside := lasts_sublist followed.lines
    have distinct := List.pairwise_filterMap.mp
      (List.pairwise_map.mp (sound.distinct.sublist (inside.map Element.id)))
    obtain ⟨added, grown, contents, others⟩ := run.grown_reports sound.grown sound distinct
      (fun report member last lasts =>
        inside.subset (List.mem_filterMap.mpr ⟨report, member, lasts⟩))
      fun _ _ _ _ => rfl
    refine ⟨_, added, ?_, grown.elements, contents,
      fun element _ apart => others element.id apart, grown.fresh, grown.sound.distinct⟩
    rw [followed.equipment?, if_pos rfl, equipment?_of_equipmentOf followed.found]
    rfl
  others other apart := by rw [followed.equipment?, if_neg apart]

theorem PutBehind.unique {order others : List (List Step) → List Step}
    {reports : List LineReport} {old new : Path} {added also : ElementId → List Element}
    (first : run.PutBehind order reports old new added)
    (second : run.PutBehind others reports old new also) (sound : old.Sound) :
    ∀ element ∈ old.elements, added element.id = also element.id :=
  Path.added_unique sound.below first.fresh second.fresh
    (first.elements.symm.trans second.elements)

/-- A path that lines inject their steps into in one order has been injected into in another one
just if both orders come to the same steps on every line. -/
theorem Injecting.order_iff {order other : List (List Step) → List Step}
    {reports : List LineReport} (injecting : run.Injecting id order equipment reports next)
    (sound : equipment.path.Sound) :
    run.Injecting id other equipment reports next ↔
      ∀ report ∈ reports, report.line.elements ≠ [] →
        other (run.blocks report) = order (run.blocks report) := by
  constructor
  · intro also report member filled
    obtain ⟨new, added, reached, put⟩ := injecting.injected
    obtain ⟨same, likewise, again, put_also⟩ := also.injected
    obtain rfl : same = new := by
      have equal := Option.some.inj (again.symm.trans reached)
      exact congrArg (·.path) equal
    obtain ⟨last, lasts⟩ : ∃ last, report.last? = some last :=
      Option.isSome_iff_exists.mp (List.getLast?_isSome.mpr filled)
    have inside := (lasts_sublist injecting.lines).subset
      (List.mem_filterMap.mpr ⟨report, member, lasts⟩)
    have agree := put.unique put_also sound last inside
    have contents := put.behind report member last lasts
    rw [agree, put_also.behind report member last lasts] at contents
    exact (Step.contentOn_injective _).list_map contents
  · intro agree
    obtain ⟨new, added, reached, put⟩ := injecting.injected
    refine { injecting with injected := ⟨new, added, reached, { put with behind := ?_ }⟩ }
    intro report member last lasts
    have filled : report.line.elements ≠ [] := by
      rintro none_there
      simp [LineReport.last?, none_there] at lasts
    rw [agree report member filled]
    exact put.behind report member last lasts

section Reached

variable {config : Config} {scenario : Scenario} {library : ScheduleLibrary} {compiles : Bool}
  (built : build config scenario library compiles = .ok first)
  (placed : ∀ equipment ∈ scenario.equipment, equipment.path.Sound)
  (reaches : first.Reaches run)

include built placed reaches

theorem sound_of_reaches (found : run.scenario.equipmentOf id = .ok equipment) :
    equipment.path.Sound := by
  have here := path?_of_equipmentOf found
  obtain ⟨start, began⟩ := exists_start reaches here
  obtain ⟨worker, there, rfl⟩ := Option.map_eq_some_iff.mp began
  have sound := paths_of_build (fun _ => Path.IdsInTurn.sound) built placed worker
    (List.mem_of_getElem? there)
  obtain ⟨requests, firings, history⟩ := exists_history_iff.mpr reaches
  obtain ⟨path, same, traced⟩ := history.traced began
  obtain rfl := Option.some.inj (here.symm.trans same)
  exact traced.sound sound

theorem injecting_of_parses (parses : (run.parsePath id).2.2 = .ok true) :
    ∃ equipment, equipment.path.Sound ∧
      run.Injecting id (fun blocks => blocks.reverse.flatten) equipment (run.parsePath id).1
        (run.parsePath id).2.1 := by
  obtain ⟨equipment, parts, followed⟩ := parsePath_followed parses
  have sound := sound_of_reaches built placed reaches followed.found
  exact ⟨equipment, sound, followed.injecting sound⟩

/-- Whenever a path is parsed, every line puts the steps of its last directive first, so that they
stand in written order just where both orders come to the same. -/
theorem parsePath_injects (parses : (run.parsePath id).2.2 = .ok true) :
    ∃ equipment,
      run.Injecting id (fun blocks => blocks.reverse.flatten) equipment (run.parsePath id).1
          (run.parsePath id).2.1 ∧
        (run.Injecting id List.flatten equipment (run.parsePath id).1 (run.parsePath id).2.1 ↔
          ∀ report ∈ (run.parsePath id).1, report.line.elements ≠ [] →
            (run.blocks report).flatten = (run.blocks report).reverse.flatten) := by
  obtain ⟨equipment, sound, injecting⟩ := injecting_of_parses built placed reaches parses
  exact ⟨equipment, injecting, injecting.order_iff sound⟩

/-- What lines inject stands in written order where one directive of each, at most, injects any
steps. -/
theorem in_order_of_one_each (parses : (run.parsePath id).2.2 = .ok true)
    (one_each : ∀ report ∈ (run.parsePath id).1,
      ((run.blocks report).filter fun steps => !steps.isEmpty).length ≤ 1) :
    ∃ equipment, run.Injecting id List.flatten equipment (run.parsePath id).1
      (run.parsePath id).2.1 := by
  obtain ⟨equipment, sound, injecting⟩ := injecting_of_parses built placed reaches parses
  refine ⟨equipment, (injecting.order_iff sound).mpr fun report member _ => ?_⟩
  rw [← List.flatten_filter_not_isEmpty,
    ← List.flatten_filter_not_isEmpty (L := (run.blocks report).reverse), List.filter_reverse]
  rcases Nat.le_one_iff_eq_zero_or_eq_one.mp (one_each report member) with none_there | one
  · rw [List.length_eq_zero_iff.mp none_there]
    rfl
  · obtain ⟨steps, only⟩ := List.length_eq_one_iff.mp one
    rw [only]
    rfl

end Reached

end Run

namespace Quarry

def refillScenario : Scenario :=
  { scenario with
    equipment :=
      [{ name := "Loader"
         pathText := "Face '!injectschedulepath Loader case=Survey " ++
           "!injectschedulepath Loader case=Plan"
         path := Path.push {} 1 (.steps [{ source := loaded }]) }] }

def loaderRow (task : String) : ScheduledStep :=
  { equipment := "Loader", source := task, destination := none
    start := moment 1 6, stop := moment 1 8, quantity := 10.0 }

def archive : ScheduleLibrary :=
  (({} : ScheduleLibrary).insert "Survey" .output [loaderRow "Hole"]).insert "Plan" .output
    [loaderRow "Shot"]

def refill : Run := Run.start config refillScenario archive

theorem refill_built : Run.build config refillScenario archive false = .ok refill := rfl

theorem refill_placed : ∀ equipment ∈ refillScenario.equipment, equipment.path.Sound := by
  intro equipment member
  obtain rfl := List.mem_singleton.mp member
  have inTurn : (Path.push {} 1 (.steps [{ source := loaded }])).IdsInTurn := rfl
  exact inTurn.sound

theorem refill_parses : (refill.parsePath loader).2.2 = .ok true := by
  have fresh : refill.isParsed loader = false := by decide +kernel
  have succeeds : (refill.parsePath loader).2.2.isOk = true := by decide +kernel
  exact Run.parses_of_isOk fresh succeeds

theorem refill_reads :
    ((refill.parsePath loader).1.map fun report =>
      (report.line.elements.map (·.id), (refill.blocks report).map (List.map (·.source)))) =
        [([⟨0⟩], [[drilled], [blasted]])] := by
  decide +kernel

theorem refill_injects :
    Run.build config refillScenario archive false = .ok refill ∧
      (∀ equipment ∈ refillScenario.equipment, equipment.path.Sound) ∧
        (refill.parsePath loader).2.2 = .ok true ∧
          ((refill.parsePath loader).2.1.site.path? loader).map Path.ids =
              some [⟨0⟩, ⟨2⟩, ⟨1⟩] ∧
            ∃ equipment,
              refill.Injecting loader (fun blocks => blocks.reverse.flatten) equipment
                  (refill.parsePath loader).1 (refill.parsePath loader).2.1 ∧
                (refill.Injecting loader List.flatten equipment (refill.parsePath loader).1
                    (refill.parsePath loader).2.1 ↔
                  ∀ report ∈ (refill.parsePath loader).1, report.line.elements ≠ [] →
                    (refill.blocks report).flatten = (refill.blocks report).reverse.flatten) :=
  ⟨refill_built, refill_placed, refill_parses, by decide +kernel,
    Run.parsePath_injects refill_built refill_placed .start refill_parses⟩

theorem refill_not_in_order :
    Run.build config refillScenario archive false = .ok refill ∧
      (∀ equipment ∈ refillScenario.equipment, equipment.path.Sound) ∧
        (refill.parsePath loader).2.2 = .ok true ∧
          ¬ ∃ equipment,
            refill.Injecting loader List.flatten equipment (refill.parsePath loader).1
              (refill.parsePath loader).2.1 := by
  refine ⟨refill_built, refill_placed, refill_parses, ?_⟩
  rintro ⟨equipment, inOrder⟩
  obtain ⟨_, sound, injecting⟩ :=
    Run.injecting_of_parses refill_built refill_placed .start refill_parses
  obtain rfl := Except.ok.inj (inOrder.found.symm.trans injecting.found)
  obtain ⟨report, only, reads⟩ := List.map_eq_singleton_iff.mp refill_reads
  obtain ⟨ids, sources⟩ := Prod.mk.inj reads
  have member : report ∈ (refill.parsePath loader).1 := only ▸ List.mem_cons_self
  have filled : report.line.elements ≠ [] := by
    intro none_there
    simp [none_there] at ids
  have same := congrArg (List.map (·.source))
    ((injecting.order_iff sound).mp inOrder report member filled)
  rw [List.map_flatten, List.map_flatten, List.map_reverse, sources] at same
  exact absurd same (by decide)

end Quarry

end PathDirectives
