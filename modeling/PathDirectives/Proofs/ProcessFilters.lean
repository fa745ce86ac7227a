import PathDirectives.Proofs.CompiledPaths
import PathDirectives.Proofs.LowerCase
import PathDirectives.Proofs.RangeMeaning

/-!
Which process a filter finds by its name. The filter is put into lower case with all its letters, but
of the names of processes only the ASCII letters are. So it finds the first process of that name
whose capitals are all ASCII, which need not be the first of that name, and there may be none.
-/

namespace PathDirectives

open Text

def Text.sameLetters (left right : String) : Bool := lower left.toList == lower right.toList

theorem Text.sameWord_lowercase_iff {word name : String} :
    sameWord word (lowercase name) = true ↔
      sameLetters word name = true ∧ HasPlainCapitals word.toList := by
  rw [sameWord, sameLetters, lowercase, String.toList_ofList, map_toLower_lower, beq_iff_eq,
    beq_iff_eq]
  exact map_toLower_eq_lower_iff

/-- A name that can stand in a filter by itself. -/
structure IsFilterName (name : String) : Prop where
  filled : name ≠ ""
  trimmed : IsTrimmed name.toList
  star : name ≠ "*"
  comma : ',' ∉ name.toList
  semicolon : ';' ∉ name.toList
  opening : '<' ∉ name.toList
  closing : '>' ∉ name.toList

instance (name : String) : Decidable (IsFilterName name) :=
  decidable_of_iff (name ≠ "" ∧ IsTrimmed name.toList ∧ name ≠ "*" ∧ ',' ∉ name.toList ∧
      ';' ∉ name.toList ∧ '<' ∉ name.toList ∧ '>' ∉ name.toList)
    ⟨fun ⟨filled, trimmed, star, comma, semicolon, opening, closing⟩ =>
      ⟨filled, trimmed, star, comma, semicolon, opening, closing⟩,
      fun fit => ⟨fit.filled, fit.trimmed, fit.star, fit.comma, fit.semicolon, fit.opening,
        fit.closing⟩⟩

def starText (name : String) : String := "*<" ++ name ++ ">"

def starRange (name : String) : TaskRange :=
  { text := starText name
    terms := [{ role := .any, patterns := [['*']], processes := .named [lowercase name] }] }

namespace Scenario

variable {scenario : Scenario} {name : String} {process first found : Process} {range : TaskRange}

def firstNamed? (scenario : Scenario) (name : String) : Option Process :=
  scenario.processes.find? fun process => sameLetters process.name name

/-- The first process of a name whose capitals are all ASCII. -/
def plainNamed? (scenario : Scenario) (name : String) : Option Process :=
  scenario.processes.find? fun process =>
    sameLetters process.name name && decide (HasPlainCapitals process.name.toList)

def WorksOn (scenario : Scenario) (process : Process) (id : TaskId) : Prop :=
  ∃ task, scenario.tasks.get? id = some task ∧ task.process = process.id

/-- A range resolves to just the tasks of a process. -/
def Picks (scenario : Scenario) (range : TaskRange) (process : Process) : Prop :=
  ∃ tasks, range.resolve scenario = .ok tasks ∧ ∀ id, id ∈ tasks ↔ scenario.WorksOn process id

theorem parse_filterName (fit : IsFilterName name) :
    ProcessFilter.parse name.toList = .named [lowercase name] := by
  have whole : pieces ',' (joined ',' name.toList []) = [name.toList] :=
    pieces_joined (by simpa using fit.comma)
  rw [joined_nil] at whole
  have filled : name.toList.isEmpty = false := by simpa using fit.filled
  have notStar : String.ofList (lower name.toList) ≠ "*" := by
    intro same
    have letters : lower name.toList = ['*'] := by simpa using congrArg String.toList same
    exact fit.star (String.toList_inj.mp (lower_eq_star_iff.mp letters))
  simp [ProcessFilter.parse, whole, trim_of_isTrimmed fit.trimmed, filled, Ne.symm notStar, lowercase]

theorem expand?_star : Braces.expand? ['*'] = some [['*']] := by
  rw [Braces.expand?, Grammar.segments?_unbraced (by decide)]
  rfl

theorem parse_starText (fit : IsFilterName name) :
    TaskRange.parse (starText name) = .ok (starRange name) := by
  have letters : (starText name).toList = ['*'] ++ '<' :: (name.toList ++ ['>']) := by
    simp [starText]
  have trimmed : IsTrimmed (starText name).toList := by
    rw [letters]
    refine isTrimmed_append (by simp) (by simp) ?_ ?_
    · rintro c ⟨⟩
      decide
    · intro c last
      rw [← List.cons_append, List.getLast?_concat] at last
      obtain rfl := Option.some.inj last
      decide
  have whole : pieces ';' (joined ';' (starText name).toList []) = [(starText name).toList] :=
    pieces_joined (by simp [letters, fit.semicolon])
  rw [joined_nil] at whole
  have split : RoleFilter.split (starText name).toList = (.any, (starText name).toList) := by
    rw [letters]
    rfl
  have filtered : RangeTerm.splitFilter? (starText name).toList =
      some (['*'], .named [lowercase name]) := by
    rw [letters, Grammar.splitFilter?_filtered (by decide), parse_filterName fit]
  have term : RangeTerm.parse (starText name).toList =
      .ok { role := .any, patterns := [['*']], processes := .named [lowercase name] } := by
    have alone : trim ['*'] = ['*'] := by decide
    simp only [RangeTerm.parse, trim_of_isTrimmed trimmed, split, filtered, alone, expand?_star]
    rfl
  have filled : (starText name).toList.isEmpty = false := by simp [letters]
  simp [TaskRange.parse, trim_of_isTrimmed trimmed, filled, whole, term, starRange]
  rfl

theorem plainNamed?_eq (scenario : Scenario) (name : String) :
    (scenario.processes.find? fun process => sameWord process.name (lowercase name)) =
      scenario.plainNamed? name := by
  have same (process : Process) : sameWord process.name (lowercase name) =
      (sameLetters process.name name && decide (HasPlainCapitals process.name.toList)) := by
    rw [Bool.eq_iff_iff, sameWord_lowercase_iff, Bool.and_eq_true, decide_eq_true_eq]
  simp only [plainNamed?, same]

theorem isTrimmed_lowercase (fit : IsFilterName name) : IsTrimmed (lowercase name).toList := by
  rw [lowercase, String.toList_ofList]
  exact isTrimmed_lower fit.trimmed

theorem starRange_unknown (fit : IsFilterName name) (missing : scenario.plainNamed? name = none) :
    (starRange name).resolve scenario = .error (.unknownProcess (lowercase name)) := by
  rw [← plainNamed?_eq] at missing
  have failed := Grammar.processByName_of_none (isTrimmed_lowercase fit) missing
  simp [starRange, TaskRange.resolve, RangeTerm.resolve, ProcessFilter.resolve, failed]
  rfl

theorem starRange_picks (fit : IsFilterName name) (named : scenario.plainNamed? name = some found) :
    scenario.Picks (starRange name) found := by
  rw [← plainNamed?_eq] at named
  have known := Grammar.processByName_of_some (isTrimmed_lowercase fit) named
  have resolved : (ProcessFilter.named [lowercase name]).resolve scenario = .ok (some [found.id]) := by
    simp [ProcessFilter.resolve, known]
    rfl
  have admits (task : Task) : RangeTerm.admits
      { role := .any, patterns := [['*']], processes := .named [lowercase name] }
      (some [found.id]) task = true ↔ task.process = found.id := by
    have fits : Glob.isMatch ['*'] (lower task.name.toList) = true := by
      have run := Glob.Matches.star (lower task.name.toList) .nil
      rw [List.append_nil] at run
      exact Glob.isMatch_iff.mpr run
    simp [RangeTerm.admits, RoleFilter.admits, fits]
  refine ⟨_, by simp [starRange, TaskRange.resolve, RangeTerm.resolve, resolved]; rfl, fun id => ?_⟩
  rw [TaskSet.mem_ofList, List.flatten_singleton, List.mem_filter, TaskGraph.mem_ids]
  constructor
  · rintro ⟨has, admitted⟩
    cases stored : scenario.tasks.get? id with
    | none => exact absurd has (TaskGraph.get?_eq_none_iff.mp stored)
    | some task =>
        rw [stored] at admitted
        exact ⟨task, stored, (admits task).mp admitted⟩
  · rintro ⟨task, stored, works⟩
    refine ⟨TaskGraph.has_of_get? stored, ?_⟩
    rw [stored]
    exact (admits task).mpr works

/-! ### The process that is meant -/

theorem Made.process_id (made : scenario.Made) {place : Nat}
    (placed : scenario.processes[place]? = some process) : process.id = ⟨place % processCount⟩ := by
  induction made with
  | empty => simp at placed
  | @process scenario made name ih =>
      by_cases last : place = scenario.processes.length
      · subst last
        simp only [addProcess, List.getElem?_concat_length, Option.some.injEq] at placed
        rw [← placed]
      · have bound := (List.getElem?_eq_some_iff.mp placed).1
        simp only [addProcess, List.length_append, List.length_singleton] at bound
        rw [addProcess, List.getElem?_append_left (by omega)] at placed
        exact ih placed
  | task made name role process ih => exact ih placed
  | dependency made added ih => exact ih placed
  | completion made completed ih => exact ih placed
  | equipment made bare ih => exact ih placed

theorem Made.eq_of_id (made : scenario.Made) (few : scenario.processes.length ≤ processCount)
    (member : first ∈ scenario.processes) (among : found ∈ scenario.processes)
    (same : first.id = found.id) : first = found := by
  obtain ⟨place, placed⟩ := List.mem_iff_getElem?.mp member
  obtain ⟨other, also⟩ := List.mem_iff_getElem?.mp among
  have bound := (List.getElem?_eq_some_iff.mp placed).1
  have limit := (List.getElem?_eq_some_iff.mp also).1
  rw [made.process_id placed, made.process_id also] at same
  have places : place = other := by
    have rests := congrArg ProcessId.index same
    simp only [Nat.mod_eq_of_lt (Nat.lt_of_lt_of_le bound few),
      Nat.mod_eq_of_lt (Nat.lt_of_lt_of_le limit few)] at rests
    exact rests
  rw [places, also] at placed
  exact (Option.some.inj placed).symm

theorem plainNamed?_of_first (named : scenario.firstNamed? name = some first)
    (plain : HasPlainCapitals first.name.toList) : scenario.plainNamed? name = some first := by
  obtain ⟨fits, before, behind, whole, others⟩ := List.find?_eq_some_iff_append.mp named
  refine List.find?_eq_some_iff_append.mpr ⟨by simp [fits, plain], before, behind, whole, ?_⟩
  intro other member
  have differs := others other member
  simp only [Bool.not_eq_true'] at differs
  simp [differs]

theorem plain_of_plainNamed? (named : scenario.plainNamed? name = some found) :
    found ∈ scenario.processes ∧ HasPlainCapitals found.name.toList := by
  have fits := List.find?_some named
  rw [Bool.and_eq_true, decide_eq_true_eq] at fits
  exact ⟨List.mem_of_find?_eq_some named, fits.2⟩

structure Filters (scenario : Scenario) (name : String) (range : TaskRange) (first : Process) :
    Prop where
  parsed : TaskRange.parse (starText name) = .ok range
  named : scenario.firstNamed? name = some first
  unknown : scenario.plainNamed? name = none →
    range.resolve scenario = .error (.unknownProcess (lowercase name))
  picks : ∀ found, scenario.plainNamed? name = some found → scenario.Picks range found
  picks_first_iff : scenario.Picks range first ↔ HasPlainCapitals first.name.toList ∨
    ∃ found, scenario.plainNamed? name = some found ∧
      ∀ id, ¬ scenario.WorksOn first id ∧ ¬ scenario.WorksOn found id

theorem picks_first_iff (made : scenario.Made) (few : scenario.processes.length ≤ processCount)
    (fit : IsFilterName name) (named : scenario.firstNamed? name = some first) :
    scenario.Picks (starRange name) first ↔ HasPlainCapitals first.name.toList ∨
      ∃ found, scenario.plainNamed? name = some found ∧
        ∀ id, ¬ scenario.WorksOn first id ∧ ¬ scenario.WorksOn found id := by
  constructor
  · rintro ⟨tasks, resolved, own⟩
    cases reached : scenario.plainNamed? name with
    | none =>
        rw [starRange_unknown fit reached] at resolved
        simp at resolved
    | some found =>
        obtain ⟨others, also, among⟩ := starRange_picks fit reached
        obtain rfl := Except.ok.inj (resolved.symm.trans also)
        obtain ⟨inside, plain⟩ := plain_of_plainNamed? reached
        by_cases worked : ∃ id, scenario.WorksOn first id ∨ scenario.WorksOn found id
        · have both : ∃ id, scenario.WorksOn first id ∧ scenario.WorksOn found id := by
            obtain ⟨id, works | works⟩ := worked
            · exact ⟨id, works, (among id).mp ((own id).mpr works)⟩
            · exact ⟨id, (own id).mp ((among id).mpr works), works⟩
          obtain ⟨id, ⟨task, stored, process⟩, other, again, also⟩ := both
          obtain rfl := Option.some.inj (stored.symm.trans again)
          have same := made.eq_of_id few (List.mem_of_find?_eq_some named) inside
            (process.symm.trans also)
          exact .inl (same ▸ plain)
        · refine .inr ⟨found, rfl, fun id => ⟨fun works => worked ⟨id, .inl works⟩, fun works => ?_⟩⟩
          exact worked ⟨id, .inr works⟩
  · rintro (plain | ⟨found, reached, idle⟩)
    · exact starRange_picks fit (plainNamed?_of_first named plain)
    · obtain ⟨tasks, resolved, among⟩ := starRange_picks fit reached
      refine ⟨tasks, resolved, fun id => ?_⟩
      rw [among]
      exact iff_of_false (idle id).2 (idle id).1

/-- A range that filters by the name of a process, as that process spells it. -/
theorem filters_by_name (made : scenario.Made) (few : scenario.processes.length ≤ processCount)
    (member : process ∈ scenario.processes) (fit : IsFilterName process.name) :
    ∃ range first, scenario.Filters process.name range first := by
  obtain ⟨first, named⟩ : ∃ first, scenario.firstNamed? process.name = some first := by
    rw [← Option.isSome_iff_exists, firstNamed?, List.find?_isSome]
    exact ⟨process, member, by simp [sameLetters]⟩
  exact ⟨starRange process.name, first, parse_starText fit, named, starRange_unknown fit,
    fun _ => starRange_picks fit, picks_first_iff made few fit named⟩

end Scenario

namespace Quarry

def haulage : Scenario :=
  ((({} : Scenario).addProcess "FÖRDERUNG").addProcess "Förderung").addTask "Face" .source ⟨0⟩
    |>.addTask "Ramp" .source ⟨1⟩

theorem haulage_filters :
    haulage.Made ∧ haulage.processes.length ≤ processCount ∧
      (⟨⟨1⟩, "Förderung"⟩ : Process) ∈ haulage.processes ∧ IsFilterName "Förderung" ∧
        (haulage.firstNamed? "Förderung").map (·.name) = some "FÖRDERUNG" ∧
          (haulage.plainNamed? "Förderung").map (·.name) = some "Förderung" ∧
            ∃ range first, haulage.Filters "Förderung" range first := by
  have made : haulage.Made :=
    .task (.task (.process (.process .empty "FÖRDERUNG") "Förderung") "Face" .source ⟨0⟩) "Ramp"
      .source ⟨1⟩
  have few : haulage.processes.length ≤ processCount := by
    simp [haulage, Scenario.addProcess, Scenario.addTask, processCount]
  have member : (⟨⟨1⟩, "Förderung"⟩ : Process) ∈ haulage.processes := .tail _ (.head _)
  have fit : IsFilterName "Förderung" := by decide +kernel
  exact ⟨made, few, member, fit, by decide +kernel, by decide +kernel,
    Scenario.filters_by_name made few member fit⟩

def overhang : Scenario := (({} : Scenario).addProcess "Überhang").addTask "Face" .source ⟨0⟩

theorem overhang_not_found :
    overhang.Made ∧ overhang.processes = [⟨⟨0⟩, "Überhang"⟩] ∧ IsFilterName "Überhang" ∧
      ∃ range, TaskRange.parse "*<Überhang>" = .ok range ∧
        range.resolve overhang = .error (.unknownProcess "überhang") ∧
          ¬ overhang.Picks range ⟨⟨0⟩, "Überhang"⟩ := by
  have made : overhang.Made := .task (.process .empty "Überhang") "Face" .source ⟨0⟩
  have fit : IsFilterName "Überhang" := by decide +kernel
  have missing : overhang.plainNamed? "Überhang" = none := by
    have none : (overhang.plainNamed? "Überhang").isNone = true := by decide +kernel
    exact Option.isNone_iff_eq_none.mp none
  have small : Text.lowercase "Überhang" = "überhang" := by decide +kernel
  have text : starText "Überhang" = "*<Überhang>" := by decide +kernel
  have parsed := Scenario.parse_starText fit
  have failed := Scenario.starRange_unknown fit missing
  rw [text] at parsed
  rw [small] at failed
  refine ⟨made, rfl, fit, starRange "Überhang", parsed, failed, ?_⟩
  rintro ⟨tasks, resolved, _⟩
  rw [failed] at resolved
  simp at resolved

end Quarry

end PathDirectives
