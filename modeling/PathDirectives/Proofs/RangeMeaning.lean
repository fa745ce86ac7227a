import PathDirectives.Proofs.Globbing
import PathDirectives.Proofs.RangeGrammar
import PathDirectives.Proofs.Validity
import PathDirectives.TaskRange.Resolve

/-!
What a range in writing means. It resolves to the tasks that some term of its syntax admits, unless
one of its filters names a process that the scenario does not have.
-/

namespace PathDirectives

open Text

def Scenario.HasProcess (scenario : Scenario) (name : String) : Prop :=
  ∃ process ∈ scenario.processes, sameWord process.name name = true

instance (scenario : Scenario) (name : String) : Decidable (scenario.HasProcess name) :=
  inferInstanceAs (Decidable (∃ process ∈ scenario.processes, sameWord process.name name = true))

namespace Grammar

variable {scenario : Scenario} {range other : Range} {term : Term} {filter : Filter}
  {name : String} {id : ProcessId}

def AdmitsRole : RoleFilter → TaskRole → Prop
  | .any, _ => True
  | .source, role => role = .source
  | .destination, role => role = .destination

def Filter.Admits (scenario : Scenario) : Filter → ProcessId → Prop
  | .named first more, process =>
      ∃ name ∈ first :: more, scenario.processByName name = .ok process
  | _, _ => True

structure Term.Admits (scenario : Scenario) (term : Term) (task : Task) : Prop where
  role : AdmitsRole term.role task.role
  process : term.filter.Admits scenario task.process
  name : ∃ text, Chosen term.pattern text ∧ Glob.Matches (lower text) (lower task.name.toList)

def Range.Admits (scenario : Scenario) (range : Range) (task : Task) : Prop :=
  ∃ term ∈ range.terms, term.Admits scenario task

def Filter.NamesUnknown (scenario : Scenario) (filter : Filter) : Prop :=
  ∃ name ∈ filter.names, ¬ scenario.HasProcess name

instance (scenario : Scenario) (filter : Filter) : Decidable (filter.NamesUnknown scenario) :=
  inferInstanceAs (Decidable (∃ name ∈ filter.names, ¬ scenario.HasProcess name))

def Range.NamesUnknown (scenario : Scenario) (range : Range) : Prop :=
  ∃ term ∈ range.terms, term.filter.NamesUnknown scenario

instance (scenario : Scenario) (range : Range) : Decidable (range.NamesUnknown scenario) :=
  inferInstanceAs (Decidable (∃ term ∈ range.terms, term.filter.NamesUnknown scenario))

section Lookup

variable (trimmed : IsTrimmed name.toList)

include trimmed

theorem trimmed_of_isTrimmed : Text.trimmed name = name := by
  rw [Text.trimmed, trim_of_isTrimmed trimmed, String.ofList_toList]

theorem processByName_of_some {process : Process}
    (found : (scenario.processes.find? fun process => sameWord process.name name) = some process) :
    scenario.processByName name = .ok process.id := by
  rw [Scenario.processByName, trimmed_of_isTrimmed trimmed]
  simp only [found]

theorem processByName_of_none
    (missing : (scenario.processes.find? fun process => sameWord process.name name) = none) :
    scenario.processByName name = .error (.unknownProcess name) := by
  rw [Scenario.processByName, trimmed_of_isTrimmed trimmed]
  simp only [missing]

theorem processByName_cases (scenario : Scenario) :
    (scenario.HasProcess name ∧ ∃ id, scenario.processByName name = .ok id) ∨
      (¬ scenario.HasProcess name ∧
        scenario.processByName name = .error (.unknownProcess name)) := by
  cases found : scenario.processes.find? fun process => sameWord process.name name with
  | some process =>
      have fits := List.find?_some found
      exact .inl ⟨⟨process, List.mem_of_find?_eq_some found, fits⟩, process.id,
        processByName_of_some trimmed found⟩
  | none =>
      refine .inr ⟨?_, processByName_of_none trimmed found⟩
      rintro ⟨process, member, fits⟩
      exact List.find?_eq_none.mp found process member fits

end Lookup

section Lowered

variable (named : IsName name)

include named

theorem toList_lowered : (String.ofList (lower name.toList)).toList = name.toList.map Char.toLower := by
  rw [String.toList_ofList, lower_name named.toIsItem]

theorem sameWord_lowered (word : String) :
    sameWord word (String.ofList (lower name.toList)) = sameWord word name := by
  rw [sameWord, sameWord, toList_lowered named, List.map_map]
  have twice : Char.toLower ∘ Char.toLower = Char.toLower :=
    funext Char.toLower_toLower_eq_toLower
  rw [twice]

theorem isTrimmed_lowered : IsTrimmed (String.ofList (lower name.toList)).toList := by
  rw [toList_lowered named]
  constructor
  · intro c head
    rw [List.head?_map, Option.map_eq_some_iff] at head
    obtain ⟨letter, own, rfl⟩ := head
    rw [isBlank_toLower, named.trimmed.first letter own]
  · intro c last
    rw [List.getLast?_map, Option.map_eq_some_iff] at last
    obtain ⟨letter, own, rfl⟩ := last
    rw [isBlank_toLower, named.trimmed.last letter own]

theorem hasProcess_lowered :
    scenario.HasProcess (String.ofList (lower name.toList)) ↔ scenario.HasProcess name := by
  simp only [Scenario.HasProcess, sameWord_lowered named]

theorem processByName_lowered :
    scenario.processByName (String.ofList (lower name.toList)) = .ok id ↔
      scenario.processByName name = .ok id := by
  have same : (scenario.processes.find? fun process =>
      sameWord process.name (String.ofList (lower name.toList))) =
        scenario.processes.find? fun process => sameWord process.name name := by
    simp only [sameWord_lowered named]
  cases found : scenario.processes.find? fun process => sameWord process.name name with
  | some process =>
      rw [processByName_of_some (isTrimmed_lowered named) (same.trans found),
        processByName_of_some named.trimmed found]
  | none =>
      rw [processByName_of_none (isTrimmed_lowered named) (same.trans found),
        processByName_of_none named.trimmed found]
      simp

end Lowered

def lets (processes : Option (List ProcessId)) (process : ProcessId) : Bool :=
  processes.all (·.contains process)

theorem Filter.resolve_read (names : ∀ name ∈ filter.names, IsName name) (scenario : Scenario) :
    (¬ filter.NamesUnknown scenario ∧ ∃ processes, filter.read.resolve scenario = .ok processes ∧
        ∀ process, lets processes process = true ↔ filter.Admits scenario process) ∨
      (filter.NamesUnknown scenario ∧
        ∃ name, filter.read.resolve scenario = .error (.unknownProcess name)) := by
  cases filter with
  | absent =>
      exact .inl ⟨by simp [NamesUnknown, Filter.names], none, rfl, by simp [lets, Filter.Admits]⟩
  | star =>
      exact .inl ⟨by simp [NamesUnknown, Filter.names], none, rfl, by simp [lets, Filter.Admits]⟩
  | named first more =>
      have known {name : String} (member : name ∈ first :: more) :
          scenario.HasProcess name ↔
            ∃ id, scenario.processByName (String.ofList (lower name.toList)) = .ok id := by
        have own := names name member
        simp only [processByName_lowered own]
        rcases processByName_cases own.trimmed scenario with found | missing
        · exact iff_of_true found.1 found.2
        · refine iff_of_false missing.1 ?_
          simp [missing.2]
      rcases mapM_cases scenario.processByName
        ((first :: more).map fun name => String.ofList (lower name.toList)) with
        ⟨each, ids, done, among⟩ | ⟨_, inside, error, failed, stopped⟩
      · refine .inl ⟨?_, some ids, ?_, fun process => ?_⟩
        · rintro ⟨name, member, missing⟩
          exact missing ((known member).mpr (each _ (List.mem_map_of_mem member)))
        · rw [Filter.read, ProcessFilter.resolve, done]
          rfl
        · rw [lets, Option.all_some, List.contains_eq_mem, decide_eq_true_eq, among]
          constructor
          · rintro ⟨_, inside, found⟩
            obtain ⟨name, member, rfl⟩ := List.mem_map.mp inside
            exact ⟨name, member, (processByName_lowered (names name member)).mp found⟩
          · rintro ⟨name, member, found⟩
            exact ⟨_, List.mem_map_of_mem member,
              (processByName_lowered (names name member)).mpr found⟩
      · obtain ⟨name, member, rfl⟩ := List.mem_map.mp inside
        have own := names name member
        rcases processByName_cases (isTrimmed_lowered own) scenario with found | missing
        · rw [found.2.choose_spec] at failed
          simp at failed
        · obtain rfl := Except.error.inj (missing.2.symm.trans failed)
          refine .inr ⟨⟨name, member, mt (hasProcess_lowered own).mpr missing.1⟩,
            String.ofList (lower name.toList), ?_⟩
          rw [Filter.read, ProcessFilter.resolve, stopped]
          rfl

theorem admits_iff {role : RoleFilter} {task : TaskRole} :
    role.admits task = true ↔ AdmitsRole role task := by
  cases role <;> simp [RoleFilter.admits, AdmitsRole]

variable {part : RangeTerm} {task : Task} {processes : Option (List ProcessId)}

theorem Term.ReadAs.admits_iff (read : term.ReadAs part)
    (resolved : ∀ process, lets processes process = true ↔ term.filter.Admits scenario process) :
    part.admits processes task = true ↔ term.Admits scenario task := by
  have split : part.admits processes task = (part.role.admits task.role &&
      (lets processes task.process &&
        part.patterns.any fun pattern => Glob.isMatch pattern (lower task.name.toList))) := by
    cases processes <;> simp only [RangeTerm.admits, lets, Bool.and_assoc] <;> rfl
  rw [split, Bool.and_eq_true, Bool.and_eq_true, Grammar.admits_iff, read.role, resolved,
    List.any_eq_true]
  simp only [read.patterns, Glob.isMatch_iff]
  constructor
  · rintro ⟨role, process, _, ⟨text, chosen, rfl⟩, fits⟩
    exact ⟨role, process, text, chosen, fits⟩
  · rintro ⟨role, process, text, chosen, fits⟩
    exact ⟨role, process, _, ⟨text, chosen, rfl⟩, fits⟩

theorem Term.ReadAs.resolve (read : term.ReadAs part)
    (names : ∀ name ∈ term.filter.names, IsName name) (scenario : Scenario) :
    (¬ term.filter.NamesUnknown scenario ∧ ∃ ids, part.resolve scenario = .ok ids ∧
        ∀ id, id ∈ ids ↔ ∃ task, scenario.tasks.get? id = some task ∧ term.Admits scenario task) ∨
      (term.filter.NamesUnknown scenario ∧
        ∃ name, part.resolve scenario = .error (.unknownProcess name)) := by
  rcases Filter.resolve_read names scenario with
    ⟨known, processes, done, lets⟩ | ⟨unknown, name, failed⟩
  · refine .inl ⟨known, _, by rw [RangeTerm.resolve, read.processes, done]; rfl, fun id => ?_⟩
    rw [List.mem_filter, TaskGraph.mem_ids]
    constructor
    · rintro ⟨has, admitted⟩
      cases found : scenario.tasks.get? id with
      | none => exact absurd has (TaskGraph.get?_eq_none_iff.mp found)
      | some task =>
          rw [found] at admitted
          exact ⟨task, rfl, (read.admits_iff lets).mp admitted⟩
    · rintro ⟨task, found, admitted⟩
      refine ⟨TaskGraph.has_of_get? found, ?_⟩
      rw [found]
      exact (read.admits_iff lets).mpr admitted
  · exact .inr ⟨unknown, name, by rw [RangeTerm.resolve, read.processes, failed]; rfl⟩

/-! ### Ranges -/

variable {parsed : TaskRange}

theorem Range.ReadAs.resolve (read : range.ReadAs parsed) (formed : range.WellFormed)
    (scenario : Scenario) :
    (¬ range.NamesUnknown scenario ∧ ∃ tasks, parsed.resolve scenario = .ok tasks ∧
        ∀ id, id ∈ tasks ↔
          ∃ task, scenario.tasks.get? id = some task ∧ range.Admits scenario task) ∨
      (range.NamesUnknown scenario ∧
        ∃ name, parsed.resolve scenario = .error (.unknownProcess name)) := by
  have own {term : Term} (member : term ∈ range.terms) {part : RangeTerm}
      (same : term.ReadAs part) := same.resolve (formed term member).names scenario
  rcases mapM_cases (RangeTerm.resolve scenario) parsed.terms with
    ⟨each, found, done, among⟩ | ⟨part, inside, error, failed, stopped⟩
  · have known : ¬ range.NamesUnknown scenario := by
      rintro ⟨term, member, unknown⟩
      obtain ⟨part, inside, same⟩ := read.each term member
      rcases own member same with ⟨known, -⟩ | ⟨-, name, failed⟩
      · exact known unknown
      · obtain ⟨ids, done⟩ := each part inside
        rw [failed] at done
        simp at done
    refine .inl ⟨known, _, by rw [TaskRange.resolve, done]; rfl, fun id => ?_⟩
    rw [TaskSet.mem_ofList, List.mem_flatten]
    simp only [among]
    constructor
    · rintro ⟨ids, ⟨part, inside, done⟩, member⟩
      obtain ⟨term, within, same⟩ := read.only part inside
      rcases own within same with ⟨-, others, also, admitted⟩ | ⟨-, name, failed⟩
      · obtain rfl := Except.ok.inj (done.symm.trans also)
        obtain ⟨task, here, admits⟩ := (admitted id).mp member
        exact ⟨task, here, term, within, admits⟩
      · rw [failed] at done
        simp at done
    · rintro ⟨task, here, term, within, admits⟩
      obtain ⟨part, inside, same⟩ := read.each term within
      rcases own within same with ⟨-, ids, done, admitted⟩ | ⟨unknown, -⟩
      · exact ⟨ids, ⟨part, inside, done⟩, (admitted id).mpr ⟨task, here, admits⟩⟩
      · exact absurd ⟨term, within, unknown⟩ known
  · obtain ⟨term, within, same⟩ := read.only part inside
    rcases own within same with ⟨-, ids, done, -⟩ | ⟨unknown, name, also⟩
    · rw [failed] at done
      simp at done
    · obtain rfl := Except.error.inj (failed.symm.trans also)
      exact .inr ⟨⟨term, within, unknown⟩, name, by rw [TaskRange.resolve, stopped]; rfl⟩

theorem Range.terms_join (range other : Range) :
    (range.join other).terms = range.terms ++ other.terms := rfl

theorem Range.text_join (range other : Range) :
    (range.join other).text = range.text ++ ";" ++ other.text := by
  have whole := joined_append ';' range.first.text other.first.text (range.more.map Term.text)
    (other.more.map Term.text)
  have texts : (range.join other).more.map Term.text =
      range.more.map Term.text ++ other.first.text :: other.more.map Term.text := by
    simp [Range.join, Range.terms]
  rw [← String.toList_inj, Range.text, texts]
  simpa [Range.text, Range.join] using whole

theorem Range.WellFormed.join (formed : range.WellFormed) (others : other.WellFormed) :
    (range.join other).WellFormed := by
  intro term member
  rw [Range.terms_join, List.mem_append] at member
  rcases member with first | second
  · exact formed term first
  · exact others term second

theorem Range.namesUnknown_join :
    (range.join other).NamesUnknown scenario ↔
      range.NamesUnknown scenario ∨ other.NamesUnknown scenario := by
  simp only [NamesUnknown, terms_join, List.mem_append, or_and_right, exists_or]

theorem Range.admits_join :
    (range.join other).Admits scenario task ↔
      range.Admits scenario task ∨ other.Admits scenario task := by
  simp only [Admits, terms_join, List.mem_append, or_and_right, exists_or]

theorem Range.ReadAs.mem_of_resolve {tasks : TaskSet} (read : range.ReadAs parsed)
    (formed : range.WellFormed) (done : parsed.resolve scenario = .ok tasks) :
    ¬ range.NamesUnknown scenario ∧ ∀ id, id ∈ tasks ↔
      ∃ task, scenario.tasks.get? id = some task ∧ range.Admits scenario task := by
  rcases read.resolve formed scenario with
    ⟨known, others, also, admitted⟩ | ⟨-, name, failed⟩
  · obtain rfl := Except.ok.inj (done.symm.trans also)
    exact ⟨known, admitted⟩
  · rw [failed] at done
    simp at done

theorem tasksNamed_eq_ok_iff {text : String} {tasks : TaskSet}
    (read : TaskRange.parse text = .ok parsed) :
    scenario.tasksNamed text = .ok tasks ↔ parsed.resolve scenario = .ok tasks := by
  rw [Scenario.tasksNamed, read]
  cases done : parsed.resolve scenario <;> simp [done]

theorem Range.WellFormed.tasksNamed_join {tasks more : TaskSet} (formed : range.WellFormed)
    (others : other.WellFormed) (first : scenario.tasksNamed range.text = .ok tasks)
    (second : scenario.tasksNamed other.text = .ok more) :
    ∃ both, scenario.tasksNamed (range.text ++ ";" ++ other.text) = .ok both ∧
      ∀ id, id ∈ both ↔ id ∈ tasks ∨ id ∈ more := by
  obtain ⟨left, leftParsed, leftRead⟩ := formed.parse_text
  obtain ⟨right, rightParsed, rightRead⟩ := others.parse_text
  obtain ⟨whole, wholeParsed, wholeRead⟩ := (formed.join others).parse_text
  obtain ⟨leftKnown, leftTasks⟩ :=
    leftRead.mem_of_resolve formed ((tasksNamed_eq_ok_iff leftParsed).mp first)
  obtain ⟨rightKnown, rightTasks⟩ :=
    rightRead.mem_of_resolve others ((tasksNamed_eq_ok_iff rightParsed).mp second)
  rw [← Range.text_join]
  rcases wholeRead.resolve (formed.join others) scenario with
    ⟨-, both, done, admitted⟩ | ⟨unknown, -⟩
  · refine ⟨both, (tasksNamed_eq_ok_iff wholeParsed).mpr done, fun id => ?_⟩
    rw [admitted, leftTasks, rightTasks]
    simp only [Range.admits_join, and_or_left, exists_or]
  · exact absurd (Range.namesUnknown_join.mp unknown) (not_or.mpr ⟨leftKnown, rightKnown⟩)

/-- A range in writing can be read. It resolves to an error just if it names a process that is not
there, and else to the tasks that its terms admit; and a semicolon between two ranges joins what they
resolve to. -/
theorem Range.WellFormed.parse_resolve (formed : range.WellFormed) (scenario : Scenario) :
    ∃ parsed, TaskRange.parse range.text = .ok parsed ∧
      ((∃ name, parsed.resolve scenario = .error (.unknownProcess name)) ↔
        range.NamesUnknown scenario) ∧
      (¬ range.NamesUnknown scenario → ∃ tasks, parsed.resolve scenario = .ok tasks ∧
        ∀ id, id ∈ tasks ↔
          ∃ task, scenario.tasks.get? id = some task ∧ range.Admits scenario task) ∧
      ∀ (other : Range) (tasks more : TaskSet), other.WellFormed →
        parsed.resolve scenario = .ok tasks → scenario.tasksNamed other.text = .ok more →
          ∃ both, scenario.tasksNamed (range.text ++ ";" ++ other.text) = .ok both ∧
            ∀ id, id ∈ both ↔ id ∈ tasks ∨ id ∈ more := by
  obtain ⟨parsed, written, read⟩ := formed.parse_text
  have union (other : Range) (tasks more : TaskSet) (others : other.WellFormed)
      (first : parsed.resolve scenario = .ok tasks)
      (second : scenario.tasksNamed other.text = .ok more) :=
    formed.tasksNamed_join others ((tasksNamed_eq_ok_iff written).mpr first) second
  refine ⟨parsed, written, ?_⟩
  rcases read.resolve formed scenario with
    ⟨known, tasks, done, admitted⟩ | ⟨unknown, name, failed⟩
  · refine ⟨⟨?_, fun unknown => absurd unknown known⟩, fun _ => ⟨tasks, done, admitted⟩, union⟩
    rintro ⟨name, failed⟩
    rw [done] at failed
    simp at failed
  · exact ⟨⟨fun _ => unknown, fun _ => ⟨name, failed⟩⟩, fun known => absurd unknown known, union⟩

def benches : Range :=
  { first :=
      ⟨.source, [.literal "A/", .group "1" [" 2"], .literal "/*"], .named "drill" ["LOAD"]⟩
    more := [⟨.destination, [.literal "Crusher"], .star⟩] }

def pit : Scenario :=
  { processes := [⟨⟨0⟩, "Drill"⟩, ⟨⟨1⟩, "Load"⟩, ⟨⟨2⟩, "Dump"⟩]
    tasks :=
      ⟨[{ name := "A/1/1", role := .source, process := ⟨0⟩ },
        { name := "a/2/1", role := .source, process := ⟨1⟩ },
        { name := "A/2/2", role := .source, process := ⟨2⟩ },
        { name := "Crusher", role := .destination, process := ⟨2⟩ }]⟩ }

theorem benches_resolved :
    (benches.WellFormed ∧ ¬ benches.NamesUnknown pit) ∧
      ∃ parsed, TaskRange.parse benches.text = .ok parsed ∧
        ∃ tasks, parsed.resolve pit = .ok tasks ∧
          ∀ id, id ∈ tasks ↔ ∃ task, pit.tasks.get? id = some task ∧ benches.Admits pit task := by
  have formed : benches.WellFormed := by decide +kernel
  have known : ¬ benches.NamesUnknown pit := by decide +kernel
  obtain ⟨parsed, written, -, tasks, -⟩ := formed.parse_resolve pit
  exact ⟨⟨formed, known⟩, parsed, written, tasks known⟩

def capital : Range :=
  { first := ⟨.any, [.literal "S:A"], .absent⟩, more := [] }

def twins : Scenario :=
  { processes := [⟨⟨0⟩, "Drill"⟩]
    tasks :=
      ⟨[{ name := "A", role := .source, process := ⟨0⟩ },
        { name := "S:A", role := .source, process := ⟨0⟩ }]⟩ }

/-- A role is asked for in either case of its letter, so a pattern that begins like one in capitals
is not read as it is. -/
theorem capital_asks_for_role :
    (capital.first.Writable ∧ ¬ ['s', ':'] <+: patternText capital.first.pattern ∧
        ¬ ['d', ':'] <+: patternText capital.first.pattern) ∧
      ¬ capital.NamesUnknown twins ∧ twins.tasksNamed capital.text = .ok (TaskSet.ofList [⟨0⟩]) ∧
        ¬ ∀ id, id ∈ TaskSet.ofList [⟨0⟩] ↔
          ∃ task, twins.tasks.get? id = some task ∧ capital.Admits twins task := by
  refine ⟨by decide +kernel, by decide +kernel, by decide +kernel, fun same => ?_⟩
  have fits : Glob.Matches (lower ("S:A".toList ++ [])) (lower "S:A".toList) :=
    Glob.isMatch_iff.mp (by decide +kernel)
  have admitted : (⟨1⟩ : TaskId) ∈ TaskSet.ofList [⟨0⟩] :=
    (same ⟨1⟩).mpr ⟨_, rfl, _, List.mem_cons_self, trivial, trivial, _, .literal "S:A" .nil, fits⟩
  exact absurd admitted (by decide +kernel)

end Grammar

end PathDirectives
