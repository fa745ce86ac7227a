import PathDirectives.Proofs.Cleaning
import PathDirectives.Proofs.Letters

/-!
The body of a command in writing, and what reading it gives. In either layout the keys are found
where they were written, and each value comes with the separator behind it, from which cleaning has
to free it.
-/

namespace PathDirectives

open Text

/-- An argument as a command holds it: the key is a word in lower case, and the value has no white
space around it and nothing in it that would end a body or begin another argument. -/
structure WritableArgument (argument : String × String) : Prop where
  key : IsIdentifier argument.1.toList
  lower : ∀ c ∈ argument.1.toList, c.isUpper = false
  trimmed : IsTrimmed argument.2.toList
  within : ∀ c ∈ argument.2.toList, endsBody c = false
  keyless : ¬ HoldsKey argument.2.toList

instance (argument : String × String) : Decidable (WritableArgument argument) :=
  decidable_of_iff
    (IsIdentifier argument.1.toList ∧ argument.1.toList.all (!·.isUpper) = true ∧
      IsTrimmed argument.2.toList ∧ argument.2.toList.all (!endsBody ·) = true ∧
        ¬ HoldsKey argument.2.toList)
    ⟨fun ⟨key, lower, trimmed, within, keyless⟩ =>
        ⟨key, by simpa using lower, trimmed, by simpa using within, keyless⟩,
      fun own =>
        ⟨own.key, by simpa using own.lower, own.trimmed, by simpa using own.within, own.keyless⟩⟩

structure WritablePositional (positional : String) : Prop where
  filled : positional ≠ ""
  trimmed : IsTrimmed positional.toList
  within : ∀ c ∈ positional.toList, endsBody c = false
  plain : '=' ∉ positional.toList

instance (positional : String) : Decidable (WritablePositional positional) :=
  decidable_of_iff
    (positional ≠ "" ∧ IsTrimmed positional.toList ∧
      positional.toList.all (!endsBody ·) = true ∧ '=' ∉ positional.toList)
    ⟨fun ⟨filled, trimmed, within, plain⟩ => ⟨filled, trimmed, by simpa using within, plain⟩,
      fun own => ⟨own.filled, own.trimmed, by simpa using own.within, own.plain⟩⟩

structure Command.Writable (command : Command) : Prop where
  named : command.name ≠ ""
  word : ∀ c ∈ command.name.toList, isWordChar c = true
  positional : ∀ positional, command.positional = some positional → WritablePositional positional
  arguments : ∀ argument ∈ command.named, WritableArgument argument
  ordered : command.named.Pairwise fun first second => first.1 < second.1

instance (command : Command) : Decidable command.Writable :=
  decidable_of_iff
    (command.name ≠ "" ∧ command.name.toList.all isWordChar = true ∧
      (∀ positional ∈ command.positional, WritablePositional positional) ∧
        (∀ argument ∈ command.named, WritableArgument argument) ∧
          command.named.Pairwise fun first second => first.1 < second.1)
    ⟨fun ⟨named, word, positional, arguments, ordered⟩ =>
        ⟨named, List.all_eq_true.mp word, positional, arguments, ordered⟩,
      fun own =>
        ⟨own.named, List.all_eq_true.mpr own.word, own.positional, own.arguments, own.ordered⟩⟩

inductive Layout where
  | parenthesised
  | spaced
  deriving DecidableEq

namespace Layout

def opener : Layout → Char
  | .parenthesised => '('
  | .spaced => ' '

def gap : Layout → List Char
  | .parenthesised => [',', ' ']
  | .spaced => [' ']

def stop : Layout → List Char
  | .parenthesised => [')']
  | .spaced => []

def write : Layout → Command → String
  | .parenthesised => Command.text
  | .spaced => Command.spacedText

end Layout

def tailText (gap stop : List Char) : Arguments → List Char
  | [] => stop
  | (key, value) :: more =>
      gap ++ (key.toList ++ '=' :: (value.toList ++ tailText gap stop more))

def separator (gap stop : List Char) : Arguments → List Char
  | [] => stop
  | _ :: _ => gap

def rawArguments (gap stop : List Char) : Arguments → List (List Char × List Char)
  | [] => []
  | (key, value) :: more =>
      (key.toList, value.toList ++ separator gap stop more) :: rawArguments gap stop more

def rereadArguments (gap stop : List Char) : Arguments → Arguments
  | [] => []
  | (key, value) :: more =>
      (key, String.ofList (cleanValue (value.toList ++ separator gap stop more))) ::
        rereadArguments gap stop more

def frontText : Option String → List Char
  | none => []
  | some positional => ' ' :: positional.toList

namespace Layout

def body (layout : Layout) (front blanks : List Char) : Arguments → List Char
  | [] => front ++ blanks
  | (key, value) :: more =>
      front ++ ([layout.opener] ++
        (key.toList ++ '=' :: (value.toList ++ tailText layout.gap (layout.stop ++ blanks) more)))

def frontEnd (layout : Layout) (blanks : List Char) : Arguments → List Char
  | [] => blanks
  | _ :: _ => [layout.opener]

def rereadPositional (front : List Char) : Option String :=
  if (cleanPositional front).isEmpty then none else some (String.ofList (cleanPositional front))

def reread (layout : Layout) (blanks : List Char) (command : Command) : Command :=
  { name := command.name
    positional :=
      rereadPositional (frontText command.positional ++ layout.frontEnd blanks command.named)
    named := rereadArguments layout.gap (layout.stop ++ blanks) command.named }

theorem separates_opener (layout : Layout) : Separates [layout.opener] := by
  refine separates_lead ?_
  cases layout <;> decide

theorem separates_gap (layout : Layout) : Separates layout.gap := by
  cases layout with
  | parenthesised => exact separates_comma
  | spaced => exact separates_lead (by decide)

theorem within (layout : Layout) :
    endsBody layout.opener = false ∧ (∀ c ∈ layout.gap, endsBody c = false) ∧
      ∀ c ∈ layout.stop, endsBody c = false := by
  cases layout <;> simp [opener, gap, stop, endsBody]

end Layout

variable {text gap stop front blanks : List Char} {layout : Layout} {cut : KeyCut}
  {arguments more : Arguments} {command : Command}

theorem splitValues_of_none (missing : nextKey? text = none) : splitValues text = (text, []) := by
  rw [splitValues]
  split
  · rfl
  · rename_i found
    rw [missing] at found
    simp at found

theorem splitValues_of_some (found : nextKey? text = some cut) :
    splitValues text = (cut.before, (cut.key, (splitValues cut.after).1) :: (splitValues cut.after).2) := by
  rw [splitValues]
  split
  · rename_i missing
    rw [missing] at found
    simp at found
  · rename_i other same
    rw [same] at found
    obtain rfl := Option.some.inj found
    rfl

theorem parts_of_isBlank (areBlank : ∀ c ∈ blanks, isBlank c = true) : Parts blanks where
  word c head := isWordChar_of_isBlank (areBlank c (List.mem_of_mem_head? head))
  equals := by
    have gone : trimStart blanks = [] := List.dropWhile_eq_nil_iff.mpr areBlank
    simp [gone]

theorem not_mem_of_isBlank {c : Char} (solid : isBlank c = false)
    (areBlank : ∀ d ∈ blanks, isBlank d = true) : c ∉ blanks := by
  intro member
  rw [areBlank c member] at solid
  simp at solid

theorem Layout.parts_stop (layout : Layout) (areBlank : ∀ c ∈ blanks, isBlank c = true) :
    Parts (layout.stop ++ blanks) := by
  cases layout with
  | parenthesised =>
      have solid : isBlank ')' = false := by decide
      exact ⟨by simp [stop]; decide, by simp [stop, trimStart, solid]⟩
  | spaced => exact parts_of_isBlank areBlank

theorem Layout.nextKey?_stop (layout : Layout) (areBlank : ∀ c ∈ blanks, isBlank c = true) :
    nextKey? (layout.stop ++ blanks) = none := by
  have absent := not_mem_of_isBlank (c := '=') (by decide) areBlank
  refine nextKey?_of_no_equals ?_
  cases layout <;> simpa [stop] using absent

theorem splitValues_tailText (separates : Separates gap) (parts : Parts stop)
    (keyless : nextKey? stop = none) {value : List Char} (plain : nextKey? value = none)
    (writable : ∀ argument ∈ more, WritableArgument argument) :
    splitValues (value ++ tailText gap stop more) =
      (value ++ separator gap stop more, rawArguments gap stop more) := by
  induction more generalizing value with
  | nil =>
      have missing : nextKey? (value ++ stop) = none := by
        rw [nextKey?_append plain parts, keyless]
        rfl
      exact splitValues_of_none missing
  | cons argument rest ih =>
      obtain ⟨key, next⟩ := argument
      have own := writable _ List.mem_cons_self
      have found : nextKey? (value ++ tailText gap stop ((key, next) :: rest)) =
          some ⟨value ++ gap, key.toList, next.toList ++ tailText gap stop rest⟩ := by
        rw [tailText, nextKey?_append plain (separates.parts own.key), separates.finds own.key]
        rfl
      have behind := ih (nextKey?_eq_none_iff.mpr own.keyless) fun other member =>
        writable other (List.mem_cons_of_mem _ member)
      rw [splitValues_of_some found, behind]
      rfl

section Front

variable (opens : ∀ c, front.head? = some c → isWordChar c = false)
  (areBlank : ∀ c ∈ blanks, isBlank c = true)

include opens areBlank

theorem Layout.head_body (layout : Layout) (arguments : Arguments) {c : Char}
    (head : (layout.body front blanks arguments).head? = some c) : isWordChar c = false := by
  cases front with
  | cons d rest =>
      refine opens c ?_
      cases arguments <;> exact head
  | nil =>
      cases arguments with
      | nil => exact isWordChar_of_isBlank (areBlank c (List.mem_of_mem_head? head))
      | cons argument more =>
          obtain rfl : layout.opener = c := by simpa [body] using head
          cases layout <;> decide

theorem splitBody_body (layout : Layout) (plain : '=' ∉ front)
    (writable : ∀ argument ∈ arguments, WritableArgument argument) :
    splitBody (layout.body front blanks arguments) =
      (front ++ layout.frontEnd blanks arguments,
        rawArguments layout.gap (layout.stop ++ blanks) arguments) := by
  have starts : keyHere? (layout.body front blanks arguments) = none := by
    cases whole : layout.body front blanks arguments with
    | nil => rfl
    | cons c rest =>
        have notWord := layout.head_body opens areBlank arguments (by rw [whole]; rfl)
        simp [keyHere?, isKeyStart_eq_false notWord]
  cases arguments with
  | nil =>
      have absent : '=' ∉ front ++ blanks := by
        simp [plain, not_mem_of_isBlank (c := '=') (by decide) areBlank]
      have missing : nextKey? (front ++ blanks) = none := nextKey?_of_no_equals absent
      simp only [Layout.body] at starts ⊢
      simp only [splitBody, firstKey?, starts, missing]
      rfl
  | cons argument more =>
      obtain ⟨key, value⟩ := argument
      have own := writable _ List.mem_cons_self
      have found : nextKey? (layout.body front blanks ((key, value) :: more)) =
          some ⟨front ++ [layout.opener], key.toList,
            value.toList ++ tailText layout.gap (layout.stop ++ blanks) more⟩ := by
        rw [Layout.body, nextKey?_append (nextKey?_of_no_equals plain)
          (layout.separates_opener.parts own.key), layout.separates_opener.finds own.key]
        rfl
      have cutOff := splitValues_tailText layout.separates_gap (layout.parts_stop areBlank)
        (layout.nextKey?_stop areBlank) (nextKey?_eq_none_iff.mpr own.keyless) fun other member =>
          writable other (List.mem_cons_of_mem _ member)
      simp only [splitBody, firstKey?, starts, found, cutOff]
      rfl

end Front

/-! ### Reading a body -/

theorem put_of_last {key : String} {value : String}
    (last : ∀ argument ∈ arguments, argument.1 < key) :
    Arguments.put key value arguments = arguments ++ [(key, value)] := by
  induction arguments with
  | nil => rfl
  | cons argument rest ih =>
      obtain ⟨other, old⟩ := argument
      have below : other < key := last _ List.mem_cons_self
      have notAbove : ¬ key < other := String.lt_asymm below
      have different : key ≠ other := by
        rintro rfl
        exact String.lt_irrefl key below
      rw [Arguments.put, if_neg notAbove, if_neg different,
        ih fun other member => last other (List.mem_cons_of_mem _ member)]
      rfl

theorem lower_key {argument : String × String} (writable : WritableArgument argument) :
    String.ofList (argument.1.toList.map Char.toLower) = argument.1 := by
  rw [map_toLower_of_lower writable.lower, String.ofList_toList]

theorem collectArguments_rawArguments (gap stop : List Char)
    (writable : ∀ argument ∈ arguments, WritableArgument argument)
    (ordered : (arguments.map (·.1)).Pairwise (· < ·)) :
    collectArguments (rawArguments gap stop arguments) = rereadArguments gap stop arguments := by
  suffices behind : ∀ collected : Arguments,
      ((collected ++ arguments).map (·.1)).Pairwise (· < ·) →
        (rawArguments gap stop arguments).foldl (fun kept pair =>
            Arguments.put (String.ofList (pair.1.map Char.toLower))
              (String.ofList (cleanValue pair.2)) kept) collected =
          collected ++ rereadArguments gap stop arguments from behind [] ordered
  clear ordered
  induction arguments with
  | nil => simp [rawArguments, rereadArguments]
  | cons argument rest ih =>
      intro collected ordered
      obtain ⟨key, value⟩ := argument
      have own := lower_key (writable _ List.mem_cons_self)
      have last : ∀ other ∈ collected, other.1 < key := by
        rw [List.map_append, List.pairwise_append] at ordered
        exact fun other member =>
          ordered.2.2 other.1 (List.mem_map_of_mem member) key (by simp)
      have behind := ih (fun other member => writable other (List.mem_cons_of_mem _ member))
        (collected ++ [(key, String.ofList (cleanValue (value.toList ++ separator gap stop rest)))])
        (by simpa using ordered)
      simp only [rawArguments, List.foldl_cons, own, put_of_last last, behind, rereadArguments]
      simp

theorem WritableArgument.within_key {argument : String × String}
    (writable : WritableArgument argument) : ∀ c ∈ argument.1.toList, endsBody c = false :=
  fun c member => endsBody_of_isWordChar (writable.key.isWordChar c member)

theorem within_tailText (inGap : ∀ c ∈ gap, endsBody c = false)
    (inStop : ∀ c ∈ stop, endsBody c = false)
    (writable : ∀ argument ∈ more, WritableArgument argument) :
    ∀ c ∈ tailText gap stop more, endsBody c = false := by
  induction more with
  | nil => exact inStop
  | cons argument rest ih =>
      have own := writable argument List.mem_cons_self
      have behind := ih fun other member => writable other (List.mem_cons_of_mem _ member)
      simp only [tailText, List.forall_mem_append, List.forall_mem_cons]
      exact ⟨inGap, own.within_key, by decide, own.within, behind⟩

theorem opens_frontText (positional : Option String) :
    ∀ c, (frontText positional).head? = some c → isWordChar c = false := by
  intro c head
  cases positional with
  | none => simp [frontText] at head
  | some text =>
      obtain rfl : ' ' = c := by simpa [frontText] using head
      decide

namespace Command.Writable

variable (writable : command.Writable) (areBlank : ∀ c ∈ blanks, isBlank c = true)

include writable

theorem plain_frontText : '=' ∉ frontText command.positional := by
  cases same : command.positional with
  | none => simp [frontText]
  | some text => simpa [frontText] using (writable.positional text same).plain

theorem within_frontText : ∀ c ∈ frontText command.positional, endsBody c = false := by
  intro c member
  cases same : command.positional with
  | none => simp [same, frontText] at member
  | some text =>
      rw [same] at member
      rcases List.mem_cons.mp member with rfl | inText
      · decide
      · exact (writable.positional text same).within c inText

include areBlank

/-- What is read from a body in writing, whatever white space stands behind it. -/
theorem ofBody?_body (layout : Layout) :
    Command.ofBody? command.name.toList
        (layout.body (frontText command.positional) blanks command.named) =
      some (layout.reread blanks command) := by
  have split := splitBody_body (opens_frontText command.positional) areBlank layout
    writable.plain_frontText writable.arguments
  have collected := collectArguments_rawArguments layout.gap (layout.stop ++ blanks)
    writable.arguments (List.pairwise_map.mpr writable.ordered)
  have absent : '=' ∉ frontText command.positional ++ layout.frontEnd blanks command.named := by
    rw [List.mem_append, not_or]
    refine ⟨writable.plain_frontText, ?_⟩
    cases command.named with
    | nil => exact not_mem_of_isBlank (by decide) areBlank
    | cons argument more => cases layout <;> simp [Layout.frontEnd, Layout.opener]
  have kept : (cleanPositional
      (frontText command.positional ++ layout.frontEnd blanks command.named)).contains '=' = false := by
    simpa using fun member => absent ((infix_cleanPositional _).subset member)
  simp only [Command.ofBody?, split, collected, kept, Bool.false_eq_true, if_false,
    String.ofList_toList]
  rfl

theorem within_body (layout : Layout) :
    ∀ c ∈ layout.body (frontText command.positional) blanks command.named, endsBody c = false := by
  have front := writable.within_frontText
  have behind : ∀ c ∈ blanks, endsBody c = false := fun c member =>
    endsBody_of_isBlank (areBlank c member)
  have own := writable.arguments
  revert own
  cases command.named with
  | nil =>
      intro own
      exact List.forall_mem_append.mpr ⟨front, behind⟩
  | cons argument more =>
      intro own
      obtain ⟨inOpener, inGap, inStop⟩ := layout.within
      have here := own argument List.mem_cons_self
      have tail := within_tailText inGap (List.forall_mem_append.mpr ⟨inStop, behind⟩)
        fun other member => own other (List.mem_cons_of_mem _ member)
      simp only [Layout.body, List.forall_mem_append, List.forall_mem_cons]
      exact ⟨front, ⟨inOpener, by simp⟩, here.within_key, by decide, here.within, tail⟩

end Command.Writable

theorem toList_intercalate_argumentTexts (gap : String) (stop : List Char) (key value : String)
    (more : Arguments) :
    (gap.intercalate (((key, value) :: more).map fun (key, value) => key ++ "=" ++ value)).toList ++
        stop =
      key.toList ++ '=' :: (value.toList ++ tailText gap.toList stop more) := by
  induction more generalizing key value with
  | nil => simp [tailText]
  | cons argument rest ih =>
      obtain ⟨next, other⟩ := argument
      have behind := ih next other
      rw [List.map_cons] at behind
      rw [List.map_cons, List.map_cons, String.intercalate_cons_cons, tailText, ← behind]
      simp

theorem toList_headText (command : Command) :
    command.headText.toList = '!' :: (command.name.toList ++ frontText command.positional) := by
  unfold Command.headText
  cases command.positional <;> simp [frontText]

theorem Layout.toList_write (layout : Layout) (command : Command) (blanks : List Char) :
    (layout.write command).toList ++ blanks =
      '!' :: (command.name.toList ++
        layout.body (frontText command.positional) blanks command.named) := by
  obtain ⟨name, positional, named⟩ := command
  cases named with
  | nil => cases layout <;> simp [write, Command.text, Command.spacedText, Command.argumentTexts,
      toList_headText, body]
  | cons argument more =>
      obtain ⟨key, value⟩ := argument
      cases layout with
      | parenthesised =>
          have inside := toList_intercalate_argumentTexts ", " (')' :: blanks) key value more
          simp only [write, Command.text, Command.argumentTexts, List.isEmpty_cons,
            Bool.false_eq_true, if_false, String.toList_append, List.append_assoc, toList_headText]
          rw [show ")".toList ++ blanks = ')' :: blanks from rfl, inside]
          simp [body, opener, gap, stop]
      | spaced =>
          have inside := toList_intercalate_argumentTexts " " blanks key value more
          rw [List.map_cons] at inside
          simp only [write, Command.spacedText, Command.argumentTexts, List.map_cons,
            String.intercalate_cons_cons, String.toList_append, List.append_assoc, toList_headText]
          rw [inside]
          simp [body, opener, gap, stop]

end PathDirectives
