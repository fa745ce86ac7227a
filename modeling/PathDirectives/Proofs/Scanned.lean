import PathDirectives.Proofs.WrittenBody

/-!
What scanning can find. Whatever the text, each command in it is one that can be written: words for
names and keys, arguments in order of their keys, and nothing in a value that would end it early.
-/

namespace PathDirectives

open Text

variable {text name body : List Char} {arguments : Arguments} {argument : String × String}
  {command : Command} {key value : String}

theorem mem_put (member : argument ∈ Arguments.put key value arguments) :
    argument = (key, value) ∨ argument ∈ arguments := by
  induction arguments with
  | nil => exact .inl (by simpa [Arguments.put] using member)
  | cons first rest ih =>
      obtain ⟨other, old⟩ := first
      rw [Arguments.put] at member
      split at member
      · simpa using member
      · split at member
        · rcases List.mem_cons.mp member with here | behind
          · exact .inl here
          · exact .inr (List.mem_cons_of_mem _ behind)
        · rcases List.mem_cons.mp member with rfl | behind
          · exact .inr List.mem_cons_self
          · exact (ih behind).imp_right (List.mem_cons_of_mem _)

theorem ordered_put (ordered : arguments.Pairwise fun first second => first.1 < second.1) :
    (Arguments.put key value arguments).Pairwise fun first second => first.1 < second.1 := by
  induction arguments with
  | nil => simp [Arguments.put]
  | cons first rest ih =>
      obtain ⟨other, old⟩ := first
      obtain ⟨below, inner⟩ := List.pairwise_cons.mp ordered
      rw [Arguments.put]
      split
      · rename_i less
        refine List.pairwise_cons.mpr ⟨fun argument member => ?_, ordered⟩
        rcases List.mem_cons.mp member with rfl | behind
        · exact less
        · exact String.lt_trans less (below argument behind)
      · rename_i notLess
        split
        · rename_i same
          subst same
          exact List.pairwise_cons.mpr ⟨below, inner⟩
        · rename_i different
          have greater : other < key := by
            by_contra notGreater
            exact different (String.le_antisymm notGreater notLess)
          refine List.pairwise_cons.mpr ⟨fun argument member => ?_, ih inner⟩
          rcases mem_put member with rfl | behind
          · exact greater
          · exact below argument behind

theorem collectArguments_induction {pairs : List (List Char × List Char)}
    {motive : Arguments → Prop} (empty : motive [])
    (put : ∀ pair ∈ pairs, ∀ arguments, motive arguments →
      motive (Arguments.put (String.ofList (pair.1.map Char.toLower))
        (String.ofList (cleanValue pair.2)) arguments)) :
    motive (collectArguments pairs) := by
  unfold collectArguments
  exact List.foldlRecOn pairs _ empty fun arguments holds pair member =>
    put pair member arguments holds

/-- A key and its raw value as they stand in a text. -/
structure CutFrom (text : List Char) (pair : List Char × List Char) : Prop where
  key : IsIdentifier pair.1
  within : pair.2 <:+: text
  keyless : nextKey? pair.2 = none

theorem CutFrom.of_part {part : List Char} {pair : List Char × List Char} (within : part <:+: text)
    (cut : CutFrom part pair) : CutFrom text pair :=
  { cut with within := cut.within.trans within }

theorem KeyCut.infix_after {cut : KeyCut} {blanks : List Char}
    (whole : text = cut.before ++ (cut.key ++ (blanks ++ '=' :: cut.after))) :
    cut.after <:+: text :=
  ⟨cut.before ++ (cut.key ++ (blanks ++ ['='])), [], by simp [whole]⟩

theorem splitValues_cut (text : List Char) :
    (splitValues text).1 <:+: text ∧ nextKey? (splitValues text).1 = none ∧
      ∀ pair ∈ (splitValues text).2, CutFrom text pair := by
  induction text using splitValues.induct with
  | case1 text missing =>
      rw [splitValues_of_none missing]
      exact ⟨List.infix_refl text, missing, by simp⟩
  | case2 text cut found _ _ _ ih =>
      obtain ⟨within, keyless, more⟩ := ih
      obtain ⟨identifier, before, blanks, whole⟩ := nextKey?_eq_some found
      have inside : cut.after <:+: text := KeyCut.infix_after whole
      rw [splitValues_of_some found]
      refine ⟨⟨[], _, by simpa using whole.symm⟩, before, fun pair member => ?_⟩
      rcases List.mem_cons.mp member with rfl | behind
      · exact ⟨identifier, within.trans inside, keyless⟩
      · exact (more pair behind).of_part inside

theorem firstKey?_eq_some {cut : KeyCut} (found : firstKey? body = some cut) :
    IsIdentifier cut.key ∧ cut.before <:+: body ∧ cut.after <:+: body := by
  unfold firstKey? at found
  split at found
  · rename_i key after here
    obtain rfl := Option.some.inj found
    obtain ⟨blanks, rfl, identifier, -⟩ := keyHere?_eq_some_iff.mp here
    exact ⟨identifier, List.nil_infix, ⟨key ++ (blanks ++ ['=']), [], by simp⟩⟩
  · obtain ⟨identifier, -, blanks, whole⟩ := nextKey?_eq_some found
    exact ⟨identifier, ⟨[], _, by simpa using whole.symm⟩, KeyCut.infix_after whole⟩

theorem splitBody_cut (body : List Char) :
    (splitBody body).1 <:+: body ∧ ∀ pair ∈ (splitBody body).2, CutFrom body pair := by
  unfold splitBody
  split
  · exact ⟨List.infix_refl body, by simp⟩
  · rename_i cut found
    obtain ⟨identifier, before, after⟩ := firstKey?_eq_some found
    obtain ⟨within, keyless, more⟩ := splitValues_cut cut.after
    refine ⟨before, fun pair member => ?_⟩
    rcases List.mem_cons.mp member with rfl | behind
    · exact ⟨identifier, within.trans after, keyless⟩
    · exact (more pair behind).of_part after

theorem infix_cleanValue (raw : List Char) : cleanValue raw <:+: raw :=
  (prefix_keepValue _).isInfix.trans (infix_trim raw)

theorem CutFrom.writable {pair : List Char × List Char} (cut : CutFrom body pair)
    (within : ∀ c ∈ body, endsBody c = false) :
    WritableArgument
      (String.ofList (pair.1.map Char.toLower), String.ofList (cleanValue pair.2)) where
  key := by
    rw [String.toList_ofList]
    exact cut.key.map_toLower
  lower := by
    rw [String.toList_ofList]
    intro c member
    obtain ⟨letter, -, rfl⟩ := List.mem_map.mp member
    exact Char.isUpper_toLower_eq_false letter
  trimmed := by
    rw [String.toList_ofList]
    exact isTrimmed_keepValue (isTrimmed_trim pair.2)
  within := by
    rw [String.toList_ofList]
    exact fun c member => within c (((infix_cleanValue _).trans cut.within).subset member)
  keyless := by
    rw [String.toList_ofList, ← nextKey?_eq_none_iff]
    exact nextKey?_of_part (infix_cleanValue _) cut.keyless

theorem Command.writable_of_ofBody? (filled : name ≠ []) (word : ∀ c ∈ name, isWordChar c = true)
    (within : ∀ c ∈ body, endsBody c = false) (made : Command.ofBody? name body = some command) :
    command.Writable := by
  obtain ⟨front, pairs⟩ := splitBody_cut body
  simp only [Command.ofBody?] at made
  split at made
  · simp at made
  · rename_i plain
    obtain rfl := Option.some.inj made
    refine ⟨by simpa using filled, by simpa using word, ?_, ?_, ?_⟩
    · intro positional same
      dsimp only at same
      split at same
      · simp at same
      · rename_i more
        obtain rfl := Option.some.inj same
        have inside := (infix_cleanPositional (splitBody body).1).trans front
        refine ⟨by simpa using more, ?_, ?_, ?_⟩
        · rw [String.toList_ofList]
          exact isTrimmed_cleanPositional _
        · rw [String.toList_ofList]
          exact fun c member => within c (inside.subset member)
        · rw [String.toList_ofList]
          simpa using plain
    · refine collectArguments_induction (motive := fun arguments =>
        ∀ argument ∈ arguments, WritableArgument argument) (by simp) ?_
      intro pair member arguments own argument inside
      rcases mem_put inside with rfl | before
      · exact (pairs pair member).writable within
      · exact own argument before
    · exact collectArguments_induction List.Pairwise.nil fun _ _ _ ordered => ordered_put ordered

theorem writable_of_mem_scan (member : command ∈ scan text) : command.Writable := by
  induction text using scan.induct with
  | case1 => simp [scan] at member
  | case2 rest name unnamed ih =>
      rw [scan, if_pos rfl, if_pos unnamed] at member
      exact ih member
  | case3 rest name tail named ih =>
      rw [scan, if_pos rfl, if_neg named, List.mem_append] at member
      rcases member with made | behind
      · have filled : name ≠ [] := fun empty => named (List.isEmpty_iff.mpr empty)
        refine Command.writable_of_ofBody? filled ?_ ?_ (Option.mem_toList.mp made)
        · exact fun c inside => List.all_eq_true.mp List.all_takeWhile c inside
        · intro c inside
          simpa using List.all_eq_true.mp List.all_takeWhile c inside
      · exact ih behind
  | case4 c rest other ih =>
      rw [scan, if_neg other] at member
      exact ih member

end PathDirectives
