import PathDirectives.TaskRange.Braces
import PathDirectives.TaskRange.Glob
import PathDirectives.Text.Quoted

/-!
Task ranges in writing. A range is one or more terms with semicolons between them:

    range  = term { ";" term }
    term   = [ "s:" | "d:" ] pattern [ "<" filter ">" ]
    filter = "*" | process { "," process }

The prefix restricts the term to source or destination tasks, the filter to tasks of the named
processes. A pattern may hold groups of alternatives and stars.
-/

namespace PathDirectives

inductive RoleFilter where
  | any
  | source
  | destination
  deriving DecidableEq, Repr

inductive ProcessFilter where
  | all
  | named (names : List String)
  deriving DecidableEq

structure RangeTerm where
  role : RoleFilter
  /-- Lower-case patterns without braces; a task fits if one of them does. -/
  patterns : List (List Char)
  processes : ProcessFilter
  deriving DecidableEq

structure TaskRange where
  text : String
  terms : List RangeTerm
  deriving DecidableEq

inductive RangeError where
  | empty
  | emptyName (term : String)
  | unbalancedBrace (term : String)
  | unclosedFilter (term : String)
  deriving DecidableEq

def RangeError.message : RangeError → String
  | .empty => "empty task range"
  | .emptyName term => "task range term " ++ Text.quoted term ++ " has no task name"
  | .unbalancedBrace term => "unbalanced braces in task range term " ++ Text.quoted term
  | .unclosedFilter term => "unterminated process filter in task range term " ++ Text.quoted term

def RoleFilter.split (term : List Char) : RoleFilter × List Char :=
  match term with
  | letter :: ':' :: rest =>
      if letter.toLower = 's' then (.source, rest)
      else if letter.toLower = 'd' then (.destination, rest)
      else (.any, term)
  | _ => (.any, term)

/-- The filter between angle brackets. A star among the names lets every process through, as does a
filter without names. -/
def ProcessFilter.parse (inner : List Char) : ProcessFilter :=
  let names := ((Text.pieces ',' inner).map Text.trim).filter (!·.isEmpty)
  let names := names.map fun name => String.ofList (Text.lower name)
  if names.isEmpty || names.contains "*" then .all else .named names

namespace RangeTerm

/-- A term's name and its filter. The first opening bracket begins the filter, and the term's last
character must close it. -/
def splitFilter? (rest : List Char) : Option (List Char × ProcessFilter) :=
  match Text.cutAt (· == '<') rest with
  | some (name, tail) =>
      let tail := Text.trimEnd tail
      if tail.getLast? = some '>' then some (name, ProcessFilter.parse tail.dropLast) else none
  | none => if rest.contains '>' then none else some (rest, .all)

def parse (raw : List Char) : Except RangeError RangeTerm :=
  let term := Text.trim raw
  let (role, rest) := RoleFilter.split term
  match splitFilter? rest with
  | none => .error (.unclosedFilter (String.ofList term))
  | some (name, processes) =>
      let name := Text.trim name
      if name.isEmpty then .error (.emptyName (String.ofList term))
      else
        match Braces.expand? name with
        | none => .error (.unbalancedBrace (String.ofList term))
        | some patterns => .ok { role, patterns, processes }

end RangeTerm

def TaskRange.parse (text : String) : Except RangeError TaskRange :=
  let trimmed := Text.trim text.toList
  if trimmed.isEmpty then .error .empty
  else
    ((Text.pieces ';' trimmed).mapM RangeTerm.parse).map fun terms =>
      { text := String.ofList trimmed, terms }

end PathDirectives
