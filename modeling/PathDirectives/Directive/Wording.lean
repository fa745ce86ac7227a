import PathDirectives.Text.Lowercase

/-!
Words that stand for a value. Each value has one or more words, of which the first is the one that
it is written with.
-/

namespace PathDirectives

structure Wording (α : Type) where
  entries : List (α × List String)

namespace Wording

def ofWord? {α : Type} (wording : Wording α) (word : String) : Option α :=
  (wording.entries.find? fun entry => entry.2.any (Text.sameWord · word)).map (·.1)

def word {α : Type} [DecidableEq α] (wording : Wording α) (value : α) : String :=
  match wording.entries.find? fun entry => entry.1 == value with
  | some (_, word :: _) => word
  | _ => "?"

def words {α : Type} (wording : Wording α) : List String :=
  wording.entries.filterMap (·.2.head?)

end Wording

inductive DirectiveKind where
  | enable
  | disable
  | waitFree
  | waitOn
  | dependFree
  | dependOn
  | dependClear
  | deadhead
  | timeConstrain
  | remove
  | forceComplete
  | reprioritise
  | injectSchedulePath
  deriving DecidableEq, Repr

namespace DirectiveKind

def wording : Wording DirectiveKind :=
  ⟨[(.enable, ["enable", "enabledirectives"]),
    (.disable, ["disable", "disabledirectives"]),
    (.waitFree, ["waitfree"]),
    (.waitOn, ["waiton"]),
    (.dependFree, ["dependfree"]),
    (.dependOn, ["dependon"]),
    (.dependClear, ["dependclear"]),
    (.deadhead, ["deadhead", "delayafter"]),
    (.timeConstrain, ["timeconstrain", "timeconstraint"]),
    (.remove, ["remove"]),
    (.forceComplete, ["forcecomplete", "forcecompletion"]),
    (.reprioritise, ["reprioritise", "reprioritize"]),
    (.injectSchedulePath, ["injectschedulepath"])]⟩

def ofName? (name : String) : Option DirectiveKind := wording.ofWord? name

def name (kind : DirectiveKind) : String := wording.word kind

example (kind : DirectiveKind) : ofName? kind.name = some kind := by cases kind <;> decide +kernel

def isGate : DirectiveKind → Bool
  | .enable => true
  | .disable => true
  | _ => false

end DirectiveKind

end PathDirectives
