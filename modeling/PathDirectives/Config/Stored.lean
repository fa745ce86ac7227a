import PathDirectives.Config
import PathDirectives.Json

/-!
Settings as they are stored: a JSON object with a field per setting, or the settings in order in a
list. The run's window and the enable switch must be there; the rest may be left out.
-/

namespace PathDirectives

open Calendar

def storedLayout : Layout :=
  [.year, .blank, .sign '-', .month, .blank, .sign '-', .day, .blank, .sign 'T', .hour, .blank,
   .sign ':', .minute, .blank, .sign ':', .second, .fraction, .blank]

namespace Json

def instant? : Json → Option Instant
  | .text (some value) => Instant.read? storedLayout value.toList
  | _ => none

def bool? : Json → Option Bool
  | .bool value => some value
  | _ => none

def span? : Json → Option Span
  | .number (some value) => Span.ofSeconds? value
  | _ => none

def word? : Json → Option String
  | .text value => value
  | .object [(key, .null)] => key
  | _ => none

end Json

def TimeMode.word : TimeMode → String
  | .suppress => "suppress"
  | .allow => "allow"

def RemoveTrigger.word : RemoveTrigger → String
  | .completed => "completed"
  | .available => "available"

def Json.timeMode? (value : Json) : Option TimeMode :=
  value.word?.bind fun word => [TimeMode.suppress, .allow].find? (·.word == word)

def Json.removeTrigger? (value : Json) : Option RemoveTrigger :=
  value.word?.bind fun word => [RemoveTrigger.completed, .available].find? (·.word == word)

namespace Config

def storedKeys : List String :=
  ["run_start", "run_end", "require_enable", "default_release_delay", "default_time_mode",
   "default_remove_trigger"]

def ofValues? (values : List (Option Json)) : Option Config :=
  match values with
  | [some start, some stop, some enable, delay, mode, trigger] => do
      let config : Config := { runStart := ← start.instant?, runEnd := ← stop.instant? }
      return {
        config with
        requireEnable := ← enable.bool?
        releaseDelay := ← (delay.map Json.span?).getD (some config.releaseDelay)
        timeMode := ← (mode.map Json.timeMode?).getD (some config.timeMode)
        removeTrigger := ← (trigger.map Json.removeTrigger?).getD (some config.removeTrigger) }
  | _ => none

/-- The value of a key, unless the key comes twice. -/
def storedValue? (entries : List (Option String × Json)) (key : String) :
    Option (Option Json) :=
  match entries.filter (·.1 == some key) with
  | [] => some none
  | [(_, value)] => some (some value)
  | _ => none

def ofJson? : Json → Option Config
  | .object entries =>
      if entries.all (·.1.isSome) then
        (storedKeys.mapM (storedValue? entries)).bind ofValues?
      else none
  | .list items =>
      if items.length ≤ storedKeys.length then
        ofValues? (items.map some ++ List.replicate (storedKeys.length - items.length) none)
      else none
  | _ => none

def parse? (text : String) : Option Config :=
  (Json.parse? text).bind ofJson?

def toJson (config : Config) : Json :=
  .object (storedKeys.map some |>.zip
    [.text (config.runStart.write "T"), .text (config.runEnd.write "T"),
     .bool config.requireEnable, .number config.releaseDelay.seconds,
     .text config.timeMode.word, .text config.removeTrigger.word])

end Config

end PathDirectives
