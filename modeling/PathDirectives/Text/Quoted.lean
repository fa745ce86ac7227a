import PathDirectives.Text.EscapeTable
import PathDirectives.Text.Lowercase

/-!
Text in double quotes, with escapes for quotes, backslashes and what would not show.
-/

namespace PathDirectives.Text

def isHidden (c : Char) : Bool :=
  if c.toNat < 0x80 then c.toNat < 0x20 || c.toNat == 0x7F else inRanges hiddenRanges c

def escapeChar (c : Char) : List Char :=
  if c = '\x00' then ['\\', '0']
  else if c = '\t' then ['\\', 't']
  else if c = '\n' then ['\\', 'n']
  else if c = '\r' then ['\\', 'r']
  else if c = '"' || c = '\\' then ['\\', c]
  else if isHidden c then ['\\', 'u', '\x7b'] ++ Nat.toDigits 16 c.toNat ++ ['\x7d']
  else [c]

def quoted (text : String) : String :=
  String.ofList (['"'] ++ text.toList.flatMap escapeChar ++ ['"'])

end PathDirectives.Text
