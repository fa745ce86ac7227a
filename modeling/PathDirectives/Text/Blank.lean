/-!
White space, as the Unicode property White_Space lists it, and text with it taken off its ends.
-/

namespace PathDirectives.Text

def isBlank (c : Char) : Bool :=
  let code := c.toNat
  (9 ≤ code && code ≤ 13) || code == 0x20 || code == 0x85 || code == 0xA0 || code == 0x1680 ||
    (0x2000 ≤ code && code ≤ 0x200A) || code == 0x2028 || code == 0x2029 || code == 0x202F ||
    code == 0x205F || code == 0x3000

def trimStart (text : List Char) : List Char :=
  text.dropWhile isBlank

def trimEnd (text : List Char) : List Char :=
  (text.reverse.dropWhile isBlank).reverse

def trim (text : List Char) : List Char :=
  trimEnd (trimStart text)

def trimmed (text : String) : String :=
  String.ofList (trim text.toList)

theorem length_trimStart_le (text : List Char) : (trimStart text).length ≤ text.length :=
  (List.dropWhile_suffix isBlank).length_le

end PathDirectives.Text
