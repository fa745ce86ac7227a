import PathDirectives.Calendar.Instant
import PathDirectives.Text.Blank

/-!
Written instants. A layout lists the marks of a written form in order; reading follows it mark by
mark and must use up the text. Path text may use any of `pathLayouts`.
-/

namespace PathDirectives.Calendar

inductive Mark where
  | year
  | month
  | day
  | hour
  | minute
  | second
  | fraction
  | blank
  | sign (c : Char)

structure Fields where
  year : Int := 0
  month : Nat := 0
  day : Nat := 0
  hour : Nat := 0
  minute : Nat := 0
  second : Nat := 0
  nano : Nat := 0

def digitsValue (digits : List Char) : Nat :=
  digits.foldl (fun value c => 10 * value + (c.toNat - 48)) 0

def leadingDigits (width : Nat) (text : List Char) : List Char × List Char :=
  let digits := (text.take width).takeWhile Char.isDigit
  (digits, text.drop digits.length)

def readNumber? (width : Nat) (text : List Char) : Option (Nat × List Char) :=
  let (digits, rest) := leadingDigits width text
  if digits.isEmpty then none else some (digitsValue digits, rest)

def readField? (text : List Char) : Option (Nat × List Char) :=
  readNumber? 2 (Text.trimStart text)

/-- A year has up to four digits, or a sign and any number of digits. -/
def readYear? (text : List Char) : Option (Int × List Char) :=
  match Text.trimStart text with
  | '-' :: rest => (readNumber? rest.length rest).map fun (value, rest) => (-value, rest)
  | '+' :: rest => (readNumber? rest.length rest).map fun (value, rest) => (value, rest)
  | rest => (readNumber? 4 rest).map fun (value, rest) => (value, rest)

def readFraction? (text : List Char) : Option (Nat × List Char) :=
  match text with
  | '.' :: rest =>
      let (digits, more) := leadingDigits 9 rest
      if digits.isEmpty then none
      else some (digitsValue digits * Nat.pow 10 (9 - digits.length), more.dropWhile Char.isDigit)
  | _ => some (0, text)

def Mark.read? (fields : Fields) (text : List Char) : Mark → Option (Fields × List Char)
  | .year => (readYear? text).map fun (value, rest) => ({ fields with year := value }, rest)
  | .month => (readField? text).map fun (value, rest) => ({ fields with month := value }, rest)
  | .day => (readField? text).map fun (value, rest) => ({ fields with day := value }, rest)
  | .hour => (readField? text).map fun (value, rest) => ({ fields with hour := value }, rest)
  | .minute => (readField? text).map fun (value, rest) => ({ fields with minute := value }, rest)
  | .second => (readField? text).map fun (value, rest) => ({ fields with second := value }, rest)
  | .fraction =>
      (readFraction? text).map fun (value, rest) => ({ fields with nano := value }, rest)
  | .blank => some (fields, Text.trimStart text)
  | .sign c =>
      match text with
      | d :: rest => if d = c then some (fields, rest) else none
      | [] => none

abbrev Layout := List Mark

def Layout.read? (fields : Fields) (text : List Char) : Layout → Option Fields
  | [] => if text.isEmpty then some fields else none
  | mark :: marks =>
      match mark.read? fields text with
      | some (next, rest) => Layout.read? next rest marks
      | none => none

/-- The instant that the fields name. Second 60 is the leap second of its minute. -/
def Fields.instant? (fields : Fields) : Option Instant :=
  let date : Date := ⟨fields.year, fields.month, fields.day⟩
  if inside : firstDay ≤ date.number ∧ date.number ≤ lastDay then
    if clock : date.Valid ∧ fields.hour < 24 ∧ fields.minute < 60 ∧ fields.second < 61 ∧
        fields.nano < 1000000000 then
      some
        { day := date.number
          second := fields.hour * 3600 + fields.minute * 60 + min fields.second 59
          nano := if fields.second = 60 then 1000000000 + fields.nano else fields.nano
          firstDay_le := inside.1
          le_lastDay := inside.2
          second_lt := by omega
          nano_lt := by split <;> omega
          leap := by split <;> omega }
    else none
  else none

def Instant.read? (layout : Layout) (text : List Char) : Option Instant :=
  (layout.read? {} text).bind Fields.instant?

def dateLayout (separator : Char) : Layout :=
  [.year, .sign separator, .month, .sign separator, .day]

def minuteLayout : Layout := [.hour, .sign ':', .minute]

def secondLayout : Layout := minuteLayout ++ [.sign ':', .second]

def textLayout : Layout := dateLayout '-' ++ [.blank] ++ secondLayout ++ [.fraction]

/-- The layouts of path text, in the order in which they are tried. A bare date is its midnight. -/
def pathLayouts : List Layout :=
  [dateLayout '-' ++ [.blank] ++ secondLayout,
   dateLayout '-' ++ [.blank] ++ minuteLayout,
   dateLayout '-' ++ [.sign 'T'] ++ secondLayout,
   dateLayout '-' ++ [.sign 'T'] ++ minuteLayout,
   dateLayout '/' ++ [.blank] ++ minuteLayout,
   dateLayout '-',
   dateLayout '/']

def parseDate? (text : String) : Option Instant :=
  let trimmed := Text.trim text.toList
  pathLayouts.findSome? fun layout => Instant.read? layout trimmed

def padded (width value : Nat) : String :=
  let digits := Nat.repr value
  String.ofList (List.replicate (width - digits.length) '0') ++ digits

def yearText (year : Int) : String :=
  let digits := padded 4 year.natAbs
  if year < 0 then "-" ++ digits else if 9999 < year then "+" ++ digits else digits

/-- The shortest of no, three, six and nine digits that is exact. -/
def fractionText (nano : Nat) : String :=
  if nano = 0 then ""
  else if nano % 1000000 = 0 then "." ++ padded 3 (nano / 1000000)
  else if nano % 1000 = 0 then "." ++ padded 6 (nano / 1000)
  else "." ++ padded 9 nano

def Instant.write (separator : String) (instant : Instant) : String :=
  let date := Date.ofNumber instant.day
  let second := instant.second % 60 + instant.nano / 1000000000
  yearText date.year ++ "-" ++ padded 2 date.month ++ "-" ++ padded 2 date.day ++ separator ++
    padded 2 (instant.second / 3600) ++ ":" ++ padded 2 (instant.second / 60 % 60) ++ ":" ++
    padded 2 second ++ fractionText (instant.nano % 1000000000)

def Instant.text (instant : Instant) : String := instant.write " "

end PathDirectives.Calendar
