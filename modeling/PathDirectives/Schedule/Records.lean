/-!
Records of bytes, one to a line, with commas between fields. A field that starts with a quote runs
to the next quote that is not doubled; what follows that quote belongs to it as well. Empty lines
hold no record.
-/

namespace PathDirectives.Records

abbrev Field := List UInt8

abbrev Record := List Field

inductive Place where
  | recordStart
  | fieldStart
  | plain
  | quoted
  /-- Behind a quote inside a quoted field, which may be doubled or close the field. -/
  | afterQuote

/-- What has been read. Bytes, fields and records are kept last first. -/
structure Reading where
  place : Place := .recordStart
  field : List UInt8 := []
  fields : List Field := []
  records : List Record := []

def comma : UInt8 := 0x2C

def quote : UInt8 := 0x22

def endsRecord (byte : UInt8) : Bool := byte == 0x0A || byte == 0x0D

namespace Reading

def keep (reading : Reading) (place : Place) (byte : UInt8) : Reading :=
  { reading with place, field := byte :: reading.field }

def closeField (reading : Reading) : Reading :=
  { reading with
    place := .fieldStart
    field := []
    fields := reading.field.reverse :: reading.fields }

def closeRecord (reading : Reading) : Reading :=
  let closed := reading.closeField
  { place := .recordStart, records := closed.fields.reverse :: closed.records }

def unquoted (reading : Reading) (byte : UInt8) : Reading :=
  if byte == comma then reading.closeField
  else if endsRecord byte then reading.closeRecord
  else reading.keep .plain byte

def next (reading : Reading) (byte : UInt8) : Reading :=
  match reading.place with
  | .recordStart =>
      if endsRecord byte then reading
      else if byte == quote then { reading with place := .quoted }
      else reading.unquoted byte
  | .fieldStart =>
      if byte == quote then { reading with place := .quoted } else reading.unquoted byte
  | .plain => reading.unquoted byte
  | .quoted =>
      if byte == quote then { reading with place := .afterQuote } else reading.keep .quoted byte
  | .afterQuote => if byte == quote then reading.keep .quoted byte else reading.unquoted byte

def finish (reading : Reading) : List Record :=
  match reading.place with
  | .recordStart => reading.records.reverse
  | _ => reading.closeRecord.records.reverse

end Reading

def withoutMark (bytes : List UInt8) : List UInt8 :=
  match bytes with
  | 0xEF :: 0xBB :: 0xBF :: rest => rest
  | _ => bytes

def read (bytes : List UInt8) : List Record :=
  ((withoutMark bytes).foldl Reading.next {}).finish

end PathDirectives.Records
