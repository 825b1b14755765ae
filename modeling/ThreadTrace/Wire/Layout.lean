/-!
# ThreadTrace.Wire.Layout — the numbers of the stream format

A stream is one header and any number of chunks, each a chunk header and a payload of events.  All
integers are little-endian and nothing is padded.  A field of an event holds at most 255 bytes,
since its length is one byte.
-/

namespace ThreadTrace.Wire

/-- The first eight bytes of every stream. -/
def magic : UInt64 := 0x0BADF00D

def version : UInt64 := 3

/-- The longest field of an event; longer input is cut. -/
def maxField : Nat := 255

/-- Magic, version, timestamp unit and a reserved word. -/
def streamHeaderSize : Nat := 32

/-- Payload size, thread, process and first timestamp. -/
def chunkHeaderSize : Nat := 20

/-- Tag, timestamp and two field lengths. -/
def beginHeaderSize : Nat := 11

def maxBeginSize : Nat := beginHeaderSize + 2 * maxField

/-- Tag and timestamp. -/
def endSize : Nat := 9

/-- Tag and field length. -/
def nameHeaderSize : Nat := 2

def maxNameSize : Nat := nameHeaderSize + maxField

/-- Tag, timestamp and field length. -/
def instantHeaderSize : Nat := 10

/-- Tag and timestamp unit. -/
def unitChangeSize : Nat := 9

/-- Tag and size, followed by that many bytes without meaning. -/
def paddingHeaderSize : Nat := 5

/-- Tag and size, followed by that many bytes of somebody else's data. -/
def customHeaderSize : Nat := 5

/-- The size of a begin event whose fields have these lengths before they are cut. -/
def beginSize (nameLength argsLength : Nat) : Nat :=
  beginHeaderSize + min nameLength maxField + min argsLength maxField

/-- The size of a name event whose name has this length before it is cut. -/
def nameSize (nameLength : Nat) : Nat := nameHeaderSize + min nameLength maxField

theorem beginSize_le (n a : Nat) : beginSize n a ≤ maxBeginSize := by
  simp only [beginSize, maxBeginSize]; omega

theorem nameSize_le (n : Nat) : nameSize n ≤ maxNameSize := by
  simp only [nameSize, maxNameSize]; omega

/-! ### Tags -/

/-- The kinds of event, as their first byte tells them apart. -/
inductive Tag where
  | invalid
  | custom
  | streamOver
  | spanBegin
  | spanEnd
  | instant
  | unitChange
  | padding
  | processName
  | threadName
  deriving DecidableEq

namespace Tag

def code : Tag → UInt8
  | invalid => 0
  | custom => 1
  | streamOver => 2
  | spanBegin => 3
  | spanEnd => 4
  | instant => 5
  | unitChange => 6
  | padding => 7
  | processName => 8
  | threadName => 9

def ofCode? (code : UInt8) : Option Tag :=
  [invalid, custom, streamOver, spanBegin, spanEnd, instant, unitChange, padding, processName,
    threadName][code.toNat]?

@[simp] theorem ofCode?_code (t : Tag) : ofCode? t.code = some t := by cases t <;> rfl

end Tag

end ThreadTrace.Wire
