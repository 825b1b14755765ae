import ThreadTrace.Bytes.LittleEndian
import ThreadTrace.Text.Quoted

/-!
# ThreadTrace.Wire.Cursor — reading fields from the front of a byte string

A cursor remembers how many bytes were taken, so that running out can be reported by the length that
would have been needed.  `take_of_le` and `take_of_lt` say when bytes can be taken.
-/

namespace ThreadTrace.Wire

/-- Why bytes are not part of a stream. -/
inductive DecodeError where
  | invalidTag (code : UInt8)
  | truncated (needed available : Nat)
  | badMagic (found : UInt64)
  | unsupportedVersion (found : UInt64)
  | nonZeroReserved (found : UInt64)
  deriving DecidableEq

/-- `0x` and the hexadecimal digits of a number. -/
def hex (n : Nat) : String := "0x" ++ String.ofList (Text.hexDigits n)

/-- The same with two digits at least. -/
def hexByte (b : UInt8) : String :=
  if b < 16 then "0x0" ++ String.ofList (Text.hexDigits b.toNat) else hex b.toNat

def DecodeError.message : DecodeError → String
  | invalidTag code => s!"invalid event tag {hexByte code}"
  | truncated needed available =>
    s!"truncated input: needed {needed} bytes, {available} available"
  | badMagic found => s!"bad stream magic {hex found.toNat}"
  | unsupportedVersion found => s!"unsupported stream version {found.toNat}"
  | nonZeroReserved found => s!"reserved header field is {hex found.toNat}, expected 0"

/-- A byte string of which `taken` bytes have been read and `rest` are left. -/
structure Cursor where
  rest : List UInt8
  taken : Nat
  deriving DecidableEq

/-- Readers of fields: they move a cursor, or say why the bytes are no such field. -/
abbrev Scan := StateT Cursor (Except DecodeError)

/-- The next `n` bytes. -/
def take (n : Nat) : Scan (List UInt8) := fun c =>
  let front := c.rest.take n
  if front.length = n then .ok (front, ⟨c.rest.drop n, c.taken + n⟩)
  else .error (.truncated (c.taken + n) (c.taken + c.rest.length))

theorem take_of_le {n : Nat} {c : Cursor} (h : n ≤ c.rest.length) :
    take n c = .ok (c.rest.take n, ⟨c.rest.drop n, c.taken + n⟩) := by
  simp [take, Nat.min_eq_left h]

theorem take_of_lt {n : Nat} {c : Cursor} (h : c.rest.length < n) :
    take n c = .error (.truncated (c.taken + n) (c.taken + c.rest.length)) := by
  have hmin : ¬ min n c.rest.length = n := by omega
  simp [take, hmin]

def byte : Scan UInt8 := do return ((← take 1).headD 0)

def word32 : Scan UInt32 := do return LittleEndian.toUInt32 (← take 4)

def word64 : Scan UInt64 := do return LittleEndian.toUInt64 (← take 8)

end ThreadTrace.Wire
