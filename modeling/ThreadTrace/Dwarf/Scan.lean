import ThreadTrace.Bytes.ByteOrder
import ThreadTrace.Bytes.Slice

/-!
# ThreadTrace.Dwarf.Scan — fields of debug information

Debug information is read from front to back: words of a fixed size, numbers that take as many bytes
as they need, and texts that end with a zero.
-/

namespace ThreadTrace.Dwarf

/-- Debug information that cannot be read tells nothing, so the cause is not kept. -/
inductive Damage where
  | damaged
  deriving DecidableEq

abbrev Reading := Except Damage

def ofOption {α : Type} : Option α → Reading α
  | some a => .ok a
  | none => .error .damaged

/-- Readers of fields. -/
abbrev Scan := StateT (List UInt8) Reading

namespace Scan

def fail {α : Type} : Scan α := throw .damaged

def take (n : Nat) : Scan (List UInt8) := fun bs =>
  if n ≤ bs.length then .ok (bs.take n, bs.drop n) else .error .damaged

/-- A word of `n` bytes. -/
def word (order : ByteOrder) (n : Nat) : Scan Nat := return order.toNat (← take n)

def byte : Scan Nat := word .littleEndian 1

/-- A text that ends with a zero. -/
def text : Scan (List UInt8) := fun bs => ofOption (Slice.terminated? bs)

/-- The digits of a number in base 128, the lowest first; all but the last have 128 added.  After
`count` more digits there can be one that is at most `highest`, and none behind it. -/
def digits (highest : Nat) : Nat → Scan Nat
  | 0 => do
    let b ← byte
    if b ≤ highest then return b else fail
  | count + 1 => do
    let b ← byte
    if b < 128 then return b else return b - 128 + 128 * (← digits highest count)

/-- A number of at most 64 bits. -/
def number64 : Scan Nat := digits 1 9

/-- The digits of a number that may be negative: the last one, which has nothing added, stands for
less than zero from 64 on.  Behind `count` more digits there can only be one that repeats the sign.
-/
def signedDigits : Nat → Scan Int
  | 0 => do
    let b ← byte
    if b = 0 then return 0 else if b = 127 then return -1 else fail
  | count + 1 => do
    let b ← byte
    if b < 64 then return b
    else if b < 128 then return b - 128
    else return b - 128 + 128 * (← signedDigits count)

/-- A number of at most 64 bits, one of them for the sign. -/
def signed64 : Scan Int := signedDigits 9

/-- A number of at most 16 bits. -/
def number16 : Scan Nat := digits 3 2

/-- A reader for a part that has been cut out. -/
def within {α : Type} (part : List UInt8) (reader : Scan α) : Reading (α × List UInt8) :=
  reader.run part

end Scan

end ThreadTrace.Dwarf
