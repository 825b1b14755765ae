import ThreadTrace.Bytes.LittleEndian

/-!
# ThreadTrace.Bytes.ByteOrder — words in either order of bytes

A file says in which order the bytes of its words come.
-/

namespace ThreadTrace

inductive ByteOrder where
  | littleEndian
  | bigEndian
  deriving DecidableEq

/-- The number whose bytes these are. -/
def ByteOrder.toNat : ByteOrder → List UInt8 → Nat
  | littleEndian, bs => LittleEndian.decode bs
  | bigEndian, bs => LittleEndian.decode bs.reverse

end ThreadTrace
