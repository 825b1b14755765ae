/-!
# ThreadTrace.Bytes.LittleEndian — words as little-endian bytes

A word of `n` bytes is written least significant byte first.
-/

namespace ThreadTrace.LittleEndian

/-- The `n` low bytes of a number, least significant first. -/
def encode : Nat → Nat → List UInt8
  | 0, _ => []
  | n + 1, v => UInt8.ofNat v :: encode n (v / 256)

/-- The number whose bytes these are, least significant first. -/
def decode : List UInt8 → Nat
  | [] => 0
  | b :: bs => b.toNat + 256 * decode bs

@[simp] theorem length_encode (n v : Nat) : (encode n v).length = n := by
  induction n generalizing v with
  | zero => rfl
  | succ n ih => simp [encode, ih]

/-! ### Words of 32 and 64 bits -/

def ofUInt32 (w : UInt32) : List UInt8 := encode 4 w.toNat

def ofUInt64 (w : UInt64) : List UInt8 := encode 8 w.toNat

def toUInt32 (bs : List UInt8) : UInt32 := UInt32.ofNat (decode bs)

def toUInt64 (bs : List UInt8) : UInt64 := UInt64.ofNat (decode bs)

@[simp] theorem length_ofUInt32 (w : UInt32) : (ofUInt32 w).length = 4 := length_encode 4 _

@[simp] theorem length_ofUInt64 (w : UInt64) : (ofUInt64 w).length = 8 := length_encode 8 _

end ThreadTrace.LittleEndian
