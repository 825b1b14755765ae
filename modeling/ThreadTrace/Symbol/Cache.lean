import ThreadTrace.Wire.Cursor

/-!
# ThreadTrace.Symbol.Cache — names of addresses, each asked for once

The names are kept in order of arrival; an index of a power of two of slots points to them and is
searched from a slot given by the address, one slot after another.  The cache never forgets and
never grows: when it is full, new addresses are refused without asking anybody.
-/

namespace ThreadTrace

/-- Whoever knows the names of addresses; asking may change what is known. -/
class Resolver (ρ : Type) where
  resolve : ρ → UInt64 → Option String × ρ

inductive CacheError where
  | full (capacity : Nat)
  | unresolved (address : UInt64)
  deriving DecidableEq

def CacheError.message : CacheError → String
  | full capacity => s!"Symbol cache is full ({capacity} entries)"
  | unresolved address => s!"No symbol found for address {Wire.hex address.toNat}"

structure Cache where
  /-- Addresses and their names, in order of arrival. -/
  entries : Array (UInt64 × String)
  /-- Each slot is vacant or holds the number of an entry. -/
  slots : Array (Option Nat)
  capacity : Nat
  /-- The number of slots is `2 ^ bits`. -/
  bits : Nat
  deriving DecidableEq

namespace Cache

/-- The least `b` with `n ≤ 2 ^ b`. -/
def bitsFor (n : Nat) : Nat := if n ≤ 1 then 0 else Nat.log2 (n - 1) + 1

/-- An empty cache for so many names. -/
def new (capacity : Nat) : Cache where
  entries := #[]
  slots := Array.replicate (1 <<< bitsFor capacity) none
  capacity := capacity
  bits := bitsFor capacity

def size (c : Cache) : Nat := c.entries.size

def isEmpty (c : Cache) : Bool := c.entries.isEmpty

/-- The fractional part of the golden ratio, times `2 ^ 32`. -/
def multiplier : UInt32 := 0x9E3779B9

/-- Where the search for an address begins: the high bits of a product, since addresses of
functions have their low bits in common. -/
def home (c : Cache) (address : UInt64) : Nat :=
  if c.bits = 0 then 0
  else
    let product := address.toUInt32 * multiplier
    (product.toNat >>> (32 - min c.bits 32)) % c.slots.size

/-- How a search ends. -/
inductive Probe where
  | hit (entry : Nat)
  | vacant (slot : Nat)
  | exhausted
  deriving DecidableEq

/-- Search `steps` slots from a given one on, and round the end of the index. -/
def probeFrom (c : Cache) (address : UInt64) : Nat → Nat → Probe
  | 0, _ => .exhausted
  | steps + 1, slot =>
    match c.slots[slot]? with
    | some (some entry) =>
      if (c.entries[entry]?.map (·.1)) = some address then .hit entry
      else c.probeFrom address steps ((slot + 1) % c.slots.size)
    | _ => .vacant slot

def probe (c : Cache) (address : UInt64) : Probe :=
  c.probeFrom address c.slots.size (c.home address)

def nameOf (c : Cache) (entry : Nat) : String := (c.entries[entry]?.map (·.2)).getD ""

/-- The stored name of an address. -/
def get? (c : Cache) (address : UInt64) : Option String :=
  match c.probe address with
  | .hit entry => some (c.nameOf entry)
  | _ => none

/-- The cache with one more entry, found from a vacant slot. -/
def insert (c : Cache) (slot : Nat) (address : UInt64) (name : String) : Cache :=
  { c with
    entries := c.entries.push (address, name)
    slots := c.slots.setIfInBounds slot (some c.entries.size) }

variable {ρ : Type} [Resolver ρ]

/-- The name of an address, asked for if it is new and there is room for it. -/
def resolve (c : Cache) (address : UInt64) (r : ρ) : Except CacheError String × Cache × ρ :=
  match c.probe address with
  | .hit entry => (.ok (c.nameOf entry), c, r)
  | .exhausted => (.error (.full c.capacity), c, r)
  | .vacant slot =>
    if c.capacity ≤ c.entries.size then (.error (.full c.capacity), c, r)
    else
      match Resolver.resolve r address with
      | (none, r) => (.error (.unresolved address), c, r)
      | (some name, r) => (.ok name, c.insert slot address name, r)

end Cache

end ThreadTrace
