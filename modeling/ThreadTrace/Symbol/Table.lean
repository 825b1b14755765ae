/-!
# ThreadTrace.Symbol.Table — functions by address

The symbols are kept in order of their addresses, those with one address in the order in which they
came.  The last one that is not above an address names it, if the address lies within its size; a
symbol without a size reaches up to the next.
-/

namespace ThreadTrace

structure TextSymbol where
  address : UInt64
  size : UInt64
  name : String
  deriving DecidableEq

namespace TextSymbol

/-- Where the symbol ends; an end beyond the last address is cut back to it. -/
def stop (s : TextSymbol) : Nat := min (s.address.toNat + s.size.toNat) (UInt64.size - 1)

/-- Whether an address that is not below the symbol belongs to it. -/
def reaches (s : TextSymbol) (address : UInt64) : Bool :=
  s.size == 0 || decide (address.toNat < s.stop)

end TextSymbol

/-- Symbols in ascending order of address. -/
structure SymbolTable where
  symbols : Array TextSymbol

namespace SymbolTable

def ofList (symbols : List TextSymbol) : SymbolTable :=
  ⟨(symbols.mergeSort fun a b => decide (a.address ≤ b.address)).toArray⟩

/-- The number of symbols that are not above an address, when it lies between `low` and `high`:
the middle symbol tells which half to look into. -/
def countWithin (t : SymbolTable) (address : UInt64) (low high : Nat) : Nat :=
  if low < high then
    let middle := (low + high) / 2
    match t.symbols[middle]? with
    | some s =>
      if s.address ≤ address then t.countWithin address (middle + 1) high
      else t.countWithin address low middle
    | none => low
  else low
  termination_by high - low

/-- The number of symbols that are not above an address. -/
def count (t : SymbolTable) (address : UInt64) : Nat :=
  t.countWithin address 0 t.symbols.size

/-- The symbol that an address belongs to. -/
def find? (t : SymbolTable) (address : UInt64) : Option TextSymbol :=
  match t.count address with
  | 0 => none
  | n + 1 => t.symbols[n]?.filter (·.reaches address)

end SymbolTable

end ThreadTrace
