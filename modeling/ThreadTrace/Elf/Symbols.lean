import ThreadTrace.Elf.Image
import ThreadTrace.Symbol.Table
import ThreadTrace.Text.Utf8

/-!
# ThreadTrace.Elf.Symbols — the functions that a file names

A table of symbols goes with a table of texts.  Functions that have an address and a readable name
are taken from it, in its order.
-/

namespace ThreadTrace.Elf

/-- The symbols of a kind of table, and their names; there may be no such table. -/
structure SymbolSection where
  records : List (List UInt8)
  names : List UInt8

namespace SymbolSection

def empty : SymbolSection := ⟨[], []⟩

/-- The first table of a kind in a file.  The first record of a table stands for no symbol. -/
def ofImage? (i : Image) (kind : Nat) : Option SymbolSection :=
  match i.sections.find? (·.kind == kind) with
  | none => some empty
  | some s => do
    let content ← s.content? i.file
    let names ← match s.link with
      | 0 => some []
      | n => do
        let linked ← i.sections[n]?
        if linked.kind = Section.stringTable then linked.texts? i.file else none
    return ⟨(Slice.chunks (i.format.width.pick 16 24) content).drop 1, names⟩

end SymbolSection

/-- The kinds of symbols that are functions: those with an address of their own, and those whose
address is chosen when the program is loaded. -/
def isFunction (kind : Nat) : Bool := kind == 2 || kind == 10

/-- The function that a record names. -/
def textSymbol? (f : Format) (names record : List UInt8) : Option TextSymbol := do
  let kind := (f.order.toNat ((record.drop (f.width.pick 12 4)).take 1)) % 16
  let address := f.get record (.wide 4 8)
  if isFunction kind ∧ address ≠ 0 then
    let name ← Text.decode? (← Slice.textAt? names (f.get record (.word 0 0)))
    return ⟨UInt64.ofNat address, UInt64.ofNat (f.get record (.wide 8 16)), name⟩
  else none

/-- The functions of a file.  The file is unreadable if either of its tables is. -/
def textSymbols? (i : Image) : Option (List TextSymbol) := do
  let table ← SymbolSection.ofImage? i Section.symbolTable
  let _ ← SymbolSection.ofImage? i Section.dynamicSymbols
  return table.records.filterMap (textSymbol? i.format table.names)

end ThreadTrace.Elf
