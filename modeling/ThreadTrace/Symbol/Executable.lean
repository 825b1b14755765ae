import ThreadTrace.Dwarf.Index
import ThreadTrace.Elf.Symbols
import ThreadTrace.Symbol.Cache
import ThreadTrace.Symbol.Maps

/-!
# ThreadTrace.Symbol.Executable — the functions of a program

A program's file tells the names of its functions, in debug information and in a table of symbols.
If it can be loaded anywhere, the addresses of the running program differ from those in the file by
a constant.  Who reads debug information and how names are shown is up to the program: an
`Executable` has a function for each.
-/

namespace ThreadTrace

/-- Why the functions of a program are not known. -/
inductive LoadError where
  | unreadable (path : String)
  | malformedFile
  | malformedDebugInfo
  deriving DecidableEq

def LoadError.message : LoadError → String
  | unreadable path => s!"Failed to read binary file {path}"
  | malformedFile => "Failed to parse object file"
  | malformedDebugInfo => "Failed to load DWARF debug information"

/-- The name that a table has for an address, as `shown` shows it. -/
def SymbolTable.shownName? (t : SymbolTable) (shown : String → String) (address : UInt64) :
    Option String :=
  (t.find? address).map (shown ·.name)

structure Executable where
  /-- What debug information has for an address in the file: the functions that were called to get
  there, from the innermost inlined call on, each with its name if it has one. -/
  frames : UInt64 → List (Option String)
  /-- How the name of a symbol is shown. -/
  shown : String → String
  table : SymbolTable
  /-- The address that the beginning of the file was linked for. -/
  linkBase : UInt64
  /-- Whether the program can be loaded at any address. -/
  isRelocatable : Bool
  /-- What the addresses of the running program have more than those in the file. -/
  bias : UInt64

namespace Executable

/-- A program with these functions, loaded where it was linked for. -/
def ofSymbols (frames : UInt64 → List (Option String)) (shown : String → String)
    (symbols : List TextSymbol) (linkBase : UInt64) (isRelocatable : Bool) : Executable :=
  ⟨frames, shown, .ofList symbols, linkBase, isRelocatable, 0⟩

/-- The sections with debug information. -/
def debugSections (i : Elf.Image) : Dwarf.Sections where
  order := i.format.order
  info := i.contentOf ".debug_info"
  abbreviations := i.contentOf ".debug_abbrev"
  texts := i.contentOf ".debug_str"
  lineTexts := i.contentOf ".debug_line_str"
  textPlaces := i.contentOf ".debug_str_offsets"
  addresses := i.contentOf ".debug_addr"
  pairedRanges := i.contentOf ".debug_ranges"
  codedRanges := i.contentOf ".debug_rnglists"

/-- A program whose file has these bytes. -/
def ofBytes (file : List UInt8) : Except LoadError Executable :=
  match Elf.Image.ofBytes? file with
  | none => .error .malformedFile
  | some image =>
    match Elf.textSymbols? image with
    | none => .error .malformedFile
    | some symbols =>
      match Dwarf.Index.ofSections (debugSections image) with
      | .error _ => .error .malformedDebugInfo
      | .ok debugInfo =>
        .ok (ofSymbols debugInfo.frames Mangled.demangle symbols image.linkBase image.isRelocatable)

/-- A program from a file, which may not be readable. -/
def ofFile (path : String) (content : Option (List UInt8)) : Except LoadError Executable :=
  match content with
  | none => .error (.unreadable path)
  | some file => ofBytes file

/-- The program as it has been loaded at an address; only a program that can be is loaded anywhere
else than where it was linked for. -/
def loadedAt (e : Executable) (base : UInt64) : Executable :=
  if e.isRelocatable then { e with bias := base - e.linkBase } else e

/-- The name that debug information has for an address in the file: that of the outermost function
that has one. -/
def debugName? (e : Executable) (place : UInt64) : Option String :=
  (e.frames place).foldl (fun known frame => frame <|> known) none

/-- The name of the function at an address of the running program: the one in debug information or
else the one in the table. -/
def functionName? (e : Executable) (address : UInt64) : Option String :=
  let place := address - e.bias
  e.debugName? place <|> e.table.shownName? e.shown place

instance : Resolver Executable where
  resolve e address := (e.functionName? address, e)

/-! ### The running program -/

/-- Why the functions of the running program are not known. -/
inductive SelfError where
  /-- Nobody can say which file it is. -/
  | unlocated
  | load (cause : LoadError)
  /-- The path of its file is no text. -/
  | unreadablePath
  | base (cause : LoadBaseError)

def SelfError.message : SelfError → String
  | unlocated => "Failed to locate current executable"
  | load cause => cause.message
  | unreadablePath => "Non UTF-8 executable path"
  | base cause => cause.message

/-- The program that is running as a process.  Where it has been loaded is looked up, by the path of
its file, in the listing of the process's memory; a program that runs where it was linked for needs
no listing. -/
def ofProcess (process : UInt32) (path : Option (List UInt8)) (content : Option (List UInt8))
    (listing : Except IoFailure String) : Except SelfError Executable := do
  match path with
  | none => throw .unlocated
  | some path =>
    let e ← (ofFile (Text.lossy path) content).mapError .load
    if !e.isRelocatable then return e
    match Text.decode? path with
    | none => throw .unreadablePath
    | some path => return e.loadedAt (← (findLoadBase process listing path).mapError .base)

end Executable

end ThreadTrace
