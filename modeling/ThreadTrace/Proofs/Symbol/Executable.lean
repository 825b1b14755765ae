import ThreadTrace.Proofs.Symbol.Table

/-!
# ThreadTrace.Proofs.Symbol.Executable — the symbols of a program that was loaded

Loading changes nothing but the bias, and only the last load counts (`Executable.bias_loaded`).  So
where debug information has no name, the name at an address of the running program is that of a scan
of the file's symbols, at the address less the bias: `Executable.functionName?_eq_scannedName?`.
That holds whatever debug information says elsewhere, and however names are shown.
-/

namespace ThreadTrace

/-- The name that a scan of the symbols has for an address, as `shown` shows it. -/
def scannedName? (symbols : List TextSymbol) (shown : String → String) (address : UInt64) :
    Option String :=
  match scan symbols address with
  | some s =>
    if s.size = 0 ∨ address.toNat < min (s.address.toNat + s.size.toNat) (2 ^ 64 - 1) then
      some (shown s.name)
    else none
  | none => none

theorem SymbolTable.shownName?_ofList (symbols : List TextSymbol) (shown : String → String)
    (address : UInt64) :
    (ofList symbols).shownName? shown address = scannedName? symbols shown address := by
  rw [shownName?, find?_ofList, scannedName?]
  cases scan symbols address with
  | none => rfl
  | some s =>
    simp only [← TextSymbol.reaches_iff, Option.filter_some]
    split_ifs <;> rfl

namespace Executable

/-! ### Debug information -/

/-- The outermost function that has a name is the last one in the list that has. -/
theorem debugName?_eq (e : Executable) (place : UInt64) :
    e.debugName? place = (e.frames place).reverse.findSome? id := by
  unfold debugName?
  induction e.frames place using List.reverseRecOn with
  | nil => rfl
  | append_singleton frames frame ih =>
    rw [List.foldl_concat, ih, List.reverse_append, List.reverse_singleton, List.singleton_append,
      List.findSome?_cons]
    cases frame <;> rfl

/-- Debug information has no name for a place if no function there has one. -/
theorem debugName?_eq_none_iff {e : Executable} {place : UInt64} :
    e.debugName? place = none ↔ ∀ frame ∈ e.frames place, frame = none := by
  rw [debugName?_eq, List.findSome?_eq_none_iff]
  simp only [List.mem_reverse, id_eq]

/-! ### Loading -/

/-- A program that has been loaded at one address after another. -/
def loaded (e : Executable) (bases : List UInt64) : Executable := bases.foldl loadedAt e

theorem loaded_concat (e : Executable) (bases : List UInt64) (base : UInt64) :
    e.loaded (bases ++ [base]) = (e.loaded bases).loadedAt base := by
  simp [loaded, List.foldl_append]

/-- Loading changes nothing but the bias. -/
theorem loaded_eq (e : Executable) (bases : List UInt64) :
    e.loaded bases = { e with bias := (e.loaded bases).bias } := by
  induction bases using List.reverseRecOn with
  | nil => rfl
  | append_singleton bases base ih =>
    rw [loaded_concat, loadedAt]
    split_ifs
    · rw [ih]
    · exact ih

/-- Only the last load counts, and only if the program can be loaded anywhere. -/
theorem bias_loaded {e : Executable} (h : e.bias = 0) (bases : List UInt64) :
    (e.loaded bases).bias =
      match bases.getLast? with
      | some base => if e.isRelocatable then base - e.linkBase else 0
      | none => 0 := by
  induction bases using List.reverseRecOn with
  | nil => exact h
  | append_singleton bases base ih =>
    have hfixed := loaded_eq e bases
    rw [loaded_concat, loadedAt, List.getLast?_concat, hfixed]
    show (if e.isRelocatable then _ else _ : Executable).bias = if e.isRelocatable then _ else _
    split_ifs with hrelocatable
    · rfl
    · show (e.loaded bases).bias = 0
      rw [ih]
      cases bases.getLast? with
      | none => rfl
      | some last => exact if_neg hrelocatable

/-- Where in the file an address of the running program is, after these loads. -/
def fileAddress (e : Executable) (bases : List UInt64) (address : UInt64) : UInt64 :=
  match bases.getLast? with
  | some base => if e.isRelocatable then address - (base - e.linkBase) else address
  | none => address

theorem fileAddress_eq {e : Executable} (h : e.bias = 0) (bases : List UInt64) (address : UInt64) :
    e.fileAddress bases address = address - (e.loaded bases).bias := by
  rw [bias_loaded h, fileAddress]
  cases bases.getLast? with
  | none => exact (UInt64.sub_zero address).symm
  | some base =>
    show (if _ then _ else _) = _ - if _ then _ else _
    split_ifs
    · rfl
    · exact (UInt64.sub_zero address).symm

/-- Debug information and the table are asked for one place in the file. -/
theorem functionName?_loaded {e : Executable} (h : e.bias = 0) (bases : List UInt64)
    (address : UInt64) :
    let place := e.fileAddress bases address
    (e.loaded bases).functionName? address =
      (e.debugName? place <|> e.table.shownName? e.shown place) := by
  intro place
  rw [functionName?, ← fileAddress_eq h, loaded_eq]
  rfl

/-- **Names of functions are those of a scan of the file's symbols.**  The scan chooses the last of
the symbols with the greatest address that is not above the one in question, and has its name if it
has no size or the address is below its end.  Where debug information has no name, whatever it says
elsewhere and however names are shown, the name at an address of the running program is the one that
the scan has at this address less the bias of the last load. -/
theorem functionName?_eq_scannedName? (symbols : List TextSymbol) :
    (∀ shown address, (SymbolTable.ofList symbols).shownName? shown address =
      scannedName? symbols shown address) ∧
    (∀ address s, scan symbols address = some s ↔ Nearest symbols address s) ∧
    ∀ (frames : UInt64 → List (Option String)) (shown : String → String) (linkBase : UInt64)
      (isRelocatable : Bool) (bases : List UInt64) (address : UInt64),
      let e := ofSymbols frames shown symbols linkBase isRelocatable
      let place := e.fileAddress bases address
      (e.debugName? place = none ↔ ∀ frame ∈ frames place, frame = none) ∧
        (e.debugName? place = none →
          (e.loaded bases).functionName? address = scannedName? symbols shown place) := by
  refine ⟨SymbolTable.shownName?_ofList symbols, fun address s => scan_eq_some_iff, ?_⟩
  intro frames shown linkBase isRelocatable bases address e place
  refine ⟨debugName?_eq_none_iff, fun hinfo => ?_⟩
  rw [functionName?_loaded rfl bases address, hinfo, ← SymbolTable.shownName?_ofList]
  rfl

/-- Two functions at one address, a label without a size, and a function at the end of memory. -/
def crowded : List TextSymbol :=
  [⟨0x1200, 8, "late"⟩, ⟨0x1000, 0x40, "long"⟩, ⟨0x1100, 0, "label"⟩, ⟨0x1000, 0x10, "short"⟩,
    ⟨0xFFFFFFFFFFFFFFF0, 0x20, "last"⟩]

/-- Debug information for one function, into which another one was inlined. -/
def oneFunction (place : UInt64) : List (Option String) :=
  if 0x1200 ≤ place ∧ place < 0x1208 then [some "inner", some "outer", none] else []

/-- A program with these symbols that can be loaded anywhere. -/
def partlyKnown : Executable := ofSymbols oneFunction Mangled.demangle crowded 0x1000 true

theorem functionName?_partlyKnown :
    partlyKnown.debugName? 0x1204 = some "outer" ∧
      (∀ place, place < 0x1200 ∨ 0x1208 ≤ place → partlyKnown.debugName? place = none) ∧
      (partlyKnown.loaded [0x9000, 0x5000]).functionName? 0x5008 = some "short" ∧
      (partlyKnown.loaded [0x9000, 0x5000]).functionName? 0x5020 = none ∧
      (partlyKnown.loaded [0x9000, 0x5000]).functionName? 0x51FF = some "label" ∧
      (partlyKnown.loaded []).functionName? 0xFFFFFFFFFFFFFFFE = some "last" ∧
      (partlyKnown.loaded []).functionName? 0xFFFFFFFFFFFFFFFF = none := by
  have hinfo : ∀ place, place < 0x1200 ∨ 0x1208 ≤ place →
      partlyKnown.debugName? place = none := by
    intro place hplace
    have hframes : partlyKnown.frames place = [] := by
      refine if_neg fun hin => ?_
      rcases hplace with hbelow | habove
      · exact absurd hin.1 (UInt64.not_le.2 hbelow)
      · exact absurd hin.2 (UInt64.not_lt.2 habove)
    rw [debugName?_eq_none_iff, hframes]
    exact List.forall_mem_nil _
  obtain ⟨-, -, hnames⟩ := functionName?_eq_scannedName? crowded
  have hname := fun bases address =>
    (hnames oneFunction Mangled.demangle 0x1000 true bases address).2
  have hshort := hname [0x9000, 0x5000] 0x5008 (hinfo 0x1008 (.inl (by decide)))
  have hbehind := hname [0x9000, 0x5000] 0x5020 (hinfo 0x1020 (.inl (by decide)))
  have hlabel := hname [0x9000, 0x5000] 0x51FF (hinfo 0x11FF (.inl (by decide)))
  have hlast := hname [] _ (hinfo 0xFFFFFFFFFFFFFFFE (.inr (by decide)))
  have htop := hname [] _ (hinfo 0xFFFFFFFFFFFFFFFF (.inr (by decide)))
  refine ⟨rfl, hinfo, hshort.trans ?_, hbehind.trans ?_, hlabel.trans ?_, hlast.trans ?_,
    htop.trans ?_⟩ <;> decide +kernel

end Executable

end ThreadTrace
