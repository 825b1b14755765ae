import ThreadTrace.Proofs.Symbol.Mapping

/-!
# ThreadTrace.Proofs.Symbol.Maps — a listing of a process's memory is read as it was written

A `Listed` mapping is a line in the making: its numbers in any hexadecimal digits, its fields, and
the path with any number of blanks before it.  What is read of the line is this mapping, with single
blanks in its path (`parseMapping_of_fields`), so that a path is recovered if it has no other white
space (`recovered_eq_mapping_iff`).
-/

namespace ThreadTrace

/-! ### Lines -/

/-- A mapping as a listing has it. -/
structure Listed where
  start : Numeral
  stop : Numeral
  permissions : List Char
  offset : Numeral
  device : List Char
  inode : List Char
  /-- The number of blanks behind the inode. -/
  gap : Nat
  path : Option (List Char)
  permissions_word : Text.IsWord permissions
  device_word : Text.IsWord device
  inode_word : Text.IsWord inode
  gap_pos : path ≠ none → 0 < gap
  path_absolute : ∀ p ∈ path, p.head? = some '/' ∧ '\n' ∉ p

namespace Listed

/-- The mapping that the line stands for. -/
def mapping (w : Listed) : Mapping :=
  ⟨w.start.value, w.stop.value, w.offset.value, w.path.map String.ofList⟩

def range (w : Listed) : List Char := w.start.digits ++ '-' :: w.stop.digits

/-- What stands behind the inode. -/
def rest (w : Listed) : List Char := List.replicate w.gap ' ' ++ w.path.getD []

def line (w : Listed) : List Char :=
  w.range ++ ' ' :: (w.permissions ++ ' ' :: (w.offset.digits ++ ' ' :: (w.device ++ ' ' ::
    (w.inode ++ w.rest))))

/-- The lines, each with its end. -/
def listing (ws : List Listed) : List Char := (ws.map line).flatMap (· ++ ['\n'])

/-- The mapping with single blanks in its path. -/
def recovered (w : Listed) : Mapping :=
  { w.mapping with path := w.path.map fun p => String.ofList (Text.joined (Text.fields p)) }

/-- The line is read as the beginning of this file. -/
def Begins (w : Listed) (path : String) : Prop :=
  w.offset.value = 0 ∧ w.recovered.path = some path

/-- The least start of a line that is the beginning of the file. -/
def IsBase (ws : List Listed) (path : String) : Option UInt64 → Prop
  | none => ∀ w ∈ ws, ¬ w.Begins path
  | some base => (∃ w ∈ ws, w.Begins path ∧ w.start.value = base) ∧
      ∀ w ∈ ws, w.Begins path → base ≤ w.start.value

variable (w : Listed)

theorem isWord_range : Text.IsWord w.range := by
  refine ⟨by simp [range], fun c hc => ?_⟩
  obtain hc | hc := List.mem_append.1 hc
  · exact w.start.isWord_digits.2 c hc
  obtain rfl | hc := List.mem_cons.1 hc
  · decide
  · exact w.stop.isWord_digits.2 c hc

theorem fields_inode_rest :
    Text.fields (w.inode ++ w.rest) = w.inode :: Text.fields (w.path.getD []) := by
  rw [rest]
  cases hgap : w.gap with
  | zero =>
    have hnone : w.path = none := by
      by_contra hne
      have hpos := w.gap_pos hne
      omega
    rw [hnone, List.replicate_zero, List.nil_append, Option.getD_none, List.append_nil,
      Text.fields_word w.inode_word]
    rfl
  | succ gap =>
    rw [List.replicate_succ, List.cons_append, Text.fields_word_append w.inode_word (by decide),
      Text.fields_replicate_append gap (by decide)]

theorem fields_line : Text.fields w.line =
    w.range :: w.permissions :: w.offset.digits :: w.device :: w.inode ::
      Text.fields (w.path.getD []) := by
  rw [line, Text.fields_word_append w.isWord_range (by decide),
    Text.fields_word_append w.permissions_word (by decide),
    Text.fields_word_append w.offset.isWord_digits (by decide),
    Text.fields_word_append w.device_word (by decide), fields_inode_rest]

theorem splitDash_range : splitDash w.range = some (w.start.digits, w.stop.digits) :=
  splitDash_append (fun hdash => (plain_of_hexNat w.start.value_eq _ hdash).1 rfl) w.stop.digits

theorem parseRange_range : parseRange w.range = .ok (w.start.value, w.stop.value) := by
  rw [parseRange, splitDash_range]
  simp only [Numeral.parseHex_digits]
  rfl

/-- A path has fields, as it begins with a slash. -/
theorem pathOf_fields : pathOf (Text.fields (w.path.getD [])) = w.recovered.path := by
  rw [recovered]
  cases hpath : w.path with
  | none => rfl
  | some p =>
    obtain ⟨cs, rfl⟩ : ∃ cs, p = '/' :: cs := List.head?_eq_some_iff.1 (w.path_absolute p hpath).1
    rw [Option.getD_some, Option.map_some]
    obtain ⟨first, more, hfields⟩ :=
      List.exists_cons_of_ne_nil (Text.fields_cons_ne_nil (by decide : Text.isBlank '/' = false) cs)
    rw [hfields]
    rfl

theorem parseMapping_of_fields {cs : List Char} (h : Text.fields cs = Text.fields w.line) :
    parseMapping (String.ofList cs) = .ok w.recovered := by
  rw [parseMapping, String.toList_ofList, h, fields_line]
  simp only [parseRange_range, Numeral.parseHex_digits, List.drop_succ_cons, List.drop_zero,
    pathOf_fields]
  rfl

theorem recovered_eq_mapping_iff :
    w.recovered = w.mapping ↔ ∀ p ∈ w.path, Text.SinglySpaced p := by
  rw [recovered, mapping, Mapping.mk.injEq]
  simp only [true_and]
  cases w.path with
  | none => simp
  | some p =>
    rw [Option.map_some, Option.map_some, Option.some.injEq, String.ofList_inj,
      Text.joined_fields_eq_iff]
    simp

/-! ### Listings -/

theorem newline_notMem_line : '\n' ∉ w.line := by
  have hword : ∀ {cs}, Text.IsWord cs → '\n' ∉ cs := fun hcs hmem => by
    have hblank := hcs.2 _ hmem
    cases hblank
  have hpath : '\n' ∉ w.path.getD [] := by
    cases hpath : w.path with
    | none => exact List.not_mem_nil
    | some p => exact (w.path_absolute p hpath).2
  simp [line, rest, hword w.isWord_range, hword w.permissions_word, hword w.offset.isWord_digits,
    hword w.device_word, hword w.inode_word, hpath]

theorem mapM_parseMapping {ls : List (List Char)} {ws : List Listed}
    (h : ls.map Text.fields = (ws.map line).map Text.fields) :
    ls.mapM (parseMapping ∘ String.ofList) = .ok (ws.map recovered) := by
  induction ws generalizing ls with
  | nil =>
    obtain rfl := List.map_eq_nil_iff.1 h
    rfl
  | cons w ws ih =>
    obtain ⟨l, ls, rfl, hl, hls⟩ := List.map_eq_cons_iff.1 h
    rw [List.mapM_cons, Function.comp_apply, w.parseMapping_of_fields hl, ih hls]
    rfl

theorem parseMappings_listing (ws : List Listed) :
    parseMappings (String.ofList (listing ws)) = .ok (ws.map recovered) := by
  rw [parseMappings, String.toList_ofList, listing]
  refine mapM_parseMapping (Text.map_fields_lines fun l hl => ?_)
  obtain ⟨w, -, rfl⟩ := List.mem_map.1 hl
  exact w.newline_notMem_line

variable {w} {ws ws' : List Listed} {path : String} {base base' : Option UInt64}

theorem begins_recovered_iff : w.recovered.begins path ↔ w.Begins path := by
  simp [Mapping.begins, Begins, recovered, mapping]

theorem isBase_loadBase? (ws : List Listed) (path : String) :
    IsBase ws path (loadBase? (ws.map recovered) path) := by
  have hfound : loadBase? (ws.map recovered) path =
      ((ws.filter (·.recovered.begins path)).map (·.start.value)).min? := by
    rw [loadBase?, List.filter_map, List.map_map]
    rfl
  rw [hfound]
  cases hbase : ((ws.filter (·.recovered.begins path)).map (·.start.value)).min? with
  | none =>
    intro w hw hbegins
    rw [List.min?_eq_none_iff, List.map_eq_nil_iff, List.filter_eq_nil_iff] at hbase
    exact hbase w hw (begins_recovered_iff.2 hbegins)
  | some base =>
    obtain ⟨hmem, hle⟩ := List.min?_eq_some_iff.1 hbase
    obtain ⟨w, hw, hstart⟩ := List.mem_map.1 hmem
    obtain ⟨hw, hbegins⟩ := List.mem_filter.1 hw
    refine ⟨⟨w, hw, begins_recovered_iff.1 hbegins, hstart⟩, fun w' hw' hbegins' => hle _ ?_⟩
    exact List.mem_map_of_mem (List.mem_filter.2 ⟨hw', begins_recovered_iff.2 hbegins'⟩)

/-- There is one base at most. -/
theorem IsBase.eq (h : IsBase ws path base) (h' : IsBase ws path base') : base = base' := by
  cases base with
  | none =>
    cases base' with
    | none => rfl
    | some base' =>
      obtain ⟨⟨w, hw, hbegins, -⟩, -⟩ := h'
      exact absurd hbegins (h w hw)
  | some base =>
    obtain ⟨⟨w, hw, hbegins, rfl⟩, hle⟩ := h
    cases base' with
    | none => exact absurd hbegins (h' w hw)
    | some base' =>
      obtain ⟨⟨w', hw', hbegins', rfl⟩, hle'⟩ := h'
      exact congrArg some (UInt64.le_antisymm (hle w' hw' hbegins') (hle' w hw hbegins))

/-- In which order the lines are does not matter. -/
theorem IsBase.perm (hperm : ws.Perm ws') (h : IsBase ws path base) : IsBase ws' path base := by
  cases base with
  | none => exact fun w hw => h w (hperm.mem_iff.2 hw)
  | some base =>
    obtain ⟨⟨w, hw, hfound⟩, hle⟩ := h
    exact ⟨⟨w, hperm.mem_iff.1 hw, hfound⟩, fun w' hw' => hle w' (hperm.mem_iff.2 hw')⟩

/-- **A listing is read as its mappings, with single blanks in their paths.**  A line is read as the
mapping it stands for if the path has single blanks and no other white space, and only then: of any
other path it is the words that are recovered, so that paths with the same words are taken for one.
The load base is the least start of those lines that are read as the beginning of the file, in
whatever order the lines are. -/
theorem listing_recovered (ws : List Listed) (path : String) :
    (∀ w ∈ ws, parseMapping (String.ofList w.line) = .ok w.recovered ∧
      (w.recovered = w.mapping ↔ ∀ p ∈ w.path, Text.SinglySpaced p)) ∧
    parseMappings (String.ofList (listing ws)) = .ok (ws.map recovered) ∧
    IsBase ws path (loadBase? (ws.map recovered) path) ∧
    ∀ ws' : List Listed, ws'.Perm ws →
      loadBase? (ws'.map recovered) path = loadBase? (ws.map recovered) path := by
  refine ⟨fun w _ => ⟨w.parseMapping_of_fields rfl, w.recovered_eq_mapping_iff⟩,
    parseMappings_listing ws, isBase_loadBase? ws path, fun ws' hperm => ?_⟩
  exact ((isBase_loadBase? ws' path).perm hperm).eq (isBase_loadBase? ws path)

/-- A line with these addresses, for the beginning of a file. -/
def ofPath (start stop : UInt64) (path : String) (h : path.toList.head? = some '/')
    (hline : '\n' ∉ path.toList) : Listed where
  start := .ofUInt64 start
  stop := .ofUInt64 stop
  permissions := ['r', '-', 'x', 'p']
  offset := .ofUInt64 0
  device := ['0', '8', ':', '0', '1']
  inode := ['4', '2']
  gap := 1
  path := some path.toList
  permissions_word := by decide
  device_word := by decide
  inode_word := by decide
  gap_pos := fun _ => Nat.one_pos
  path_absolute := by
    rintro p ⟨⟩
    exact ⟨h, hline⟩

def twoBlanks : Listed := ofPath 0x1000 0x2000 "/opt/a  b" (by decide) (by decide)

def oneBlank : Listed := ofPath 0x5000 0x6000 "/opt/a b" (by decide) (by decide)

/-- Two files of which one is taken for the other, in both orders. -/
theorem listing_recovered_blanks :
    parseMapping "1000-2000 r-xp 0 08:01 42 /opt/a  b" =
        .ok ⟨0x1000, 0x2000, 0, some "/opt/a b"⟩ ∧
      twoBlanks.recovered ≠ twoBlanks.mapping ∧ oneBlank.recovered = oneBlank.mapping ∧
      [oneBlank, twoBlanks].Perm [twoBlanks, oneBlank] ∧
      loadBase? ([oneBlank, twoBlanks].map recovered) "/opt/a b" =
        loadBase? ([twoBlanks, oneBlank].map recovered) "/opt/a b" ∧
      loadBase? ([twoBlanks, oneBlank].map recovered) "/opt/a b" = some 0x1000 := by
  obtain ⟨hlines, -, -, horder⟩ := listing_recovered [twoBlanks, oneBlank] "/opt/a b"
  obtain ⟨hparsed, -⟩ := hlines twoBlanks List.mem_cons_self
  have hline : twoBlanks.line = "1000-2000 r-xp 0 08:01 42 /opt/a  b".toList := by decide +kernel
  have hread : twoBlanks.recovered = ⟨0x1000, 0x2000, 0, some "/opt/a b"⟩ := by decide +kernel
  have hperm : [oneBlank, twoBlanks].Perm [twoBlanks, oneBlank] := .swap twoBlanks oneBlank []
  refine ⟨?_, by decide +kernel, by decide +kernel, hperm, horder _ hperm, by decide +kernel⟩
  rw [← hread, ← hparsed, hline]
  rfl

end Listed

end ThreadTrace
