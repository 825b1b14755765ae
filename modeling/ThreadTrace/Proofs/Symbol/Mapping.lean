import ThreadTrace.Proofs.Symbol.Hexadecimal
import Mathlib.Data.List.TakeWhile

/-!
# ThreadTrace.Proofs.Symbol.Mapping — which lines are mappings

A line is a mapping if its fields describe one (`Describes`), and otherwise has problems, of which
the first counts (`Problem`, `MappingError.rank`).  `parseMapping_grammar` says that this is what is
read, for every line.
-/

namespace ThreadTrace

open Text (fields)

variable {ws : List (List Char)} {before after : List Char}

/-! ### Ranges -/

/-- The first field has a dash, and these are the parts before and after its first one. -/
def HasRange (ws : List (List Char)) (before after : List Char) : Prop :=
  '-' ∉ before ∧ ws.head? = some (before ++ '-' :: after)

theorem splitDash_append (h : '-' ∉ before) (after : List Char) :
    splitDash (before ++ '-' :: after) = some (before, after) := by
  have hplain : ∀ c ∈ before, decide (c ≠ '-') = true := fun c hc =>
    decide_eq_true fun heq => h (heq ▸ hc)
  rw [splitDash, List.dropWhile_append_of_pos hplain, List.takeWhile_append_of_pos hplain]
  simp

theorem splitDash_of_notMem {range : List Char} (h : '-' ∉ range) : splitDash range = none := by
  have hplain : ∀ c ∈ range, decide (c ≠ '-') = true := fun c hc =>
    decide_eq_true fun heq => h (heq ▸ hc)
  have hnil : range.dropWhile (fun c => decide (c ≠ '-')) = [] :=
    List.dropWhile_eq_nil_iff.2 hplain
  rw [splitDash, hnil]

/-- There is one way to take a range apart. -/
theorem HasRange.eq {before' after' : List Char} (h : HasRange ws before after)
    (h' : HasRange ws before' after') : before = before' ∧ after = after' := by
  obtain ⟨hbefore, hhead⟩ := h
  obtain ⟨hbefore', hhead'⟩ := h'
  have hsplit := splitDash_append hbefore after
  rw [Option.some.inj (hhead.symm.trans hhead'), splitDash_append hbefore'] at hsplit
  cases hsplit
  exact ⟨rfl, rfl⟩

/-! ### Mappings and problems -/

/-- The fields of a line that is a mapping: a range, permissions, an offset, and the path from the
sixth field on. -/
def Describes (ws : List (List Char)) (m : Mapping) : Prop :=
  3 ≤ ws.length ∧
    (∃ before after, HasRange ws before after ∧ Spells before m.start ∧ Spells after m.stop) ∧
    (∃ offset ∈ ws[2]?, Spells offset m.offset) ∧
    m.path = if ws.length ≤ 5 then none
      else some (String.ofList (List.intercalate [' '] (ws.drop 5)))

/-- What can be the matter with the fields of a line, each thing on its own. -/
def Problem (ws : List (List Char)) : MappingError → Prop
  | .missingRange => ws = []
  | .malformedRange range => '-' ∉ range.toList ∧ ws.head? = some range.toList
  | .rangeStart cause => ∃ before after, HasRange ws before after ∧ Misspells before cause
  | .rangeEnd cause => ∃ before after, HasRange ws before after ∧ Misspells after cause
  | .missingPermissions => ws.length < 2
  | .missingOffset => ws.length < 3
  | .offset cause => ∃ offset ∈ ws[2]?, Misspells offset cause

/-- The order in which problems count. -/
def MappingError.rank : MappingError → Nat
  | .missingRange => 0
  | .malformedRange _ => 1
  | .rangeStart _ => 2
  | .rangeEnd _ => 3
  | .missingPermissions => 4
  | .missingOffset => 5
  | .offset _ => 6

/-- A problem before all others. -/
def FirstProblem (ws : List (List Char)) (e : MappingError) : Prop :=
  Problem ws e ∧ ∀ e', Problem ws e' → e.rank ≤ e'.rank

theorem Misspells.eq {cs : List Char} {e e' : NumberError} (h : Misspells cs e)
    (h' : Misspells cs e') : e = e' := by
  have heq := (parseHex_of_misspells h).symm.trans (parseHex_of_misspells h')
  cases heq
  rfl

theorem Spells.not_misspells {cs : List Char} {n : UInt64} {e : NumberError} (h : Spells cs n) :
    ¬ Misspells cs e := by
  intro he
  have hread := parseHex_eq_ok_iff.2 h
  rw [parseHex_of_misspells he] at hread
  cases hread

/-- There is one first problem at most. -/
theorem Problem.eq_of_rank_eq {e e' : MappingError} (h : Problem ws e) (h' : Problem ws e')
    (hrank : e.rank = e'.rank) : e = e' := by
  cases e <;> cases e' <;> cases hrank
  case malformedRange.malformedRange.refl =>
    have hhead := h.2.symm.trans h'.2
    rw [Option.some.injEq, String.toList_inj] at hhead
    rw [hhead]
  case rangeStart.rangeStart.refl =>
    obtain ⟨before, after, hrange, hcause⟩ := h
    obtain ⟨before', after', hrange', hcause'⟩ := h'
    obtain ⟨rfl, rfl⟩ := hrange.eq hrange'
    rw [hcause.eq hcause']
  case rangeEnd.rangeEnd.refl =>
    obtain ⟨before, after, hrange, hcause⟩ := h
    obtain ⟨before', after', hrange', hcause'⟩ := h'
    obtain ⟨rfl, rfl⟩ := hrange.eq hrange'
    rw [hcause.eq hcause']
  case offset.offset.refl =>
    obtain ⟨offset, hoffset, hcause⟩ := h
    obtain ⟨offset', hoffset', hcause'⟩ := h'
    obtain rfl := Option.some.inj (hoffset.symm.trans hoffset')
    rw [hcause.eq hcause']
  all_goals rfl

/-! ### Before which problem a line gets -/

section Rank

variable {start stop : UInt64} {e : MappingError}

theorem one_le_rank (hne : ws ≠ []) (he : Problem ws e) : 1 ≤ e.rank := by
  cases e with
  | missingRange => exact absurd he hne
  | _ => simp [MappingError.rank]

theorem HasRange.two_le_rank (h : HasRange ws before after) (he : Problem ws e) :
    2 ≤ e.rank := by
  have hne : ws ≠ [] := by
    rintro rfl
    cases h.2
  have hone := one_le_rank hne he
  cases e with
  | missingRange => exact absurd hone (by decide)
  | malformedRange range =>
    obtain ⟨hdash, hhead⟩ := he
    rw [← Option.some.inj (h.2.symm.trans hhead)] at hdash
    simp at hdash
  | _ => simp [MappingError.rank]

theorem HasRange.three_le_rank (h : HasRange ws before after) (hstart : Spells before start)
    (he : Problem ws e) : 3 ≤ e.rank := by
  have htwo := h.two_le_rank he
  cases e with
  | missingRange => exact absurd htwo (by decide)
  | malformedRange _ => simp [MappingError.rank] at htwo
  | rangeStart cause =>
    obtain ⟨before', after', h', hcause⟩ := he
    obtain ⟨rfl, rfl⟩ := h.eq h'
    exact absurd hcause hstart.not_misspells
  | _ => simp [MappingError.rank]

theorem HasRange.four_le_rank (h : HasRange ws before after) (hstart : Spells before start)
    (hstop : Spells after stop) (he : Problem ws e) : 4 ≤ e.rank := by
  have hthree := h.three_le_rank hstart he
  cases e with
  | missingRange => exact absurd hthree (by decide)
  | malformedRange _ | rangeStart _ => simp [MappingError.rank] at hthree
  | rangeEnd cause =>
    obtain ⟨before', after', h', hcause⟩ := he
    obtain ⟨rfl, rfl⟩ := h.eq h'
    exact absurd hcause hstop.not_misspells
  | _ => simp [MappingError.rank]

theorem HasRange.five_le_rank (h : HasRange ws before after) (hstart : Spells before start)
    (hstop : Spells after stop) (hlength : 2 ≤ ws.length) (he : Problem ws e) : 5 ≤ e.rank := by
  have hfour := h.four_le_rank hstart hstop he
  cases e with
  | missingRange => exact absurd hfour (by decide)
  | malformedRange _ | rangeStart _ | rangeEnd _ => simp [MappingError.rank] at hfour
  | missingPermissions => exact absurd hlength (Nat.not_le_of_lt he)
  | _ => simp [MappingError.rank]

theorem HasRange.six_le_rank (h : HasRange ws before after) (hstart : Spells before start)
    (hstop : Spells after stop) (hlength : 3 ≤ ws.length) (he : Problem ws e) : 6 ≤ e.rank := by
  have hfive := h.five_le_rank hstart hstop (by omega) he
  cases e with
  | missingRange | missingPermissions => exact absurd hfive (by decide)
  | malformedRange _ | rangeStart _ | rangeEnd _ => simp [MappingError.rank] at hfive
  | missingOffset => exact absurd hlength (Nat.not_le_of_lt he)
  | offset _ => simp [MappingError.rank]

end Rank

/-- The fields of a mapping have no problem. -/
theorem Describes.not_problem {m : Mapping} (h : Describes ws m) (e : MappingError) :
    ¬ Problem ws e := by
  intro he
  obtain ⟨hlength, ⟨before, after, hrange, hstart, hstop⟩, ⟨offset, hoffset, hspells⟩, -⟩ := h
  have hsix := hrange.six_le_rank hstart hstop hlength he
  cases e with
  | missingRange | missingPermissions | missingOffset => exact absurd hsix (by decide)
  | malformedRange _ | rangeStart _ | rangeEnd _ => simp [MappingError.rank] at hsix
  | offset cause =>
    obtain ⟨offset', hoffset', hcause⟩ := he
    obtain rfl := Option.some.inj (hoffset.symm.trans hoffset')
    exact hspells.not_misspells hcause

theorem Spells.eq {cs : List Char} {n n' : UInt64} (h : Spells cs n) (h' : Spells cs n') :
    n = n' := by
  have heq := (parseHex_eq_ok_iff.2 h).symm.trans (parseHex_eq_ok_iff.2 h')
  cases heq
  rfl

/-- Fields describe one mapping at most. -/
theorem Describes.eq {m m' : Mapping} (h : Describes ws m) (h' : Describes ws m') : m = m' := by
  obtain ⟨-, ⟨before, after, hrange, hstart, hstop⟩, ⟨offset, hoffset, hspells⟩, hpath⟩ := h
  obtain ⟨-, ⟨before', after', hrange', hstart', hstop'⟩, ⟨offset', hoffset', hspells'⟩, hpath'⟩ :=
    h'
  obtain ⟨rfl, rfl⟩ := hrange.eq hrange'
  obtain rfl := Option.some.inj (hoffset.symm.trans hoffset')
  rw [Mapping.mk.injEq]
  exact ⟨hstart.eq hstart', hstop.eq hstop', hspells.eq hspells', hpath.trans hpath'.symm⟩

/-! ### Reading -/

/-- What is read of some fields. -/
def Mapping.ofFields : List (List Char) → Except MappingError Mapping
  | [] => .error .missingRange
  | range :: rest => do
    let (start, stop) ← parseRange range
    match rest with
    | [] => throw .missingPermissions
    | [_] => throw .missingOffset
    | _ :: offset :: rest =>
      let offset ← (parseHex offset).mapError .offset
      return ⟨start, stop, offset, pathOf (rest.drop 2)⟩

theorem parseMapping_eq (line : String) :
    parseMapping line = Mapping.ofFields (fields line.toList) := rfl

/-- The fields behind the inode, with single blanks. -/
theorem pathOf_drop (ws : List (List Char)) :
    pathOf (ws.drop 5) = if ws.length ≤ 5 then none
      else some (String.ofList (List.intercalate [' '] (ws.drop 5))) := by
  split_ifs with hlength
  · rw [List.drop_of_length_le hlength]
    rfl
  · have hne : ws.drop 5 ≠ [] := by
      rwa [Ne, List.drop_eq_nil_iff]
    obtain ⟨first, more, hdrop⟩ := List.exists_cons_of_ne_nil hne
    rw [hdrop, ← Text.joined_eq_intercalate]
    rfl

/-- A range is read as its two numbers, or as the first problem of the line. -/
theorem parseRange_cases (range : List Char) (rest : List (List Char)) :
    (∃ before after start stop, HasRange (range :: rest) before after ∧ Spells before start ∧
      Spells after stop ∧ parseRange range = .ok (start, stop)) ∨
    ∃ e, parseRange range = .error e ∧ FirstProblem (range :: rest) e := by
  by_cases hdash : '-' ∈ range
  · obtain ⟨before, after, rfl, hbefore⟩ := List.eq_append_cons_of_mem hdash
    have hrange : HasRange ((before ++ '-' :: after) :: rest) before after := ⟨hbefore, rfl⟩
    rw [parseRange, splitDash_append hbefore]
    rcases spells_or_misspells before with ⟨start, hstart⟩ | ⟨cause, hcause⟩
    · rcases spells_or_misspells after with ⟨stop, hstop⟩ | ⟨cause, hcause⟩
      · refine .inl ⟨before, after, start, stop, hrange, hstart, hstop, ?_⟩
        simp only [parseHex_eq_ok_iff.2 hstart, parseHex_eq_ok_iff.2 hstop]
        rfl
      · refine .inr ⟨.rangeEnd cause, ?_, ⟨before, after, hrange, hcause⟩, ?_⟩
        · simp only [parseHex_eq_ok_iff.2 hstart, parseHex_of_misspells hcause]
          rfl
        · exact fun e' => hrange.three_le_rank hstart
    · refine .inr ⟨.rangeStart cause, ?_, ⟨before, after, hrange, hcause⟩, ?_⟩
      · simp only [parseHex_of_misspells hcause]
        rfl
      · exact fun e' => hrange.two_le_rank
  · refine .inr ⟨.malformedRange (String.ofList range), ?_, ?_, ?_⟩
    · rw [parseRange, splitDash_of_notMem hdash]
      rfl
    · exact ⟨by rwa [String.toList_ofList], by rw [String.toList_ofList]; rfl⟩
    · exact fun e' => one_le_rank (List.cons_ne_nil range rest)

/-- Fields are read as the mapping they describe, or their first problem is told. -/
theorem Mapping.ofFields_cases (ws : List (List Char)) :
    (∃ m, ofFields ws = .ok m ∧ Describes ws m) ∨
      ∃ e, ofFields ws = .error e ∧ FirstProblem ws e := by
  cases ws with
  | nil => exact .inr ⟨.missingRange, rfl, rfl, fun e' _ => Nat.zero_le _⟩
  | cons range rest =>
    rcases parseRange_cases range rest with
      ⟨before, after, start, stop, hrange, hstart, hstop, hread⟩ | ⟨e, hread, he⟩
    · rw [ofFields, hread]
      -- what is left to check is how many fields there are, and the third
      cases rest with
      | nil =>
        refine .inr ⟨.missingPermissions, rfl, Nat.one_lt_two, ?_⟩
        exact fun e' => hrange.four_le_rank hstart hstop
      | cons permissions rest =>
        cases rest with
        | nil =>
          refine .inr ⟨.missingOffset, rfl, Nat.lt_succ_self 2, ?_⟩
          exact fun e' => hrange.five_le_rank hstart hstop (Nat.le_refl 2)
        | cons offset rest =>
          have hlength : 3 ≤ (range :: permissions :: offset :: rest).length := by simp
          rcases spells_or_misspells offset with ⟨n, hn⟩ | ⟨cause, hcause⟩
          · refine .inl ⟨⟨start, stop, n, pathOf (rest.drop 2)⟩, ?_, hlength, ?_, ?_, ?_⟩
            · simp only [parseHex_eq_ok_iff.2 hn]
              rfl
            · exact ⟨before, after, hrange, hstart, hstop⟩
            · exact ⟨offset, rfl, hn⟩
            · exact pathOf_drop (range :: permissions :: offset :: rest)
          · refine .inr ⟨.offset cause, ?_, ⟨offset, rfl, hcause⟩, ?_⟩
            · simp only [parseHex_of_misspells hcause]
              rfl
            · exact fun e' => hrange.six_le_rank hstart hstop hlength
    · refine .inr ⟨e, ?_, he⟩
      rw [ofFields, hread]
      rfl

/-- **Lines are read by their grammar.**  The fields of a line are its longest stretches without
white space.  They are read as a mapping exactly if they describe it; otherwise the first problem
that they have is told, in the order of range, its start and end, permissions and offset. -/
theorem parseMapping_grammar (line : String) :
    (∀ ws, Text.Stretches line.toList ws ↔ fields line.toList = ws) ∧
    (∀ m, parseMapping line = .ok m ↔ Describes (fields line.toList) m) ∧
    ∀ e, parseMapping line = .error e ↔ FirstProblem (fields line.toList) e := by
  refine ⟨fun ws => Text.stretches_iff, fun m => ?_, fun e => ?_⟩
  all_goals rw [parseMapping_eq]
  · rcases Mapping.ofFields_cases (fields line.toList) with ⟨m', hread, hm'⟩ | ⟨e', hread, he'⟩
    · rw [hread, Except.ok.injEq]
      constructor
      · rintro rfl
        exact hm'
      · exact hm'.eq
    · rw [hread]
      constructor
      · intro h
        cases h
      · intro hm
        exact absurd he'.1 (hm.not_problem e')
  · rcases Mapping.ofFields_cases (fields line.toList) with ⟨m', hread, hm'⟩ | ⟨e', hread, he'⟩
    · rw [hread]
      constructor
      · intro h
        cases h
      · intro he
        exact absurd he.1 (hm'.not_problem e)
    · rw [hread, Except.error.injEq]
      constructor
      · rintro rfl
        exact he'
      · intro he
        exact he'.1.eq_of_rank_eq he.1 (Nat.le_antisymm (he'.2 e he.1) (he.2 e' he'.1))

/-- A sign, zeros in front and digits in either case; the permissions are not looked at. -/
example : parseMapping " +001f-fF\t? Abc" = .ok ⟨0x1F, 0xFF, 0xABC, none⟩ := by
  rw [parseMapping_eq]
  rfl

end ThreadTrace
