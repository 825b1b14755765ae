import ThreadTrace.Text.Blank
import Mathlib.Data.List.Basic

/-!
# ThreadTrace.Proofs.Text.Blank — the fields of a text are its words

Words are read as fields, whatever white space is between and around them: the fields of a text are
its longest stretches without white space (`stretches_iff`).  So what is left of a text after it was
taken apart and put together with single blanks is the text itself only if it was put together in
this way before (`joined_fields_eq_iff`).
-/

namespace ThreadTrace.Text

/-- Some characters without white space. -/
def IsWord (cs : List Char) : Prop := cs ≠ [] ∧ ∀ c ∈ cs, isBlank c = false

instance (cs : List Char) : Decidable (IsWord cs) :=
  decidable_of_iff (cs.isEmpty = false ∧ cs.all (!isBlank ·) = true) (by simp [IsWord])

variable {w cs field : List Char} {b : Char}

/-! ### Fields -/

theorem fieldsFrom_append (hw : ∀ c ∈ w, isBlank c = false) (field cs : List Char) :
    fieldsFrom field (w ++ cs) = fieldsFrom (w.reverse ++ field) cs := by
  induction w generalizing field with
  | nil => rfl
  | cons c w ih =>
    obtain ⟨hc, hw⟩ := List.forall_mem_cons.1 hw
    rw [List.cons_append, fieldsFrom, hc, if_neg Bool.false_ne_true, ih hw, List.reverse_cons,
      List.append_assoc]
    rfl

/-- White space ends a field. -/
theorem fieldsFrom_blank (hfield : field ≠ []) (hb : isBlank b) (cs : List Char) :
    fieldsFrom field (b :: cs) = field.reverse :: fields cs := by
  rw [fieldsFrom, if_pos hb, if_neg (by rwa [List.isEmpty_iff]), fields]

theorem fields_blank_cons (hb : isBlank b) (cs : List Char) : fields (b :: cs) = fields cs := by
  rw [fields, fieldsFrom, if_pos hb]
  rfl

theorem fields_word_append (hw : IsWord w) (hb : isBlank b) (cs : List Char) :
    fields (w ++ b :: cs) = w :: fields cs := by
  have hne : w.reverse ≠ [] := mt List.reverse_eq_nil_iff.1 hw.1
  rw [fields, fieldsFrom_append hw.2, List.append_nil, fieldsFrom_blank hne hb,
    List.reverse_reverse]

theorem fields_word (hw : IsWord w) : fields w = [w] := by
  have hne : w.reverse.isEmpty ≠ true := by
    rw [Ne, List.isEmpty_iff, List.reverse_eq_nil_iff]
    exact hw.1
  have hread := fieldsFrom_append hw.2 [] []
  rw [List.append_nil, List.append_nil] at hread
  rw [fields, hread, fieldsFrom, if_neg hne, List.reverse_reverse]

theorem fields_replicate_append (n : Nat) (hb : isBlank b) (cs : List Char) :
    fields (List.replicate n b ++ cs) = fields cs := by
  induction n with
  | zero => rfl
  | succ n ih => rw [List.replicate_succ, List.cons_append, fields_blank_cons hb, ih]

/-- White space at the end does not show. -/
theorem fields_concat_blank (hb : isBlank b) (cs : List Char) : fields (cs ++ [b]) = fields cs := by
  suffices h : ∀ field, fieldsFrom field (cs ++ [b]) = fieldsFrom field cs from h []
  induction cs with
  | nil =>
    intro field
    show (if isBlank b then _ else _) = fieldsFrom field []
    rw [if_pos hb]
    rfl
  | cons c cs ih =>
    intro field
    rw [List.cons_append, fieldsFrom, fieldsFrom, ih, ih]

theorem fieldsFrom_ne_nil (hfield : field ≠ []) (cs : List Char) : fieldsFrom field cs ≠ [] := by
  have hempty : ¬ field.isEmpty = true := by rwa [List.isEmpty_iff]
  induction cs generalizing field with
  | nil =>
    rw [fieldsFrom, if_neg hempty]
    exact List.cons_ne_nil _ _
  | cons c cs ih =>
    rw [fieldsFrom, if_neg hempty]
    split_ifs
    · exact List.cons_ne_nil _ _
    · exact ih (List.cons_ne_nil c field) (by simp)

/-- There is a field where anything but white space is. -/
theorem fields_cons_ne_nil (hb : isBlank b = false) (cs : List Char) : fields (b :: cs) ≠ [] := by
  rw [fields, fieldsFrom, hb, if_neg Bool.false_ne_true]
  exact fieldsFrom_ne_nil (List.cons_ne_nil b []) cs

/-- What was read of a field is a word, backwards. -/
theorem isWord_reverse (hfield : ∀ c ∈ field, isBlank c = false) (hne : ¬ field.isEmpty = true) :
    IsWord field.reverse := by
  constructor
  · rwa [Ne, List.reverse_eq_nil_iff, ← List.isEmpty_iff]
  · intro c hc
    exact hfield c (List.mem_reverse.1 hc)

theorem isWord_of_mem_fieldsFrom (hfield : ∀ c ∈ field, isBlank c = false)
    (hw : w ∈ fieldsFrom field cs) : IsWord w := by
  have hnil : ∀ c ∈ ([] : List Char), isBlank c = false := fun c hc => absurd hc List.not_mem_nil
  -- the field being read has no white space: white space ends it and a new one begins empty
  induction cs generalizing field with
  | nil =>
    rw [fieldsFrom] at hw
    split_ifs at hw with hempty
    · cases hw
    · obtain rfl := List.mem_singleton.1 hw
      exact isWord_reverse hfield hempty
  | cons c cs ih =>
    rw [fieldsFrom] at hw
    split_ifs at hw with hblank hempty
    · exact ih hnil hw
    · obtain rfl | hw := List.mem_cons.1 hw
      · exact isWord_reverse hfield hempty
      · exact ih hnil hw
    · have hc : isBlank c = false := Bool.eq_false_iff.2 hblank
      exact ih (List.forall_mem_cons.2 ⟨hc, hfield⟩) hw

theorem isWord_of_mem_fields (hw : w ∈ fields cs) : IsWord w :=
  isWord_of_mem_fieldsFrom (fun _ hc => absurd hc List.not_mem_nil) hw

/-! ### Longest stretches -/

/-- These are the longest stretches of a text without white space, in order: each has white space or
an end on either side. -/
inductive Stretches : List Char → List (List Char) → Prop where
  | blank {gap : List Char} (hgap : ∀ c ∈ gap, isBlank c) : Stretches gap []
  | word {gap w rest : List Char} {ws : List (List Char)} (hgap : ∀ c ∈ gap, isBlank c)
      (hw : IsWord w) (hend : ∀ c ∈ rest.head?, isBlank c) (hrest : Stretches rest ws) :
      Stretches (gap ++ (w ++ rest)) (w :: ws)

variable {ws : List (List Char)}

theorem fields_blank_append (hw : ∀ c ∈ w, isBlank c) (cs : List Char) :
    fields (w ++ cs) = fields cs := by
  induction w with
  | nil => rfl
  | cons c w ih =>
    obtain ⟨hc, hw⟩ := List.forall_mem_cons.1 hw
    rw [List.cons_append, fields_blank_cons hc, ih hw]

theorem Stretches.fields_eq (h : Stretches cs ws) : fields cs = ws := by
  induction h with
  | @blank gap hgap =>
    have hread := fields_blank_append hgap []
    rwa [List.append_nil] at hread
  | @word gap w rest ws hgap hw hend _ ih =>
    rw [fields_blank_append hgap]
    cases rest with
    | nil =>
      rw [List.append_nil, fields_word hw, ← ih]
      rfl
    | cons b rest =>
      have hb : isBlank b := hend b rfl
      rw [fields_word_append hw hb, ← fields_blank_cons hb, ih]

theorem Stretches.blank_cons (h : Stretches cs ws) (hb : isBlank b) : Stretches (b :: cs) ws := by
  cases h with
  | blank hgap => exact .blank (List.forall_mem_cons.2 ⟨hb, hgap⟩)
  | @word gap w rest ws hgap hw hend hrest =>
    have hlonger : ∀ c ∈ b :: gap, isBlank c := List.forall_mem_cons.2 ⟨hb, hgap⟩
    exact .word hlonger hw hend hrest

/-- A character that is no white space begins a stretch, or the first stretch goes on with it. -/
theorem Stretches.cons (h : Stretches cs ws) (hb : isBlank b = false) :
    ∃ ws', Stretches (b :: cs) ws' := by
  have hword : IsWord [b] := ⟨List.cons_ne_nil b [], by simpa using hb⟩
  have hnone : ∀ c ∈ ([] : List Char), isBlank c := fun c hc => absurd hc List.not_mem_nil
  cases h with
  | @blank gap hgap =>
    refine ⟨_, .word hnone hword (fun c hc => ?_) (.blank hgap)⟩
    exact hgap c (List.mem_of_mem_head? hc)
  | @word gap w rest ws hgap hw hend hrest =>
    cases gap with
    | nil =>
      have hlonger : IsWord (b :: w) :=
        ⟨List.cons_ne_nil b w, List.forall_mem_cons.2 ⟨hb, hw.2⟩⟩
      exact ⟨_, .word hnone hlonger hend hrest⟩
    | cons c gap =>
      refine ⟨_, .word hnone hword (fun c' hc' => ?_) (.word hgap hw hend hrest)⟩
      obtain rfl := Option.some.inj hc'
      exact hgap c List.mem_cons_self

theorem exists_stretches (cs : List Char) : ∃ ws, Stretches cs ws := by
  induction cs with
  | nil => exact ⟨[], .blank fun c hc => absurd hc List.not_mem_nil⟩
  | cons c cs ih =>
    obtain ⟨ws, hws⟩ := ih
    cases hc : isBlank c with
    | true => exact ⟨ws, hws.blank_cons hc⟩
    | false => exact hws.cons hc

/-- The fields of a text are its longest stretches without white space. -/
theorem stretches_iff : Stretches cs ws ↔ fields cs = ws := by
  constructor
  · exact Stretches.fields_eq
  · rintro rfl
    obtain ⟨ws, hws⟩ := exists_stretches cs
    rwa [hws.fields_eq]

/-! ### Words with single blanks -/

/-- The words with one blank between any two. -/
def joined : List (List Char) → List Char
  | [] => []
  | first :: rest => first ++ rest.flatMap (' ' :: ·)

theorem joined_eq_intercalate (ws : List (List Char)) : joined ws = List.intercalate [' '] ws := by
  cases ws with
  | nil => rfl
  | cons w ws =>
    induction ws generalizing w with
    | nil => simp [joined]
    | cons w' ws ih =>
      rw [List.intercalate_cons_cons, ← ih w', joined, joined, List.flatMap_cons]
      simp

theorem fields_joined {ws : List (List Char)} (h : ∀ w ∈ ws, IsWord w) :
    fields (joined ws) = ws := by
  induction ws with
  | nil => rfl
  | cons w ws ih =>
    obtain ⟨hw, hws⟩ := List.forall_mem_cons.1 h
    cases ws with
    | nil => rw [joined, List.flatMap_nil, List.append_nil, fields_word hw]
    | cons w' ws =>
      have hjoined : joined (w :: w' :: ws) = w ++ ' ' :: joined (w' :: ws) := rfl
      rw [hjoined, fields_word_append hw (by decide), ih hws]

/-- No white space at the ends, none but blanks inside, and no two of these side by side. -/
def SinglySpaced (cs : List Char) : Prop := ∃ ws, (∀ w ∈ ws, IsWord w) ∧ cs = joined ws

theorem joined_fields_eq_iff : joined (fields cs) = cs ↔ SinglySpaced cs := by
  constructor
  · intro h
    exact ⟨fields cs, fun w hw => isWord_of_mem_fields hw, h.symm⟩
  · rintro ⟨ws, hws, rfl⟩
    rw [fields_joined hws]

/-! ### Lines -/

theorem linesFrom_append (hw : '\n' ∉ w) (line cs : List Char) :
    linesFrom line (w ++ cs) = linesFrom (w.reverse ++ line) cs := by
  induction w generalizing line with
  | nil => rfl
  | cons c w ih =>
    obtain ⟨hc, hw⟩ := not_or.1 (mt List.mem_cons.2 hw)
    show (if c = '\n' then _ else linesFrom (c :: line) (w ++ cs)) = _
    rw [if_neg (Ne.symm hc), ih hw, List.reverse_cons, List.append_assoc]
    rfl

/-- The first line, but for white space at its end. -/
theorem lines_append (hw : '\n' ∉ w) (cs : List Char) :
    ∃ line, fields line = fields w ∧ lines (w ++ '\n' :: cs) = line :: lines cs := by
  rw [lines, linesFrom_append hw, List.append_nil]
  by_cases hreturn : ∃ kept, w.reverse = '\r' :: kept
  · obtain ⟨kept, hkept⟩ := hreturn
    have hend : w = kept.reverse ++ ['\r'] := by
      rw [← List.reverse_reverse w, hkept, List.reverse_cons]
    refine ⟨kept.reverse, ?_, ?_⟩
    · rw [hend, fields_concat_blank (by decide)]
    · rw [hkept]
      rfl
  · refine ⟨w, rfl, ?_⟩
    rw [linesFrom, if_pos rfl, List.reverse_reverse]
    · rfl
    · exact fun kept hkept => hreturn ⟨kept, hkept⟩

/-- Lines are read with the fields they were written with. -/
theorem map_fields_lines {ls : List (List Char)} (h : ∀ l ∈ ls, '\n' ∉ l) :
    (lines (ls.flatMap (· ++ ['\n']))).map fields = ls.map fields := by
  induction ls with
  | nil => rfl
  | cons l ls ih =>
    obtain ⟨hl, hls⟩ := List.forall_mem_cons.1 h
    obtain ⟨line, hfields, hlines⟩ := lines_append hl (ls.flatMap (· ++ ['\n']))
    rw [List.flatMap_cons, List.append_assoc, List.singleton_append, hlines, List.map_cons,
      List.map_cons, hfields, ih hls]

end ThreadTrace.Text
