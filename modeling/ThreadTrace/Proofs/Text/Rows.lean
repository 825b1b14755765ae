import ThreadTrace.Text.Column
import ThreadTrace.Proofs.Text.Utf8

/-!
# ThreadTrace.Proofs.Text.Rows — the rows that a text takes

A line feed or a carriage return ends a row.  A text with so many breaks takes one row more
(`length_rows`), and texts behind one another, with line feeds between them, take their own rows
(`rows_append_newline`).  Bytes that are read as text bring as many breaks as they have themselves
(`breaks_lossy`): no byte of a longer character looks like one, and none is lost with a character
that breaks off.
-/

namespace ThreadTrace.Text

/-! ### Breaks and rows -/

def isBreak (c : Char) : Bool := c = '\n' || c = '\r'

/-- The number of line breaks. -/
def breaks (s : String) : Nat := s.toList.countP isBreak

/-- What stands between the line breaks. -/
def rows (s : String) : List String := (s.toList.splitOnP isBreak).map String.ofList

@[simp] theorem breaks_append (s t : String) : breaks (s ++ t) = breaks s + breaks t := by
  rw [breaks, String.toList_append, List.countP_append]
  rfl

theorem breaks_eq_zero_iff {s : String} : breaks s = 0 ↔ ∀ c ∈ s.toList, isBreak c = false := by
  simp only [breaks, List.countP_eq_zero, Bool.not_eq_true]

theorem length_splitOnP {α : Type} (p : α → Bool) (as : List α) :
    (as.splitOnP p).length = as.countP p + 1 := by
  induction as with
  | nil => rfl
  | cons a as ih =>
    rw [List.splitOnP_cons_eq_if_modifyHead, List.countP_cons]
    split_ifs
    · rw [List.length_cons, ih]
    · rw [List.length_modifyHead, ih, Nat.add_zero]

theorem length_rows (s : String) : (rows s).length = breaks s + 1 := by
  rw [rows, List.length_map, length_splitOnP, breaks]

theorem rows_append_newline (s t : String) : rows (s ++ "\n" ++ t) = rows s ++ rows t := by
  have hlist : (s ++ "\n" ++ t).toList = s.toList ++ '\n' :: t.toList := by
    rw [String.toList_append, String.toList_append, List.append_assoc]
    rfl
  rw [rows, hlist, List.splitOnP_append_cons _ _ rfl, List.map_append, rows, rows]

theorem rows_eq_singleton {s : String} (h : breaks s = 0) : rows s = [s] := by
  rw [rows, List.splitOnP_eq_singleton (breaks_eq_zero_iff.1 h), List.map_singleton,
    String.ofList_toList]

/-- Texts that each end with a line feed take their rows, and an empty one behind them. -/
theorem rows_join (ss : List String) :
    rows (String.join (ss.map (· ++ "\n"))) = ss.flatMap rows ++ [""] := by
  induction ss with
  | nil => rfl
  | cons s ss ih =>
    rw [List.map_cons, String.join_cons, rows_append_newline, ih, List.flatMap_cons,
      List.append_assoc]

theorem breaks_padLeft (width : Nat) (s : String) : breaks (padLeft width s) = breaks s := by
  have hblanks : breaks (String.ofList (List.replicate (width - s.length) ' ')) = 0 := by
    rw [breaks_eq_zero_iff, String.toList_ofList]
    intro c hc
    rw [List.eq_of_mem_replicate hc]
    rfl
  rw [padLeft, breaks_append, hblanks, Nat.zero_add]

theorem isBreak_of_isDigit {c : Char} (h : c.isDigit = true) : isBreak c = false := by
  rw [isBreak, Bool.or_eq_false_iff, decide_eq_false_iff_not, decide_eq_false_iff_not]
  constructor <;> rintro rfl <;> cases h

theorem breaks_toString (n : Nat) : breaks (toString n) = 0 := by
  rw [breaks_eq_zero_iff]
  intro c hc
  exact isBreak_of_isDigit (Nat.isDigit_of_mem_toDigits (by decide) (Nat.le_refl 10)
    (Nat.toList_repr ▸ hc))

/-! ### Bytes that are read as text -/

namespace Utf8State

/-- In the middle of a character, no byte below 0x80 goes on with it, and its code will be above those
of one byte. -/
def Multibyte : Utf8State → Prop
  | between => True
  | inside p => 0x80 ≤ p.low ∧ 2 ≤ p.code * 64 + (p.low - 0x80) ∧ (p.missing = 1 → 2 ≤ p.code)

theorem multibyte_start (b : UInt8) : (start b).2.Multibyte := by
  unfold start
  simp only
  split_ifs <;> simp only [Multibyte] <;> omega

theorem multibyte_next {state : Utf8State} (h : state.Multibyte) (b : UInt8) :
    (state.next b).2.Multibyte := by
  cases state with
  | between => exact multibyte_start b
  | inside p =>
    obtain ⟨hlow, hcode, -⟩ := h
    simp only [next]
    split_ifs with hrange hmissing
    · trivial
    · simp only [Multibyte]
      omega
    · exact multibyte_start b

section Counting

/-! A property of characters that only those of one byte have. -/

variable {p : Char → Bool} (hp : ∀ c, p c = true → 0 < c.toNat ∧ c.toNat < 0x80)

include hp

theorem eq_false_of_code {n : Nat} (hn : 0x80 ≤ n) : p (Char.ofNat n) = false := by
  by_contra hc
  obtain ⟨hpos, hlt⟩ := hp _ (eq_true_of_ne_false hc)
  by_cases hvalid : n.isValidChar
  · rw [Char.ofNat, dif_pos hvalid] at hlt
    exact absurd hn (Nat.not_le_of_lt hlt)
  · rw [Char.ofNat, dif_neg hvalid] at hpos
    exact absurd hpos (Nat.lt_irrefl 0)

theorem eq_false_of_broken : p Utf8Item.broken.shown = false :=
  eq_false_of_code hp (by decide : 0x80 ≤ 0xFFFD)

theorem countP_start (b : UInt8) :
    ((start b).1.map Utf8Item.shown).countP p = if p (Char.ofNat b.toNat) then 1 else 0 := by
  by_cases hone : b.toNat < 0x80
  · rw [start_one hone]
    exact List.countP_singleton
  · have hitems : (start b).1 = [] ∨ (start b).1 = [.broken] := by
      simp only [start, hone, if_false]
      split_ifs <;> simp
    rw [eq_false_of_code hp (Nat.le_of_not_lt hone)]
    obtain hitems | hitems := hitems <;> rw [hitems]
    · rfl
    · exact List.countP_singleton.trans (by rw [eq_false_of_broken hp])

theorem countP_next {state : Utf8State} (h : state.Multibyte) (b : UInt8) :
    ((state.next b).1.map Utf8Item.shown).countP p = if p (Char.ofNat b.toNat) then 1 else 0 := by
  cases state with
  | between => exact countP_start hp b
  | inside u =>
    obtain ⟨hlow, -, hcode⟩ := h
    simp only [next]
    by_cases hrange : u.low ≤ b.toNat ∧ b.toNat ≤ u.high
    · rw [if_pos hrange, eq_false_of_code hp (Nat.le_trans hlow hrange.1)]
      by_cases hmissing : u.missing = 1
      -- the byte is the last of a character, which has a greater code
      · have hcode := hcode hmissing
        have hlast : p (Char.ofNat (u.code * 64 + (b.toNat - 0x80))) = false :=
          eq_false_of_code hp (by omega)
        rw [if_pos hmissing]
        exact List.countP_singleton.trans (by rw [Utf8Item.shown, hlast])
      · rw [if_neg hmissing]
        rfl
    · rw [if_neg hrange]
      show (Utf8Item.broken.shown :: (start b).1.map Utf8Item.shown).countP p = _
      rw [List.countP_cons, eq_false_of_broken hp, countP_start hp]
      rfl

theorem countP_items {state : Utf8State} (h : state.Multibyte) (bs : List UInt8) :
    ((state.items bs).map Utf8Item.shown).countP p =
      bs.countP fun b => p (Char.ofNat b.toNat) := by
  induction bs generalizing state with
  | nil =>
    cases state with
    | between => rfl
    | inside u => exact List.countP_singleton.trans (by rw [eq_false_of_broken hp]; rfl)
  | cons b bs ih =>
    rw [items, List.map_append, List.countP_append, countP_next hp h, ih (multibyte_next h b),
      List.countP_cons, Nat.add_comm]

end Counting

end Utf8State

/-- A line feed or a carriage return, as a byte. -/
def isBreakByte (b : UInt8) : Bool := b = 0x0A || b = 0x0D

theorem isBreak_ofNat (b : UInt8) : isBreak (Char.ofNat b.toNat) = isBreakByte b := by
  have hcode : ∀ n < 256, isBreak (Char.ofNat n) = (n = 0x0A || n = 0x0D) := by
    decide +kernel
  rw [hcode _ b.toNat_lt, isBreakByte]
  simp only [← UInt8.toNat_inj]
  rfl

theorem breaks_lossy (bs : List UInt8) : breaks (lossy bs) = bs.countP isBreakByte := by
  have hone : ∀ c, isBreak c = true → 0 < c.toNat ∧ c.toNat < 0x80 := by
    intro c hc
    simp only [isBreak, Bool.or_eq_true, decide_eq_true_eq] at hc
    obtain rfl | rfl := hc <;> decide
  have hbetween : Utf8State.between.Multibyte := trivial
  rw [breaks, lossy, String.toList_ofList, Utf8State.countP_items hone hbetween]
  exact List.countP_congr fun b _ => by rw [isBreak_ofNat]

end ThreadTrace.Text
