import ThreadTrace.Text.Utf8
import Mathlib.Algebra.GroupWithZero.Nat
import Mathlib.Data.List.Basic

/-!
# ThreadTrace.Proofs.Text.Utf8 — the bytes of a character are read as this character

In front of anything, they are read as the character, and some but not all of them, at the end, as
one broken sequence (`items_utf8EncodeChar_append`, `items_take_utf8EncodeChar`).
-/

namespace ThreadTrace.Text

/-! ### One character -/

/-- From this state the bytes are read as the character, with the last of them. -/
inductive Utf8State.Spells (c : Char) : Utf8State → List UInt8 → Prop
  | last {state b} (next_eq : state.next b = ([.char c], .between)) : Spells c state [b]
  | more {state b p bs} (next_eq : state.next b = ([], .inside p))
      (rest : Spells c (.inside p) bs) : Spells c state (b :: bs)

namespace Utf8State

variable {c : Char} {state : Utf8State} {bs : List UInt8}

theorem Spells.items_append (h : Spells c state bs) (rest : List UInt8) :
    state.items (bs ++ rest) = .char c :: between.items rest := by
  induction h with
  | last hnext =>
    rw [List.cons_append, items, hnext]
    rfl
  | more hnext _ ih =>
    rw [List.cons_append, items, hnext, ih]
    rfl

/-- Bytes that go on are broken off as a whole. -/
theorem Spells.items_take (h : Spells c state bs) {k : Nat} (hk : k < bs.length) (hpos : 0 < k) :
    state.items (bs.take k) = [.broken] := by
  induction h generalizing k with
  | last _ =>
    rw [List.length_singleton] at hk
    omega
  | @more state b p bs hnext hrest ih =>
    obtain ⟨k, rfl⟩ := Nat.exists_eq_succ_of_ne_zero (Nat.ne_of_gt hpos)
    rw [List.take_succ_cons, items, hnext]
    show [] ++ (Utf8State.inside p).items (bs.take k) = [.broken]
    rw [List.nil_append]
    by_cases hzero : k = 0
    · subst hzero
      rfl
    · exact ih (Nat.lt_of_succ_lt_succ hk) (Nat.pos_of_ne_zero hzero)

/-! ### The bytes of a character -/

/-- The last `m` bytes of a character above U+007F, each with six bits of it. -/
def tail (v : Nat) : Nat → List UInt8
  | 0 => []
  | m + 1 => UInt8.ofNat (v / 64 ^ m % 64 + 0x80) :: tail v m

theorem toNat_tailByte (v : Nat) : (UInt8.ofNat (v % 64 + 0x80)).toNat = v % 64 + 0x80 := by
  rw [UInt8.toNat_ofNat']
  omega

/-- The bits so far and the next six. -/
theorem code_tail (v m : Nat) : v / 64 ^ (m + 1) * 64 + v / 64 ^ m % 64 = v / 64 ^ m := by
  rw [Nat.pow_succ, ← Nat.div_div_eq_div_mul]
  omega

/-- Only the first of these bytes can have a range of its own. -/
theorem spells_tail (v m : Nat) {low high : Nat} (hlow : low ≤ v / 64 ^ m % 64 + 0x80)
    (hhigh : v / 64 ^ m % 64 + 0x80 ≤ high) :
    Spells (Char.ofNat v) (.inside ⟨v / 64 ^ (m + 1), m + 1, low, high⟩) (tail v (m + 1)) := by
  induction m generalizing low high with
  | zero =>
    refine .last ?_
    simp only [next, toNat_tailByte, hlow, hhigh, and_self, if_true]
    rw [Nat.add_sub_cancel, code_tail, Nat.pow_zero, Nat.div_one]
  | succ m ih =>
    refine .more (p := ⟨v / 64 ^ (m + 1), m + 1, 0x80, 0xBF⟩) ?_ (ih ?_ ?_)
    · have hmissing : m + 1 + 1 ≠ 1 := by omega
      simp only [next, toNat_tailByte, hlow, hhigh, and_self, if_true, hmissing, if_false]
      rw [Nat.add_sub_cancel, code_tail, Nat.add_sub_cancel]
    · omega
    · omega

theorem start_one {b : UInt8} (h : b.toNat < 0x80) :
    start b = ([.char (Char.ofNat b.toNat)], .between) := by
  simp only [start, h, if_true]

theorem start_two {b : UInt8} (hlow : 0xC2 ≤ b.toNat) (hhigh : b.toNat < 0xE0) :
    start b = ([], .inside ⟨b.toNat - 0xC0, 1, 0x80, 0xBF⟩) := by
  simp only [start]
  rw [if_neg (by omega), if_neg (by omega), if_pos hhigh]

theorem start_three {b : UInt8} (hlow : 0xE0 ≤ b.toNat) (hhigh : b.toNat < 0xF0) :
    start b = ([], .inside ⟨b.toNat - 0xE0, 2, if b.toNat = 0xE0 then 0xA0 else 0x80,
      if b.toNat = 0xED then 0x9F else 0xBF⟩) := by
  simp only [start]
  rw [if_neg (by omega), if_neg (by omega), if_neg (by omega)]
  by_cases hfirst : b.toNat = 0xE0
  · simp [hfirst]
  by_cases hsurrogates : b.toNat = 0xED
  · simp [hsurrogates]
  · simp [hfirst, hsurrogates, hhigh]

theorem start_four {b : UInt8} (hlow : 0xF0 ≤ b.toNat) (hhigh : b.toNat ≤ 0xF4) :
    start b = ([], .inside ⟨b.toNat - 0xF0, 3, if b.toNat = 0xF0 then 0x90 else 0x80,
      if b.toNat = 0xF4 then 0x8F else 0xBF⟩) := by
  simp only [start]
  rw [if_neg (by omega), if_neg (by omega), if_neg (by omega), if_neg (by omega),
    if_neg (by omega), if_neg (by omega)]
  by_cases hfirst : b.toNat = 0xF0
  · simp [hfirst]
  by_cases hlast : b.toNat = 0xF4
  · simp [hlast]
  · have hlt : b.toNat < 0xF4 := by omega
    simp [hfirst, hlast, hlt]

/-- A first byte that brings the bits above the tail's, and a tail in the range it asks for. -/
theorem spells_of_start {b : UInt8} {code m low high v : Nat}
    (hstart : start b = ([], .inside ⟨code, m + 1, low, high⟩)) (hcode : code = v / 64 ^ (m + 1))
    (hlow : low ≤ v / 64 ^ m % 64 + 0x80) (hhigh : v / 64 ^ m % 64 + 0x80 ≤ high) :
    Spells (Char.ofNat v) .between (b :: tail v (m + 1)) := by
  subst hcode
  exact .more hstart (spells_tail v m hlow hhigh)

/-- The bytes of the character with this code. -/
def codeBytes (v : Nat) : List UInt8 :=
  if v ≤ 0x7F then [UInt8.ofNat v]
  else if v ≤ 0x7FF then UInt8.ofNat (v / 64 % 32 + 0xC0) :: tail v 1
  else if v ≤ 0xFFFF then UInt8.ofNat (v / 4096 % 16 + 0xE0) :: tail v 2
  else UInt8.ofNat (v / 262144 % 8 + 0xF0) :: tail v 3

theorem utf8EncodeChar_eq (c : Char) : String.utf8EncodeChar c = codeBytes c.toNat := by
  simp only [String.utf8EncodeChar, codeBytes, tail, Nat.pow_zero, Nat.div_one]
  rfl

theorem spells_codeBytes {v : Nat} (hvalid : v < 0xD800 ∨ 0xDFFF < v ∧ v < 0x110000) :
    Spells (Char.ofNat v) .between (codeBytes v) := by
  unfold codeBytes
  split_ifs with hone htwo hthree
  · have hbyte : (UInt8.ofNat v).toNat = v := by
      rw [UInt8.toNat_ofNat']
      omega
    refine .last ?_
    show start (UInt8.ofNat v) = _
    rw [start_one (by omega), hbyte]
  · have hbyte : (UInt8.ofNat (v / 64 % 32 + 0xC0)).toNat = v / 64 % 32 + 0xC0 := by
      rw [UInt8.toNat_ofNat']
      omega
    refine spells_of_start (m := 0) (start_two ?_ ?_) ?_ ?_ ?_ <;> omega
  -- the first byte decides what the second may be: no longer form than needed, no surrogate
  · have hbyte : (UInt8.ofNat (v / 4096 % 16 + 0xE0)).toNat = v / 4096 % 16 + 0xE0 := by
      rw [UInt8.toNat_ofNat']
      omega
    refine spells_of_start (m := 1) (start_three ?_ ?_) ?_ ?_ ?_
    · omega
    · omega
    · omega
    · split_ifs <;> omega
    · split_ifs <;> omega
  -- and no code above U+10FFFF
  · have hbyte : (UInt8.ofNat (v / 262144 % 8 + 0xF0)).toNat = v / 262144 % 8 + 0xF0 := by
      rw [UInt8.toNat_ofNat']
      omega
    refine spells_of_start (m := 2) (start_four ?_ ?_) ?_ ?_ ?_
    · omega
    · omega
    · omega
    · split_ifs <;> omega
    · split_ifs <;> omega

theorem spells_utf8EncodeChar (c : Char) : Spells c .between (String.utf8EncodeChar c) := by
  have hspells : Spells (Char.ofNat c.toNat) .between (codeBytes c.toNat) :=
    spells_codeBytes c.valid
  rw [Char.ofNat_toNat] at hspells
  rw [utf8EncodeChar_eq]
  exact hspells

theorem items_utf8EncodeChar_append (c : Char) (rest : List UInt8) :
    between.items (String.utf8EncodeChar c ++ rest) = .char c :: between.items rest :=
  (spells_utf8EncodeChar c).items_append rest

theorem items_take_utf8EncodeChar {c : Char} {n : Nat} (hpos : 0 < n) (hlt : n < c.utf8Size) :
    between.items ((String.utf8EncodeChar c).take n) = [.broken] :=
  (spells_utf8EncodeChar c).items_take (by rwa [String.length_utf8EncodeChar]) hpos

end Utf8State

end ThreadTrace.Text
