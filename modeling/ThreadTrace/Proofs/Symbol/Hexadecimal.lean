import ThreadTrace.Proofs.Text.Blank
import ThreadTrace.Symbol.Maps
import Mathlib.Data.List.Forall2
import Mathlib.Data.Nat.Digits.Defs

/-!
# ThreadTrace.Proofs.Symbol.Hexadecimal — numbers in hexadecimal digits

Digits make the number that they are the digits of (`hexNat_eq_some_iff`).  A text is read as a
number of 64 bits if it spells one, with or without a plus sign (`parseHex_eq_ok_iff`); otherwise
the first character from the left that is in the way tells why it does not
(`parseHex_eq_error_iff`).
-/

namespace ThreadTrace

/-! ### Digits -/

/-- The number that digits behind those of `value` make. -/
def hexNat (value : Nat) (cs : List Char) : Option Nat :=
  cs.foldlM (fun v c => (hexDigit? c).map (v * 16 + ·)) value

theorem hexNat_cons (value : Nat) (c : Char) (cs : List Char) :
    hexNat value (c :: cs) = (hexDigit? c).bind fun d => hexNat (value * 16 + d) cs := by
  rw [hexNat, List.foldlM_cons]
  cases hexDigit? c <;> rfl

theorem le_of_hexNat {value m : Nat} {cs : List Char} (h : hexNat value cs = some m) :
    value ≤ m := by
  induction cs generalizing value with
  | nil =>
    obtain rfl := Option.some.inj h
    exact Nat.le_refl value
  | cons c cs ih =>
    rw [hexNat_cons] at h
    obtain ⟨d, -, h⟩ := Option.bind_eq_some_iff.1 h
    have hle := ih h
    omega

/-- Digits are read if their number has 64 bits, and as this number. -/
theorem hexValueFrom_eq_ok_iff {value : Nat} (hvalue : value < UInt64.size) {cs : List Char}
    {n : UInt64} : hexValueFrom value cs = .ok n ↔ hexNat value cs = some n.toNat := by
  induction cs generalizing value with
  | nil =>
    have hnat : (UInt64.ofNat value).toNat = value := UInt64.toNat_ofNat_of_lt' hvalue
    show Except.ok (UInt64.ofNat value) = Except.ok n ↔ some value = some n.toNat
    rw [Except.ok.injEq, Option.some.injEq, ← UInt64.toNat_inj, hnat]
  | cons c cs ih =>
    rw [hexValueFrom, hexNat_cons]
    cases hexDigit? c with
    | none => simp
    | some d =>
      by_cases hlarge : UInt64.size ≤ value * 16 + d
      · simp only [if_pos hlarge, Option.bind_some, reduceCtorEq, false_iff]
        -- more digits do not make the number smaller
        intro h
        have hle := le_of_hexNat h
        have hlt := n.toNat_lt_size
        omega
      · simp only [if_neg hlarge, Option.bind_some]
        exact ih (by omega)

theorem parseHex_cons {c : Char} (hc : c ≠ '+') (cs : List Char) :
    parseHex (c :: cs) = hexValueFrom 0 (c :: cs) := by
  rw [parseHex]
  · simp
  · simp [hc]
  · simp [hc]

theorem code_of_hexDigit? {c : Char} {d : Nat} (h : hexDigit? c = some d) :
    (48 ≤ c.toNat ∧ c.toNat ≤ 57) ∨ (97 ≤ c.toNat ∧ c.toNat ≤ 102) ∨
      (65 ≤ c.toNat ∧ c.toNat ≤ 70) := by
  unfold hexDigit? at h
  split_ifs at h with hnine hlower hupper
  · exact .inl hnine
  · exact .inr (.inl hlower)
  · exact .inr (.inr hupper)

/-- A digit is neither a dash nor white space. -/
theorem plain_of_hexDigit? {c : Char} {d : Nat} (h : hexDigit? c = some d) :
    c ≠ '-' ∧ Text.isBlank c = false := by
  have hcode := code_of_hexDigit? h
  constructor
  · rintro rfl
    revert hcode
    decide
  · simp only [Text.isBlank, Bool.or_eq_false_iff, Bool.and_eq_false_iff, beq_eq_false_iff_ne,
      decide_eq_false_iff_not]
    omega

theorem plain_of_hexNat {value m : Nat} {cs : List Char} (h : hexNat value cs = some m) :
    ∀ c ∈ cs, c ≠ '-' ∧ Text.isBlank c = false := by
  induction cs generalizing value with
  | nil => exact fun c hc => absurd hc List.not_mem_nil
  | cons c cs ih =>
    rw [hexNat_cons] at h
    obtain ⟨d, hd, h⟩ := Option.bind_eq_some_iff.1 h
    exact List.forall_mem_cons.2 ⟨plain_of_hexDigit? hd, ih h⟩

theorem hexDigit?_digitChar {d : Nat} (hd : d < 16) : hexDigit? d.digitChar = some d := by
  have hall : ∀ d : Fin 16, hexDigit? d.val.digitChar = some d.val := by decide
  exact hall ⟨d, hd⟩

theorem hexNat_toDigits (n : Nat) : hexNat 0 (Nat.toDigits 16 n) = some n := by
  induction n using Nat.strongRecOn with
  | ind n ih =>
    by_cases hn : n < 16
    · rw [Nat.toDigits_of_lt_base hn, hexNat_cons, hexDigit?_digitChar hn]
      exact congrArg some (Nat.zero_add n)
    · have hlast : hexDigit? (n % 16).digitChar = some (n % 16) := hexDigit?_digitChar (by omega)
      have hfront := ih (n / 16) (by omega)
      rw [hexNat] at hfront
      rw [Nat.toDigits_of_base_le (by decide) (by omega), hexNat, List.foldlM_append, hfront,
        Option.bind_eq_bind, Option.bind_some, List.foldlM_cons, hlast]
      exact congrArg some (Nat.div_add_mod' n 16)

/-! ### Numbers -/

/-- A digit in either case, and what it counts. -/
def IsHexDigit (c : Char) (d : Nat) : Prop :=
  d < 16 ∧ (c = d.digitChar ∨ c = d.digitChar.toUpper)

instance (c : Char) (d : Nat) : Decidable (IsHexDigit c d) := inferInstanceAs (Decidable (_ ∧ _))

theorem hexDigit?_eq_some_iff {c : Char} {d : Nat} : hexDigit? c = some d ↔ IsHexDigit c d := by
  constructor
  · intro h
    have hall : ∀ n : Fin 128, ∀ d ∈ hexDigit? (Char.ofNat n), IsHexDigit (Char.ofNat n) d := by
      decide
    have hcode := code_of_hexDigit? h
    have hdigit := hall ⟨c.toNat, by omega⟩ d
    rw [Char.ofNat_toNat] at hdigit
    exact hdigit h
  · rintro ⟨hd, hc⟩
    have hall : ∀ d : Fin 16, hexDigit? d.val.digitChar = some d.val ∧
        hexDigit? d.val.digitChar.toUpper = some d.val := by decide
    rcases hc with rfl | rfl
    · exact (hall ⟨d, hd⟩).1
    · exact (hall ⟨d, hd⟩).2

/-- The number that some digits make, the most significant of them first. -/
def HexNumber (cs : List Char) (n : Nat) : Prop :=
  ∃ ds, List.Forall₂ IsHexDigit cs ds ∧ Nat.ofDigits 16 ds.reverse = n

theorem hexNat_eq_some_iff_exists {value n : Nat} {cs : List Char} :
    hexNat value cs = some n ↔ ∃ ds, List.Forall₂ IsHexDigit cs ds ∧
      Nat.ofDigits 16 ds.reverse + value * 16 ^ ds.length = n := by
  induction cs generalizing value with
  | nil =>
    have hnil : hexNat value [] = some value := rfl
    simp [hnil]
  | cons c cs ih =>
    rw [hexNat_cons, Option.bind_eq_some_iff]
    simp only [hexDigit?_eq_some_iff, ih, List.forall₂_cons_left_iff]
    constructor
    · rintro ⟨d, hd, ds, hds, rfl⟩
      refine ⟨d :: ds, ⟨d, ds, hd, hds, rfl⟩, ?_⟩
      rw [List.reverse_cons, Nat.ofDigits_append, Nat.ofDigits_singleton, List.length_reverse,
        List.length_cons]
      ring
    · rintro ⟨-, ⟨d, ds, hd, hds, rfl⟩, rfl⟩
      refine ⟨d, hd, ds, hds, ?_⟩
      rw [List.reverse_cons, Nat.ofDigits_append, Nat.ofDigits_singleton, List.length_reverse,
        List.length_cons]
      ring

theorem hexNat_eq_some_iff {n : Nat} {cs : List Char} : hexNat 0 cs = some n ↔ HexNumber cs n := by
  rw [hexNat_eq_some_iff_exists, HexNumber]
  simp only [Nat.zero_mul, Nat.add_zero]

/-! ### Reading -/

variable {cs : List Char} {value : Nat}

theorem hexValueFrom_of_digit {c : Char} {d : Nat} (hc : hexDigit? c = some d) (cs : List Char) :
    hexValueFrom value (c :: cs) =
      if UInt64.size ≤ value * 16 + d then .error .tooLarge
      else hexValueFrom (value * 16 + d) cs := by
  rw [hexValueFrom, hc]

theorem hexValueFrom_of_none {c : Char} (hc : hexDigit? c = none) (cs : List Char) :
    hexValueFrom value (c :: cs) = .error .invalidDigit := by
  rw [hexValueFrom, hc]

/-- The digits in front of what is read next still have a number of 64 bits. -/
theorem hexValueFrom_append (hvalue : value < UInt64.size) {front : List Char} {v : Nat}
    (hfront : hexNat value front = some v) (hv : v < UInt64.size) (back : List Char) :
    hexValueFrom value (front ++ back) = hexValueFrom v back := by
  induction front generalizing value with
  | nil =>
    obtain rfl := Option.some.inj hfront
    rfl
  | cons c front ih =>
    rw [hexNat_cons] at hfront
    obtain ⟨d, hd, hfront⟩ := Option.bind_eq_some_iff.1 hfront
    have hle := le_of_hexNat hfront
    rw [List.cons_append, hexValueFrom_of_digit hd, if_neg (by omega)]
    exact ih (by omega) hfront

/-- Once the number of the digits in front is too large, nothing behind them matters. -/
theorem hexValueFrom_of_large (hvalue : value < UInt64.size) {front : List Char} {v : Nat}
    (hfront : hexNat value front = some v) (hv : UInt64.size ≤ v) (back : List Char) :
    hexValueFrom value (front ++ back) = .error .tooLarge := by
  induction front generalizing value with
  | nil =>
    obtain rfl := Option.some.inj hfront
    exact absurd hvalue (Nat.not_lt_of_le hv)
  | cons c front ih =>
    rw [hexNat_cons] at hfront
    obtain ⟨d, hd, hfront⟩ := Option.bind_eq_some_iff.1 hfront
    rw [List.cons_append, hexValueFrom_of_digit hd]
    split_ifs with hlarge
    · rfl
    · exact ih (Nat.lt_of_not_le hlarge) hfront

/-- Either all characters make a number of 64 bits, or there is a first one that is in the way. -/
theorem hexNat_cases (hvalue : value < UInt64.size) (cs : List Char) :
    (∃ n, hexNat value cs = some n ∧ n < UInt64.size) ∨
    (∃ front c back v, cs = front ++ c :: back ∧ hexNat value front = some v ∧ v < UInt64.size ∧
      hexDigit? c = none) ∨
    ∃ front back v, cs = front ++ back ∧ hexNat value front = some v ∧ UInt64.size ≤ v := by
  induction cs generalizing value with
  | nil => exact .inl ⟨value, rfl, hvalue⟩
  | cons c cs ih =>
    cases hc : hexDigit? c with
    | none => exact .inr (.inl ⟨[], c, cs, value, rfl, rfl, hvalue, hc⟩)
    | some d =>
      have hcons : ∀ front, hexNat value (c :: front) = hexNat (value * 16 + d) front := by
        intro front
        rw [hexNat_cons, hc, Option.bind_some]
      by_cases hlarge : UInt64.size ≤ value * 16 + d
      · exact .inr (.inr ⟨[c], cs, value * 16 + d, rfl, by rw [hcons]; rfl, hlarge⟩)
      · rcases ih (Nat.lt_of_not_le hlarge) with ⟨n, hn, hlt⟩ |
          ⟨front, c', back, v, rfl, hfront, hv, hc'⟩ | ⟨front, back, v, rfl, hfront, hv⟩
        · exact .inl ⟨n, by rw [hcons, hn], hlt⟩
        · exact .inr (.inl ⟨c :: front, c', back, v, rfl, by rw [hcons, hfront], hv, hc'⟩)
        · exact .inr (.inr ⟨c :: front, back, v, rfl, by rw [hcons, hfront], hv⟩)

/-! ### Signs -/

/-- What stands behind a plus sign, or everything if there is none. -/
def unsigned : List Char → List Char
  | '+' :: cs => cs
  | cs => cs

theorem unsigned_of_ne {c : Char} (hc : c ≠ '+') (cs : List Char) :
    unsigned (c :: cs) = c :: cs := by
  rw [unsigned]
  simp [hc]

theorem unsigned_eq_nil (h : unsigned cs = []) : cs = [] ∨ cs = ['+'] := by
  cases cs with
  | nil => exact .inl rfl
  | cons c cs =>
    by_cases hc : c = '+'
    · subst hc
      obtain rfl : cs = [] := h
      exact .inr rfl
    · rw [unsigned_of_ne hc] at h
      cases h

theorem parseHex_of_unsigned (h : unsigned cs ≠ []) :
    parseHex cs = hexValueFrom 0 (unsigned cs) := by
  cases cs with
  | nil => exact absurd rfl h
  | cons c cs =>
    by_cases hc : c = '+'
    · subst hc
      obtain ⟨c, cs, rfl⟩ := List.exists_cons_of_ne_nil h
      rfl
    · rw [unsigned_of_ne hc, parseHex_cons hc]

/-- A number of 64 bits in digits, of which there is one at least, behind a plus sign or without. -/
def Spells (cs : List Char) (n : UInt64) : Prop :=
  ∃ digits, digits ≠ [] ∧ (cs = digits ∨ cs = '+' :: digits) ∧ HexNumber digits n.toNat

/-- Why a text spells no number of 64 bits: the first problem from the left. -/
def Misspells (cs : List Char) : NumberError → Prop
  | .empty => cs = []
  | .invalidDigit => cs = ['+'] ∨ ∃ front c back v, unsigned cs = front ++ c :: back ∧
      HexNumber front v ∧ v < 2 ^ 64 ∧ ∀ d, ¬ IsHexDigit c d
  | .tooLarge => ∃ front back v, unsigned cs = front ++ back ∧ HexNumber front v ∧ 2 ^ 64 ≤ v

theorem spells_iff {n : UInt64} :
    Spells cs n ↔ unsigned cs ≠ [] ∧ hexNat 0 (unsigned cs) = some n.toNat := by
  constructor
  · rintro ⟨digits, hne, hcs, hnumber⟩
    rw [← hexNat_eq_some_iff] at hnumber
    rcases hcs with rfl | rfl
    · obtain ⟨c, digits, rfl⟩ := List.exists_cons_of_ne_nil hne
      -- a sign in front of these digits would be one of them
      have hc : c ≠ '+' := by
        rintro rfl
        rw [hexNat_cons] at hnumber
        cases hnumber
      rw [unsigned_of_ne hc]
      exact ⟨hne, hnumber⟩
    · exact ⟨hne, hnumber⟩
  · rintro ⟨hne, hnumber⟩
    refine ⟨unsigned cs, hne, ?_, hexNat_eq_some_iff.1 hnumber⟩
    cases cs with
    | nil => exact .inl rfl
    | cons c cs =>
      by_cases hc : c = '+'
      · subst hc
        exact .inr rfl
      · exact .inl (unsigned_of_ne hc cs).symm

/-- A text is read as the number that it spells. -/
theorem parseHex_eq_ok_iff {n : UInt64} : parseHex cs = .ok n ↔ Spells cs n := by
  rw [spells_iff]
  by_cases hne : unsigned cs = []
  · rcases unsigned_eq_nil hne with rfl | rfl
    · simp [parseHex, unsigned]
    · simp [parseHex, unsigned]
  · rw [parseHex_of_unsigned hne, hexValueFrom_eq_ok_iff (by decide)]
    exact (and_iff_right hne).symm

theorem parseHex_of_misspells {e : NumberError} (h : Misspells cs e) : parseHex cs = .error e := by
  have hzero : 0 < UInt64.size := by decide
  cases e with
  | empty =>
    obtain rfl : cs = [] := h
    rfl
  | invalidDigit =>
    rcases h with rfl | ⟨front, c, back, v, hcs, hfront, hv, hc⟩
    · rfl
    · have hnone : hexDigit? c = none := by
        refine Option.eq_none_iff_forall_ne_some.2 fun d hd => hc d ?_
        exact hexDigit?_eq_some_iff.1 hd
      rw [parseHex_of_unsigned (by simp [hcs]), hcs,
        hexValueFrom_append hzero (hexNat_eq_some_iff.2 hfront) hv, hexValueFrom_of_none hnone]
  | tooLarge =>
    obtain ⟨front, back, v, hcs, hfront, hv⟩ := h
    have hnumber := hexNat_eq_some_iff.2 hfront
    have hne : unsigned cs ≠ [] := by
      intro hnil
      obtain ⟨rfl, -⟩ := List.append_eq_nil_iff.1 (hcs.symm.trans hnil)
      obtain rfl := Option.some.inj hnumber
      exact absurd hv (by decide)
    rw [parseHex_of_unsigned hne, hcs, hexValueFrom_of_large hzero hnumber hv]

theorem spells_or_misspells (cs : List Char) : (∃ n, Spells cs n) ∨ ∃ e, Misspells cs e := by
  by_cases hne : unsigned cs = []
  · rcases unsigned_eq_nil hne with rfl | rfl
    · exact .inr ⟨.empty, rfl⟩
    · exact .inr ⟨.invalidDigit, .inl rfl⟩
  · have hzero : 0 < UInt64.size := by decide
    rcases hexNat_cases hzero (unsigned cs) with ⟨n, hn, hlt⟩ |
      ⟨front, c, back, v, hcs, hfront, hv, hc⟩ | ⟨front, back, v, hcs, hfront, hv⟩
    · refine .inl ⟨UInt64.ofNat n, spells_iff.2 ⟨hne, ?_⟩⟩
      rw [hn, UInt64.toNat_ofNat_of_lt' hlt]
    · refine .inr ⟨.invalidDigit, .inr ⟨front, c, back, v, hcs, ?_, hv, ?_⟩⟩
      · exact hexNat_eq_some_iff.1 hfront
      · intro d hd
        rw [hexDigit?_eq_some_iff.2 hd] at hc
        cases hc
    · exact .inr ⟨.tooLarge, front, back, v, hcs, hexNat_eq_some_iff.1 hfront, hv⟩

/-- A text that is not read as a number misspells one, in the way that is told. -/
theorem parseHex_eq_error_iff {e : NumberError} : parseHex cs = .error e ↔ Misspells cs e := by
  constructor
  · intro h
    rcases spells_or_misspells cs with ⟨n, hn⟩ | ⟨e', he'⟩
    · rw [parseHex_eq_ok_iff.2 hn] at h
      cases h
    · rw [parseHex_of_misspells he'] at h
      cases h
      exact he'
  · exact parseHex_of_misspells

/-! ### Numerals -/

/-- A number in hexadecimal digits, in either case and with any number of zeros in front. -/
structure Numeral where
  digits : List Char
  value : UInt64
  digits_ne : digits ≠ []
  value_eq : hexNat 0 digits = some value.toNat

namespace Numeral

/-- The numeral of a number without zeros in front. -/
def ofUInt64 (n : UInt64) : Numeral where
  digits := Nat.toDigits 16 n.toNat
  value := n
  digits_ne := Nat.toDigits_ne_nil
  value_eq := hexNat_toDigits n.toNat

variable (x : Numeral)

theorem parseHex_digits : parseHex x.digits = .ok x.value :=
  parseHex_eq_ok_iff.2 ⟨x.digits, x.digits_ne, .inl rfl, hexNat_eq_some_iff.1 x.value_eq⟩

theorem isWord_digits : Text.IsWord x.digits :=
  ⟨x.digits_ne, fun c hc => (plain_of_hexNat x.value_eq c hc).2⟩

end Numeral

end ThreadTrace
