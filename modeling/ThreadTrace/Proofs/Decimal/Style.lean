import ThreadTrace.Decimal.Style
import Mathlib.Data.List.Basic

/-!
# ThreadTrace.Proofs.Decimal.Style — the characters of a number

Whatever the style, a number is written in digits, points, signs and the letter of the exponent
(`forall_mem_magnitude`); beside these are the words of the style for what has no digits.
-/

namespace ThreadTrace.Decimal

/-- The characters that numbers are written with. -/
def IsNumeral (c : Char) : Prop := c.isDigit = true ∨ c ∈ ['.', '-', '+', 'e']

instance (c : Char) : Decidable (IsNumeral c) := inferInstanceAs (Decidable (_ ∨ _))

theorem isNumeral_of_mem_digits {n : Nat} {c : Char} (h : c ∈ digits n) : IsNumeral c :=
  .inl (Nat.isDigit_of_mem_toDigits (by decide) (Nat.le_refl 10) h)

theorem isNumeral_of_mem_zeros {n : Nat} {c : Char} (h : c ∈ zeros n) : IsNumeral c := by
  rw [List.eq_of_mem_replicate h]
  decide

theorem mem_stripZeros {ds : List Char} {c : Char} (h : c ∈ stripZeros ds) : c = '0' ∨ c ∈ ds := by
  unfold stripZeros at h
  split at h
  · exact .inl (List.mem_singleton.1 h)
  · exact .inr (List.mem_reverse.1 ((List.dropWhile_sublist _).mem (List.mem_reverse.1 h)))

namespace Style

variable (style : Style) {ds : List Char}

theorem forall_mem_positional (hds : ∀ c ∈ ds, IsNumeral c) (before : Int) :
    ∀ c ∈ style.positional ds before, IsNumeral c := by
  have hzeros : ∀ n, ∀ c ∈ zeros n, IsNumeral c := fun _ _ => isNumeral_of_mem_zeros
  unfold positional
  split_ifs with hfraction hwhole hpoint <;>
    simp only [List.cons_append, List.forall_mem_append, List.forall_mem_cons]
  · exact ⟨by decide, by decide, hzeros _, hds⟩
  · exact ⟨⟨hds, hzeros _⟩, by decide, by decide, by simp⟩
  · exact ⟨⟨hds, hzeros _⟩, by simp⟩
  · exact ⟨fun c hc => hds c (List.mem_of_mem_take hc), by decide,
      fun c hc => hds c (List.mem_of_mem_drop hc)⟩

theorem forall_mem_scientific (hds : ∀ c ∈ ds, IsNumeral c) (exponent : Int) :
    ∀ c ∈ style.scientific ds exponent, IsNumeral c := by
  simp only [scientific, List.forall_mem_append, List.forall_mem_cons]
  refine ⟨⟨⟨fun c hc => hds c (List.mem_of_mem_take hc), ?_⟩, by decide, ?_⟩,
    fun _ => isNumeral_of_mem_digits⟩
  -- the fraction, if there is one, and the sign of the exponent
  · split
    · simp
    · exact List.forall_mem_cons.2 ⟨by decide, fun c hc => hds c (List.mem_of_mem_drop hc)⟩
  · split_ifs
    · exact List.forall_mem_singleton.2 (by decide)
    · exact List.forall_mem_singleton.2 (by decide)
    · simp

theorem forall_mem_magnitude (m : Nat) (q : Int) : ∀ c ∈ style.magnitude m q, IsNumeral c := by
  have hdigits : ∀ n, ∀ c ∈ stripZeros (digits n), IsNumeral c := by
    intro n c hc
    obtain rfl | hc := mem_stripZeros hc
    · decide
    · exact isNumeral_of_mem_digits hc
  unfold magnitude
  split_ifs
  · exact style.forall_mem_positional (List.forall_mem_singleton.2 (by decide)) 1
  · simp only
    split_ifs
    · exact style.forall_mem_positional (hdigits _) _
    · exact style.forall_mem_scientific (hdigits _) _

/-- The text of a number is a word of the style or consists of the characters of numbers. -/
theorem render_cases (x : Binary64) :
    style.render x ∈ [style.nan, style.infinity, style.minusInfinity] ∨
      ∀ c ∈ (style.render x).toList, IsNumeral c := by
  unfold render
  split
  · simp
  · simp
  · simp
  · rename_i negative m q _
    refine .inr ?_
    rw [String.toList_ofList, List.forall_mem_append]
    refine ⟨?_, style.forall_mem_magnitude m q⟩
    split_ifs
    · exact List.forall_mem_singleton.2 (by decide)
    · simp

end Style

end ThreadTrace.Decimal
