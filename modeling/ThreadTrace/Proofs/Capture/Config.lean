import ThreadTrace.Capture.Config
import ThreadTrace.Proofs.Capture.Buffer

/-!
# ThreadTrace.Proofs.Capture.Config — settings are judged before they are used

`Config.validate` is asked when there is neither a region nor a destination yet.  What it takes is
what a buffer and a sink will take, and it gives the error that they would give, up to the size that
a chunk header can describe (`validate_agrees`).  A larger region is only refused by the buffer.
-/

namespace ThreadTrace

open Wire

/-! ### Units -/

namespace Binary64

variable {x : Binary64}

theorem isNaN_iff : x.isNaN ↔ x.exponentField = 2047 ∧ x.fractionField ≠ 0 := by
  rw [isNaN, beq_iff_eq]
  unfold value
  by_cases hspecial : x.exponentField = 2047
  · by_cases hzero : x.fractionField = 0 <;> simp [hspecial, hzero]
  · by_cases hsmall : x.exponentField = 0 <;> simp [hspecial, hsmall]

theorem isNegative_iff (h : ¬ x.isNaN) :
    x.isNegative ↔ x.signBit ∧ (x.exponentField ≠ 0 ∨ x.fractionField ≠ 0) := by
  rw [isNaN_iff, not_and_not_right] at h
  unfold isNegative value
  by_cases hspecial : x.exponentField = 2047
  · simp [hspecial, h hspecial]
  · by_cases hsmall : x.exponentField = 0 <;> simp [hspecial, hsmall]

end Binary64

/-- A writer takes the patterns from zero to infinity, and the negative zero. -/
theorem Unit.isAccepted_iff (unit : Binary64) :
    Unit.isAccepted unit ↔
      unit.bits.toNat ≤ 0x7FF0000000000000 ∨ unit.bits.toNat = 0x8000000000000000 := by
  have hlt : unit.bits.toNat < 2 ^ 64 := unit.bits.toNat_lt
  have hexponent : unit.exponentField = unit.bits.toNat / 2 ^ 52 % 2 ^ 11 := by
    rw [Binary64.exponentField, Nat.shiftRight_eq_div_pow, Nat.one_shiftLeft]
  have hfraction : unit.fractionField = unit.bits.toNat % 2 ^ 52 := by
    rw [Binary64.fractionField, Nat.one_shiftLeft]
  have hsign : unit.signBit ↔ 2 ^ 63 ≤ unit.bits.toNat := by
    rw [Binary64.signBit, Nat.one_shiftLeft, decide_eq_true_iff]
  rw [isAccepted, Bool.not_eq_true', Bool.or_eq_false_iff, ← Bool.not_eq_true, ← Bool.not_eq_true]
  by_cases hnan : unit.isNaN
  · rw [Binary64.isNaN_iff, hexponent, hfraction] at hnan
    simp only [Binary64.isNaN_iff, hexponent, hfraction]
    omega
  · rw [Binary64.isNegative_iff hnan, hexponent, hfraction, hsign]
    rw [Binary64.isNaN_iff, hexponent, hfraction] at hnan ⊢
    omega

/-- A sink on a destination that takes its header depends on the unit alone. -/
theorem Sink.start_of_taken {δ : Type} [Destination δ] {unit : Binary64} {d : δ}
    (h : (Destination.write d (StreamHeader.mk unit).toBytes).1 = .ok ()) :
    start unit d =
      if Unit.isAccepted unit then
        .ok ⟨unit, (Destination.write d (StreamHeader.mk unit).toBytes).2, true⟩
      else .error (.invalidUnit unit, Destination.release d) := by
  unfold start
  rcases hwrite : Destination.write d (StreamHeader.mk unit).toBytes with ⟨result, d'⟩
  rw [hwrite] at h
  obtain rfl : result = .ok () := h
  rfl

/-! ### Settings -/

namespace Config

theorem validate_of_lt {c : Config} (h : c.regionSize < minRegionSize) :
    c.validate = .error (.bufferTooSmall c.regionSize minRegionSize) := if_pos h

theorem validate_of_le {c : Config} (h : minRegionSize ≤ c.regionSize) :
    c.validate = if Unit.isAccepted c.unit then .ok () else .error (.invalidUnit c.unit) :=
  if_neg (Nat.not_lt_of_le h)

theorem validate_eq_ok_iff {c : Config} :
    c.validate = .ok () ↔ minRegionSize ≤ c.regionSize ∧ Unit.isAccepted c.unit := by
  by_cases hsize : minRegionSize ≤ c.regionSize
  · rw [validate_of_le hsize]
    by_cases hunit : Unit.isAccepted c.unit <;> simp [hsize, hunit]
  · rw [validate_of_lt (Nat.lt_of_not_le hsize)]
    simp [hsize]

/-- **Settings are judged as they will be by those who use them**, except that nobody but the buffer
minds a region whose size is too large for a chunk header.  The destination of the sink takes the
stream header, and the units that it is started with are the numbers not below zero. -/
theorem validate_agrees {δ : Type} [Destination δ] (c : Config) {region : Region}
    (hregion : region.size = c.regionSize) (process thread : UInt32) {d : δ}
    (hd : (Destination.write d (StreamHeader.mk c.unit).toBytes).1 = .ok ()) :
    let buffer := Buffer.new region process thread
    let sink := Sink.start c.unit d
    (c.validate = .ok () ↔
        ((∃ b, buffer = .ok b) ∨ buffer = .error (.bufferTooLarge c.regionSize)) ∧
          ∃ s, sink = .ok s) ∧
      (buffer = .error (.bufferTooLarge c.regionSize) ↔
        UInt32.size ≤ c.regionSize - chunkHeaderSize) ∧
      (∀ e, buffer = .error e → e ≠ .bufferTooLarge c.regionSize → c.validate = .error e) ∧
      (∀ e d', sink = .error (e, d') → (∃ b, buffer = .ok b) → c.validate = .error e) ∧
      ((∃ s, sink = .ok s) ↔
        c.unit.bits.toNat ≤ 0x7FF0000000000000 ∨ c.unit.bits.toNat = 0x8000000000000000) := by
  intro buffer sink
  have hsink : (∃ s, sink = .ok s) ↔ Unit.isAccepted c.unit := by
    simp only [sink, Sink.start_of_taken hd]
    by_cases hunit : Unit.isAccepted c.unit <;> simp [hunit]
  have hlarge : buffer = .error (.bufferTooLarge c.regionSize) ↔
      UInt32.size ≤ c.regionSize - chunkHeaderSize := by
    simp only [buffer, Buffer.new_eq_error_iff, hregion, reduceCtorEq, and_false, false_or,
      and_true]
  refine ⟨?_, hlarge, fun e hbuffer hne => ?_, fun e d' hstart hbuffer => ?_, ?_⟩
  · rw [validate_eq_ok_iff, hsink, hlarge, Buffer.exists_new_iff, hregion]
    refine and_congr_left fun _ => ⟨fun hsize => ?_, fun hsize => ?_⟩
    · omega
    · have hmin : minRegionSize < UInt32.size := by decide
      omega
  · obtain ⟨hsize, rfl⟩ | ⟨-, rfl⟩ := Buffer.new_eq_error_iff.1 hbuffer
    · rw [hregion] at hsize ⊢
      exact validate_of_lt hsize
    · rw [hregion] at hne
      exact absurd rfl hne
  · have hsize := (Buffer.exists_new_iff.1 hbuffer).1
    rw [hregion] at hsize
    simp only [sink, Sink.start_of_taken hd] at hstart
    rw [validate_of_le hsize]
    by_cases hunit : Unit.isAccepted c.unit
    · rw [if_pos hunit] at hstart
      cases hstart
    · rw [if_neg hunit] at hstart ⊢
      cases hstart
      rfl
  · rw [hsink, Unit.isAccepted_iff]

/-- The least region that a chunk header cannot describe. -/
def oversized : Config := ⟨chunkHeaderSize + UInt32.size, 1000, .one⟩

/-- Nothing is said against it before the buffer is made. -/
theorem validate_oversized :
    (Region.filled oversized.regionSize 0).size = oversized.regionSize ∧
      (Destination.write Memory.empty (StreamHeader.mk oversized.unit).toBytes).1 = .ok () ∧
      oversized.validate = .ok () ∧
      Buffer.new (.filled oversized.regionSize 0) 7 1 =
        .error (.bufferTooLarge oversized.regionSize) := by
  have hd : (Destination.write Memory.empty (StreamHeader.mk oversized.unit).toBytes).1 =
      .ok () := rfl
  have hregion : (Region.filled oversized.regionSize 0).size = oversized.regionSize := rfl
  obtain ⟨hvalidate, hlarge, -, -, hsink⟩ := validate_agrees oversized hregion 7 1 hd
  have hbuffer := hlarge.2 (by decide)
  exact ⟨hregion, hd, hvalidate.2 ⟨.inr hbuffer, hsink.2 (by decide)⟩, hbuffer⟩

end Config

end ThreadTrace
