import ThreadTrace.Proofs.Bytes.LittleEndian
import ThreadTrace.Wire.Cursor
import Mathlib.Data.List.Basic

/-!
# ThreadTrace.Proofs.Wire.Scan — what a reader of fields takes

`Reads p used a`: the reader `p` gives `a` for the bytes `used`, whatever follows them, and says
that it was cut short on every shorter part of them.  It is kept by sequencing (`Reads.bind`), so
each layout needs one proof along its fields.

`take_eq_ok`, `byte_eq_ok`, `word32_eq_ok` and `word64_eq_ok` go from a result to the bytes.
-/

namespace ThreadTrace.Wire

/-- `p` takes exactly `used` for `a`. -/
structure Reads {α : Type} (p : Scan α) (used : List UInt8) (a : α) : Prop where
  whole (rest : List UInt8) (n : Nat) : p ⟨used ++ rest, n⟩ = .ok (a, ⟨rest, n + used.length⟩)
  short {k : Nat} (hk : k < used.length) (n : Nat) :
    ∃ needed, p ⟨used.take k, n⟩ = .error (.truncated needed (n + k)) ∧
      n + k < needed ∧ needed ≤ n + used.length

variable {α β : Type}

/-! ### Sequencing -/

theorem bind_of_ok {p : Scan α} {f : α → Scan β} {c c' : Cursor} {a : α}
    (h : p c = .ok (a, c')) : (p >>= f) c = f a c' := by
  show (p c >>= fun x => f x.1 x.2) = f a c'
  rw [h]
  rfl

theorem bind_of_error {p : Scan α} {f : α → Scan β} {c : Cursor} {e : DecodeError}
    (h : p c = .error e) : (p >>= f) c = .error e := by
  show (p c >>= fun x => f x.1 x.2) = .error e
  rw [h]
  rfl

theorem bind_eq_ok_iff {p : Scan α} {f : α → Scan β} {c c' : Cursor} {b : β} :
    (p >>= f) c = .ok (b, c') ↔ ∃ a c₁, p c = .ok (a, c₁) ∧ f a c₁ = .ok (b, c') := by
  constructor
  · intro h
    cases hp : p c with
    | error e =>
      rw [bind_of_error hp] at h
      cases h
    | ok r =>
      obtain ⟨a, c₁⟩ := r
      rw [bind_of_ok hp] at h
      exact ⟨a, c₁, rfl, h⟩
  · rintro ⟨a, c₁, hp, hf⟩
    rw [bind_of_ok hp, hf]

theorem pure_eq_ok_iff {c c' : Cursor} {a b : α} :
    (pure a : Scan α) c = .ok (b, c') ↔ a = b ∧ c = c' := by
  show Except.ok (a, c) = .ok (b, c') ↔ _
  simp

theorem guard_eq_ok_iff {P : Prop} [Decidable P] {e : DecodeError} {k : Unit → Scan β}
    {c c' : Cursor} {b : β} :
    (if P then throw e >>= k else k ()) c = .ok (b, c') ↔ ¬ P ∧ k () c = .ok (b, c') := by
  by_cases hP : P
  · have herr : (throw e >>= k : Scan β) c = .error e := rfl
    simp [hP, herr]
  · simp [hP]

theorem run'_eq_ok {p : Scan α} {c : Cursor} {a : α} (h : p.run' c = .ok a) :
    ∃ c', p c = .ok (a, c') := by
  have h' : (·.1) <$> p c = .ok a := h
  cases hp : p c with
  | error e =>
    rw [hp] at h'
    cases h'
  | ok r =>
    rw [hp] at h'
    obtain rfl : r.1 = a := Except.ok.inj h'
    exact ⟨r.2, rfl⟩

namespace Reads

theorem pure (a : α) : Reads (pure a) [] a :=
  ⟨fun _ _ => rfl, fun hk => absurd hk (Nat.not_lt_zero _)⟩

theorem bind {p : Scan α} {f : α → Scan β} {u v : List UInt8} {a : α} {b : β}
    (hp : Reads p u a) (hf : Reads (f a) v b) : Reads (p >>= f) (u ++ v) b := by
  refine ⟨fun rest n => ?_, fun {k} hk n => ?_⟩
  · rw [List.append_assoc, bind_of_ok (hp.whole _ n), hf.whole, List.length_append, Nat.add_assoc]
  · rw [List.length_append] at hk ⊢
    by_cases hku : k < u.length
    · -- the cut is in the first part
      obtain ⟨needed, he, h1, h2⟩ := hp.short hku n
      rw [List.take_append_of_le_length (by omega), bind_of_error he]
      exact ⟨needed, rfl, h1, by omega⟩
    · obtain ⟨needed, he, h1, h2⟩ := hf.short (k := k - u.length) (by omega) (n + u.length)
      have hk' : n + u.length + (k - u.length) = n + k := by omega
      rw [List.take_append, List.take_of_length_le (by omega), bind_of_ok (hp.whole _ n), he, hk']
      exact ⟨needed, rfl, by omega, by omega⟩

theorem bind_pure {p : Scan α} {u : List UInt8} {a : α} (hp : Reads p u a) (g : α → β) :
    Reads (p >>= fun x => Pure.pure (g x)) u (g a) := by
  simpa using hp.bind (f := fun x => Pure.pure (g x)) (Reads.pure (g a))

theorem guard {P : Prop} [Decidable P] {e : DecodeError} {k : Unit → Scan β} {u : List UInt8}
    {b : β} (hP : ¬ P) (hk : Reads (k ()) u b) :
    Reads (if P then throw e >>= k else k ()) u b := by
  rwa [if_neg hP]

theorem run'_append {p : Scan α} {u : List UInt8} {a : α} (hp : Reads p u a) (rest : List UInt8) :
    p.run' ⟨u ++ rest, 0⟩ = .ok a := by
  show (·.1) <$> p ⟨u ++ rest, 0⟩ = .ok a
  rw [hp.whole]
  rfl

theorem run'_take {p : Scan α} {u : List UInt8} {a : α} (hp : Reads p u a) {k : Nat}
    (hk : k < u.length) :
    ∃ needed, p.run' ⟨u.take k, 0⟩ = .error (.truncated needed k) ∧ k < needed := by
  obtain ⟨needed, he, hlt, -⟩ := hp.short hk 0
  refine ⟨needed, ?_, by omega⟩
  show (·.1) <$> p ⟨u.take k, 0⟩ = _
  rw [he, Nat.zero_add]
  rfl

end Reads

/-! ### Fields -/

theorem reads_take {bs : List UInt8} {n : Nat} (h : bs.length = n) : Reads (take n) bs bs := by
  subst h
  refine ⟨fun rest n => ?_, fun {k} hk n => ?_⟩
  · rw [take_of_le (by simp)]
    simp
  · refine ⟨n + bs.length, ?_, by omega, by omega⟩
    have hlen : (bs.take k).length = k := by simp; omega
    rw [take_of_lt (by simpa [hlen] using hk), hlen]

theorem reads_byte (b : UInt8) : Reads byte [b] b :=
  (reads_take (show [b].length = 1 from rfl)).bind_pure (·.headD 0)

theorem reads_word32 (w : UInt32) : Reads word32 (LittleEndian.ofUInt32 w) w := by
  have h := (reads_take (LittleEndian.length_ofUInt32 w)).bind_pure LittleEndian.toUInt32
  rwa [LittleEndian.toUInt32_ofUInt32] at h

theorem reads_word64 (w : UInt64) : Reads word64 (LittleEndian.ofUInt64 w) w := by
  have h := (reads_take (LittleEndian.length_ofUInt64 w)).bind_pure LittleEndian.toUInt64
  rwa [LittleEndian.toUInt64_ofUInt64] at h

/-! ### From a result to the bytes -/

theorem take_eq_ok {n : Nat} {c c' : Cursor} {front : List UInt8}
    (h : take n c = .ok (front, c')) : front.length = n ∧ c.rest = front ++ c'.rest := by
  by_cases hn : n ≤ c.rest.length
  · rw [take_of_le hn] at h
    simp only [Except.ok.injEq, Prod.mk.injEq] at h
    obtain ⟨rfl, rfl⟩ := h
    exact ⟨by simp [hn], (List.take_append_drop n c.rest).symm⟩
  · rw [take_of_lt (by omega)] at h
    cases h

theorem byte_eq_ok {c c' : Cursor} {b : UInt8} (h : byte c = .ok (b, c')) :
    c.rest = b :: c'.rest := by
  obtain ⟨front, c₁, htake, hpure⟩ := bind_eq_ok_iff.1 h
  obtain ⟨rfl, rfl⟩ := pure_eq_ok_iff.1 hpure
  obtain ⟨hlen, hrest⟩ := take_eq_ok htake
  obtain ⟨x, rfl⟩ := List.length_eq_one_iff.1 hlen
  exact hrest

theorem word32_eq_ok {c c' : Cursor} {w : UInt32} (h : word32 c = .ok (w, c')) :
    c.rest = LittleEndian.ofUInt32 w ++ c'.rest := by
  obtain ⟨front, c₁, htake, hpure⟩ := bind_eq_ok_iff.1 h
  obtain ⟨rfl, rfl⟩ := pure_eq_ok_iff.1 hpure
  obtain ⟨hlen, hrest⟩ := take_eq_ok htake
  rw [LittleEndian.ofUInt32_toUInt32 hlen, hrest]

theorem word64_eq_ok {c c' : Cursor} {w : UInt64} (h : word64 c = .ok (w, c')) :
    c.rest = LittleEndian.ofUInt64 w ++ c'.rest := by
  obtain ⟨front, c₁, ht, hp⟩ := bind_eq_ok_iff.1 h
  obtain ⟨rfl, rfl⟩ := pure_eq_ok_iff.1 hp
  obtain ⟨hlen, hrest⟩ := take_eq_ok ht
  rw [LittleEndian.ofUInt64_toUInt64 hlen, hrest]

end ThreadTrace.Wire
