/-!
# ThreadTrace.Bytes.Region — memory of a fixed size

A region is memory that somebody else allocated: its size never changes and a write that does not
fit changes nothing.  Only the front is kept byte by byte; behind it the region is uniform, so a
large region that is hardly used costs nothing.  `get?_write?` says what a write does to every
byte.
-/

namespace ThreadTrace

structure Region where
  front : List UInt8
  size : Nat
  /-- What every byte behind the front holds. -/
  fill : UInt8
  front_le : front.length ≤ size

namespace Region

def filled (size : Nat) (fill : UInt8) : Region := ⟨[], size, fill, Nat.zero_le _⟩

def ofList (bs : List UInt8) : Region := ⟨bs, bs.length, 0, Nat.le_refl _⟩

/-- The byte at an offset inside the region. -/
def get? (r : Region) (i : Nat) : Option UInt8 :=
  if i < r.size then some (r.front.getD i r.fill) else none

/-- The first `n` bytes, or all if there are fewer. -/
def first (r : Region) (n : Nat) : List UInt8 :=
  let n := min n r.size
  r.front.take n ++ List.replicate (n - r.front.length) r.fill

/-- All bytes. -/
def toList (r : Region) : List UInt8 := r.first r.size

@[simp] theorem length_first (r : Region) (n : Nat) : (r.first n).length = min n r.size := by
  have := r.front_le
  simp only [first, List.length_append, List.length_take, List.length_replicate]
  omega

theorem getElem?_first (r : Region) {n i : Nat} (h : i < min n r.size) :
    (r.first n)[i]? = r.get? i := by
  have hi : i < r.size := by omega
  have hn := h
  simp only [first, get?, hi, if_true]
  by_cases hf : i < r.front.length
  · rw [List.getElem?_append_left (by simp; omega), List.getElem?_take_of_lt h]
    simp [List.getD, List.getElem?_eq_getElem hf]
  · rw [List.getElem?_append_right (by simp; omega)]
    have hlen : (r.front.take (min n r.size)).length = r.front.length := by
      simp; omega
    rw [hlen, List.getElem?_replicate]
    have hlt : i - r.front.length < min n r.size - r.front.length := by omega
    simp [hlt, List.getD, List.getElem?_eq_none (Nat.le_of_not_lt hf)]

/-- The region with bytes put at an offset, if they fit. -/
def write? (r : Region) (offset : Nat) (bs : List UInt8) : Option Region :=
  if h : offset + bs.length ≤ r.size then
    some {
      front := r.first offset ++ bs ++ r.front.drop (offset + bs.length)
      size := r.size
      fill := r.fill
      front_le := by
        have := r.front_le
        simp only [List.length_append, length_first, List.length_drop]
        omega }
  else none

theorem write?_isSome {r : Region} {offset : Nat} {bs : List UInt8} :
    (r.write? offset bs).isSome ↔ offset + bs.length ≤ r.size := by
  unfold write?
  split <;> simp_all

theorem size_write? {r s : Region} {offset : Nat} {bs : List UInt8}
    (h : r.write? offset bs = some s) : s.size = r.size := by
  unfold write? at h
  split at h
  · simp only [Option.some.injEq] at h
    rw [← h]
  · simp at h

/-- A write puts its bytes at the offset and leaves every other byte as it was. -/
theorem get?_write? {r s : Region} {offset : Nat} {bs : List UInt8}
    (h : r.write? offset bs = some s) (i : Nat) :
    s.get? i = if offset ≤ i ∧ i < offset + bs.length then bs[i - offset]? else r.get? i := by
  unfold write? at h
  split at h
  case isFalse => simp at h
  case isTrue hle =>
    simp only [Option.some.injEq] at h
    subst h
    by_cases hi : i < r.size
    case neg =>
      have hout : ¬ (offset ≤ i ∧ i < offset + bs.length) := by omega
      simp [get?, hi, hout]
    have hmin : min offset r.size = offset := by omega
    by_cases h1 : i < offset
    · have hout : ¬ (offset ≤ i ∧ i < offset + bs.length) := by omega
      have hfirst := getElem?_first r (n := offset) (i := i) (by omega)
      simp only [get?, hi, if_true, hout, if_false, List.getD, List.append_assoc] at hfirst ⊢
      rw [List.getElem?_append_left (by simp; omega), hfirst]
      rfl
    · by_cases h2 : i < offset + bs.length
      · have hin : offset ≤ i ∧ i < offset + bs.length := by omega
        simp only [get?, hi, if_true, hin, and_self, List.getD, List.append_assoc]
        rw [List.getElem?_append_right (by simp; omega), List.getElem?_append_left (by simp; omega),
          length_first, hmin, List.getElem?_eq_getElem (by omega)]
        rfl
      · have hout : ¬ (offset ≤ i ∧ i < offset + bs.length) := by omega
        simp only [get?, hi, if_true, hout, if_false, List.getD]
        rw [List.getElem?_append_right (by simp; omega), List.getElem?_drop]
        congr 3
        simp only [List.length_append, length_first, hmin]
        omega

end Region

end ThreadTrace
