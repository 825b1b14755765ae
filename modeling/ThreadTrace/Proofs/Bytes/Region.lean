import ThreadTrace.Bytes.Region
import Mathlib.Data.List.Basic

/-!
# ThreadTrace.Proofs.Bytes.Region — the front of a region after a write

`Region.first_write?` says what a write leaves in the first bytes of a region, when it lies within
them: what was in front of it, what was written, what was behind it.
-/

namespace ThreadTrace.Region

variable {r s : Region} {offset n : Nat} {bs : List UInt8}

theorem write?_eq_some (r : Region) (h : offset + bs.length ≤ r.size) :
    ∃ s, r.write? offset bs = some s :=
  Option.isSome_iff_exists.1 (write?_isSome.2 h)

theorem first_write? (h : r.write? offset bs = some s) (hle : offset + bs.length ≤ n)
    (hn : n ≤ r.size) :
    s.first n = r.first offset ++ bs ++ (r.first n).drop (offset + bs.length) := by
  have hsize := size_write? h
  have hoffset : (r.first offset).length = offset := by
    rw [length_first]
    omega
  have hfront : (r.first offset ++ bs).length = offset + bs.length := by
    rw [List.length_append, hoffset]
  refine List.ext_getElem? fun i => ?_
  by_cases hi : i < n
  · rw [getElem?_first s (by omega), get?_write? h]
    by_cases hin : i < offset + bs.length
    · rw [List.getElem?_append_left (by omega)]
      by_cases hlow : i < offset
      · rw [if_neg (by omega), List.getElem?_append_left (by omega), getElem?_first r (by omega)]
      · rw [if_pos (by omega), List.getElem?_append_right (by omega), hoffset]
    · rw [if_neg (by omega), List.getElem?_append_right (by omega), hfront, List.getElem?_drop,
        Nat.add_sub_cancel' (by omega), getElem?_first r (by omega)]
  · rw [List.getElem?_eq_none (by rw [length_first]; omega),
      List.getElem?_eq_none (by rw [List.length_append, hfront, List.length_drop, length_first]; omega)]

/-- A write at the beginning. -/
theorem first_write?_zero (h : r.write? 0 bs = some s) (hle : bs.length ≤ n) (hn : n ≤ r.size) :
    s.first n = bs ++ (r.first n).drop bs.length := by
  have hfirst := first_write? h (by omega) hn
  rw [Nat.zero_add] at hfirst
  simpa [first] using hfirst

/-- A write at the end. -/
theorem first_write?_end (h : r.write? offset bs = some s) (hle : offset + bs.length ≤ r.size) :
    s.first (offset + bs.length) = r.first offset ++ bs := by
  have hnone : (r.first (offset + bs.length)).drop (offset + bs.length) = [] := by
    apply List.drop_of_length_le
    rw [length_first]
    exact Nat.min_le_left _ _
  rw [first_write? h (Nat.le_refl _) hle, hnone, List.append_nil]

/-- The `n` bytes at an offset. -/
def part (r : Region) (offset n : Nat) : List UInt8 := (r.first (offset + n)).drop offset

/-- What was written is what is found there. -/
theorem part_write? (h : r.write? offset bs = some s) (hle : offset + bs.length ≤ r.size) :
    s.part offset bs.length = bs := by
  have hoffset : (r.first offset).length = offset := by
    rw [length_first]
    omega
  rw [part, first_write?_end h hle, List.drop_left' hoffset]

/-- What is read from a place on depends on the bytes from there on. -/
theorem drop_first_congr {m : Nat} (hsize : s.size = r.size)
    (h : ∀ i, m ≤ i → s.get? i = r.get? i) (n : Nat) :
    (s.first n).drop m = (r.first n).drop m := by
  refine List.ext_getElem? fun i => ?_
  rw [List.getElem?_drop, List.getElem?_drop]
  by_cases hi : m + i < min n r.size
  · rw [getElem?_first s (by rwa [hsize]), getElem?_first r hi, h _ (Nat.le_add_right _ _)]
  · rw [List.getElem?_eq_none (by rw [length_first, hsize]; omega),
      List.getElem?_eq_none (by rw [length_first]; omega)]

theorem toList_congr (hsize : s.size = r.size) (h : ∀ i, s.get? i = r.get? i) :
    s.toList = r.toList := by
  rw [toList, toList, hsize]
  exact drop_first_congr (m := 0) hsize (fun i _ => h i) r.size

end ThreadTrace.Region
