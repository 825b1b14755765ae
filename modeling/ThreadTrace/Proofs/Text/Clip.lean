import ThreadTrace.Proofs.Text.Utf8

/-!
# ThreadTrace.Proofs.Text.Clip — text whose bytes were cut

Bytes are cut without regard to characters, and read as text afterwards.  What is read is `clip` of
the text (`lossy_take_bytes`): the whole characters in front of the cut, and one U+FFFD if the cut
is inside a character.  `Clipped` says so by fronts of the text, and `clipped_clip` has it.
-/

namespace ThreadTrace.Text

/-- The number of bytes. -/
def size (cs : List Char) : Nat := (cs.map Char.utf8Size).sum

@[simp] theorem size_nil : size [] = 0 := rfl

@[simp] theorem size_cons (c : Char) (cs : List Char) : size (c :: cs) = c.utf8Size + size cs := rfl

theorem length_bytes (s : String) : (bytes s).length = size s.toList := by
  simp [bytes, size, List.length_flatMap, String.length_utf8EncodeChar]

/-- The front of the characters in so many bytes, and a mark in place of a character that has some
of its bytes there and some not. -/
def clipFrom : Nat → List Char → List Char
  | _, [] => []
  | n, c :: cs =>
    if c.utf8Size ≤ n then c :: clipFrom (n - c.utf8Size) cs
    else if n = 0 then [] else ['\uFFFD']

/-- A text in so many bytes. -/
def clip (n : Nat) (s : String) : String := String.ofList (clipFrom n s.toList)

theorem shown_items_take (n : Nat) (cs : List Char) :
    (Utf8State.between.items ((cs.flatMap String.utf8EncodeChar).take n)).map Utf8Item.shown =
      clipFrom n cs := by
  induction cs generalizing n with
  | nil =>
    rw [List.flatMap_nil, List.take_nil]
    rfl
  | cons c cs ih =>
    have hlength : (String.utf8EncodeChar c).length = c.utf8Size := String.length_utf8EncodeChar c
    rw [List.flatMap_cons, List.take_append, hlength, clipFrom]
    split_ifs with hfits hzero
    · rw [List.take_of_length_le (by omega), Utf8State.items_utf8EncodeChar_append, List.map_cons,
        ih]
      rfl
    · subst hzero
      rw [Nat.zero_sub, List.take_zero, List.take_zero]
      rfl
    · rw [Nat.sub_eq_zero_of_le (by omega), List.take_zero, List.append_nil,
        Utf8State.items_take_utf8EncodeChar (by omega) (by omega)]
      rfl

/-- Bytes that were cut are read as the text that was. -/
theorem lossy_take_bytes (n : Nat) (s : String) : lossy ((bytes s).take n) = clip n s := by
  rw [lossy, bytes, shown_items_take, clip]

example : clip 4 "aé€" = "aé\uFFFD" := by decide +kernel

/-! ### What is kept -/

/-- Of the fronts of a text that are no longer than `n` bytes, the longest. -/
structure IsFront (n : Nat) (cs kept : List Char) : Prop where
  front : kept <+: cs
  size_le : size kept ≤ n
  longest : ∀ other, other <+: cs → size other ≤ n → other <+: kept

/-- Behind `n` bytes one is inside a character. -/
def CutsInside (n : Nat) (cs : List Char) : Prop :=
  ∃ before c after, cs = before ++ c :: after ∧ size before < n ∧ n < size before + c.utf8Size

/-- What is shown of a text of which `n` bytes are kept. -/
structure Clipped (n : Nat) (s shown : String) : Prop where
  whole : (bytes s).length ≤ n → shown = s
  cut : n < (bytes s).length → ∃ kept, IsFront n s.toList kept ∧
    (CutsInside n s.toList → shown = String.ofList (kept ++ ['\uFFFD'])) ∧
    (¬ CutsInside n s.toList → shown = String.ofList kept)

theorem clipFrom_of_size_le {n : Nat} {cs : List Char} (h : size cs ≤ n) : clipFrom n cs = cs := by
  induction cs generalizing n with
  | nil => rfl
  | cons c cs ih =>
    rw [size_cons] at h
    rw [clipFrom, if_pos (by omega), ih (by omega)]

theorem IsFront.cons {n : Nat} {c : Char} {cs kept : List Char} (hc : c.utf8Size ≤ n)
    (h : IsFront (n - c.utf8Size) cs kept) : IsFront n (c :: cs) (c :: kept) where
  front := (List.prefix_cons_inj c).2 h.front
  size_le := by
    have hkept := h.size_le
    rw [size_cons]
    omega
  longest other hother hsize := by
    obtain rfl | ⟨rest, rfl, hrest⟩ := List.prefix_cons_iff.1 hother
    · exact List.nil_prefix
    · rw [size_cons] at hsize
      exact (List.prefix_cons_inj c).2 (h.longest rest hrest (by omega))

theorem IsFront.nil {n : Nat} {c : Char} (cs : List Char) (hc : n < c.utf8Size) :
    IsFront n (c :: cs) [] where
  front := List.nil_prefix
  size_le := Nat.zero_le n
  longest other hother hsize := by
    obtain rfl | ⟨rest, rfl, -⟩ := List.prefix_cons_iff.1 hother
    · exact List.prefix_rfl
    · rw [size_cons] at hsize
      omega

theorem cutsInside_cons_iff {n : Nat} {c : Char} {cs : List Char} (hc : c.utf8Size ≤ n) :
    CutsInside n (c :: cs) ↔ CutsInside (n - c.utf8Size) cs := by
  constructor
  · rintro ⟨before, d, after, hcs, hbefore, hafter⟩
    obtain ⟨rfl, hcs⟩ | ⟨before, rfl, rfl⟩ := List.cons_eq_append_iff.1 hcs
    · obtain ⟨rfl, rfl⟩ := List.cons.inj hcs
      rw [size_nil] at hafter
      omega
    · rw [size_cons] at hbefore hafter
      exact ⟨before, d, after, rfl, by omega, by omega⟩
  · rintro ⟨before, d, after, rfl, hbefore, hafter⟩
    refine ⟨c :: before, d, after, rfl, ?_, ?_⟩ <;> rw [size_cons] <;> omega

theorem cutsInside_cons_iff_of_lt {n : Nat} {c : Char} {cs : List Char} (hc : n < c.utf8Size) :
    CutsInside n (c :: cs) ↔ 0 < n := by
  constructor
  · rintro ⟨before, -, -, -, hbefore, -⟩
    omega
  · intro hpos
    exact ⟨[], c, cs, rfl, hpos, by rw [size_nil]; omega⟩

/-- The longest front that has room, and the mark behind it if the cut is inside a character. -/
theorem exists_clipFrom_eq {n : Nat} {cs : List Char} (h : n < size cs) :
    ∃ kept, IsFront n cs kept ∧ (CutsInside n cs → clipFrom n cs = kept ++ ['\uFFFD']) ∧
      (¬ CutsInside n cs → clipFrom n cs = kept) := by
  induction cs generalizing n with
  | nil => cases h
  | cons c cs ih =>
    rw [size_cons] at h
    by_cases hc : c.utf8Size ≤ n
    -- the first character has room, and the others have what it leaves
    · obtain ⟨kept, hfront, hinside, hbetween⟩ := ih (n := n - c.utf8Size) (by omega)
      rw [cutsInside_cons_iff hc, clipFrom, if_pos hc]
      exact ⟨c :: kept, hfront.cons hc, fun hcut => congrArg (c :: ·) (hinside hcut),
        fun hcut => congrArg (c :: ·) (hbetween hcut)⟩
    -- the cut is inside the first character, or in front of it
    · rw [cutsInside_cons_iff_of_lt (by omega), clipFrom, if_neg hc]
      refine ⟨[], .nil cs (by omega), fun hpos => ?_, fun hzero => ?_⟩
      · rw [if_neg (by omega)]
        rfl
      · rw [if_pos (by omega)]

theorem clipped_clip (n : Nat) (s : String) : Clipped n s (clip n s) := by
  constructor
  · intro hwhole
    rw [length_bytes] at hwhole
    rw [clip, clipFrom_of_size_le hwhole, String.ofList_toList]
  · intro hcut
    rw [length_bytes] at hcut
    obtain ⟨kept, hfront, hinside, hbetween⟩ := exists_clipFrom_eq hcut
    exact ⟨kept, hfront, fun h => congrArg String.ofList (hinside h),
      fun h => congrArg String.ofList (hbetween h)⟩

theorem take_bytes_eq_nil_iff {n : Nat} (hn : n ≠ 0) {s : String} :
    (bytes s).take n = [] ↔ s = "" := by
  have hchar : ∀ c, String.utf8EncodeChar c ≠ [] := fun c => List.ne_nil_of_length_pos <| by
    rw [String.length_utf8EncodeChar]
    exact c.utf8Size_pos
  rw [List.take_eq_nil_iff, or_iff_right hn, bytes, List.flatMap_eq_nil_iff,
    ← String.toList_eq_nil_iff, List.eq_nil_iff_forall_not_mem]
  exact forall₂_congr fun c _ => iff_false_intro (hchar c)

end ThreadTrace.Text
