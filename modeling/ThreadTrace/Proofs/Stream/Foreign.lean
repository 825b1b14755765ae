import ThreadTrace.Proofs.Stream.Reader

/-!
# ThreadTrace.Proofs.Stream.Foreign — bytes that are no stream at all

A header is judged word by word, and a wrong word counts before a missing one behind it.  `Foreign`
says of all bytes of a file when they are no stream for that reason; the other files have a header
or are too short for one (`readHeader_cases`).  No event is ever a reason to call a file foreign
(`isForeign_of_mem_events`).
-/

namespace ThreadTrace

open Wire

namespace Wire

/-! ### The words of a header -/

/-- The word behind `i` others. -/
def wordAt (bs : List UInt8) (i : Nat) : UInt64 := LittleEndian.toUInt64 ((bs.drop (8 * i)).take 8)

/-- The first word that is wrong is there, and shows that the bytes are no stream. -/
def Foreign (bs : List UInt8) : Prop :=
  (8 ≤ bs.length ∧ wordAt bs 0 ≠ magic) ∨
  (16 ≤ bs.length ∧ wordAt bs 0 = magic ∧ wordAt bs 1 ≠ version) ∨
  (32 ≤ bs.length ∧ wordAt bs 0 = magic ∧ wordAt bs 1 = version ∧ wordAt bs 3 ≠ 0)

instance (bs : List UInt8) : Decidable (Foreign bs) := inferInstanceAs (Decidable (_ ∨ _ ∨ _))

variable {bs : List UInt8} {i : Nat}

theorem wordAt_take (hi : i < 4) : wordAt (bs.take streamHeaderSize) i = wordAt bs i := by
  have hle : 8 ≤ streamHeaderSize - 8 * i := by
    rw [streamHeaderSize]
    omega
  rw [wordAt, List.drop_take, List.take_take, Nat.min_eq_left hle]
  rfl

theorem foreign_take : Foreign (bs.take streamHeaderSize) ↔ Foreign bs := by
  have h0 : wordAt (bs.take streamHeaderSize) 0 = wordAt bs 0 := wordAt_take (by decide)
  have h1 : wordAt (bs.take streamHeaderSize) 1 = wordAt bs 1 := wordAt_take (by decide)
  have h3 : wordAt (bs.take streamHeaderSize) 3 = wordAt bs 3 := wordAt_take (by decide)
  rw [Foreign, Foreign, h0, h1, h3]
  simp only [List.length_take, streamHeaderSize, Nat.le_min, Nat.le_refl, Nat.reduceLeDiff,
    true_and]

/-- A cursor behind `i` words. -/
def cursorAt (bs : List UInt8) (i : Nat) : Cursor := ⟨bs.drop (8 * i), 8 * i⟩

theorem word64_of_le (h : 8 * (i + 1) ≤ bs.length) :
    word64 (cursorAt bs i) = .ok (wordAt bs i, cursorAt bs (i + 1)) := by
  have hlen : 8 ≤ (cursorAt bs i).rest.length := by
    rw [cursorAt, List.length_drop]
    omega
  rw [word64, bind_of_ok (take_of_le hlen), cursorAt, cursorAt, List.drop_drop]
  rfl

theorem word64_of_lt (hle : 8 * i ≤ bs.length) (h : bs.length < 8 * (i + 1)) :
    word64 (cursorAt bs i) = .error (.truncated (8 * (i + 1)) bs.length) := by
  have hlen : (cursorAt bs i).rest.length = bs.length - 8 * i := List.length_drop
  have hlt : (cursorAt bs i).rest.length < 8 := by omega
  rw [word64, bind_of_error (take_of_lt hlt), hlen, cursorAt, Nat.add_sub_cancel' hle]
  rfl

/-- What can be found when the words are judged from the front. -/
inductive Judged (bs : List UInt8) : Except DecodeError (StreamHeader × Cursor) → Prop
  | foreign {e} (foreign : Foreign bs) (isForeign : (ReadError.decode e).isForeign) :
    Judged bs (.error e)
  | short {needed} (not_foreign : ¬ Foreign bs) (length_lt : bs.length < streamHeaderSize) :
    Judged bs (.error (.truncated needed bs.length))
  | whole {header c} (not_foreign : ¬ Foreign bs) (length_ge : streamHeaderSize ≤ bs.length) :
    Judged bs (.ok (header, c))

namespace Judged

theorem word64 {f : UInt64 → Scan StreamHeader} (hi : i < 4) (hle : 8 * i ≤ bs.length)
    (hshort : bs.length < 8 * (i + 1) → ¬ Foreign bs)
    (h : 8 * (i + 1) ≤ bs.length → Judged bs (f (wordAt bs i) (cursorAt bs (i + 1)))) :
    Judged bs ((Wire.word64 >>= f) (cursorAt bs i)) := by
  by_cases hword : 8 * (i + 1) ≤ bs.length
  · rw [bind_of_ok (word64_of_le hword)]
    exact h hword
  · have hlt : bs.length < 8 * (i + 1) := Nat.lt_of_not_le hword
    rw [bind_of_error (word64_of_lt hle hlt)]
    refine .short (hshort hlt) ?_
    rw [streamHeaderSize]
    omega

theorem guard {P : Prop} [Decidable P] {e : DecodeError} {k : Unit → Scan StreamHeader} {c : Cursor}
    (hforeign : P → Foreign bs) (he : (ReadError.decode e).isForeign)
    (h : ¬ P → Judged bs (k () c)) :
    Judged bs ((if P then throw e >>= k else k ()) c) := by
  by_cases hP : P
  · rw [if_pos hP]
    exact .foreign (hforeign hP) he
  · rw [if_neg hP]
    exact h hP

end Judged

theorem judged_scanStreamHeader (bs : List UInt8) :
    Judged bs (scanStreamHeader (cursorAt bs 0)) := by
  refine .word64 (by decide) (Nat.zero_le _) (fun _ => by rw [Foreign]; omega) fun h0 => ?_
  refine .guard (fun hmagic => .inl ⟨h0, hmagic⟩) rfl fun hmagic => ?_
  rw [not_not] at hmagic
  refine .word64 (by decide) h0 (fun _ => by simp [Foreign, hmagic]; omega) fun h1 => ?_
  refine .guard (fun hversion => .inr (.inl ⟨h1, hmagic, hversion⟩)) rfl fun hversion => ?_
  rw [not_not] at hversion
  refine .word64 (by decide) h1 (fun _ => by simp [Foreign, hmagic, hversion]; omega) fun h2 => ?_
  refine .word64 (by decide) h2 (fun _ => by simp [Foreign, hmagic, hversion]; omega) fun h3 => ?_
  refine .guard (fun hreserved => .inr (.inr ⟨h3, hmagic, hversion, hreserved⟩)) rfl
    fun hreserved => ?_
  rw [not_not] at hreserved
  exact .whole (by simp [Foreign, hmagic, hversion, hreserved]) h3

/-! ### Events -/

/-- What is wrong for `p` does not make the bytes foreign. -/
def NeverForeign {α : Type} (p : Scan α) : Prop :=
  ∀ c e, p c = .error e → (ReadError.decode e).isForeign = false

namespace NeverForeign

variable {α β : Type}

theorem pure (a : α) : NeverForeign (pure a) := fun _ _ h => by cases h

theorem throw {e : DecodeError} (he : (ReadError.decode e).isForeign = false) :
    NeverForeign (throw e : Scan α) := by
  intro c e' h
  obtain rfl : e = e' := Except.error.inj h
  exact he

theorem bind {p : Scan α} {f : α → Scan β} (hp : NeverForeign p) (hf : ∀ a, NeverForeign (f a)) :
    NeverForeign (p >>= f) := by
  intro c e h
  cases hpc : p c with
  | error e' =>
    rw [bind_of_error hpc] at h
    obtain rfl := Except.error.inj h
    exact hp c e' hpc
  | ok r =>
    rw [bind_of_ok hpc] at h
    exact hf r.1 r.2 e h

theorem take (n : Nat) : NeverForeign (take n) := by
  intro c e h
  by_cases hn : n ≤ c.rest.length
  · rw [take_of_le hn] at h
    cases h
  · rw [take_of_lt (Nat.lt_of_not_le hn)] at h
    obtain rfl := Except.error.inj h
    rfl

theorem byte : NeverForeign byte := (take 1).bind fun _ => .pure _

theorem word32 : NeverForeign word32 := (take 4).bind fun _ => .pure _

theorem word64 : NeverForeign word64 := (take 8).bind fun _ => .pure _

theorem scanBody (tag : Tag) : NeverForeign (scanBody tag) := by
  have hfield : ∀ length, NeverForeign (field length) := fun _ => take _
  cases tag with
  | invalid => exact .throw rfl
  | spanBegin =>
    exact word64.bind fun _ => byte.bind fun _ => byte.bind fun _ => (hfield _).bind fun _ =>
      (hfield _).bind fun _ => .pure _
  | spanEnd => exact word64.bind fun _ => .pure _
  | instant => exact word64.bind fun _ => byte.bind fun _ => (hfield _).bind fun _ => .pure _
  | threadName => exact byte.bind fun _ => (hfield _).bind fun _ => .pure _
  | processName => exact byte.bind fun _ => (hfield _).bind fun _ => .pure _
  | unitChange => exact word64.bind fun _ => .pure _
  | padding => exact word32.bind fun _ => (take _).bind fun _ => .pure _
  | custom => exact word32.bind fun _ => (take _).bind fun _ => .pure _
  | streamOver => exact .pure _

theorem scanEvent : NeverForeign scanEvent := by
  refine byte.bind fun code => ?_
  cases Tag.ofCode? code with
  | none => exact .throw rfl
  | some tag => exact scanBody tag

end NeverForeign

theorem isForeign_of_mem_decodeEvents {payload : List UInt8} {e : DecodeError}
    (h : .error e ∈ decodeEvents payload) : (ReadError.decode e).isForeign = false := by
  induction payload using decodeEvents.induct with
  | case1 => rw [decodeEvents] at h; cases h
  | case2 b bs e' hevent =>
    rw [decodeEvents, hevent, List.mem_singleton] at h
    obtain rfl := Except.error.inj h
    unfold decodeEvent at hevent
    cases hscan : scanEvent ⟨b :: bs, 0⟩ with
    | ok r => simp [hscan] at hevent
    | error found =>
      simp only [hscan, Except.error.injEq] at hevent
      obtain rfl := hevent
      exact NeverForeign.scanEvent _ _ hscan
  | case3 b bs event used hevent ih =>
    rw [decodeEvents, hevent] at h
    obtain h | h := List.mem_cons.1 h
    · cases h
    · exact ih h

end Wire

/-! ### Files -/

/-- A file is foreign, or too short for a header, or has one. -/
theorem Reader.readHeader_cases {s : Source} (hs : s.Sound) :
    (Foreign s.rest ∧ ∃ e, (ofSource s).readHeader.1 = .error e ∧ e.isForeign) ∨
    (¬ Foreign s.rest ∧ s.rest.length < streamHeaderSize ∧
      ∃ e, (ofSource s).readHeader.1 = .error e ∧ e.isForeign = false) ∨
    (¬ Foreign s.rest ∧ streamHeaderSize ≤ s.rest.length ∧
      ∃ header rest r, s.rest = header.toBytes ++ rest ∧
        (ofSource s).readHeader = (.ok header, r) ∧ r.At (some header) rest) := by
  obtain ⟨r₁, hfill, h1⟩ := fill_at (ofSource_at hs) streamHeaderSize
  have hlength : (s.rest.take streamHeaderSize).length = min streamHeaderSize s.rest.length :=
    List.length_take
  have hjudged := judged_scanStreamHeader (s.rest.take streamHeaderSize)
  have hdecode : decodeStreamHeader (s.rest.take streamHeaderSize) =
      (·.1) <$> scanStreamHeader (cursorAt (s.rest.take streamHeaderSize) 0) := rfl
  have hnone : (ofSource s).header = none := rfl
  have hread : ∀ {e}, decodeStreamHeader (s.rest.take streamHeaderSize) = .error e →
      (ofSource s).readHeader.1 = .error (.decode e) := by
    intro e he
    simp [readHeader, hnone, hfill, he]
  generalize scanStreamHeader _ = out at hjudged hdecode
  cases hjudged with
  | foreign hforeign he => exact .inl ⟨foreign_take.1 hforeign, _, hread hdecode, he⟩
  | short hforeign hlt =>
    exact .inr (.inl ⟨fun h => hforeign (foreign_take.2 h), by omega, _, hread hdecode, rfl⟩)
  | @whole header c hforeign hge =>
    have hdecode : decodeStreamHeader (s.rest.take streamHeaderSize) = .ok header := hdecode
    have hheader : (ofSource s).readHeader = (.ok header, { r₁ with header := some header }) := by
      simp [readHeader, hnone, hfill, hdecode]
    obtain ⟨rest, hrest, h2⟩ := readHeader_eq_ok (ofSource_at hs) hheader
    exact .inr (.inr ⟨fun h => hforeign (foreign_take.2 h), by omega, header, rest, _, hrest,
      hheader, h2⟩)

end ThreadTrace
