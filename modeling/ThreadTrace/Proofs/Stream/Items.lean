import ThreadTrace.Proofs.Stream.Delivery

/-!
# ThreadTrace.Proofs.Stream.Items — where the sequence of chunks ends

The sequence of chunks goes on after an error.  Once the stream header is known every item takes a
byte at least, and so the sequence ends (`items_at_some`).  Before that each item takes the bytes in
the place of a header, and at the end of the source there are none to take: a reader that does not
come to a header is told so for ever (`items_at_none`).  `items_end_iff` tells the two apart.
-/

namespace ThreadTrace.Reader

open Wire

variable {r : Reader} {sh : StreamHeader} {bs : List UInt8}

/-! ### One item -/

/-- What an answer adds to the sequence, if it does not end it. -/
def item? : Except ReadError (Option Chunk) → Option (Except ReadError Chunk)
  | .ok c => c.map .ok
  | .error e => some (.error e)

theorem items_of_none (h : item? r.next.1 = none) (n : Nat) : (items n r).1 = [] := by
  cases n with
  | zero => rfl
  | succ n =>
    unfold items
    rcases hnext : r.next with ⟨_ | _ | c, r'⟩
    · rw [hnext] at h
      cases h
    · rfl
    · rw [hnext] at h
      cases h

theorem items_of_some {item : Except ReadError Chunk} (h : item? r.next.1 = some item) (n : Nat) :
    (items (n + 1) r).1 = item :: (items n r.next.2).1 := by
  rw [items]
  rcases hnext : r.next with ⟨e | _ | c, r'⟩
  · rw [hnext] at h
    obtain rfl := Option.some.inj h
    rfl
  · rw [hnext] at h
    cases h
  · rw [hnext] at h
    obtain rfl := Option.some.inj h
    rfl

/-! ### Behind the header -/

theorem readPayload_at (ch : ChunkHeader) (h : r.At (some sh) bs) :
    (∃ item, item? (r.readPayload ch).1 = some item) ∧
      (r.readPayload ch).2.At (some sh) (bs.drop ch.payloadSize.toNat) := by
  obtain ⟨r₁, hfill, h₁⟩ := fill_at h ch.payloadSize.toNat
  rw [readPayload_eq, hfill, andThen_ok, takePayload]
  split
  · exact ⟨⟨_, rfl⟩, h₁⟩
  · exact ⟨⟨_, rfl⟩, h₁⟩

/-- The next item is behind bytes that were not taken before. -/
theorem next_at_some (h : r.At (some sh) bs) (hne : bs ≠ []) :
    (∃ item, item? r.next.1 = some item) ∧
      ∃ rest, r.next.2.At (some sh) rest ∧ rest.length < bs.length := by
  have hpos : 0 < bs.length := List.length_pos_iff.2 hne
  have hlt : (bs.drop chunkHeaderSize).length < bs.length := by
    rw [List.length_drop, chunkHeaderSize]
    omega
  obtain ⟨r₁, hfill, h₁⟩ := fill_at h chunkHeaderSize
  obtain ⟨b, bytes, hbytes⟩ : ∃ b bytes, bs.take chunkHeaderSize = b :: bytes := by
    refine List.exists_cons_of_ne_nil fun hnil => hne ?_
    exact (List.take_eq_nil_iff.1 hnil).resolve_left (by decide)
  rw [next_eq, readHeader_at_some h, andThen_ok, hfill, andThen_ok, hbytes, takeChunk]
  cases decodeChunkHeader (b :: bytes) with
  | error e => exact ⟨⟨_, rfl⟩, _, h₁, hlt⟩
  | ok ch =>
    obtain ⟨hitem, h₂⟩ := readPayload_at ch h₁
    refine ⟨hitem, _, h₂, Nat.lt_of_le_of_lt ?_ hlt⟩
    rw [List.length_drop]
    exact Nat.sub_le _ _

/-- The sequence has `k` items. -/
def Ends (r : Reader) (k : Nat) : Prop := ∀ n, (items n r).1.length = min n k

theorem ends_of_none (h : item? r.next.1 = none) : r.Ends 0 := by
  intro n
  rw [items_of_none h, Nat.min_zero]
  rfl

theorem Ends.of_next {item : Except ReadError Chunk} {k : Nat} (hk : r.next.2.Ends k)
    (h : item? r.next.1 = some item) : r.Ends (k + 1) := by
  intro n
  cases n with
  | zero => rfl
  | succ n => rw [items_of_some h, List.length_cons, hk, Nat.succ_min_succ]

theorem items_at_some (h : r.At (some sh) bs) : ∃ k ≤ bs.length, r.Ends k := by
  induction hn : bs.length using Nat.strongRecOn generalizing r bs with
  | ind n ih =>
    by_cases hnil : bs = []
    · subst hnil
      exact ⟨0, Nat.zero_le n, ends_of_none (by rw [next_at_nil h]; rfl)⟩
    · obtain ⟨⟨item, hitem⟩, rest, hrest, hlt⟩ := next_at_some h hnil
      obtain ⟨k, hk, hends⟩ := ih rest.length (by omega) hrest rfl
      exact ⟨k + 1, by omega, hends.of_next hitem⟩

/-! ### In front of the header -/

/-- The reader takes the header first and then does what it would have done with it. -/
theorem next_of_readHeader {r' : Reader} (h : r.readHeader = (.ok sh, r'))
    (hheader : r'.header = some sh) : r.next = r'.next := by
  rw [next_eq, next_eq, h, readHeader_of_header hheader]

theorem Ends.of_readHeader {r' : Reader} {k : Nat} (hk : r'.Ends k)
    (h : r.readHeader = (.ok sh, r')) (hheader : r'.header = some sh) : r.Ends k := by
  intro n
  cases n with
  | zero => exact (Nat.zero_min k).symm
  | succ n =>
    have hn := hk (n + 1)
    rw [items] at hn ⊢
    rwa [next_of_readHeader h hheader]

/-- Bytes that are no header are taken all the same. -/
theorem next_at_none {e : DecodeError} (h : r.At none bs)
    (he : decodeStreamHeader (bs.take streamHeaderSize) = .error e) :
    item? r.next.1 = some (.error (.decode e)) ∧
      r.next.2.At none (bs.drop streamHeaderSize) := by
  obtain ⟨r₁, hfill, h₁⟩ := fill_at h streamHeaderSize
  rw [next_eq, readHeader_eq h.header_eq, hfill, andThen_ok, takeHeader, he]
  exact ⟨rfl, h₁⟩

/-- Some number of header sizes ahead the bytes are a stream header. -/
def HeaderAhead (bs : List UInt8) : Prop :=
  ∃ (i : Nat) (sh : StreamHeader), sh.toBytes <+: bs.drop (i * streamHeaderSize)

/-- The next header is here or further ahead. -/
theorem headerAhead_iff :
    HeaderAhead bs ↔ (∃ sh : StreamHeader, sh.toBytes <+: bs) ∨
      HeaderAhead (bs.drop streamHeaderSize) := by
  constructor
  · rintro ⟨i, sh, hpre⟩
    cases i with
    | zero => exact .inl ⟨sh, by simpa using hpre⟩
    | succ i =>
      refine .inr ⟨i, sh, ?_⟩
      rwa [List.drop_drop, Nat.add_comm, ← Nat.succ_mul]
  · rintro (⟨sh, hpre⟩ | ⟨i, sh, hpre⟩)
    · exact ⟨0, sh, by simpa using hpre⟩
    · refine ⟨i + 1, sh, ?_⟩
      rwa [List.drop_drop, Nat.add_comm, ← Nat.succ_mul] at hpre

theorem decodeStreamHeader_take_eq_ok_iff :
    decodeStreamHeader (bs.take streamHeaderSize) = .ok sh ↔ sh.toBytes <+: bs := by
  rw [decodeStreamHeader_eq_ok_iff (List.length_take_le _ _), List.prefix_iff_eq_take,
    StreamHeader.length_toBytes]
  exact eq_comm

theorem HeaderAhead.length_pos (h : HeaderAhead bs) : 0 < bs.length := by
  obtain ⟨i, sh, hpre⟩ := h
  have hle := hpre.length_le
  rw [StreamHeader.length_toBytes, List.length_drop, streamHeaderSize] at hle
  omega

/-- A header ahead is come to, and behind it the sequence ends. -/
theorem items_at_headerAhead (h : r.At none bs) (hahead : HeaderAhead bs) :
    ∃ k ≤ bs.length, r.Ends k := by
  induction hn : bs.length using Nat.strongRecOn generalizing r bs with
  | ind n ih =>
    have hpos := hahead.length_pos
    cases hdecode : decodeStreamHeader (bs.take streamHeaderSize) with
    | ok sh =>
      obtain ⟨rest, rfl⟩ := decodeStreamHeader_take_eq_ok_iff.1 hdecode
      obtain ⟨r₁, hheader, h₁⟩ := readHeader_at_none h
      obtain ⟨k, hk, hends⟩ := items_at_some h₁
      refine ⟨k, ?_, hends.of_readHeader hheader h₁.header_eq⟩
      rw [← hn, List.length_append]
      omega
    | error e =>
      obtain ⟨hitem, h₁⟩ := next_at_none h hdecode
      have hlt : (bs.drop streamHeaderSize).length < bs.length := by
        rw [List.length_drop, streamHeaderSize]
        omega
      obtain ⟨sh, hpre⟩ | hrest := headerAhead_iff.1 hahead
      · rw [decodeStreamHeader_take_eq_ok_iff.2 hpre] at hdecode
        cases hdecode
      · obtain ⟨k, hk, hends⟩ := ih _ (hn ▸ hlt) h₁ hrest rfl
        exact ⟨k + 1, by omega, hends.of_next hitem⟩

/-- Without a header ahead the sequence does not end: every item says what is wrong with the bytes
in the place of the header, also when there are none. -/
theorem items_at_none (h : r.At none bs) (hahead : ¬ HeaderAhead bs) (n : Nat) :
    (items n r).1.length = n ∧ ∀ i < n, ∃ e,
      decodeStreamHeader ((bs.drop (i * streamHeaderSize)).take streamHeaderSize) = .error e ∧
        (items n r).1[i]? = some (.error (.decode e)) := by
  induction n generalizing r bs with
  | zero => exact ⟨rfl, fun i hi => absurd hi (Nat.not_lt_zero i)⟩
  | succ n ih =>
    rw [headerAhead_iff, not_or] at hahead
    obtain ⟨hhere, hrest⟩ := hahead
    cases hdecode : decodeStreamHeader (bs.take streamHeaderSize) with
    | ok sh => exact absurd ⟨sh, decodeStreamHeader_take_eq_ok_iff.1 hdecode⟩ hhere
    | error e =>
      obtain ⟨hitem, h₁⟩ := next_at_none h hdecode
      obtain ⟨hlength, hitems⟩ := ih h₁ hrest
      rw [items_of_some hitem]
      refine ⟨congrArg (· + 1) hlength, fun i hi => ?_⟩
      cases i with
      | zero => exact ⟨e, by simpa using hdecode, rfl⟩
      | succ i =>
        obtain ⟨e', hdecode', hi'⟩ := hitems i (Nat.lt_of_succ_lt_succ hi)
        refine ⟨e', ?_, hi'⟩
        rwa [List.drop_drop, Nat.add_comm, ← Nat.succ_mul] at hdecode'

/-! ### All readers -/

/-- The reader knows the stream header or comes to one. -/
def Headed (r : Reader) : Prop := r.header.isSome ∨ HeaderAhead r.source.rest

/-- There is no end of items, and the `i`-th is the error of the bytes `i` header sizes ahead. -/
def Endless (r : Reader) : Prop :=
  ∀ n, (items n r).1.length = n ∧ ∀ i < n, ∃ e,
    decodeStreamHeader ((r.source.rest.drop (i * streamHeaderSize)).take streamHeaderSize) =
        .error e ∧
      (items n r).1[i]? = some (.error (.decode e))

theorem ends_of_headed (hs : r.source.Sound) (h : r.Headed) :
    ∃ k ≤ r.source.rest.length, r.Ends k := by
  cases hheader : r.header with
  | some sh => exact items_at_some ⟨hheader, rfl, hs⟩
  | none =>
    obtain hsome | hahead := h
    · rw [hheader] at hsome
      cases hsome
    · exact items_at_headerAhead ⟨hheader, rfl, hs⟩ hahead

theorem endless_of_not_headed (hs : r.source.Sound) (h : ¬ r.Headed) : r.Endless := by
  obtain ⟨hheader, hahead⟩ := not_or.1 h
  rw [Bool.not_eq_true, Option.isSome_eq_false_iff, Option.isNone_iff_eq_none] at hheader
  exact items_at_none ⟨hheader, rfl, hs⟩ hahead

theorem Endless.not_ends (h : r.Endless) (k : Nat) : ¬ r.Ends k := by
  intro hends
  have hlength := hends (k + 1)
  rw [(h (k + 1)).1] at hlength
  omega

/-- **The sequence of chunks ends behind a stream header, and only there.**  A reader that knows the
header, or comes to one, gives no more items than there are bytes before it.  Any other reader, in
whatever state it is, gives errors for ever: one for each stretch of the header's size for as long
as the source has bytes, and then the error that a header of no bytes is cut short. -/
theorem items_end_iff (hs : r.source.Sound) :
    ((∃ k ≤ r.source.rest.length, r.Ends k) ↔ r.Headed) ∧ (¬ r.Headed → r.Endless) := by
  refine ⟨⟨?_, ends_of_headed hs⟩, endless_of_not_headed hs⟩
  rintro ⟨k, -, hends⟩
  by_contra hnot
  exact (endless_of_not_headed hs hnot).not_ends k hends

/-- Bytes of a header's size in front of a stream are an item more; an empty source has no end. -/
theorem items_end_noise :
    let noisy := ofBytes (List.replicate 32 0 ++ headerLookalike.toBytes)
    noisy.source.Sound ∧ noisy.Headed ∧ noisy.Ends 3 ∧
      (ofBytes []).source.Sound ∧ ¬ (ofBytes []).Headed ∧ (ofBytes []).Endless := by
  intro noisy
  have hnoisy : noisy.source.Sound := rfl
  have hempty : (ofBytes []).source.Sound := rfl
  have hheaded : noisy.Headed := .inr ⟨1, headerLookalike.header, by decide +kernel⟩
  have hnot : ¬ (ofBytes []).Headed := by
    rintro (hsome | hahead)
    · cases hsome
    · exact Nat.lt_irrefl 0 hahead.length_pos
  obtain ⟨k, -, hends⟩ := (items_end_iff hnoisy).1.2 hheaded
  have hfour : min 4 k = 3 := by
    rw [← hends 4]
    decide +kernel
  obtain rfl : k = 3 := by omega
  exact ⟨hnoisy, hheaded, hends, hempty, hnot, (items_end_iff hempty).2 hnot⟩

end ThreadTrace.Reader
