import ThreadTrace.Stream.Reader
import ThreadTrace.Proofs.Stream.Source
import ThreadTrace.Proofs.Wire.Header

/-!
# ThreadTrace.Proofs.Stream.Reader — a stream is read exactly as it was laid out

`Reader.At` says where a reader stands.  What `next` answers there depends on the bytes before it
only: nothing (`next_at_nil`), part of a chunk header (`next_at_short`), a chunk header and part of
its payload (`next_at_cut`) or a chunk (`next_at_chunk`).  By induction on the chunks this gives
`readAll_eq_ok_iff`: what can be read are the traces laid out as streams, and nothing else.
-/

namespace ThreadTrace

open Wire

/-- Every chunk tells the size of its payload. -/
def Trace.Framed (t : Trace) : Prop := ∀ c ∈ t.chunks, c.Framed

instance (t : Trace) : Decidable t.Framed := inferInstanceAs (Decidable (∀ c ∈ t.chunks, c.Framed))

namespace Reader

/-- The reader knows this header, these bytes are before it, and its source does not fail. -/
structure At (r : Reader) (header : Option StreamHeader) (rest : List UInt8) : Prop where
  header_eq : r.header = header
  rest_eq : r.source.rest = rest
  sound : r.source.Sound

variable {r : Reader}

theorem ofSource_at {s : Source} (h : s.Sound) : (ofSource s).At none s.rest := ⟨rfl, rfl, h⟩

theorem fill_at {header : Option StreamHeader} {bs : List UInt8} (h : r.At header bs) (n : Nat) :
    ∃ r', r.fill n = (.ok (bs.take n), r') ∧ r'.At header (bs.drop n) := by
  obtain ⟨s', hfill, hrest, hs'⟩ := Source.fill_of_sound h.sound n
  rw [h.rest_eq] at hfill hrest
  exact ⟨{ r with source := s' }, by simp [fill, hfill], h.header_eq, hrest, hs'⟩

theorem fill_at_append {header : Option StreamHeader} {front rest : List UInt8} {n : Nat}
    (h : r.At header (front ++ rest)) (hlen : front.length = n) :
    ∃ r', r.fill n = (.ok front, r') ∧ r'.At header rest := by
  subst hlen
  simpa using fill_at h front.length

/-- What is left of a source is less than what is wanted. -/
theorem fill_at_end {header : Option StreamHeader} {bs : List UInt8} {n : Nat}
    (h : r.At header bs) (hlt : bs.length < n) : ∃ r', r.fill n = (.ok bs, r') := by
  obtain ⟨r', hfill, -⟩ := fill_at h n
  rw [List.take_of_length_le (Nat.le_of_lt hlt)] at hfill
  exact ⟨r', hfill⟩

/-! ### The stream header -/

variable {sh : StreamHeader}

/-- A header that has been read is not read again. -/
theorem readHeader_of_header (h : r.header = some sh) : r.readHeader = (.ok sh, r) := by
  simp [readHeader, h]

theorem readHeader_at_some {bs : List UInt8} (h : r.At (some sh) bs) :
    r.readHeader = (.ok sh, r) := readHeader_of_header h.header_eq

theorem readHeader_at_none {rest : List UInt8} (h : r.At none (sh.toBytes ++ rest)) :
    ∃ r', r.readHeader = (.ok sh, r') ∧ r'.At (some sh) rest := by
  obtain ⟨r₁, hfill, h1⟩ := fill_at_append h sh.length_toBytes
  have hdec : decodeStreamHeader sh.toBytes = .ok sh :=
    (decodeStreamHeader_eq_ok_iff (Nat.le_of_eq sh.length_toBytes)).2 rfl
  refine ⟨{ r₁ with header := some sh }, ?_, rfl, h1.rest_eq, h1.sound⟩
  simp [readHeader, h.header_eq, hfill, hdec]

theorem readHeader_eq_ok {r' : Reader} {bs : List UInt8} (h : r.At none bs)
    (hr : r.readHeader = (.ok sh, r')) :
    ∃ rest, bs = sh.toBytes ++ rest ∧ r'.At (some sh) rest := by
  obtain ⟨r₁, hfill, h1⟩ := fill_at h streamHeaderSize
  have hlen : (bs.take streamHeaderSize).length ≤ streamHeaderSize := List.length_take_le _ _
  cases hdec : decodeStreamHeader (bs.take streamHeaderSize) with
  | error e => simp [readHeader, h.header_eq, hfill, hdec] at hr
  | ok found =>
    simp only [readHeader, h.header_eq, hfill, hdec, Prod.mk.injEq, Except.ok.injEq] at hr
    obtain ⟨rfl, rfl⟩ := hr
    refine ⟨bs.drop streamHeaderSize, ?_, rfl, h1.rest_eq, h1.sound⟩
    rw [← (decodeStreamHeader_eq_ok_iff hlen).1 hdec, List.take_append_drop]

/-! ### One chunk -/

theorem next_at_nil (h : r.At (some sh) []) : r.next.1 = .ok none := by
  obtain ⟨r₁, hfill, -⟩ := fill_at h chunkHeaderSize
  rw [List.take_nil] at hfill
  simp [next, readHeader_at_some h, hfill]

/-- Part of a chunk header. -/
theorem next_at_short {bs : List UInt8} (h : r.At (some sh) bs) (hne : bs ≠ [])
    (hlt : bs.length < chunkHeaderSize) :
    ∃ needed, r.next.1 = .error (.decode (.truncated needed bs.length)) ∧ bs.length < needed := by
  obtain ⟨r₁, hfill⟩ := fill_at_end h hlt
  obtain ⟨needed, hdec, hneeded⟩ := decodeChunkHeader_of_lt hlt
  refine ⟨needed, ?_, hneeded⟩
  obtain ⟨b, bs, rfl⟩ := List.exists_cons_of_ne_nil hne
  simp [next, readHeader_at_some h, hfill, hdec]

theorem next_at_header {ch : ChunkHeader} {bs : List UInt8}
    (h : r.At (some sh) (ch.toBytes ++ bs)) :
    ∃ r' : Reader, r.next = r'.readPayload ch ∧ r'.At (some sh) bs := by
  obtain ⟨r₁, hfill, h1⟩ := fill_at_append h ch.length_toBytes
  refine ⟨r₁, ?_, h1⟩
  have hlen : ch.toBytes.length = 20 := ch.length_toBytes
  have hdec := decodeChunkHeader_toBytes ch
  generalize ch.toBytes = bytes at hfill hlen hdec
  cases bytes with
  | nil => cases hlen
  | cons b bytes => simp [next, readHeader_at_some h, hfill, hdec]

/-- A chunk header and part of the payload. -/
theorem next_at_cut {ch : ChunkHeader} {part : List UInt8}
    (h : r.At (some sh) (ch.toBytes ++ part)) (hlt : part.length < ch.payloadSize.toNat) :
    r.next.1 = .error (.chunkCutShort ch.payloadSize.toNat part.length) := by
  obtain ⟨r₁, hnext, h1⟩ := next_at_header h
  obtain ⟨r₂, hfill⟩ := fill_at_end h1 hlt
  simp [hnext, readPayload, hfill, hlt]

theorem next_at_chunk {c : Chunk} {rest : List UInt8} (hc : c.Framed)
    (h : r.At (some sh) (c.toBytes ++ rest)) :
    ∃ r', r.next = (.ok (some c), r') ∧ r'.At (some sh) rest := by
  obtain ⟨header, payload⟩ := c
  have hlen : payload.length = header.payloadSize.toNat := hc
  rw [Chunk.toBytes, List.append_assoc] at h
  obtain ⟨r₁, hnext, h1⟩ := next_at_header h
  obtain ⟨r₂, hfill, h2⟩ := fill_at_append h1 hlen
  exact ⟨r₂, by simp [hnext, readPayload, hfill, hlen], h2⟩

/-- Bytes that hold no whole chunk in front leave three cases. -/
theorem bytes_cases (bs : List UInt8) :
    bs = [] ∨ (bs ≠ [] ∧ bs.length < chunkHeaderSize) ∨
      (∃ ch part, bs = ChunkHeader.toBytes ch ++ part ∧ part.length < ch.payloadSize.toNat) ∨
      ∃ c rest, bs = Chunk.toBytes c ++ rest ∧ c.Framed := by
  by_cases hnil : bs = []
  · exact .inl hnil
  by_cases hlt : bs.length < chunkHeaderSize
  · exact .inr (.inl ⟨hnil, hlt⟩)
  have hfront : (bs.take chunkHeaderSize).length = chunkHeaderSize := by
    rw [List.length_take]
    omega
  obtain ⟨ch, hch⟩ := ChunkHeader.exists_toBytes hfront
  have hbs : bs = ch.toBytes ++ bs.drop chunkHeaderSize := by rw [hch, List.take_append_drop]
  by_cases hcut : (bs.drop chunkHeaderSize).length < ch.payloadSize.toNat
  · exact .inr (.inr (.inl ⟨ch, _, hbs, hcut⟩))
  · refine .inr (.inr (.inr ⟨⟨ch, (bs.drop chunkHeaderSize).take ch.payloadSize.toNat⟩,
      (bs.drop chunkHeaderSize).drop ch.payloadSize.toNat, ?_, ?_⟩))
    · rw [Chunk.toBytes, List.append_assoc, List.take_append_drop, ← hbs]
    · exact (List.length_take).trans (Nat.min_eq_left (Nat.le_of_not_lt hcut))

/-! ### All chunks -/

/-- The reader after `n` requests. -/
def advance : Nat → Reader → Reader
  | 0, r => r
  | n + 1, r => advance n r.next.2

theorem advance_at {cs : List Chunk} (hcs : ∀ c ∈ cs, c.Framed) {rest : List UInt8}
    (h : r.At (some sh) (cs.flatMap Chunk.toBytes ++ rest)) :
    (r.advance cs.length).At (some sh) rest := by
  induction cs generalizing r with
  | nil => exact h
  | cons c cs ih =>
    rw [List.flatMap_cons, List.append_assoc] at h
    obtain ⟨r₁, hnext, h1⟩ := next_at_chunk (hcs c List.mem_cons_self) h
    have h2 := ih (fun c' hc' => hcs c' (List.mem_cons_of_mem c hc')) h1
    simpa [advance, hnext] using h2

/-- Each request answers with the next chunk. -/
theorem next_advance {cs : List Chunk} (hcs : ∀ c ∈ cs, c.Framed) {rest : List UInt8}
    (h : r.At (some sh) (cs.flatMap Chunk.toBytes ++ rest)) {i : Nat} (hi : i < cs.length) :
    (r.advance i).next.1 = .ok (some cs[i]) := by
  induction cs generalizing r i with
  | nil => cases hi
  | cons c cs ih =>
    rw [List.flatMap_cons, List.append_assoc] at h
    obtain ⟨r₁, hnext, h1⟩ := next_at_chunk (hcs c List.mem_cons_self) h
    cases i with
    | zero => simp [advance, hnext]
    | succ i =>
      have h2 := ih (fun c' hc' => hcs c' (List.mem_cons_of_mem c hc')) h1
        (Nat.lt_of_succ_lt_succ hi)
      simpa [advance, hnext] using h2

theorem chunksWithin_of_chunk {tolerates : ReadError → Bool} {r' : Reader} {c : Chunk} {n : Nat}
    (h : r.next = (.ok (some c), r')) :
    r.chunksWithin tolerates (n + 1) = (r'.chunksWithin tolerates n).map (c :: ·) := by
  simp [chunksWithin, h]

/-- The end of the stream, or an error that passes for it. -/
theorem chunksWithin_of_end {tolerates : ReadError → Bool} {n : Nat}
    (h : r.next.1 = .ok none ∨ ∃ e, r.next.1 = .error e ∧ tolerates e) :
    r.chunksWithin tolerates (n + 1) = .ok [] := by
  rcases hnext : r.next with ⟨answer, r'⟩
  rw [hnext] at h
  rcases h with rfl | ⟨e, rfl, he⟩
  · simp [chunksWithin, hnext]
  · simp [chunksWithin, hnext, he]

theorem chunksWithin_of_error {tolerates : ReadError → Bool} {e : ReadError} {n : Nat}
    (h : r.next.1 = .error e) (he : tolerates e = false) :
    r.chunksWithin tolerates (n + 1) = .error e := by
  rcases hnext : r.next with ⟨answer, r'⟩
  rw [hnext] at h
  subst h
  simp [chunksWithin, hnext, he]

theorem chunksWithin_append (tolerates : ReadError → Bool) {cs : List Chunk}
    (hcs : ∀ c ∈ cs, c.Framed) {rest : List UInt8}
    (h : r.At (some sh) (cs.flatMap Chunk.toBytes ++ rest)) (n : Nat) :
    r.chunksWithin tolerates (n + cs.length) =
      ((r.advance cs.length).chunksWithin tolerates n).map (cs ++ ·) := by
  induction cs generalizing r with
  | nil => cases hr : chunksWithin tolerates n r <;> simp [advance, hr, Except.map]
  | cons c cs ih =>
    rw [List.flatMap_cons, List.append_assoc] at h
    obtain ⟨r₁, hnext, h1⟩ := next_at_chunk (hcs c List.mem_cons_self) h
    have h2 := ih (fun c' hc' => hcs c' (List.mem_cons_of_mem c hc')) h1
    rw [List.length_cons, ← Nat.add_assoc, chunksWithin_of_chunk hnext, h2]
    simp only [advance, hnext]
    cases chunksWithin tolerates n (r₁.advance cs.length) <;> rfl

theorem length_le_length_flatMap (cs : List Chunk) :
    cs.length ≤ (cs.flatMap Chunk.toBytes).length := by
  induction cs with
  | nil => simp
  | cons c cs ih =>
    simp only [List.length_cons, List.flatMap_cons, List.length_append, Chunk.toBytes,
      ChunkHeader.length_toBytes, chunkHeaderSize]
    omega

/-- There are always enough requests to get to the end. -/
theorem chunks_append (tolerates : ReadError → Bool) {cs : List Chunk}
    (hcs : ∀ c ∈ cs, c.Framed) {rest : List UInt8}
    (h : r.At (some sh) (cs.flatMap Chunk.toBytes ++ rest))
    (hend : (r.advance cs.length).next.1 = .ok none ∨
      ∃ e, (r.advance cs.length).next.1 = .error e ∧ tolerates e) :
    r.chunks tolerates = .ok cs := by
  have hle := length_le_length_flatMap cs
  have hfuel : r.source.rest.length + 1 = (r.source.rest.length - cs.length) + 1 + cs.length := by
    rw [h.rest_eq, List.length_append]
    omega
  rw [chunks, hfuel, chunksWithin_append tolerates hcs h, chunksWithin_of_end hend]
  simp [Except.map]

theorem map_eq_ok {α β : Type} {x : Except ReadError α} {f : α → β} {b : β}
    (h : x.map f = .ok b) : ∃ a, x = .ok a ∧ f a = b := by
  cases x with
  | error e => cases h
  | ok a => exact ⟨a, rfl, Except.ok.inj h⟩

theorem chunksWithin_eq_ok {n : Nat} {bs : List UInt8} {cs : List Chunk} (h : r.At (some sh) bs)
    (hn : bs.length < n) (hr : r.chunksWithin (fun _ => false) n = .ok cs) :
    bs = cs.flatMap Chunk.toBytes ∧ ∀ c ∈ cs, c.Framed := by
  induction n generalizing r bs cs with
  | zero => cases hn
  | succ n ih =>
    obtain rfl | ⟨hne, hlt⟩ | ⟨ch, part, rfl, hlt⟩ | ⟨c, rest, rfl, hc⟩ := bytes_cases bs
    · rw [chunksWithin_of_end (.inl (next_at_nil h)), Except.ok.injEq] at hr
      subst hr
      simp
    · obtain ⟨needed, hnext, -⟩ := next_at_short h hne hlt
      rw [chunksWithin_of_error hnext rfl] at hr
      cases hr
    · rw [chunksWithin_of_error (next_at_cut h hlt) rfl] at hr
      cases hr
    · obtain ⟨r₁, hnext, h1⟩ := next_at_chunk hc h
      rw [chunksWithin_of_chunk hnext] at hr
      obtain ⟨cs', hcs, rfl⟩ := map_eq_ok hr
      have hlen : rest.length < n := by
        simp only [List.length_append, Chunk.toBytes, ChunkHeader.length_toBytes,
          chunkHeaderSize] at hn
        omega
      obtain ⟨hrest, hframed⟩ := ih h1 hlen hcs
      rw [List.flatMap_cons, ← hrest]
      exact ⟨rfl, List.forall_mem_cons.2 ⟨hc, hframed⟩⟩

/-! ### Whole streams -/

theorem readAll_of_toBytes {s : Source} {t : Trace} (hs : s.Sound) (hrest : s.rest = t.toBytes)
    (ht : t.Framed) : (ofSource s).readAll = .ok t := by
  have h0 := ofSource_at hs
  rw [hrest, Trace.toBytes] at h0
  obtain ⟨r₁, hheader, h1⟩ := readHeader_at_none h0
  rw [← List.append_nil (t.chunks.flatMap _)] at h1
  have hchunks := chunks_append (fun _ => false) ht h1 (.inl (next_at_nil (advance_at ht h1)))
  simp [readAll, hheader, hchunks, Except.map]

theorem toBytes_of_readAll {s : Source} {t : Trace} (hs : s.Sound)
    (hr : (ofSource s).readAll = .ok t) : s.rest = t.toBytes ∧ t.Framed := by
  unfold readAll at hr
  rcases hheader : (ofSource s).readHeader with ⟨answer, r₁⟩
  rw [hheader] at hr
  cases answer with
  | error e => cases hr
  | ok header =>
    obtain ⟨rest, hrest, h1⟩ := readHeader_eq_ok (ofSource_at hs) hheader
    obtain ⟨cs, hchunks, rfl⟩ := map_eq_ok hr
    have hfuel : rest.length < r₁.source.rest.length + 1 := by
      rw [h1.rest_eq]
      omega
    obtain ⟨hcs, hframed⟩ := chunksWithin_eq_ok h1 hfuel hchunks
    rw [hrest, hcs]
    exact ⟨rfl, hframed⟩

/-- **Reading and laying out are inverse.**  A source can be read as a trace exactly when its bytes
are the stream that the trace is laid out as. -/
theorem readAll_eq_ok_iff {s : Source} (hs : s.Sound) (t : Trace) :
    (ofSource s).readAll = .ok t ↔ s.rest = t.toBytes ∧ t.Framed :=
  ⟨toBytes_of_readAll hs, fun ⟨hrest, ht⟩ => readAll_of_toBytes hs hrest ht⟩

/-- A chunk without events, and one whose payload has the bytes of another stream's header. -/
def headerLookalike : Trace :=
  ⟨⟨.one⟩, [⟨⟨0, 7, 9, 5⟩, []⟩, ⟨⟨32, 8, 9, 5⟩, (StreamHeader.mk .one).toBytes⟩]⟩

/-- Its stream in pieces that end inside headers, with a pause. -/
def pausingSource : Source := ⟨headerLookalike.toBytes, 0, [.piece 4, .interrupted, .piece 40], none⟩

theorem readAll_pausingSource :
    pausingSource.Sound ∧
      ((ofSource pausingSource).readAll = .ok headerLookalike ↔
        pausingSource.rest = headerLookalike.toBytes ∧ headerLookalike.Framed) ∧
      (ofSource pausingSource).readAll = .ok headerLookalike := by
  have hs : pausingSource.Sound := rfl
  have hiff := readAll_eq_ok_iff hs headerLookalike
  exact ⟨hs, hiff, hiff.2 ⟨rfl, by decide⟩⟩

end Reader

end ThreadTrace
