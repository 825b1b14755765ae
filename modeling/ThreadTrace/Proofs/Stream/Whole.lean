import ThreadTrace.CommandLine.Inspect
import ThreadTrace.Proofs.Stream.Foreign

/-!
# ThreadTrace.Proofs.Stream.Whole — the whole chunks of a file

Any bytes are chunks and a tail in which no other chunk is whole (`exists_chunks`).  A program reads
the chunks and leaves the tail out (`readTrace_eq_ok_iff`), so that the chunks it reads are all that
the file contains (`mem_chunks_iff`).
-/

namespace ThreadTrace

open Wire

/-- No whole chunk is in front. -/
def CutShort (tail : List UInt8) : Prop :=
  ∀ (c : Chunk) (rest : List UInt8), c.Framed → tail ≠ c.toBytes ++ rest

/-- Behind the header of a stream and maybe other chunks, the bytes have the whole chunk. -/
def Contains (bs : List UInt8) (c : Chunk) : Prop :=
  ∃ t rest, bs = Trace.toBytes t ++ rest ∧ t.Framed ∧ c ∈ t.chunks

theorem exists_chunks (bs : List UInt8) :
    ∃ (cs : List Chunk) (tail : List UInt8), bs = cs.flatMap Chunk.toBytes ++ tail ∧
      (∀ c ∈ cs, c.Framed) ∧ CutShort tail := by
  induction hn : bs.length using Nat.strongRecOn generalizing bs with
  | ind n ih =>
    by_cases hcut : CutShort bs
    · exact ⟨[], bs, rfl, by simp, hcut⟩
    · simp only [CutShort, not_forall, not_not] at hcut
      obtain ⟨c, rest, hc, rfl⟩ := hcut
      have hlt : rest.length < n := by
        rw [← hn, Chunk.toBytes, List.length_append, List.length_append,
          ChunkHeader.length_toBytes, chunkHeaderSize]
        omega
      obtain ⟨cs, tail, hrest, hcs, htail⟩ := ih rest.length hlt rest rfl
      refine ⟨c :: cs, tail, ?_, List.forall_mem_cons.2 ⟨hc, hcs⟩, htail⟩
      rw [List.flatMap_cons, List.append_assoc, ← hrest]

theorem Wire.ChunkHeader.toBytes_injective : Function.Injective ChunkHeader.toBytes := by
  intro ch ch' h
  have hdecode := decodeChunkHeader_toBytes ch
  rw [h, decodeChunkHeader_toBytes] at hdecode
  exact (Except.ok.inj hdecode).symm

/-- The front of some chunk, without its last byte at least. -/
theorem cutShort_iff {tail : List UInt8} :
    CutShort tail ↔
      ∃ (c : Chunk) (more : List UInt8), c.Framed ∧ more ≠ [] ∧ c.toBytes = tail ++ more := by
  constructor
  · intro htail
    by_cases hlt : tail.length < chunkHeaderSize
    · -- zeros complete the header, and then the payload
      have hfull : (tail ++ List.replicate (chunkHeaderSize - tail.length) 0).length =
          chunkHeaderSize := by
        rw [List.length_append, List.length_replicate]
        omega
      obtain ⟨ch, hch⟩ := ChunkHeader.exists_toBytes hfull
      refine ⟨⟨ch, List.replicate ch.payloadSize.toNat 0⟩, List.replicate
        (chunkHeaderSize - tail.length) 0 ++ List.replicate ch.payloadSize.toNat 0,
        List.length_replicate, List.append_ne_nil_of_left_ne_nil ?_ _, ?_⟩
      · rw [Ne, List.replicate_eq_nil_iff]
        omega
      · rw [Chunk.toBytes, hch, List.append_assoc]
    · obtain rfl | ⟨-, hlt'⟩ | ⟨ch, part, rfl, hpart⟩ | ⟨c, rest, hbytes, hc⟩ :=
        Reader.bytes_cases tail
      · exact absurd (by decide) hlt
      · exact absurd hlt' hlt
      · refine ⟨⟨ch, part ++ List.replicate (ch.payloadSize.toNat - part.length) 0⟩,
          List.replicate (ch.payloadSize.toNat - part.length) 0, ?_, ?_, ?_⟩
        · show (part ++ List.replicate _ 0).length = ch.payloadSize.toNat
          rw [List.length_append, List.length_replicate]
          omega
        · rw [Ne, List.replicate_eq_nil_iff]
          omega
        · rw [Chunk.toBytes, List.append_assoc]
      · exact absurd hbytes (htail c rest hc)
  · rintro ⟨c, more, hc, hmore, hbytes⟩ c' rest hc' rfl
    simp only [Chunk.toBytes, List.append_assoc] at hbytes
    obtain ⟨hheader, hpayload⟩ := List.append_inj hbytes (by simp)
    have hlength := congrArg List.length hpayload
    have hc : c.payload.length = c.header.payloadSize.toNat := hc
    have hc' : c'.payload.length = c'.header.payloadSize.toNat := hc'
    rw [← Wire.ChunkHeader.toBytes_injective hheader, ← hc] at hc'
    have hpos := List.length_pos_iff.2 hmore
    simp only [List.length_append] at hlength
    omega

theorem cutShort_nil : CutShort [] :=
  cutShort_iff.2 ⟨⟨⟨0, 0, 0, 0⟩, []⟩, _, rfl, by decide, rfl⟩

/-- A tail ends the stream, or looks like a chunk that was cut short. -/
theorem Reader.next_at_cutShort {r : Reader} {header : StreamHeader} {tail : List UInt8}
    (htail : CutShort tail) (h : r.At (some header) tail) :
    r.next.1 = .ok none ∨ ∃ e, r.next.1 = .error e ∧ e.isCutShort := by
  obtain rfl | ⟨hne, hlt⟩ | ⟨ch, part, rfl, hlt⟩ | ⟨c, rest, hbytes, hc⟩ := bytes_cases tail
  · exact .inl (next_at_nil h)
  · obtain ⟨needed, hnext, -⟩ := next_at_short h hne hlt
    exact .inr ⟨_, hnext, rfl⟩
  · exact .inr ⟨_, next_at_cut h hlt, rfl⟩
  · exact absurd hbytes (htail c rest hc)

namespace CommandLine

variable {s : Source} {t : Trace} {path : String}

theorem readTrace_of_toBytes {tail : List UInt8} (hs : s.Sound) (ht : t.Framed)
    (htail : CutShort tail) (hrest : s.rest = t.toBytes ++ tail) :
    readTrace path (.ok s) = .ok t := by
  have h0 := Reader.ofSource_at hs
  rw [hrest, Trace.toBytes, List.append_assoc] at h0
  obtain ⟨r, hheader, h1⟩ := Reader.readHeader_at_none h0
  have hchunks := Reader.chunks_append ReadError.isCutShort ht h1
    (Reader.next_at_cutShort htail (Reader.advance_at ht h1))
  simp [readTrace, hheader, hchunks]

/-- A file that is foreign, or too short for a header, is not read; any other is. -/
theorem readTrace_cases (path : String) (hs : s.Sound) :
    (Foreign s.rest ∧ ∃ e, readTrace path (.ok s) = .error e ∧ e.foreign) ∨
    (¬ Foreign s.rest ∧ s.rest.length < streamHeaderSize ∧
      ∃ e, readTrace path (.ok s) = .error e ∧ e.foreign = false) ∨
    (¬ Foreign s.rest ∧ streamHeaderSize ≤ s.rest.length ∧
      ∃ t tail, s.rest = t.toBytes ++ tail ∧ t.Framed ∧ CutShort tail ∧
        readTrace path (.ok s) = .ok t) := by
  have herror : ∀ {e}, (Reader.ofSource s).readHeader.1 = .error e →
      readTrace path (.ok s) = .error (.ofRead s!"Failed to read header of {path}" e) := by
    intro e he
    rcases hheader : (Reader.ofSource s).readHeader with ⟨answer, r⟩
    rw [hheader] at he
    subst he
    simp [readTrace, hheader]
  obtain ⟨hforeign, e, he, hkind⟩ | ⟨hforeign, hlt, e, he, hkind⟩ |
    ⟨hforeign, hle, header, rest, r, hrest, -, -⟩ := Reader.readHeader_cases hs
  · exact .inl ⟨hforeign, _, herror he, hkind⟩
  · exact .inr (.inl ⟨hforeign, hlt, _, herror he, hkind⟩)
  · obtain ⟨cs, tail, rfl, hcs, htail⟩ := exists_chunks rest
    have hbytes : s.rest = (Trace.mk header cs).toBytes ++ tail := by
      rw [hrest, Trace.toBytes, List.append_assoc]
    exact .inr (.inr ⟨hforeign, hle, ⟨header, cs⟩, tail, hbytes, hcs, htail,
      readTrace_of_toBytes hs hcs htail hbytes⟩)

/-- **A file is read up to its tail.** -/
theorem readTrace_eq_ok_iff (path : String) (hs : s.Sound) :
    readTrace path (.ok s) = .ok t ↔
      ∃ tail, s.rest = t.toBytes ++ tail ∧ t.Framed ∧ CutShort tail := by
  constructor
  · intro h
    obtain ⟨-, e, he, -⟩ | ⟨-, -, e, he, -⟩ | ⟨-, -, t', tail, hbytes, ht', htail, hread⟩ :=
      readTrace_cases path hs
    · rw [h] at he
      cases he
    · rw [h] at he
      cases he
    · obtain rfl := Except.ok.inj (hread.symm.trans h)
      exact ⟨tail, hbytes, ht', htail⟩
  · rintro ⟨tail, hbytes, ht, htail⟩
    exact readTrace_of_toBytes hs ht htail hbytes

/-- What is read are the whole chunks that the file contains. -/
theorem mem_chunks_iff (hs : s.Sound) (h : readTrace path (.ok s) = .ok t) {c : Chunk} :
    c ∈ t.chunks ↔ Contains s.rest c := by
  constructor
  · intro hc
    obtain ⟨tail, hbytes, ht, -⟩ := (readTrace_eq_ok_iff path hs).1 h
    exact ⟨t, tail, hbytes, ht, hc⟩
  · rintro ⟨front, rest, hbytes, hfront, hc⟩
    -- what comes behind the chunk is read along with it
    obtain ⟨cs, tail, rfl, hcs, htail⟩ := exists_chunks rest
    have hall : readTrace path (.ok s) = .ok ⟨front.header, front.chunks ++ cs⟩ := by
      refine readTrace_of_toBytes hs (fun c' hc' => ?_) htail ?_
      · exact (List.mem_append.1 hc').elim (hfront c') (hcs c')
      · rw [hbytes]
        simp [Trace.toBytes]
    obtain rfl := Except.ok.inj (hall.symm.trans h)
    exact List.mem_append_left _ hc

end CommandLine

end ThreadTrace
