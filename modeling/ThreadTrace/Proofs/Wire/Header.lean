import ThreadTrace.Wire.Header
import ThreadTrace.Proofs.Wire.Scan

/-!
# ThreadTrace.Proofs.Wire.Header — headers are read as they were written

Either header is read from its own bytes, and the stream header from no others.  A chunk header has
no wrong bytes: any 20 are one (`ChunkHeader.exists_toBytes`), and fewer are cut short.
-/

namespace ThreadTrace.Wire

open LittleEndian

/-! ### The stream header -/

theorem reads_scanStreamHeader (h : StreamHeader) : Reads scanStreamHeader h.toBytes h := by
  unfold scanStreamHeader StreamHeader.toBytes
  simp only [List.append_assoc]
  refine (reads_word64 magic).bind (.guard (by simp) ?_)
  refine (reads_word64 version).bind (.guard (by simp) ?_)
  refine (reads_word64 h.unit.bits).bind ?_
  rw [← List.append_nil (ofUInt64 0)]
  exact (reads_word64 0).bind (.guard (by simp) (.pure h))

theorem scanStreamHeader_eq_ok {c c' : Cursor} {h : StreamHeader}
    (hc : scanStreamHeader c = .ok (h, c')) : c.rest = h.toBytes ++ c'.rest := by
  obtain ⟨first, c₁, h1, hc⟩ := bind_eq_ok_iff.1 hc
  obtain ⟨hmagic, hc⟩ := guard_eq_ok_iff.1 hc
  obtain ⟨second, c₂, h2, hc⟩ := bind_eq_ok_iff.1 hc
  obtain ⟨hversion, hc⟩ := guard_eq_ok_iff.1 hc
  obtain ⟨unit, c₃, h3, hc⟩ := bind_eq_ok_iff.1 hc
  obtain ⟨reserved, c₄, h4, hc⟩ := bind_eq_ok_iff.1 hc
  obtain ⟨hreserved, hc⟩ := guard_eq_ok_iff.1 hc
  obtain ⟨rfl, rfl⟩ := pure_eq_ok_iff.1 hc
  rw [not_not] at hmagic hversion hreserved
  subst hmagic hversion hreserved
  rw [word64_eq_ok h1, word64_eq_ok h2, word64_eq_ok h3, word64_eq_ok h4]
  simp [StreamHeader.toBytes]

/-- No other bytes of a header's size are read as the header. -/
theorem decodeStreamHeader_eq_ok_iff {bs : List UInt8} {h : StreamHeader}
    (hlen : bs.length ≤ streamHeaderSize) : decodeStreamHeader bs = .ok h ↔ bs = h.toBytes := by
  constructor
  · intro hd
    obtain ⟨c', hc⟩ := run'_eq_ok hd
    have hbs : bs = h.toBytes ++ c'.rest := scanStreamHeader_eq_ok hc
    -- nothing can be left behind a header of full size
    have hrest : c'.rest.length = 0 := by
      have htotal := congrArg List.length hbs
      rw [List.length_append, StreamHeader.length_toBytes] at htotal
      omega
    rw [hbs, List.eq_nil_of_length_eq_zero hrest, List.append_nil]
  · rintro rfl
    have hd := (reads_scanStreamHeader h).run'_append []
    rwa [List.append_nil] at hd

/-! ### The chunk header -/

theorem reads_scanChunkHeader (h : ChunkHeader) : Reads scanChunkHeader h.toBytes h := by
  unfold scanChunkHeader ChunkHeader.toBytes
  simp only [List.append_assoc]
  refine (reads_word32 h.payloadSize).bind ?_
  refine (reads_word32 h.thread).bind ?_
  refine (reads_word32 h.process).bind ?_
  exact (reads_word64 h.firstTicks).bind_pure (ChunkHeader.mk h.payloadSize h.thread h.process)

/-- A chunk header has four fields and every byte belongs to one. -/
theorem ChunkHeader.exists_toBytes {bs : List UInt8} (hlen : bs.length = chunkHeaderSize) :
    ∃ h : ChunkHeader, h.toBytes = bs := by
  unfold chunkHeaderSize at hlen
  refine ⟨⟨toUInt32 (bs.take 4), toUInt32 ((bs.drop 4).take 4), toUInt32 ((bs.drop 8).take 4),
    toUInt64 (bs.drop 12)⟩, ?_⟩
  have h1 : (bs.take 4).length = 4 := by simp; omega
  have h2 : ((bs.drop 4).take 4).length = 4 := by simp; omega
  have h3 : ((bs.drop 8).take 4).length = 4 := by simp; omega
  have h4 : (bs.drop 12).length = 8 := by simp; omega
  simp only [ChunkHeader.toBytes, ofUInt32_toUInt32 h1, ofUInt32_toUInt32 h2, ofUInt32_toUInt32 h3,
    ofUInt64_toUInt64 h4]
  rw [← List.take_add, ← List.take_add, List.take_append_drop]

theorem decodeChunkHeader_toBytes (h : ChunkHeader) : decodeChunkHeader h.toBytes = .ok h := by
  have hd := (reads_scanChunkHeader h).run'_append []
  rwa [List.append_nil] at hd

/-- Fewer bytes are the beginning of some header. -/
theorem decodeChunkHeader_of_lt {bs : List UInt8} (hlen : bs.length < chunkHeaderSize) :
    ∃ needed, decodeChunkHeader bs = .error (.truncated needed bs.length) ∧
      bs.length < needed := by
  have hfull : (bs ++ List.replicate (chunkHeaderSize - bs.length) 0).length = chunkHeaderSize := by
    rw [List.length_append, List.length_replicate]
    omega
  obtain ⟨h, hh⟩ := ChunkHeader.exists_toBytes hfull
  have hk : bs.length < h.toBytes.length := by rwa [ChunkHeader.length_toBytes]
  obtain ⟨needed, he, hlt⟩ := (reads_scanChunkHeader h).run'_take hk
  rw [hh, List.take_left] at he
  exact ⟨needed, he, hlt⟩

end ThreadTrace.Wire
