import ThreadTrace.CommandLine.Inspect
import ThreadTrace.Proofs.Stream.Reader
import Mathlib.Data.Nat.Find

/-!
# ThreadTrace.Proofs.Stream.Cut — a stream whose writer stopped in the middle

`Trace.boundary t n` is where the `n`-th chunk of a trace ends in its stream.  A stream that is cut
at `k` still has the first `t.wholeWithin k` chunks, those that end at `k` or before, and then part
of one more (`Trace.take_toBytes`).  `readTrace_take` says that these chunks are what is read, and
what the reader is told at the cut.
-/

namespace ThreadTrace

open Wire

namespace Trace

variable (t : Trace)

/-- Where the `n`-th chunk ends. -/
def boundary (n : Nat) : Nat := (Trace.mk t.header (t.chunks.take n)).toBytes.length

/-- The number of chunks that end within the first `k` bytes. -/
def wholeWithin (k : Nat) : Nat := Nat.findGreatest (fun n => t.boundary n ≤ k) t.chunks.length

@[simp] theorem boundary_zero : t.boundary 0 = streamHeaderSize := by
  simp [boundary, toBytes]

variable {t}

theorem boundary_succ {n : Nat} (hn : n < t.chunks.length) :
    t.boundary (n + 1) = t.boundary n + t.chunks[n].toBytes.length := by
  simp only [boundary, toBytes, List.take_succ_eq_append_getElem hn, List.flatMap_append,
    List.flatMap_singleton, List.length_append, Nat.add_assoc]

theorem boundary_lt_succ {n : Nat} (hn : n < t.chunks.length) :
    t.boundary n < t.boundary (n + 1) := by
  rw [boundary_succ hn, Chunk.toBytes, List.length_append, ChunkHeader.length_toBytes,
    chunkHeaderSize]
  omega

theorem boundary_mono {m n : Nat} (hmn : m ≤ n) (hn : n ≤ t.chunks.length) :
    t.boundary m ≤ t.boundary n := by
  induction n, hmn using Nat.le_induction with
  | base => exact Nat.le_refl _
  | succ n _ ih => exact Nat.le_trans (ih (by omega)) (Nat.le_of_lt (boundary_lt_succ hn))

/-! ### The chunks in front of a cut -/

variable {k : Nat}

theorem wholeWithin_le : t.wholeWithin k ≤ t.chunks.length := Nat.findGreatest_le _

theorem boundary_wholeWithin (hk : streamHeaderSize ≤ k) : t.boundary (t.wholeWithin k) ≤ k :=
  Nat.findGreatest_spec (P := fun n => t.boundary n ≤ k) (Nat.zero_le _) (by simpa using hk)

theorem lt_boundary_succ_wholeWithin (h : t.wholeWithin k < t.chunks.length) :
    k < t.boundary (t.wholeWithin k + 1) :=
  Nat.lt_of_not_le
    (Nat.findGreatest_is_greatest (P := fun n => t.boundary n ≤ k) (Nat.lt_succ_self _) h)

theorem lt_wholeWithin_iff (hk : streamHeaderSize ≤ k) {i : Nat} (hi : i < t.chunks.length) :
    i < t.wholeWithin k ↔ t.boundary (i + 1) ≤ k := by
  constructor
  · intro h
    exact Nat.le_trans (boundary_mono h wholeWithin_le) (boundary_wholeWithin hk)
  · intro h
    exact Nat.le_findGreatest (P := fun n => t.boundary n ≤ k) hi h

/-- The cut is a boundary only if nothing of another chunk is in front of it. -/
theorem eq_boundary_iff (hk : streamHeaderSize ≤ k) :
    (∃ n ≤ t.chunks.length, k = t.boundary n) ↔ k = t.boundary (t.wholeWithin k) := by
  constructor
  · rintro ⟨n, hn, rfl⟩
    refine Nat.le_antisymm ?_ (boundary_wholeWithin hk)
    exact boundary_mono (Nat.le_findGreatest (P := fun m => t.boundary m ≤ _) hn le_rfl)
      wholeWithin_le
  · intro h
    exact ⟨_, wholeWithin_le, h⟩

/-- What the cut leaves of the chunk it falls into. -/
def remnant (t : Trace) (k : Nat) : List UInt8 :=
  ((t.chunks.drop (t.wholeWithin k)).flatMap Chunk.toBytes).take (k - t.boundary (t.wholeWithin k))

theorem take_toBytes (hk : streamHeaderSize ≤ k) :
    t.toBytes.take k = t.header.toBytes ++
      ((t.chunks.take (t.wholeWithin k)).flatMap Chunk.toBytes ++ t.remnant k) := by
  have hle := boundary_wholeWithin (t := t) hk
  have hsplit : t.toBytes = (Trace.mk t.header (t.chunks.take (t.wholeWithin k))).toBytes ++
      (t.chunks.drop (t.wholeWithin k)).flatMap Chunk.toBytes := by
    rw [toBytes, toBytes, List.append_assoc, ← List.flatMap_append, List.take_append_drop]
  rw [hsplit, List.take_append, List.take_of_length_le hle, ← List.append_assoc]
  rfl

theorem length_remnant (hk : streamHeaderSize ≤ k) (hle : k ≤ t.toBytes.length) :
    (t.remnant k).length = k - t.boundary (t.wholeWithin k) := by
  have htake := congrArg List.length (take_toBytes (t := t) hk)
  have hb : t.boundary (t.wholeWithin k) =
      t.header.toBytes.length + ((t.chunks.take (t.wholeWithin k)).flatMap Chunk.toBytes).length :=
    List.length_append
  simp only [List.length_take, List.length_append] at htake
  omega

/-- The remnant is a proper part of one chunk, or nothing. -/
theorem remnant_cases (hk : streamHeaderSize ≤ k) :
    t.remnant k = [] ∨ ∃ c rest, t.chunks[t.wholeWithin k]? = some c ∧
      c.toBytes = t.remnant k ++ rest ∧ rest ≠ [] := by
  have hn := wholeWithin_le (t := t) (k := k)
  by_cases hlast : t.wholeWithin k = t.chunks.length
  · left
    rw [remnant, hlast, List.drop_length, List.flatMap_nil, List.take_nil]
  · right
    have hlt : t.wholeWithin k < t.chunks.length := by omega
    have hinside := lt_boundary_succ_wholeWithin hlt
    rw [boundary_succ hlt] at hinside
    refine ⟨t.chunks[t.wholeWithin k],
      t.chunks[t.wholeWithin k].toBytes.drop (k - t.boundary (t.wholeWithin k)),
      List.getElem?_eq_getElem hlt, ?_, ?_⟩
    · rw [remnant, List.drop_eq_getElem_cons hlt, List.flatMap_cons,
        List.take_append_of_le_length (by omega), List.take_append_drop]
    · intro hnil
      have hlow := boundary_wholeWithin (t := t) hk
      have hall := List.drop_eq_nil_iff.1 hnil
      omega

end Trace

/-! ### What is read -/

namespace Reader

variable {t : Trace} {k : Nat} {r : Reader}

/-- The answer at the cut tells how much of the chunk was there. -/
theorem next_at_remnant (ht : t.Framed) (hk : streamHeaderSize ≤ k) (hle : k ≤ t.toBytes.length)
    (h : r.At (some t.header) (t.remnant k)) :
    (k = t.boundary (t.wholeWithin k) ∧ r.next.1 = .ok none) ∨
    (t.boundary (t.wholeWithin k) < k ∧ k < t.boundary (t.wholeWithin k) + chunkHeaderSize ∧
      ∃ needed, r.next.1 =
        .error (.decode (.truncated needed (k - t.boundary (t.wholeWithin k))))) ∨
    (t.boundary (t.wholeWithin k) + chunkHeaderSize ≤ k ∧
      ∃ c, t.chunks[t.wholeWithin k]? = some c ∧ r.next.1 = .error (.chunkCutShort
        c.header.payloadSize.toNat (k - t.boundary (t.wholeWithin k) - chunkHeaderSize))) := by
  have hlow := Trace.boundary_wholeWithin (t := t) hk
  have hlen := Trace.length_remnant (t := t) hk hle
  by_cases hnil : t.remnant k = []
  · rw [hnil] at h hlen
    rw [List.length_nil] at hlen
    exact .inl ⟨by omega, next_at_nil h⟩
  obtain hnil' | ⟨c, rest, hc, hbytes, hrest⟩ := Trace.remnant_cases (t := t) hk
  · exact absurd hnil' hnil
  have hpos : 0 < (t.remnant k).length := List.length_pos_iff.2 hnil
  by_cases hshort : (t.remnant k).length < chunkHeaderSize
  · obtain ⟨needed, hnext, -⟩ := next_at_short h hnil hshort
    rw [hlen] at hnext
    exact .inr (.inl ⟨by omega, by omega, needed, hnext⟩)
  · -- the header is whole, so that bytes of the payload are missing
    have hframed : c.payload.length = c.header.payloadSize.toNat :=
      ht c (List.mem_of_getElem? hc)
    have hsplit : t.remnant k = c.header.toBytes ++ (t.remnant k).drop chunkHeaderSize := by
      have hfront := congrArg (List.take chunkHeaderSize) hbytes
      rw [Chunk.toBytes, List.take_append_of_le_length (by simp), List.take_append_of_le_length
        (by omega), List.take_of_length_le (by simp)] at hfront
      rw [hfront, List.take_append_drop]
    have hmissing : ((t.remnant k).drop chunkHeaderSize).length < c.header.payloadSize.toNat := by
      have htotal := congrArg List.length hbytes
      have hrest' := List.length_pos_iff.2 hrest
      simp only [Chunk.toBytes, List.length_append, ChunkHeader.length_toBytes] at htotal
      rw [List.length_drop]
      omega
    rw [hsplit] at h
    have hnext := next_at_cut h hmissing
    rw [List.length_drop, hlen] at hnext
    exact .inr (.inr ⟨by omega, c, hc, hnext⟩)

end Reader

namespace CommandLine

open Reader

/-- **A stream that was cut short is read up to the cut.**  The chunks that end at the cut or before
are read, in order, and the request that reaches the cut says what is missing there. -/
theorem readTrace_take (path : String) {t : Trace} (ht : t.Framed) {k : Nat}
    (hk : streamHeaderSize ≤ k) (hle : k ≤ t.toBytes.length) {s : Source} (hs : s.Sound)
    (hrest : s.rest = t.toBytes.take k) :
    (∀ i < t.chunks.length, i < t.wholeWithin k ↔ t.boundary (i + 1) ≤ k) ∧
    readTrace path (.ok s) = .ok ⟨t.header, t.chunks.take (t.wholeWithin k)⟩ ∧
    ∃ r, (ofSource s).readHeader = (.ok t.header, r) ∧
      (∀ i < t.wholeWithin k, ∃ c, t.chunks[i]? = some c ∧ (r.advance i).next.1 = .ok (some c)) ∧
      ((r.advance (t.wholeWithin k)).next.1 = .ok none ↔ ∃ n ≤ t.chunks.length, k = t.boundary n) ∧
      (t.boundary (t.wholeWithin k) < k → k < t.boundary (t.wholeWithin k) + chunkHeaderSize →
        ∃ needed, (r.advance (t.wholeWithin k)).next.1 =
          .error (.decode (.truncated needed (k - t.boundary (t.wholeWithin k))))) ∧
      (t.boundary (t.wholeWithin k) + chunkHeaderSize ≤ k →
        ∃ c, t.chunks[t.wholeWithin k]? = some c ∧
          (r.advance (t.wholeWithin k)).next.1 = .error (.chunkCutShort
            c.header.payloadSize.toNat
            (k - t.boundary (t.wholeWithin k) - chunkHeaderSize))) := by
  have h0 := ofSource_at hs
  rw [hrest, Trace.take_toBytes hk] at h0
  obtain ⟨r, hheader, h1⟩ := readHeader_at_none h0
  have hwhole : ∀ c ∈ t.chunks.take (t.wholeWithin k), c.Framed :=
    fun c hc => ht c (List.mem_of_mem_take hc)
  have hlen : (t.chunks.take (t.wholeWithin k)).length = t.wholeWithin k := by
    rw [List.length_take]
    exact Nat.min_eq_left Trace.wholeWithin_le
  have hcut := advance_at hwhole h1
  have hchunks := chunks_append ReadError.isCutShort hwhole h1
  rw [hlen] at hcut hchunks
  have hanswer := next_at_remnant ht hk hle hcut
  refine ⟨fun i hi => Trace.lt_wholeWithin_iff hk hi, ?_, r, hheader, fun i hi => ?_, ?_, ?_, ?_⟩
  · have hall : r.chunks ReadError.isCutShort = .ok (t.chunks.take (t.wholeWithin k)) := by
      apply hchunks
      obtain ⟨-, he⟩ | ⟨-, -, needed, he⟩ | ⟨-, c, -, he⟩ := hanswer
      · exact .inl he
      · exact .inr ⟨_, he, rfl⟩
      · exact .inr ⟨_, he, rfl⟩
    simp [readTrace, hheader, hall]
  · have hi' : i < (t.chunks.take (t.wholeWithin k)).length := by omega
    have hi'' : i < t.chunks.length := Nat.lt_of_lt_of_le hi Trace.wholeWithin_le
    refine ⟨t.chunks[i], List.getElem?_eq_getElem hi'', ?_⟩
    simpa using next_advance hwhole h1 hi'
  · rw [Trace.eq_boundary_iff hk]
    obtain ⟨hb, he⟩ | ⟨hb, -, needed, he⟩ | ⟨hb, c, -, he⟩ := hanswer
    · simp [he, ← hb]
    · simp only [he, reduceCtorEq, false_iff]
      omega
    · simp only [he, reduceCtorEq, false_iff]
      simp only [chunkHeaderSize] at hb
      omega
  · intro hlow hhigh
    obtain ⟨hb, -⟩ | ⟨-, -, he⟩ | ⟨hb, -⟩ := hanswer
    · omega
    · exact he
    · omega
  · intro hlow
    simp only [chunkHeaderSize] at hlow
    obtain ⟨hb, -⟩ | ⟨-, hb, -⟩ | ⟨-, he⟩ := hanswer
    · omega
    · simp only [chunkHeaderSize] at hb
      omega
    · exact he

/-- The cut is right behind a chunk header that announces a payload. -/
theorem readTrace_take_behind_header :
    headerLookalike.Framed ∧ streamHeaderSize ≤ 72 ∧ 72 ≤ headerLookalike.toBytes.length ∧
      (Source.ofBytes (headerLookalike.toBytes.take 72)).Sound ∧
      readTrace "trace" (.ok (.ofBytes (headerLookalike.toBytes.take 72))) =
        .ok ⟨headerLookalike.header, headerLookalike.chunks.take 1⟩ := by
  have ht : headerLookalike.Framed := by decide
  have hlow : streamHeaderSize ≤ 72 := by decide
  have hle : 72 ≤ headerLookalike.toBytes.length := by decide
  have hs : (Source.ofBytes (headerLookalike.toBytes.take 72)).Sound := rfl
  have hwhole : headerLookalike.wholeWithin 72 = 1 := by decide
  have hread := (readTrace_take "trace" ht hlow hle hs rfl).2.1
  rw [hwhole] at hread
  exact ⟨ht, hlow, hle, hs, hread⟩

end CommandLine

end ThreadTrace
