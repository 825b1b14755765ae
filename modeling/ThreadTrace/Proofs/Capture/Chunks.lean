import ThreadTrace.Proofs.Capture.Progress
import ThreadTrace.Proofs.Capture.Shared

/-!
# ThreadTrace.Proofs.Capture.Chunks — events are cut into chunks

On a sink of any kind, a request writes nothing or the chunk in the making (`Buffer.sent`), and then
stores its event.  `Buffer.Cuts` says where the events of a buffer are: in the chunks it wrote, cut
somewhere, and behind them in what is waiting.  A request that is refused keeps this as it is
(`Cuts.stamped`), and one that is granted adds its chunk and its event (`Cuts.after`).
-/

namespace ThreadTrace.Buffer

open Wire

variable {b : Buffer} {op : Op}

/-- The chunk that has to be written before a request can be met. -/
def sent (b : Buffer) (op : Op) : List Chunk := if b.settles op then [] else [b.chunk]

theorem sent_of_settles (h : b.settles op = true) : b.sent op = [] := if_pos h

theorem sent_of_not_settles (h : b.settles op = false) : b.sent op = [b.chunk] := by
  rw [sent, h]
  rfl

@[simp] theorem chunk_stamped (hb : b.Sound) : b.stamped.chunk = b.chunk := by
  have hheader : b.stamped.chunkHeader = b.chunkHeader := rfl
  rw [chunk, chunk, hheader, pending_stamped hb]

theorem settles_stamped (hb : b.Sound) (op : Op) : b.stamped.settles op = b.settles op := by
  have hhead : b.stamped.head = b.head := rfl
  rw [settles, settles, size_stamped hb, hhead]
  rfl

theorem sent_stamped (hb : b.Sound) (op : Op) : b.stamped.sent op = b.sent op := by
  rw [sent, sent, settles_stamped hb, chunk_stamped hb]

/-- The events of a buffer, in order: those of the chunks that it wrote, and those waiting. -/
structure Cuts (owner : UInt32 × UInt32) (events : List Event) (cs : List Chunk) (b : Buffer) :
    Prop where
  sound : b.Sound
  owner_eq : b.owner = owner
  framed : ∀ c ∈ cs, c.Framed ∧ c.owner = owner
  events_eq : (cs ++ [b.chunk]).flatMap Chunk.events = events.map .ok

namespace Cuts

variable {owner : UInt32 × UInt32} {events : List Event} {cs : List Chunk}

theorem new {region : Region} {process thread : UInt32}
    (h : Buffer.new region process thread = .ok b) : Cuts (process, thread) [] [] b := by
  obtain ⟨rfl, hsound⟩ := new_eq_ok h
  have hnone : pending ⟨region, chunkHeaderSize, process, thread, 0, false⟩ = [] :=
    pending_of_isEmpty (beq_self_eq_true _)
  refine ⟨hsound, rfl, fun c hc => absurd hc List.not_mem_nil, ?_⟩
  simp [Chunk.events, chunk, hnone, decodeEvents]

/-- What is waiting can be read, as it was accepted. -/
theorem clean (h : Cuts owner events cs b) : Clean b.pending := by
  intro item hitem
  have hmem : item ∈ events.map .ok := by
    rw [← h.events_eq]
    exact List.mem_flatMap.2 ⟨b.chunk, by simp, hitem⟩
  obtain ⟨e, -, rfl⟩ := List.mem_map.1 hmem
  exact ⟨e, rfl⟩

theorem stamped (h : Cuts owner events cs b) : Cuts owner events cs b.stamped where
  sound := stamped_sound h.sound
  owner_eq := h.owner_eq
  framed := h.framed
  events_eq := by rw [chunk_stamped h.sound, h.events_eq]

/-- What is waiting becomes a chunk. -/
theorem emptied (h : Cuts owner events cs b) : Cuts owner events (cs ++ [b.chunk]) b.emptied where
  sound := emptied_sound h.sound
  owner_eq := h.owner_eq
  framed := by
    intro c hc
    rcases List.mem_append.1 hc with hc | hc
    · exact h.framed c hc
    · rw [List.mem_singleton.1 hc]
      exact ⟨chunk_framed h.sound, (chunk_owner b).trans h.owner_eq⟩
  events_eq := by
    have hnone : b.emptied.chunk.events = [] := by
      simp [Chunk.events, chunk, decodeEvents]
    rw [List.flatMap_append, h.events_eq]
    simp [hnone]

theorem stored (h : Cuts owner events cs b) {record : Record} {e : Event}
    (he : record.event? = some e) (hfit : b.head + record.size ≤ b.region.size)
    (ticks : Option UInt64) : Cuts owner (events ++ [e]) cs (b.stored record ticks) where
  sound := stored_sound h.sound hfit
  owner_eq := h.owner_eq
  framed := h.framed
  events_eq := by
    have hevents : (b.stored record ticks).chunk.events = b.chunk.events ++ [.ok e] :=
      decodeEvents_stored he h.sound h.clean hfit ticks
    have hcut := h.events_eq
    rw [List.flatMap_append, List.flatMap_singleton] at hcut ⊢
    rw [hevents, ← List.append_assoc, hcut, List.map_append]
    rfl

theorem ready (h : Cuts owner events cs b) (op : Op) :
    Cuts owner events (cs ++ b.sent op) (b.ready op) := by
  cases hsettles : b.settles op with
  | true =>
    rw [sent_of_settles hsettles, List.append_nil, Buffer.ready, if_pos hsettles]
    exact h
  | false =>
    rw [sent_of_not_settles hsettles, Buffer.ready, hsettles]
    exact h.emptied

/-- A request that is granted. -/
theorem after (h : Cuts owner events cs b) (op : Op) :
    Cuts owner (events ++ op.event?.toList) (cs ++ b.sent op) (b.after op (.ok ())) := by
  have hready := h.ready op
  cases hop : op.record? with
  | none =>
    obtain rfl := Op.eq_flush hop
    have hnone : Op.flush.event?.toList = [] := rfl
    rw [hnone, List.append_nil]
    exact hready
  | some record =>
    obtain ⟨e, hevent, he⟩ := Op.exists_event hop
    have hstored := hready.stored he (ready_fits h.sound hop) op.ticks?
    rw [hevent, Option.toList_some]
    simpa only [Buffer.after, hop] using hstored

end Cuts

end ThreadTrace.Buffer
