import ThreadTrace.Proofs.Capture.Shared
import ThreadTrace.Proofs.Wire.Event

/-!
# ThreadTrace.Proofs.Capture.Progress — no request loses an event

A request to a buffer on a sink in memory writes nothing or one chunk.  `Progress` says that the
events of the chunk and those still waiting are the events that were waiting before and the one that
the request brought, if it was accepted.  `perform_progress` has it for every request, also one that
fails.
-/

namespace ThreadTrace

open Wire

/-- A sink in memory takes all of the bytes or, when it gives an error, none. -/
theorem Sink.write_memory (s : Sink Memory) (bs : List UInt8) :
    (∃ e, s.write bs = (.error e, s)) ∨
      ∃ s', s.write bs = (.ok (), s') ∧ s'.unit = s.unit ∧
        s'.destination.contents = s.destination.contents ++ bs := by
  obtain ⟨unit, ⟨writes, flushes, closes, failing, closeFails⟩, isOpen⟩ := s
  cases isOpen with
  | false => exact .inl ⟨_, rfl⟩
  | true =>
    cases failing with
    | true => exact .inl ⟨_, rfl⟩
    | false => exact .inr ⟨_, rfl, rfl, by simp [Memory.contents]⟩

@[simp] theorem Sink.unit_quit (s : Sink Memory) : s.quit.2.unit = s.unit := by
  obtain ⟨unit, ⟨writes, flushes, closes, failing, closeFails⟩, isOpen⟩ := s
  cases isOpen <;> cases closeFails <;> rfl

@[simp] theorem Sink.contents_quit (s : Sink Memory) :
    s.quit.2.destination.contents = s.destination.contents := by
  obtain ⟨unit, ⟨writes, flushes, closes, failing, closeFails⟩, isOpen⟩ := s
  cases isOpen <;> cases closeFails <;> rfl

namespace Buffer

/-- The event that a request brings. -/
def Op.event? (op : Op) : Option Event := op.record?.bind Record.event?

/-- The event of a request that was accepted. -/
def Op.accepted (op : Op) : Except CaptureError Unit → List Event
  | .ok () => op.event?.toList
  | .error _ => []

@[simp] theorem Op.accepted_flush (result : Except CaptureError Unit) :
    Op.flush.accepted result = [] := by
  rcases result with e | ⟨⟨⟩⟩ <;> rfl

theorem Op.exists_event {op : Op} {record : Record} (h : op.record? = some record) :
    ∃ e, op.event? = some e ∧ record.event? = some e := by
  have hevent : op.event? = record.event? := by rw [Op.event?, h, Option.bind_some]
  cases op with
  | flush => cases h
  | spanBegin text args ticks =>
    obtain rfl := Option.some.inj h
    exact ⟨_, rfl, rfl⟩
  | spanEnd ticks =>
    obtain rfl := Option.some.inj h
    exact ⟨_, rfl, rfl⟩
  | name kind text =>
    obtain rfl := Option.some.inj h
    cases kind <;> exact ⟨_, rfl, rfl⟩

/-- From `b` and `s` to `b'` and `s'` chunks were written, and with what is waiting they have the
events that were waiting and `events`. -/
structure Progress (b : Buffer) (s : Sink Memory) (b' : Buffer) (s' : Sink Memory)
    (events : List Event) : Prop where
  sound : b'.Sound
  owner_eq : b'.owner = b.owner
  unit_eq : s'.unit = s.unit
  delivered : ∃ cs : List Chunk,
    s'.destination.contents = s.destination.contents ++ cs.flatMap Chunk.toBytes ∧
      (∀ c ∈ cs, c.Framed ∧ c.owner = b.owner) ∧
      cs.flatMap Chunk.events ++ decodeEvents b'.pending =
        decodeEvents b.pending ++ events.map .ok

variable {b b' : Buffer} {s s' : Sink Memory} {events : List Event}

/-- Nothing was written. -/
theorem Progress.of_pending (hb' : b'.Sound) (howner : b'.owner = b.owner)
    (hpending : decodeEvents b'.pending = decodeEvents b.pending ++ events.map .ok) :
    Progress b s b' s events :=
  ⟨hb', howner, rfl, [], by simp, by simp, by simpa using hpending⟩

/-- All that was waiting was written. -/
theorem Progress.of_chunk (hb : b.Sound) (hb' : b'.Sound) (howner : b'.owner = b.owner)
    (hunit : s'.unit = s.unit)
    (hcontents : s'.destination.contents = s.destination.contents ++ b.chunk.toBytes)
    (hpending : decodeEvents b'.pending = events.map .ok) : Progress b s b' s' events := by
  refine ⟨hb', howner, hunit, [b.chunk], by simpa using hcontents, ?_, ?_⟩
  · intro c hc
    rw [List.mem_singleton.1 hc]
    exact ⟨chunk_framed hb, chunk_owner b⟩
  · rw [hpending]
    simp [Chunk.events, chunk]

theorem stamped_progress (hb : b.Sound) (s : Sink Memory) : Progress b s b.stamped s [] :=
  .of_pending (stamped_sound hb) (owner_stamped b) (by simp [pending_stamped hb])

theorem pending_flush (hb : b.Sound) (h : (b.flush s).1 = .ok ()) :
    (b.flush s).2.1.pending = [] :=
  pending_of_isEmpty (isEmpty_flush hb h)

theorem decodeEvents_stored {record : Record} {e : Event} (he : record.event? = some e)
    (hb : b.Sound) (hclean : Clean b.pending) (hfit : b.head + record.size ≤ b.region.size)
    (ticks : Option UInt64) :
    decodeEvents (b.stored record ticks).pending = decodeEvents b.pending ++ [.ok e] := by
  rw [pending_stored hb hfit, decodeEvents_append hclean, decodeEvents_toBytes he]

theorem clean_emptied (b : Buffer) : Clean b.emptied.pending := by
  simp [Clean, decodeEvents]

/-- A request that is granted puts its event behind those that are kept. -/
theorem decodeEvents_after (hb : b.Sound) (op : Op) (hclean : Clean (b.ready op).pending) :
    decodeEvents (b.after op (.ok ())).pending =
      decodeEvents (b.ready op).pending ++ op.event?.toList.map .ok := by
  cases hop : op.record? with
  | none =>
    obtain rfl := Op.eq_flush hop
    exact (List.append_nil _).symm
  | some record =>
    obtain ⟨e, hevent, he⟩ := Op.exists_event hop
    have hstored := decodeEvents_stored he (ready_sound hb op) hclean (ready_fits hb hop) op.ticks?
    rw [hevent, Option.toList_some, List.map_singleton]
    simpa only [after, hop] using hstored

theorem perform_progress (hb : b.Sound) (hclean : Clean b.pending) (s : Sink Memory) (op : Op) :
    let asked := b.perform s op
    Progress b s asked.2.1 asked.2.2 (op.accepted asked.1) := by
  intro asked
  have hsound := after_sound hb op (.ok ())
  have howner := owner_after b op (.ok ())
  have hafter := decodeEvents_after hb op
  cases hsettles : b.settles op with
  | true =>
    rw [ready, if_pos hsettles] at hafter
    rw [show asked = _ from perform_of_settles hb hsettles s]
    exact .of_pending hsound howner (hafter hclean)
  | false =>
    rw [ready, hsettles] at hafter
    rw [show asked = _ from perform_of_not_settles hb hsettles s]
    obtain ⟨e, hwrite⟩ | ⟨s', hwrite, hunit, hcontents⟩ := s.write_memory b.chunk.toBytes
    · rw [hwrite]
      exact stamped_progress hb s
    · rw [hwrite]
      refine .of_chunk hb hsound howner hunit hcontents ((hafter (clean_emptied b)).trans ?_)
      simp [decodeEvents, Op.accepted]

theorem flush_progress (hb : b.Sound) (hclean : Clean b.pending) (s : Sink Memory) :
    Progress b s (b.flush s).2.1 (b.flush s).2.2 [] := by
  rw [← Op.accepted_flush (b.flush s).1]
  exact perform_progress hb hclean s .flush

end Buffer

end ThreadTrace
