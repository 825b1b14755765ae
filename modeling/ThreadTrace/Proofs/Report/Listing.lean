import ThreadTrace.Proofs.Stream.Chunk
import ThreadTrace.Report.Listing

/-!
# ThreadTrace.Proofs.Report.Listing — a listing ends where an event cannot be read

The lines of a trace come with an error exactly when a chunk is not clean, and the error is the
first of that chunk (`chunkLines_cases`, `snd_chunkLines`).
-/

namespace ThreadTrace.Listing

open Wire

theorem eventLines_map_ok (es : List Event) :
    eventLines (es.map .ok) = (es.map describe, none) := by
  induction es with
  | nil => rfl
  | cons e es ih =>
    rw [List.map_cons, eventLines, ih]
    rfl

theorem eventLines_of_error (es : List Event) (e : DecodeError) :
    eventLines (es.map .ok ++ [.error e]) = (es.map describe, some e) := by
  induction es with
  | nil => rfl
  | cons event es ih =>
    rw [List.map_cons, List.cons_append, eventLines, ih]
    rfl

/-- All chunks are clean and there is no error, or there is one and it is a chunk's. -/
theorem chunkLines_cases (cs : List Chunk) :
    ((∀ c ∈ cs, c.Clean) ∧ (chunkLines cs).2 = none) ∨
      ∃ c ∈ cs, ¬ c.Clean ∧ ∃ e, .error e ∈ c.events ∧ (chunkLines cs).2 = some e := by
  induction cs with
  | nil => exact .inl ⟨by simp, rfl⟩
  | cons c cs ih =>
    obtain ⟨hclean, -, hevents⟩ | ⟨hnot, e, -, hevents⟩ := c.events_cases
    · have hlines : (chunkLines (c :: cs)).2 = (chunkLines cs).2 := by
        rw [chunkLines, hevents, eventLines_map_ok]
      rw [hlines]
      obtain ⟨hcs, herror⟩ | ⟨c', hc', hnot, e, he, herror⟩ := ih
      · exact .inl ⟨List.forall_mem_cons.2 ⟨hclean, hcs⟩, herror⟩
      · exact .inr ⟨c', List.mem_cons_of_mem c hc', hnot, e, he, herror⟩
    · refine .inr ⟨c, List.mem_cons_self, hnot, e, ?_, ?_⟩
      · rw [hevents]
        exact List.mem_append_right _ List.mem_cons_self
      · rw [chunkLines, hevents, eventLines_of_error]

theorem snd_eventLines (items : List (Except DecodeError Event)) :
    (eventLines items).2 = items.findSome? Chunk.errorOf? := by
  induction items with
  | nil => rfl
  | cons item items ih =>
    cases item with
    | ok event => exact ih
    | error e => rfl

/-- The first error of all chunks ends the listing. -/
theorem snd_chunkLines (cs : List Chunk) :
    (chunkLines cs).2 = cs.findSome? Chunk.firstError? := by
  induction cs with
  | nil => rfl
  | cons c cs ih =>
    have hsnd : (eventLines c.events).2 = c.firstError? := snd_eventLines c.events
    rw [List.findSome?_cons, chunkLines]
    rcases hlines : eventLines c.events with ⟨lines, error⟩
    rw [hlines] at hsnd
    rw [← hsnd]
    cases error with
    | none => exact ih
    | some e => rfl

end ThreadTrace.Listing
