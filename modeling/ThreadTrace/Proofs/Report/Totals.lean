import ThreadTrace.Proofs.Report.Listing
import ThreadTrace.Proofs.Report.Summary
import ThreadTrace.Proofs.Timeline.Event

/-!
# ThreadTrace.Proofs.Report.Totals — a summary, a listing and a timeline of one trace

The three go through the events of a trace on their own, and each stops where it cannot read one: at
the same event, with the same error.  When they come to the end they have seen the same events.
What is counted for all threads of a summary together is how many events there are of a kind
(`Counts.total_ofTrace`), and so is the length of a timeline; `passes_agree` compares the two.
-/

namespace ThreadTrace

open Wire

/-! ### Counts of a summary -/

/-- What is counted for a thread grows by one with each event of a kind, and with nothing else. -/
structure ThreadSummary.Counts (count : ThreadSummary → Nat) (p : Event → Bool) : Prop where
  empty_eq : count .empty = 0
  openChunk_eq (c : Chunk) (t : Option ThreadSummary) : count (openChunk c t) = t.elim 0 count
  addEvent_eq (t : ThreadSummary) (e : Event) :
    count (t.addEvent e) = count t + if p e then 1 else 0

namespace ThreadSummary

theorem counts_events : Counts events fun _ => true where
  empty_eq := rfl
  openChunk_eq c t := by cases t <;> rfl
  addEvent_eq t e := by cases e <;> simp [addEvent, events] <;> omega

theorem counts_begins : Counts begins (·.tag = .spanBegin) where
  empty_eq := rfl
  openChunk_eq c t := by cases t <;> rfl
  addEvent_eq t e := by cases e <;> simp [addEvent, Event.tag]

theorem counts_ends : Counts ends (·.tag = .spanEnd) where
  empty_eq := rfl
  openChunk_eq c t := by cases t <;> rfl
  addEvent_eq t e := by cases e <;> simp [addEvent, Event.tag]

variable {count : ThreadSummary → Nat} {p : Event → Bool}

theorem Counts.addEvents_eq (h : Counts count p) (t : ThreadSummary) (es : List Event) :
    count (es.foldl addEvent t) = count t + es.countP p := by
  induction es generalizing t with
  | nil => rfl
  | cons e es ih =>
    rw [List.foldl_cons, ih, h.addEvent_eq, List.countP_cons]
    omega

/-- What is counted for a thread grows by this with each chunk, whatever was there before. -/
def Adds (count : ThreadSummary → Nat) (added : Chunk → Nat) : Prop :=
  ∀ t c, count (withChunk t c) = t.elim 0 count + added c

theorem Counts.adds (h : Counts count p) : Adds count (·.cleanEvents.countP p) := by
  intro t c
  rw [withChunk, h.addEvents_eq, h.openChunk_eq]

theorem Adds.total_withChunks {added : Chunk → Nat} (h : Adds count added) (s : Summary)
    (cs : List Chunk) :
    (s.withChunks cs).threads.total count = s.threads.total count + (cs.map added).sum := by
  induction cs generalizing s with
  | nil => rfl
  | cons c cs ih =>
    refine (ih (s.withChunk c)).trans ?_
    rw [Summary.threads_withChunk, Keyed.total_update fun old => h old c, List.map_cons,
      List.sum_cons, Nat.add_assoc]

theorem Counts.total_withChunks (h : Counts count p) (s : Summary) (cs : List Chunk) :
    (s.withChunks cs).threads.total count =
      s.threads.total count + (cs.flatMap Chunk.cleanEvents).countP p := by
  rw [h.adds.total_withChunks, List.countP_flatMap]
  rfl

theorem Counts.total_ofTrace (h : Counts count p) {trace : Trace} {s : Summary}
    (hs : Summary.ofTrace trace = .ok s) :
    s.threads.total count = (trace.chunks.flatMap Chunk.cleanEvents).countP p := by
  obtain ⟨-, rfl⟩ := Summary.ofTrace_eq_ok_iff.1 hs
  rw [h.total_withChunks]
  exact Nat.zero_add _

end ThreadSummary

namespace Summary

theorem totalEvents_eq (s : Summary) : s.totalEvents = s.threads.total ThreadSummary.events := by
  rw [totalEvents, Keyed.total, List.sum_eq_foldr]

end Summary

/-- **The three passes over the events of a trace agree.**  They fail together, with the error of the
first event that cannot be read; or all events can be, and they have seen the same ones, of which a
timeline leaves out some kinds. -/
theorem Trace.passes_agree (t : Trace) :
    (∃ e, t.chunks.findSome? Chunk.firstError? = some e ∧ Summary.ofTrace t = .error e ∧
        (Listing.chunkLines t.chunks).2 = some e ∧ Timeline.ofTrace t = .error e) ∨
      ∃ s timeline, (∀ c ∈ t.chunks, c.Clean) ∧ Summary.ofTrace t = .ok s ∧
        (Listing.chunkLines t.chunks).2 = none ∧ Timeline.ofTrace t = .ok timeline ∧
        timeline.events.length +
            (t.chunks.flatMap Chunk.cleanEvents).countP (·.tag ∈ Timeline.unseen) =
          s.totalEvents ∧
        timeline.events.countP (·.phase = .begin) = s.threads.total ThreadSummary.begins ∧
        timeline.events.countP (·.phase = .finish) = s.threads.total ThreadSummary.ends := by
  rw [Listing.snd_chunkLines]
  cases hfirst : t.chunks.findSome? Chunk.firstError? with
  | some e =>
    refine .inl ⟨e, rfl, ?_, rfl, ?_⟩
    · rw [Summary.ofTrace, Summary.foldlM_addChunk_eq, hfirst]
      rfl
    · rw [Timeline.ofTrace, Timeline.addChunks_eq, hfirst]
      rfl
  | none =>
    have hclean := Chunk.findSome?_firstError?_eq_none_iff.1 hfirst
    obtain ⟨s, hs⟩ : ∃ s, Summary.ofTrace t = .ok s :=
      ⟨_, Summary.ofTrace_eq_ok_iff.2 ⟨hclean, rfl⟩⟩
    obtain ⟨timeline, htimeline⟩ : ∃ timeline, Timeline.ofTrace t = .ok timeline :=
      ⟨_, Timeline.ofTrace_eq_ok_iff.2 ⟨hclean, rfl⟩⟩
    refine .inr ⟨s, timeline, hclean, hs, rfl, htimeline, ?_, ?_, ?_⟩
    · -- an event is for the viewer or it is not
      have hsplit := List.length_eq_countP_add_countP (·.tag ∈ Timeline.unseen)
        (l := t.chunks.flatMap Chunk.cleanEvents)
      have hseen := Timeline.seen_become.countP_ofTrace htimeline
      have htotal := ThreadSummary.counts_events.total_ofTrace hs
      simp only [List.countP_true, decide_eq_true_eq] at hsplit hseen htotal
      rw [Summary.totalEvents_eq, htotal, hseen, hsplit, Nat.add_comm]
    · rw [Timeline.begins_become.countP_ofTrace htimeline,
        ThreadSummary.counts_begins.total_ofTrace hs]
    · rw [Timeline.ends_become.countP_ofTrace htimeline,
        ThreadSummary.counts_ends.total_ofTrace hs]

end ThreadTrace
