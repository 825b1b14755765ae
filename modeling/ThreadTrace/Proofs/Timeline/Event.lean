import ThreadTrace.Proofs.Stream.Chunk
import ThreadTrace.Timeline.Event

/-!
# ThreadTrace.Proofs.Timeline.Event — a timeline is made event by event

A chunk adds its events up to the first that cannot be read (`addChunk_eq`).  A trace has a timeline
when its chunks are clean, and only then; otherwise it fails with their first error (`addChunks_eq`).
Each event becomes one of the timeline or none (`Becomes.countP_ofTrace`).  Where one chunk ends and
the next begins does not matter: the chunks of one thread add their events one after another
(`withChunks_of_owner`).
-/

namespace ThreadTrace.Timeline

open Wire

/-- The timeline after one more event of a thread. -/
def add (owner : UInt32 × UInt32) (t : Timeline) (e : Wire.Event) : Timeline :=
  ⟨t.events ++ (ofWire? ⟨owner.1, owner.2⟩ t.unit e).toList, unitAfter t.unit e⟩

/-- The timeline after the events of one more chunk. -/
def withChunk (t : Timeline) (c : Chunk) : Timeline := c.cleanEvents.foldl (add c.owner) t

def withChunks (t : Timeline) (cs : List Chunk) : Timeline := cs.foldl withChunk t

variable {t t' : Timeline} {c : Chunk} {cs : List Chunk} {owner : UInt32 × UInt32}

/-! ### Chunks -/

theorem ofItems_eq (owner : UInt32 × UInt32) (t : Timeline) (es : List Wire.Event)
    (last : Option DecodeError) :
    ∃ events unit,
      ofItems ⟨owner.1, owner.2⟩ t.unit (es.map .ok ++ (last.map .error).toList) =
        (events, unit, last) ∧
      es.foldl (add owner) t = ⟨t.events ++ events, unit⟩ := by
  induction es generalizing t with
  | nil => cases last <;> exact ⟨[], t.unit, rfl, by simp⟩
  | cons e es ih =>
    obtain ⟨events, unit, hitems, hadded⟩ := ih (t.add owner e)
    have hitems : ofItems ⟨owner.1, owner.2⟩ (unitAfter t.unit e)
        (es.map .ok ++ (last.map .error).toList) = (events, unit, last) := hitems
    refine ⟨(ofWire? ⟨owner.1, owner.2⟩ t.unit e).toList ++ events, unit, ?_, ?_⟩
    · rw [List.map_cons, List.cons_append, ofItems, hitems]
    · rw [List.foldl_cons, hadded, add, List.append_assoc]

/-- The events in front of an error stay. -/
theorem addChunk_eq (t : Timeline) (c : Chunk) :
    t.addChunk c = (c.firstError?, t.withChunk c) := by
  obtain ⟨events, unit, hitems, hadded⟩ := ofItems_eq c.owner t c.cleanEvents c.firstError?
  have hitems : ofItems ⟨c.header.process, c.header.thread⟩ t.unit
      (c.cleanEvents.map .ok ++ (c.firstError?.map .error).toList) =
        (events, unit, c.firstError?) := hitems
  rw [addChunk, c.events_eq, hitems, withChunk, hadded]

/-- All chunks are in the timeline, or the first error of one of them is what it fails with. -/
theorem addChunks_eq (t : Timeline) (cs : List Chunk) :
    t.addChunks cs =
      (cs.findSome? Chunk.firstError?).elim (.ok (t.withChunks cs)) .error := by
  induction cs generalizing t with
  | nil => rfl
  | cons c cs ih =>
    rw [addChunks, addChunk_eq, List.findSome?_cons]
    cases c.firstError? with
    | none => exact ih (t.withChunk c)
    | some e => rfl

theorem addChunks_eq_ok_iff :
    t.addChunks cs = .ok t' ↔ (∀ c ∈ cs, c.Clean) ∧ t' = t.withChunks cs := by
  rw [addChunks_eq, ← Chunk.findSome?_firstError?_eq_none_iff]
  cases cs.findSome? Chunk.firstError? <;> simp [eq_comm]

theorem ofTrace_eq_ok_iff {trace : Trace} :
    ofTrace trace = .ok t ↔
      (∀ c ∈ trace.chunks, c.Clean) ∧ t = (empty trace.header.unit).withChunks trace.chunks :=
  addChunks_eq_ok_iff

theorem withChunks_of_owner (h : ∀ c ∈ cs, c.owner = owner) (t : Timeline) :
    t.withChunks cs = (cs.flatMap Chunk.cleanEvents).foldl (add owner) t := by
  induction cs generalizing t with
  | nil => rfl
  | cons c cs ih =>
    obtain ⟨hc, hcs⟩ := List.forall_mem_cons.1 h
    rw [List.flatMap_cons, List.foldl_append, ← ih hcs, ← hc]
    rfl

/-! ### Counts -/

/-- The kinds of event that are not for a viewer. -/
def unseen : List Tag := [.padding, .custom, .unitChange, .streamOver]

/-- Events of one kind become timeline events of another, and no others do. -/
def Becomes (p : Wire.Event → Bool) (q : Event → Bool) : Prop :=
  ∀ owner unit e, (ofWire? owner unit e).toList.countP q = if p e then 1 else 0

theorem seen_become : Becomes (·.tag ∉ unseen) fun _ => true := by
  intro owner unit e
  cases e <;> rfl

theorem begins_become : Becomes (·.tag = .spanBegin) (·.phase = .begin) := by
  intro owner unit e
  cases e <;> rfl

theorem ends_become : Becomes (·.tag = .spanEnd) (·.phase = .finish) := by
  intro owner unit e
  cases e <;> rfl

variable {p : Wire.Event → Bool} {q : Event → Bool}

theorem Becomes.countP_addEvents (h : Becomes p q) (owner : UInt32 × UInt32) (t : Timeline)
    (es : List Wire.Event) :
    (es.foldl (add owner) t).events.countP q = t.events.countP q + es.countP p := by
  induction es generalizing t with
  | nil => rfl
  | cons e es ih =>
    rw [List.foldl_cons, ih, add, List.countP_append, h _ _ e, List.countP_cons]
    omega

/-- Timeline events of a kind are as many as events of the kind they come from. -/
theorem Becomes.countP_withChunks (h : Becomes p q) (t : Timeline) (cs : List Chunk) :
    (t.withChunks cs).events.countP q =
      t.events.countP q + (cs.flatMap Chunk.cleanEvents).countP p := by
  induction cs generalizing t with
  | nil => rfl
  | cons c cs ih =>
    rw [withChunks, List.foldl_cons, List.flatMap_cons, List.countP_append, ← Nat.add_assoc]
    refine (ih (t.withChunk c)).trans ?_
    rw [withChunk, h.countP_addEvents]

theorem Becomes.countP_ofTrace (h : Becomes p q) {trace : Trace} (ht : ofTrace trace = .ok t) :
    t.events.countP q = (trace.chunks.flatMap Chunk.cleanEvents).countP p := by
  obtain ⟨-, rfl⟩ := ofTrace_eq_ok_iff.1 ht
  rw [h.countP_withChunks]
  exact Nat.zero_add _

end ThreadTrace.Timeline
