import ThreadTrace.Proofs.Timeline.Event
import Mathlib.Data.List.Induction

/-!
# ThreadTrace.Proofs.Timeline.Translation — what a timeline shows of a stream

`Timeline.translation` goes by the stream of all events that were read, each with who recorded it.  It
takes an event's time with the unit that the last change in front of it has left (`unitBehind`), and
shows it field by field (`shown?`); no timeline is carried along.  `addEach_eq_translation` says that
chunks added one after another make this timeline, whichever of them have events that cannot be read.
-/

namespace ThreadTrace

open Wire

/-- The events of a chunk that can be read, each with who recorded it. -/
def Chunk.recorded (c : Chunk) : List ((UInt32 × UInt32) × Event) := c.cleanEvents.map (c.owner, ·)

namespace Timeline

/-! ### One event -/

/-- What a viewer does with events of a kind; of the other kinds it sees nothing. -/
def phase? : Tag → Option Phase
  | .spanBegin => some .begin
  | .spanEnd => some .finish
  | .instant => some .instant
  | .threadName | .processName => some .metadata
  | .unitChange | .padding | .custom | .streamOver | .invalid => none

/-- The name under which an event is shown. -/
def title : Wire.Event → String
  | .spanBegin _ name _ | .instant _ name => Text.lossy name
  | .threadName _ => "thread_name"
  | .processName _ => "process_name"
  | _ => ""

/-- What is shown with an event; empty arguments are not. -/
def argument? : Wire.Event → Option (String × String)
  | .spanBegin _ _ [] => none
  | .spanBegin _ _ args => some ("args", Text.lossy args)
  | .threadName name | .processName name => some ("name", Text.lossy name)
  | _ => none

/-- When an event is shown: its ticks times the unit, or zero if it has none. -/
def timeIn (unit : Binary64) (e : Wire.Event) : Binary64 :=
  e.ticks?.elim ⟨0⟩ fun ticks => ⟨(ticks.toFloat * Float.ofBits unit.bits).toBits⟩

/-- What a viewer sees of an event. -/
def shown? (owner : UInt32 × UInt32) (unit : Binary64) (e : Wire.Event) : Option Event :=
  (phase? e.tag).map fun phase =>
    ⟨title e, phase, timeIn unit e, owner.1, owner.2, argument? e⟩

theorem ofWire?_eq_shown? (owner : UInt32 × UInt32) (unit : Binary64) (e : Wire.Event) :
    ofWire? ⟨owner.1, owner.2⟩ unit e = shown? owner unit e := by
  cases e with
  | spanBegin ticks name args => cases args <;> rfl
  | _ => rfl

/-! ### The unit -/

/-- The unit that an event sets. -/
def unit? : Wire.Event → Option Binary64
  | .unitChange unit => some unit
  | _ => none

variable {ω : Type}

/-- The unit behind some events: the one that the last change among them sets. -/
def unitBehind (unit : Binary64) (stream : List (ω × Wire.Event)) : Binary64 :=
  (stream.filterMap fun (_, e) => unit? e).getLast?.getD unit

theorem unitBehind_concat (unit : Binary64) (stream : List (ω × Wire.Event)) (owner : ω)
    (e : Wire.Event) :
    unitBehind unit (stream ++ [(owner, e)]) = unitAfter (unitBehind unit stream) e := by
  rw [unitBehind, List.filterMap_append]
  cases e with
  | unitChange new => simp [unit?, unitAfter]
  | _ => simp [unit?, unitAfter, unitBehind]

/-! ### A stream -/

/-- What a viewer sees of a stream: each event under the unit in front of it. -/
def translation (unit : Binary64) (stream : List ((UInt32 × UInt32) × Wire.Event)) : List Event :=
  stream.zipIdx.filterMap fun ((owner, e), i) => shown? owner (unitBehind unit (stream.take i)) e

variable {stream : List ((UInt32 × UInt32) × Wire.Event)}

theorem translation_concat (unit : Binary64) (stream : List ((UInt32 × UInt32) × Wire.Event))
    (owner : UInt32 × UInt32) (e : Wire.Event) :
    translation unit (stream ++ [(owner, e)]) =
      translation unit stream ++ (shown? owner (unitBehind unit stream) e).toList := by
  have hfront : stream.zipIdx.filterMap (fun ((owner', e'), i) =>
      shown? owner' (unitBehind unit ((stream ++ [(owner, e)]).take i)) e') =
        translation unit stream := by
    refine List.filterMap_congr fun ((owner', e'), i) hi => ?_
    have hlt : i < stream.length := List.snd_lt_of_mem_zipIdx hi
    simp only [List.take_append_of_le_length (Nat.le_of_lt hlt)]
  rw [translation, List.zipIdx_append, List.filterMap_append, hfront]
  cases hshown : shown? owner (unitBehind unit stream) e <;> simp [hshown]

theorem foldl_add_eq (t : Timeline) (stream : List ((UInt32 × UInt32) × Wire.Event)) :
    stream.foldl (fun t (owner, e) => t.add owner e) t =
      ⟨t.events ++ translation t.unit stream, unitBehind t.unit stream⟩ := by
  induction stream using List.reverseRecOn with
  | nil => simp [translation, unitBehind]
  | append_singleton stream last ih =>
    obtain ⟨owner, e⟩ := last
    rw [List.foldl_append, ih, translation_concat, unitBehind_concat, ← List.append_assoc,
      ← ofWire?_eq_shown?]
    rfl

theorem withChunks_eq (t : Timeline) (cs : List Chunk) :
    t.withChunks cs =
      ⟨t.events ++ translation t.unit (cs.flatMap Chunk.recorded),
        unitBehind t.unit (cs.flatMap Chunk.recorded)⟩ := by
  rw [← foldl_add_eq, List.foldl_flatMap, withChunks]
  congr 1
  funext t c
  rw [Chunk.recorded, List.foldl_map]
  rfl

/-- Chunks are added one after another, whatever the answers. -/
def addEach (t : Timeline) : List Chunk → List (Option DecodeError) × Timeline
  | [] => ([], t)
  | c :: cs =>
    let (error, t) := t.addChunk c
    let (errors, t) := t.addEach cs
    (error :: errors, t)

theorem addEach_eq (t : Timeline) (cs : List Chunk) :
    t.addEach cs = (cs.map Chunk.firstError?, t.withChunks cs) := by
  induction cs generalizing t with
  | nil => rfl
  | cons c cs ih =>
    simp only [addEach, addChunk_eq, ih]
    rfl

/-- **A timeline shows the stream of the events that were read.**  Each chunk is answered with its
first error, if it has one, and adds the events in front of it; what comes later goes on from there.
So the events shown are those of the stream, and each has its time by the last unit set in front of
it, in whatever chunk.  A trace has this timeline if no chunk has an error, and fails with the first
one otherwise. -/
theorem addEach_eq_translation (t : Timeline) (cs : List Chunk) :
    t.addEach cs =
      (cs.map Chunk.firstError?,
        ⟨t.events ++ translation t.unit (cs.flatMap Chunk.recorded),
          unitBehind t.unit (cs.flatMap Chunk.recorded)⟩) ∧
    (∀ c : Chunk, c.events = c.cleanEvents.map .ok ++ (c.firstError?.map .error).toList) ∧
    ∀ trace : Trace, ofTrace trace =
      match trace.chunks.findSome? Chunk.firstError? with
      | none => .ok
        ⟨translation trace.header.unit (trace.chunks.flatMap Chunk.recorded),
          unitBehind trace.header.unit (trace.chunks.flatMap Chunk.recorded)⟩
      | some e => .error e := by
  refine ⟨?_, Chunk.events_eq, fun trace => ?_⟩
  · rw [addEach_eq, withChunks_eq]
  · rw [ofTrace, addChunks_eq, withChunks_eq]
    cases trace.chunks.findSome? Chunk.firstError? <;> rfl

end Timeline

end ThreadTrace
