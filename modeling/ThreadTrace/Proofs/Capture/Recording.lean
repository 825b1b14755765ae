import ThreadTrace.Proofs.Capture.Progress
import ThreadTrace.Proofs.Capture.Tracer
import ThreadTrace.Proofs.Report.Summary
import ThreadTrace.Proofs.Stream.Reader
import ThreadTrace.Proofs.Timeline.Event
import ThreadTrace.Timeline.Json

/-!
# ThreadTrace.Proofs.Capture.Recording — buffer sizes and flushes do not show

On a sink that takes everything a buffer refuses nothing.  `Holds` says what it then holds: its
chunks in memory and the events waiting are the events it was asked for.  Every request keeps this
(`Holds.perform`), and after the last one nothing is waiting (`Holds.run`).  The chunks of two runs
may be cut at different events, but a timeline and a summary do not depend on that
(`run_of_same_events`).
-/

namespace ThreadTrace

open Wire

/-- The sink takes whatever it is given. -/
structure Sink.Ready (s : Sink Memory) : Prop where
  isOpen : s.isOpen = true
  not_failing : s.destination.failing = false

theorem Sink.Ready.write {s : Sink Memory} (h : s.Ready) (bs : List UInt8) :
    ∃ s', s.write bs = (.ok (), s') ∧ s'.Ready ∧
      s'.destination.contents = s.destination.contents ++ bs := by
  obtain ⟨unit, ⟨writes, flushes, closes, failing, closeFails⟩, isOpen⟩ := s
  obtain ⟨rfl, rfl⟩ : isOpen = true ∧ failing = false := ⟨h.isOpen, h.not_failing⟩
  exact ⟨_, rfl, ⟨rfl, rfl⟩, by simp [Memory.contents]⟩

namespace Buffer

/-- The stream in memory begins with this header and goes on with chunks of this thread.  These and
what is waiting have these events. -/
structure Holds (header : StreamHeader) (owner : UInt32 × UInt32) (events : List Event)
    (b : Buffer) (s : Sink Memory) : Prop where
  sound : b.Sound
  owner_eq : b.owner = owner
  ready : s.Ready
  stream : ∃ cs : List Chunk, s.destination.contents = (Trace.mk header cs).toBytes ∧
    (∀ c ∈ cs, c.Framed ∧ c.owner = owner ∧ c.payload ≠ []) ∧
    cs.flatMap Chunk.events ++ decodeEvents b.pending = events.map .ok

variable {header : StreamHeader} {owner : UInt32 × UInt32} {events : List Event}
variable {b : Buffer} {s : Sink Memory}

namespace Holds

/-- What is waiting can be read, as it was asked for. -/
theorem clean (h : Holds header owner events b s) : Clean b.pending := by
  obtain ⟨cs, -, -, hevents⟩ := h.stream
  intro item hitem
  have hmem : item ∈ events.map .ok := by
    rw [← hevents]
    exact List.mem_append_right _ hitem
  obtain ⟨e, -, rfl⟩ := List.mem_map.1 hmem
  exact ⟨e, rfl⟩

/-- What is waiting becomes a chunk. -/
theorem write (h : Holds header owner events b s) (hne : b.isEmpty = false) :
    ∃ s', s.write b.chunk.toBytes = (.ok (), s') ∧ Holds header owner events b.emptied s' := by
  obtain ⟨s', hwrite, hready, hcontents⟩ := h.ready.write b.chunk.toBytes
  obtain ⟨cs, hstream, hcs, hevents⟩ := h.stream
  refine ⟨s', hwrite, emptied_sound h.sound, ?_, hready, cs ++ [b.chunk], ?_, ?_, ?_⟩
  · rw [owner_emptied, h.owner_eq]
  · rw [hcontents, hstream]
    simp [Trace.toBytes]
  · intro c hc
    obtain hc | hc := List.mem_append.1 hc
    · exact hcs c hc
    · rw [List.mem_singleton.1 hc]
      exact ⟨chunk_framed h.sound, (chunk_owner b).trans h.owner_eq, pending_ne_nil h.sound hne⟩
  · rw [pending_emptied, ← hevents]
    simp [decodeEvents, Chunk.events, chunk]

/-- What has to be asked of the sink is granted. -/
theorem granted (h : Holds header owner events b s) (op : Op) :
    ∃ s', s.attempt (b.demand op) = (.ok (), s') ∧ Holds header owner events (b.ready op) s' := by
  rw [demand, Buffer.ready]
  cases hsettles : b.settles op with
  | true => exact ⟨s, rfl, h⟩
  | false => exact h.write (isEmpty_of_not_settles h.sound hsettles)

/-- No request is refused. -/
theorem perform (h : Holds header owner events b s) (op : Op) :
    ∃ b' s', b.perform s op = (.ok (), b', s') ∧
      Holds header owner (events ++ op.event?.toList) b' s' := by
  obtain ⟨s', hasked, hready⟩ := h.granted op
  obtain ⟨cs, hstream, hcs, hevents⟩ := hready.stream
  refine ⟨b.after op (.ok ()), s', ?_, after_sound h.sound op _, ?_, hready.ready, cs, hstream, hcs,
    ?_⟩
  · rw [perform_eq_after h.sound, hasked]
  · rw [owner_after, h.owner_eq]
  · rw [decodeEvents_after h.sound op hready.clean, ← List.append_assoc, hevents, List.map_append]

theorem flush (h : Holds header owner events b s) :
    ∃ b' s', b.flush s = (.ok (), b', s') ∧ b'.isEmpty ∧ Holds header owner events b' s' := by
  obtain ⟨b', s', hflush, hnext⟩ := h.perform .flush
  have hempty := isEmpty_flush h.sound (s := s) (congrArg Prod.fst hflush)
  rw [show b.flush s = _ from hflush] at hempty
  rw [show Op.flush.event?.toList = [] from rfl, List.append_nil] at hnext
  exact ⟨b', s', hflush, hempty, hnext⟩

end Holds

open Recorder

/-- All that a buffer is asked before it is told to quit. -/
def recording (ops : List Op) : List (Step Op Memory) := ops.map .perform ++ [.quit]

/-- No request of a run is refused, and behind the last one nothing is waiting. -/
theorem Holds.run (h : Holds header owner events b s) (ops : List Op) :
    let outcome := Recorder.run b s (recording ops)
    (∀ answer ∈ outcome.1, answer.error? = none) ∧ outcome.2.1.isEmpty ∧
      Holds header owner (events ++ ops.filterMap Op.event?) outcome.2.1 outcome.2.2 := by
  induction ops generalizing b s events with
  | nil =>
    obtain ⟨b', s', hflush, hempty, hnext⟩ := h.flush
    have hquit : Recorder.quit b s = (.ok b'.region, b', s') := by
      show b.quit s = _
      rw [Buffer.quit, hflush]
    have hrun : Recorder.run b s (recording []) = ([.handed (.ok b'.region)], b', s') := by
      show Recorder.run b s [.quit] = _
      rw [Recorder.run, hquit]
      rfl
    rw [hrun, List.filterMap_nil, List.append_nil]
    refine ⟨fun answer hanswer => ?_, hempty, hnext⟩
    rw [List.mem_singleton.1 hanswer]
    rfl
  | cons op ops ih =>
    obtain ⟨b', s', hperform, hnext⟩ := h.perform op
    obtain ⟨hanswers, hempty, hrest⟩ := ih hnext
    have hrun : Recorder.run b s (recording (op :: ops)) =
        (.done (.ok ()) :: (Recorder.run b' s' (recording ops)).1,
          (Recorder.run b' s' (recording ops)).2) := by
      show Recorder.run b s (.perform op :: recording ops) = _
      rw [run_perform, perform_buffer, hperform]
    have hevents : events ++ op.event?.toList ++ ops.filterMap Op.event? =
        events ++ (op :: ops).filterMap Op.event? := by
      rw [List.append_assoc]
      cases hevent : op.event? <;> simp [hevent]
    rw [hrun, ← hevents]
    refine ⟨fun answer hanswer => ?_, hempty, hrest⟩
    obtain rfl | hanswer := List.mem_cons.1 hanswer
    · rfl
    · exact hanswers answer hanswer

/-! ### What can be read back -/

theorem holds_start {unit : Binary64} (hunit : Unit.isAccepted unit) :
    ∃ sink, Sink.start unit Memory.empty = .ok sink ∧
      ∀ {region process thread b}, Buffer.new region process thread = .ok b →
        Holds ⟨unit⟩ (process, thread) [] b sink := by
  refine ⟨_, if_pos hunit, fun {region process thread b} hnew => ?_⟩
  obtain ⟨hbuffer, hsound⟩ := new_eq_ok hnew
  have hnone : b.pending = [] := by
    rw [hbuffer]
    exact pending_of_isEmpty (beq_self_eq_true _)
  refine ⟨hsound, by rw [hbuffer]; rfl, ⟨rfl, rfl⟩, [], ?_, by simp, ?_⟩
  · simp [Trace.toBytes, Memory.contents, Memory.empty]
  · simp [hnone, decodeEvents]

/-- A recording of these events: chunks of one thread, none of them empty. -/
structure Records (unit : Binary64) (owner : UInt32 × UInt32) (events : List Event) (t : Trace) :
    Prop where
  header_eq : t.header = ⟨unit⟩
  owner_eq : ∀ c ∈ t.chunks, c.owner = owner
  payload_ne : ∀ c ∈ t.chunks, c.payload ≠ []
  clean : ∀ c ∈ t.chunks, c.Clean
  events_eq : t.chunks.flatMap Chunk.cleanEvents = events

theorem Holds.records {unit : Binary64} (h : Holds ⟨unit⟩ owner events b s) (hempty : b.isEmpty) :
    ∃ t, (Reader.ofBytes s.destination.contents).readAll = .ok t ∧
      Records unit owner events t := by
  obtain ⟨cs, hstream, hcs, hevents⟩ := h.stream
  have hnone : decodeEvents b.pending = [] := by
    rw [pending_of_isEmpty hempty, decodeEvents]
  rw [hnone, List.append_nil] at hevents
  obtain ⟨hclean, hclean_events⟩ := Chunk.clean_of_flatMap hevents
  refine ⟨⟨⟨unit⟩, cs⟩, ?_, rfl, fun c hc => (hcs c hc).2.1, fun c hc => (hcs c hc).2.2, hclean,
    hclean_events⟩
  exact Reader.readAll_of_toBytes (Source.ofBytes_sound _) hstream fun c hc => (hcs c hc).1

namespace Records

variable {unit : Binary64} {t t' : Trace}

theorem chunks_eq_nil_iff (h : Records unit owner events t) : t.chunks = [] ↔ events = [] := by
  rw [← h.events_eq]
  constructor
  · intro hnil
    rw [hnil, List.flatMap_nil]
  · intro hnil
    rw [List.eq_nil_iff_forall_not_mem]
    intro c hc
    refine Chunk.cleanEvents_ne_nil (h.clean c hc) (h.payload_ne c hc) ?_
    exact List.flatMap_eq_nil_iff.1 hnil c hc

theorem filter_eq (h : Records unit owner events t) (p : UInt32 × UInt32 → Bool) :
    t.chunks.filter (fun c => p c.owner) = if p owner then t.chunks else [] := by
  by_cases hp : p owner
  · rw [if_pos hp, List.filter_eq_self]
    intro c hc
    rwa [h.owner_eq c hc]
  · rw [if_neg hp, List.filter_eq_nil_iff]
    intro c hc
    rwa [h.owner_eq c hc]

theorem timeline (h : Records unit owner events t) :
    Timeline.ofTrace t = .ok (events.foldl (Timeline.add owner) (.empty unit)) := by
  rw [Timeline.ofTrace_eq_ok_iff, Timeline.withChunks_of_owner h.owner_eq, h.events_eq, h.header_eq]
  exact ⟨h.clean, rfl⟩

theorem summary (h : Records unit owner events t) (h' : Records unit owner events t') :
    ∃ s s', Summary.ofTrace t = .ok s ∧ Summary.ofTrace t' = .ok s' ∧ s.unit = s'.unit ∧
      s.processNames = s'.processNames ∧
      (s.threads.map fun (owner, t) => (owner, t.tally)) =
        (s'.threads.map fun (owner, t) => (owner, t.tally)) := by
  have hfilter : ∀ p : UInt32 × UInt32 → Bool,
      (t.chunks.filter (fun c => p c.owner)).flatMap Chunk.cleanEvents =
        (t'.chunks.filter (fun c => p c.owner)).flatMap Chunk.cleanEvents := by
    intro p
    rw [h.filter_eq, h'.filter_eq]
    by_cases hp : p owner
    · rw [if_pos hp, if_pos hp, h.events_eq, h'.events_eq]
    · rw [if_neg hp, if_neg hp]
  have hempty : ∀ p : UInt32 × UInt32 → Bool, t.chunks.filter (fun c => p c.owner) = [] ↔
      t'.chunks.filter (fun c => p c.owner) = [] := by
    intro p
    rw [h.filter_eq, h'.filter_eq]
    by_cases hp : p owner
    · rw [if_pos hp, if_pos hp, h.chunks_eq_nil_iff, h'.chunks_eq_nil_iff]
    · rw [if_neg hp, if_neg hp]
  obtain ⟨hthreads, hnames⟩ := Summary.withChunks_congr (Summary.ordered_empty unit)
    (fun o => hempty fun owner => owner = o) (fun o => hfilter fun owner => owner = o)
    (fun process => hfilter fun owner => owner.1 = process)
  refine ⟨_, _, Summary.ofTrace_eq_ok_iff.2 ⟨h.clean, rfl⟩,
    Summary.ofTrace_eq_ok_iff.2 ⟨h'.clean, rfl⟩, ?_⟩
  rw [h.header_eq, h'.header_eq]
  exact ⟨by simp, hnames, hthreads⟩

end Records

/-- Requests to flush bring no event. -/
theorem filterMap_event?_filter (ops : List Op) :
    (ops.filter (· ≠ .flush)).filterMap Op.event? = ops.filterMap Op.event? := by
  rw [List.filterMap_filter]
  refine List.filterMap_congr fun op _ => ?_
  by_cases hop : op = .flush
  · subst hop
    rfl
  · simp [hop]

/-- **Buffer sizes and flushes do not show.**  Two buffers are asked for the same events, with
flushes anywhere between them.  Neither refuses anything, and their streams give the same timeline
and, but for the number of chunks and the first timestamp, the same summary. -/
theorem run_of_same_events {unit : Binary64} (hunit : Unit.isAccepted unit)
    {process thread : UInt32} {region region' : Region} {b b' : Buffer}
    (hnew : Buffer.new region process thread = .ok b)
    (hnew' : Buffer.new region' process thread = .ok b') {ops ops' : List Op}
    (hops : ops.filter (· ≠ .flush) = ops'.filter (· ≠ .flush)) :
    ∃ sink, Sink.start unit Memory.empty = .ok sink ∧
      let outcome := Recorder.run b sink (recording ops)
      let outcome' := Recorder.run b' sink (recording ops')
      (∀ answer ∈ outcome.1 ++ outcome'.1, answer.error? = none) ∧
        ∃ t t', (Reader.ofBytes outcome.2.2.destination.contents).readAll = .ok t ∧
          (Reader.ofBytes outcome'.2.2.destination.contents).readAll = .ok t' ∧
          (∃ text, (Timeline.ofTrace t).map Timeline.json = .ok text ∧
            (Timeline.ofTrace t').map Timeline.json = .ok text) ∧
          ∃ s s', Summary.ofTrace t = .ok s ∧ Summary.ofTrace t' = .ok s' ∧ s.unit = s'.unit ∧
            s.processNames = s'.processNames ∧
            (s.threads.map fun (owner, t) => (owner, t.tally)) =
              (s'.threads.map fun (owner, t) => (owner, t.tally)) := by
  obtain ⟨sink, hstart, hholds⟩ := holds_start hunit
  obtain ⟨hanswers, hempty, hholds₁⟩ := (hholds hnew).run ops
  obtain ⟨hanswers', hempty', hholds₂⟩ := (hholds hnew').run ops'
  have hevents : ops'.filterMap Op.event? = ops.filterMap Op.event? := by
    rw [← filterMap_event?_filter ops', ← hops, filterMap_event?_filter]
  rw [hevents] at hholds₂
  obtain ⟨t, hread, hrecords⟩ := hholds₁.records hempty
  obtain ⟨t', hread', hrecords'⟩ := hholds₂.records hempty'
  refine ⟨sink, hstart, ?_, t, t', hread, hread', ?_, hrecords.summary hrecords'⟩
  · intro answer hanswer
    exact (List.mem_append.1 hanswer).elim (hanswers answer) (hanswers' answer)
  · rw [hrecords.timeline, hrecords'.timeline]
    exact ⟨_, rfl, rfl⟩

/-- The first of these events fills a region of the least size. -/
def longSpan : List Op :=
  [.spanBegin (List.replicate 255 65) (List.replicate 255 66) 5, .spanEnd 9, .name .process [67]]

/-- A buffer of that size writes two chunks and a larger one, which is also told to flush, three. -/
theorem run_longSpan :
    Unit.isAccepted .one ∧
      ∃ b b', Buffer.new (.filled minRegionSize 0) 7 1 = .ok b ∧
        Buffer.new (.filled 600 0) 7 1 = .ok b' ∧
        longSpan.filter (· ≠ .flush) = (longSpan.intersperse .flush).filter (· ≠ .flush) ∧
        ∃ sink, Sink.start .one Memory.empty = .ok sink ∧
          let outcome := Recorder.run b sink (recording longSpan)
          let outcome' := Recorder.run b' sink (recording (longSpan.intersperse .flush))
          ∃ t t', (Reader.ofBytes outcome.2.2.destination.contents).readAll = .ok t ∧
            (Reader.ofBytes outcome'.2.2.destination.contents).readAll = .ok t' ∧
            t.chunks.length = 2 ∧ t'.chunks.length = 3 ∧
            (∃ text, (Timeline.ofTrace t).map Timeline.json = .ok text ∧
              (Timeline.ofTrace t').map Timeline.json = .ok text) ∧
            ∃ s s', Summary.ofTrace t = .ok s ∧ Summary.ofTrace t' = .ok s' ∧
              s.processNames = s'.processNames := by
  have hunit : Unit.isAccepted .one := by decide
  have hnew : Buffer.new (.filled minRegionSize 0) 7 1 =
      .ok ⟨.filled minRegionSize 0, chunkHeaderSize, 7, 1, 0, false⟩ := rfl
  have hnew' : Buffer.new (.filled 600 0) 7 1 =
      .ok ⟨.filled 600 0, chunkHeaderSize, 7, 1, 0, false⟩ := rfl
  have hops : longSpan.filter (· ≠ .flush) = (longSpan.intersperse .flush).filter (· ≠ .flush) := by
    decide +kernel
  obtain ⟨sink, hstart, -, t, t', hread, hread', hjson, s, s', hs, hs', -, hnames, -⟩ :=
    run_of_same_events hunit hnew hnew' hops
  refine ⟨hunit, _, _, hnew, hnew', hops, sink, hstart, t, t', hread, hread', ?_, ?_, hjson, s, s',
    hs, hs', hnames⟩
  · obtain rfl := Except.ok.inj hstart
    refine Option.some.inj ((congrArg (·.toOption.map (·.chunks.length)) hread).symm.trans ?_)
    decide +kernel
  · obtain rfl := Except.ok.inj hstart
    refine Option.some.inj ((congrArg (·.toOption.map (·.chunks.length)) hread').symm.trans ?_)
    decide +kernel

end Buffer

end ThreadTrace
