import ThreadTrace.Proofs.Capture.Progress
import ThreadTrace.Proofs.Stream.Reader
import Mathlib.Logic.Function.Basic

/-!
# ThreadTrace.Proofs.Capture.Session — many buffers on one sink

A `Session` is a shared sink in memory, which may begin and cease to fail; `run` takes actions in
any order and writes down what each was answered.  `Faithful` ties what is in memory, what is waiting
and what was accepted together.  Every action keeps it (`Faithful.step`), and so `readAll_run` holds
of every state that a session can get into: the stream reads back as a trace, and with what is
waiting each buffer's chunks have its accepted events, all of them, once, and in order.
-/

namespace ThreadTrace

open Wire

/-- The events in the chunks of one process and thread, in stream order. -/
def Trace.eventsOf (t : Trace) (owner : UInt32 × UInt32) : List (Except DecodeError Event) :=
  (t.chunks.filter (·.owner = owner)).flatMap Chunk.events

namespace Trace

variable {header : StreamHeader} {cs : List Chunk} {owner : UInt32 × UInt32}

theorem eventsOf_append (t : Trace) (cs : List Chunk) (owner : UInt32 × UInt32) :
    (Trace.mk t.header (t.chunks ++ cs)).eventsOf owner =
      t.eventsOf owner ++ (Trace.mk t.header cs).eventsOf owner := by
  simp [eventsOf]

theorem eventsOf_of_owner (h : ∀ c ∈ cs, c.owner = owner) :
    (Trace.mk header cs).eventsOf owner = cs.flatMap Chunk.events := by
  rw [eventsOf, List.filter_eq_self.2 (by simpa using h)]

theorem eventsOf_of_owner_ne (h : ∀ c ∈ cs, c.owner ≠ owner) :
    (Trace.mk header cs).eventsOf owner = [] := by
  rw [eventsOf, List.filter_eq_nil_iff.2 (by simpa using h), List.flatMap_nil]

end Trace

/-- A sink in memory and the buffers that write to it. -/
abbrev Session (ι : Type) := Shared ι Memory

/-- What can happen in a session: what is requested while the sink is shared, but that only buffers
write to it, and the memory beginning or ceasing to fail. -/
inductive Action (ι : Type) where
  | perform (i : ι) (op : Buffer.Op)
  | quit (i : ι)
  | setFailing (failing : Bool)
  | quitSink

/-- The answer to an action; there is none where there is no buffer. -/
abbrev Reply := Option Recorder.Answer

namespace Session

variable {ι : Type}

section Runs

variable [DecidableEq ι]

def step (s : Session ι) : Action ι → Reply × Session ι
  | .perform i op => Shared.step s (.perform i op)
  | .quit i => Shared.step s (.quit i)
  | .setFailing failing => (some (.done (.ok ())), { s with sink.destination.failing := failing })
  | .quitSink => Shared.step s (.sink .quit)

/-- The actions with their answers, and the state after the last. -/
def run (s : Session ι) : List (Action ι) → List (Action ι × Reply) × Session ι
  | [] => ([], s)
  | action :: actions =>
    let (reply, s) := s.step action
    let (history, s) := s.run actions
    ((action, reply) :: history, s)

/-- The event that a buffer accepted in an action. -/
def acceptedBy (i : ι) : Action ι × Reply → List Event
  | (.perform j op, some (.done result)) => if j = i then op.accepted result else []
  | _ => []

/-- The events that a buffer accepted, in call order. -/
def accepted (i : ι) (history : List (Action ι × Reply)) : List Event :=
  history.flatMap (acceptedBy i)

end Runs

/-! ### The invariant -/

/-- Each buffer's chunks and what it has waiting have the events of its log. -/
structure Faithful (unit : Binary64) (owner : ι → UInt32 × UInt32) (log : ι → List Event)
    (s : Session ι) : Prop where
  sound : ∀ {i b}, s.buffers i = some b → b.Sound ∧ b.owner = owner i
  unit_eq : s.sink.unit = unit
  stream : ∃ t : Trace, s.sink.destination.contents = t.toBytes ∧ t.Framed ∧ t.header = ⟨unit⟩ ∧
    (∀ c ∈ t.chunks, ∃ i, c.owner = owner i) ∧
    ∀ i, t.eventsOf (owner i) ++ decodeEvents (s.pending i) = (log i).map .ok

variable {unit : Binary64} {owner : ι → UInt32 × UInt32} {log : ι → List Event} {s : Session ι}
variable {i : ι} {b b' : Buffer}

namespace Faithful

/-- What is waiting can be read, as it was accepted. -/
theorem clean (h : Faithful unit owner log s) (hb : s.buffers i = some b) : Clean b.pending := by
  obtain ⟨t, -, -, -, -, hevents⟩ := h.stream
  intro item hitem
  rw [← Shared.pending_of_some hb] at hitem
  have hlog : item ∈ (log i).map .ok := by
    rw [← hevents i]
    exact List.mem_append_right _ hitem
  obtain ⟨e, -, rfl⟩ := List.mem_map.1 hlog
  exact ⟨e, rfl⟩

/-- Only the bytes in memory count. -/
theorem of_contents (h : Faithful unit owner log s) {sink : Sink Memory}
    (hunit : sink.unit = s.sink.unit)
    (hcontents : sink.destination.contents = s.sink.destination.contents) :
    Faithful unit owner log { s with sink } where
  sound := h.sound
  unit_eq := hunit.trans h.unit_eq
  stream := by
    rw [hcontents]
    exact h.stream

section Actions

variable [DecidableEq ι]

/-- An empty buffer can go. -/
theorem remove (h : Faithful unit owner log s) (hb : s.buffers i = some b)
    (hempty : b.pending = []) : Faithful unit owner log (s.put i none s.sink) where
  sound hj := by
    obtain ⟨-, hnone⟩ | ⟨-, hj⟩ := Shared.update_cases hj
    · cases hnone
    · exact h.sound hj
  unit_eq := h.unit_eq
  stream := by
    obtain ⟨t, hcontents, hframed, hheader, howners, hevents⟩ := h.stream
    refine ⟨t, hcontents, hframed, hheader, howners, fun j => ?_⟩
    rw [← hevents j]
    by_cases hij : j = i
    · subst hij
      rw [Shared.pending_put_self, Shared.pending_of_some hb, hempty, Option.elim_none]
    · rw [Shared.pending_put_of_ne hij]

/-- What one buffer's request does to the whole session. -/
theorem progress (h : Faithful unit owner log s) (howner : Function.Injective owner)
    (hb : s.buffers i = some b) {sink : Sink Memory} {events : List Event}
    (hp : b.Progress s.sink b' sink events) :
    Faithful unit owner (fun j => log j ++ if i = j then events else [])
      (s.put i (some b') sink) where
  sound hj := by
    obtain ⟨rfl, hsome⟩ | ⟨-, hj⟩ := Shared.update_cases hj
    · obtain rfl := Option.some.inj hsome
      exact ⟨hp.sound, hp.owner_eq.trans (h.sound hb).2⟩
    · exact h.sound hj
  unit_eq := hp.unit_eq.trans h.unit_eq
  stream := by
    obtain ⟨t, hcontents, hframed, hheader, howners, hevents⟩ := h.stream
    obtain ⟨cs, hwritten, hcs, hdelivered⟩ := hp.delivered
    have hcsowner : ∀ c ∈ cs, c.owner = owner i := fun c hc => (hcs c hc).2.trans (h.sound hb).2
    refine ⟨⟨t.header, t.chunks ++ cs⟩, ?_, ?_, hheader, ?_, fun j => ?_⟩
    · show sink.destination.contents = _
      rw [hwritten, hcontents]
      simp [Trace.toBytes]
    · intro c hc
      exact (List.mem_append.1 hc).elim (hframed c) fun hc => (hcs c hc).1
    · intro c hc
      exact (List.mem_append.1 hc).elim (howners c) fun hc => ⟨i, hcsowner c hc⟩
    · rw [Trace.eventsOf_append]
      by_cases hij : i = j
      · subst hij
        rw [if_pos rfl, Trace.eventsOf_of_owner hcsowner, Shared.pending_put_self, Option.elim_some,
          List.append_assoc, hdelivered, ← List.append_assoc, ← Shared.pending_of_some hb, hevents,
          List.map_append]
      · -- the chunks of one buffer are not another's
        have hne : ∀ c ∈ cs, c.owner ≠ owner j := by
          intro c hc hj
          exact hij (howner ((hcsowner c hc).symm.trans hj))
        rw [if_neg hij, Trace.eventsOf_of_owner_ne hne, Shared.pending_put_of_ne (Ne.symm hij),
          List.append_nil, List.append_nil, hevents]

theorem perform (h : Faithful unit owner log s) (howner : Function.Injective owner) (i : ι)
    (op : Buffer.Op) :
    Faithful unit owner (fun j => log j ++ acceptedBy j (.perform i op, (s.step (.perform i op)).1))
      (s.step (.perform i op)).2 := by
  cases hb : s.buffers i with
  | none =>
    simp only [step, Shared.step_perform_of_none hb, acceptedBy, List.append_nil]
    exact h
  | some b =>
    have hp := Buffer.perform_progress (h.sound hb).1 (h.clean hb) s.sink op
    simp only [step, Shared.step_perform hb]
    exact h.progress howner hb hp

theorem quit (h : Faithful unit owner log s) (howner : Function.Injective owner) (i : ι) :
    Faithful unit owner log (s.step (.quit i)).2 := by
  cases hb : s.buffers i with
  | none =>
    simp only [step, Shared.step_quit_of_none hb]
    exact h
  | some b =>
    have hsound := (h.sound hb).1
    have hp := h.progress howner hb (Buffer.flush_progress hsound (h.clean hb) s.sink)
    simp only [ite_self, List.append_nil] at hp
    simp only [step, Shared.step_quit hb, Buffer.perform]
    rcases hflush : b.flush s.sink with ⟨_ | _, b', sink⟩
    · rw [hflush] at hp
      exact hp
    · have hempty := Buffer.pending_flush hsound (s := s.sink) (by rw [hflush])
      rw [hflush] at hp hempty
      have hremoved := hp.remove (i := i) (b := b') (Function.update_self ..) hempty
      rwa [Shared.put_put] at hremoved

/-- Every action keeps what is known; what a buffer accepts is added to its log. -/
theorem step (h : Faithful unit owner log s) (howner : Function.Injective owner)
    (action : Action ι) :
    Faithful unit owner (fun i => log i ++ acceptedBy i (action, (s.step action).1))
      (s.step action).2 := by
  cases action with
  | perform i op => exact h.perform howner i op
  | quit i =>
    simp only [acceptedBy, List.append_nil]
    exact h.quit howner i
  | setFailing failing =>
    simp only [acceptedBy, List.append_nil]
    exact h.of_contents rfl rfl
  | quitSink =>
    simp only [acceptedBy, List.append_nil]
    exact h.of_contents (Sink.unit_quit _) (Sink.contents_quit _)

theorem run (h : Faithful unit owner log s) (howner : Function.Injective owner)
    (actions : List (Action ι)) :
    Faithful unit owner (fun i => log i ++ accepted i (s.run actions).1) (s.run actions).2 := by
  induction actions generalizing s log with
  | nil =>
    simp only [Session.run, accepted, List.flatMap_nil, List.append_nil]
    exact h
  | cons action actions ih =>
    have hnext := ih (h.step howner action)
    simp only [List.append_assoc] at hnext
    exact hnext

end Actions

end Faithful

/-! ### What can be read back -/

theorem faithful_start {unit : Binary64} {owner : ι → UInt32 × UInt32} {regions : ι → Region}
    {buffers : ι → Buffer} (hunit : Unit.isAccepted unit)
    (hnew : ∀ i, Buffer.new (regions i) (owner i).1 (owner i).2 = .ok (buffers i)) :
    ∃ sink, Sink.start unit Memory.empty = .ok sink ∧
      Faithful unit owner (fun _ => []) ⟨sink, fun i => some (buffers i)⟩ := by
  refine ⟨_, if_pos hunit, ?_, rfl, ⟨⟨unit⟩, []⟩, ?_, ?_, rfl, ?_, fun i => ?_⟩
  · intro i b hb
    obtain rfl := Option.some.inj hb
    obtain ⟨hbuffer, hsound⟩ := Buffer.new_eq_ok (hnew i)
    refine ⟨hsound, ?_⟩
    rw [hbuffer]
    rfl
  · simp [Trace.toBytes, Memory.contents, Memory.empty]
  · exact fun c hc => absurd hc List.not_mem_nil
  · exact fun c hc => absurd hc List.not_mem_nil
  · have hempty : (buffers i).pending = [] := by
      rw [(Buffer.new_eq_ok (hnew i)).1]
      exact Buffer.pending_of_isEmpty rfl
    rw [Shared.pending_of_some rfl, hempty]
    simp [Trace.eventsOf, decodeEvents]

/-- **Nothing accepted is lost, and nothing else is there.**  In every state of a session the stream
reads back, each chunk is one buffer's, and for each buffer the events of its chunks and those
waiting are the events that it accepted. -/
theorem readAll_run [DecidableEq ι] {unit : Binary64} {owner : ι → UInt32 × UInt32}
    {regions : ι → Region} {buffers : ι → Buffer} (hunit : Unit.isAccepted unit)
    (howner : Function.Injective owner)
    (hnew : ∀ i, Buffer.new (regions i) (owner i).1 (owner i).2 = .ok (buffers i)) :
    ∃ sink, Sink.start unit Memory.empty = .ok sink ∧ ∀ actions,
      let outcome := run ⟨sink, fun i => some (buffers i)⟩ actions
      ∃ t, (Reader.ofBytes outcome.2.sink.destination.contents).readAll = .ok t ∧
        t.header.unit = unit ∧ outcome.2.sink.unit = unit ∧
        (∀ c ∈ t.chunks,
          (∃ i, c.owner = owner i) ∧ c.payload.length = c.header.payloadSize.toNat) ∧
        ∀ i, t.eventsOf (owner i) ++ decodeEvents (outcome.2.pending i) =
          (accepted i outcome.1).map .ok := by
  obtain ⟨sink, hstart, hfaithful⟩ := faithful_start hunit hnew
  refine ⟨sink, hstart, fun actions => ?_⟩
  have h := hfaithful.run howner actions
  obtain ⟨t, hcontents, hframed, hheader, howners, hevents⟩ := h.stream
  refine ⟨t, ?_, ?_, h.unit_eq, fun c hc => ⟨howners c hc, hframed c hc⟩, hevents⟩
  · exact Reader.readAll_of_toBytes (Source.ofBytes_sound _) hcontents hframed
  · rw [hheader]

/-- Two threads of one process. -/
def threadOf (i : Bool) : UInt32 × UInt32 := (7, cond i 2 1)

/-- Their buffers, with room for one long event. -/
def threadBuffer (i : Bool) : Buffer :=
  ⟨.filled minRegionSize 0, chunkHeaderSize, 7, cond i 2 1, 0, false⟩

/-- An event is refused as its buffer is full and cannot be written; the next one is not.  Then a
buffer is handed back, and the sink quits before the other is empty. -/
def outage : List (Action Bool) :=
  [.perform false (.spanBegin (List.replicate 300 65) (List.replicate 255 66) 5),
    .setFailing true, .perform false (.spanEnd 6), .setFailing false, .perform false (.spanEnd 7),
    .perform true (.name .thread [67]), .quit true, .quitSink, .perform false .flush]

theorem readAll_outage :
    Unit.isAccepted .one ∧ Function.Injective threadOf ∧
      (∀ i, Buffer.new (.filled minRegionSize 0) (threadOf i).1 (threadOf i).2 =
        .ok (threadBuffer i)) ∧
      ∃ sink, Sink.start .one Memory.empty = .ok sink ∧
        let outcome := run ⟨sink, fun i => some (threadBuffer i)⟩ outage
        accepted false outcome.1 =
            [.spanBegin 5 (List.replicate 255 65) (List.replicate 255 66), .spanEnd 7] ∧
          ∃ t, (Reader.ofBytes outcome.2.sink.destination.contents).readAll = .ok t ∧
            ∀ i, t.eventsOf (threadOf i) ++ decodeEvents (outcome.2.pending i) =
              (accepted i outcome.1).map .ok := by
  have hunit : Unit.isAccepted .one := by decide
  have hdistinct : ∀ i j, threadOf i = threadOf j → i = j := by decide
  have howner : Function.Injective threadOf := fun _ _ h => hdistinct _ _ h
  have hnew : ∀ i, Buffer.new (.filled minRegionSize 0) (threadOf i).1 (threadOf i).2 =
      .ok (threadBuffer i) := fun _ => rfl
  obtain ⟨sink, hstart, hruns⟩ := readAll_run hunit howner hnew
  obtain ⟨t, hread, -, -, -, hevents⟩ := hruns outage
  refine ⟨hunit, howner, hnew, sink, hstart, ?_, t, hread, hevents⟩
  have hsink : Sink.start .one Memory.empty =
      .ok ⟨.one, ⟨[(StreamHeader.mk .one).toBytes], 0, 0, false, false⟩, true⟩ := rfl
  obtain rfl := Except.ok.inj (hsink.symm.trans hstart)
  decide +kernel

end Session

end ThreadTrace
