import ThreadTrace.Proofs.Capture.Session

/-!
# ThreadTrace.Proofs.Capture.Refusal — what was refused might as well not have been asked

`Buffer.Alike` is what the rest of a session can see of a buffer: all but the place of the chunk
header, which is written anew before it counts.  A refused request moves a buffer to one that is
alike and leaves the sink as it was, and alike buffers answer alike.  By induction on the actions
the refused ones can be left out (`transcript_without_refused`).
-/

namespace ThreadTrace

open Wire

namespace Buffer

/-- The buffers differ at most in the place of the chunk header, and not even there when they are
empty. -/
structure Alike (b b' : Buffer) : Prop where
  head_eq : b'.head = b.head
  process_eq : b'.process = b.process
  thread_eq : b'.thread = b.thread
  firstTicks_eq : b'.firstTicks = b.firstTicks
  timed_eq : b'.timed = b.timed
  size_eq : b'.region.size = b.region.size
  byte_eq : ∀ {i}, chunkHeaderSize ≤ i ∨ b.isEmpty → b'.region.get? i = b.region.get? i

variable {b b' : Buffer} {record : Record} {ticks : Option UInt64}

namespace Alike

protected theorem rfl : b.Alike b where
  head_eq := rfl
  process_eq := rfl
  thread_eq := rfl
  firstTicks_eq := rfl
  timed_eq := rfl
  size_eq := rfl
  byte_eq _ := rfl

theorem isEmpty_eq (h : b.Alike b') : b'.isEmpty = b.isEmpty := by
  rw [isEmpty, isEmpty, h.head_eq]

theorem sound (h : b.Alike b') (hb : b.Sound) : b'.Sound := by
  refine hb.of_size_eq h.size_eq ?_ ?_
  · rw [h.head_eq]
    exact hb.head_ge
  · rw [h.head_eq]
    exact hb.head_le

theorem pending_eq (h : b.Alike b') : b'.pending = b.pending := by
  rw [pending, pending, h.head_eq]
  exact Region.drop_first_congr h.size_eq (fun i hi => h.byte_eq (.inl hi)) b.head

theorem chunkHeader_eq (h : b.Alike b') : b'.chunkHeader = b.chunkHeader := by
  have hlength : b'.length = b.length := by rw [length, length, h.head_eq]
  simp only [chunkHeader, hlength, h.process_eq, h.thread_eq, h.firstTicks_eq]

/-- Alike buffers become the same chunk. -/
theorem chunk_eq (h : b.Alike b') : b'.chunk = b.chunk := by
  rw [chunk, chunk, h.chunkHeader_eq, h.pending_eq]

/-- The header of a chunk that could not be written makes no difference. -/
theorem stamped_left (h : b.Alike b') (hb : b.Sound) (hne : b.isEmpty = false) :
    b.stamped.Alike b' where
  head_eq := h.head_eq
  process_eq := h.process_eq
  thread_eq := h.thread_eq
  firstTicks_eq := h.firstTicks_eq
  timed_eq := h.timed_eq
  size_eq := h.size_eq.trans (size_stamped hb).symm
  byte_eq {i} hi := by
    have hempty : b.stamped.isEmpty = false := hne
    have hbehind : chunkHeaderSize ≤ i := by simpa [hempty] using hi
    rw [get?_stamped hb, if_neg (Nat.not_lt_of_le hbehind)]
    exact h.byte_eq (.inl hbehind)

/-- After a chunk was written its header is in both regions, and so they are the same. -/
theorem emptied (h : b.Alike b') (hb : b.Sound) : b.emptied.Alike b'.emptied where
  head_eq := rfl
  process_eq := h.process_eq
  thread_eq := h.thread_eq
  firstTicks_eq := h.firstTicks_eq
  timed_eq := rfl
  size_eq := (size_stamped (h.sound hb)).trans (h.size_eq.trans (size_stamped hb).symm)
  byte_eq {i} _ := by
    show b'.stamped.region.get? i = b.stamped.region.get? i
    rw [get?_stamped hb, get?_stamped (h.sound hb), h.chunkHeader_eq]
    by_cases hi : i < chunkHeaderSize
    · rw [if_pos hi, if_pos hi]
    · rw [if_neg hi, if_neg hi, h.byte_eq (.inl (Nat.le_of_not_lt hi))]

theorem stored (h : b.Alike b') (hb : b.Sound) (hfit : b.head + record.size ≤ b.region.size)
    (ticks : Option UInt64) : (b.stored record ticks).Alike (b'.stored record ticks) := by
  have hfit' : b'.head + record.size ≤ b'.region.size := by rwa [h.head_eq, h.size_eq]
  have hsize : (b.stored record ticks).region.size = b.region.size :=
    Region.size_write? (write?_record ticks hfit)
  have hsize' : (b'.stored record ticks).region.size = b'.region.size :=
    Region.size_write? (write?_record ticks hfit')
  refine ⟨congrArg (· + record.size) h.head_eq, h.process_eq, h.thread_eq, ?_,
    congrArg (· || ticks.isSome) h.timed_eq, ?_, fun {i} hi => ?_⟩
  · simp only [Buffer.stored, h.timed_eq, h.firstTicks_eq]
  · rw [hsize, hsize', h.size_eq]
  · -- a buffer that is empty with the record in it was empty before
    have hseen : chunkHeaderSize ≤ i ∨ b.isEmpty := by
      refine hi.imp_right fun hempty => ?_
      have hge := hb.head_ge
      have hhead : b.head + record.size = chunkHeaderSize := by
        simpa [isEmpty, Buffer.stored] using hempty
      rw [isEmpty, beq_iff_eq]
      omega
    rw [get?_stored hfit, get?_stored hfit', h.head_eq, h.byte_eq hseen]

theorem settles_eq (h : b.Alike b') (op : Op) : b'.settles op = b.settles op := by
  rw [settles, settles, h.head_eq, h.size_eq, h.isEmpty_eq]

/-- Alike buffers take a request alike. -/
theorem after (h : b.Alike b') (hb : b.Sound) (op : Op) :
    (b.after op (.ok ())).Alike (b'.after op (.ok ())) := by
  have hready : (b.ready op).Alike (b'.ready op) := by
    rw [ready, ready, h.settles_eq]
    by_cases hsettles : b.settles op = true
    · rw [if_pos hsettles, if_pos hsettles]
      exact h
    · rw [if_neg hsettles, if_neg hsettles]
      exact h.emptied hb
  cases hop : op.record? with
  | none => simpa only [Buffer.after, hop] using hready
  | some record =>
    have hstored := hready.stored (ready_sound hb op) (ready_fits hb hop) op.ticks?
    simpa only [Buffer.after, hop] using hstored

end Alike

/-! ### One request -/

/-- What one request came to for a buffer `b` and a buffer `b'` alike, on one sink: it was refused
to `b`, which is still alike, or both took it. -/
inductive Alongside (s : Sink Memory) (b' : Buffer) :
    (asked asked' : Except CaptureError Unit × Buffer × Sink Memory) → Prop
  | refused {e b₁ asked'} (halike : b₁.Alike b') (hsound : b₁.Sound) :
    Alongside s b' (.error e, b₁, s) asked'
  | taken {b₁ b₁' s₁} (halike : b₁.Alike b₁') (hsound : b₁.Sound) :
    Alongside s b' (.ok (), b₁, s₁) (.ok (), b₁', s₁)

theorem perform_alongside (h : b.Alike b') (hb : b.Sound) (s : Sink Memory) (op : Op) :
    Alongside s b' (b.perform s op) (b'.perform s op) := by
  have hsettles' := h.settles_eq op
  have hafter := h.after hb op
  have hsound := after_sound hb op (.ok ())
  cases hsettles : b.settles op with
  | true =>
    rw [perform_of_settles hb hsettles,
      perform_of_settles (h.sound hb) (hsettles'.trans hsettles)]
    exact .taken hafter hsound
  | false =>
    rw [perform_of_not_settles hb hsettles,
      perform_of_not_settles (h.sound hb) (hsettles'.trans hsettles), h.chunk_eq]
    obtain ⟨e, hwrite⟩ | ⟨s₁, hwrite, -⟩ := s.write_memory b.chunk.toBytes
    · rw [hwrite]
      exact .refused (h.stamped_left hb (isEmpty_of_not_settles hb hsettles)) (stamped_sound hb)
    · rw [hwrite]
      exact .taken hafter hsound

/-- Alike buffers that hold nothing have the same bytes. -/
theorem Alike.toList_eq (h : b.Alike b') (hempty : b.isEmpty) :
    b'.region.toList = b.region.toList :=
  Region.toList_congr h.size_eq fun _ => h.byte_eq (.inr hempty)

end Buffer

/-! ### Shared sinks -/

namespace Shared

variable {ι δ : Type}

/-- The same sink, and buffers that are alike. -/
structure Alike (s s' : Shared ι δ) : Prop where
  sink_eq : s'.sink = s.sink
  slots : ∀ i, Option.Rel Buffer.Alike (s.buffers i) (s'.buffers i)

variable {s s' : Shared ι δ} {i : ι} {b b' : Buffer}

theorem Alike.pending_eq (h : s.Alike s') (i : ι) : s'.pending i = s.pending i := by
  have hslot := h.slots i
  simp only [pending]
  generalize s.buffers i = slot, s'.buffers i = slot' at hslot ⊢
  cases hslot with
  | none => rfl
  | some halike => exact halike.pending_eq

theorem Alike.buffers_eq_none (h : s.Alike s') (hb : s.buffers i = none) :
    s'.buffers i = none := by
  have hslot := h.slots i
  rw [hb] at hslot
  cases hb' : s'.buffers i with
  | none => rfl
  | some b' =>
    rw [hb'] at hslot
    cases hslot

theorem Alike.exists_buffer (h : s.Alike s') (hb : s.buffers i = some b) :
    ∃ b', s'.buffers i = some b' ∧ b.Alike b' := by
  have hslot := h.slots i
  rw [hb] at hslot
  cases hb' : s'.buffers i with
  | none =>
    rw [hb'] at hslot
    cases hslot
  | some b' =>
    rw [hb'] at hslot
    cases hslot with
    | some halike => exact ⟨b', rfl, halike⟩

/-- Only the buffers have to be alike if the sink is replaced. -/
theorem Alike.withSink (h : s.Alike s') (sink : Sink δ) :
    Alike { s with sink } { s' with sink } := ⟨rfl, h.slots⟩

variable [DecidableEq ι] {slot slot' : Option Buffer} {sink : Sink δ}

theorem Alike.put (h : s.Alike s') (hslot : Option.Rel Buffer.Alike slot slot') :
    Alike (s.put i slot sink) (s'.put i slot' sink) where
  sink_eq := rfl
  slots j := by
    simp only [Shared.put]
    by_cases hj : j = i
    · subst hj
      rwa [Function.update_self, Function.update_self]
    · rw [Function.update_of_ne hj, Function.update_of_ne hj]
      exact h.slots j

/-- A refused request leaves what is there alike. -/
theorem Alike.put_left (h : s.Alike s') (hb' : s'.buffers i = some b') (hb : b.Alike b') :
    Alike (s.put i (some b) s.sink) s' := by
  have hput : Alike (s.put i (some b) s.sink) (s'.put i (some b') s.sink) := h.put (.some hb)
  rw [← h.sink_eq, put_self hb'] at hput
  rwa [h.sink_eq] at hput

end Shared

/-! ### Sessions -/

namespace Recorder.Answer

/-- What was answered, without the region that was handed back. -/
def result : Answer → Except CaptureError Unit
  | done result => result
  | handed (.ok _) => .ok ()
  | handed (.error e) => .error e

/-- The bytes of the region that was handed back. -/
def region? : Answer → Option (List UInt8)
  | handed (.ok region) => some region.toList
  | _ => none

end Recorder.Answer

/-- What is known of an action when it is over. -/
structure Entry (ι : Type) where
  action : Action ι
  result : Option (Except CaptureError Unit)
  /-- The bytes of the region that was handed back. -/
  region : Option (List UInt8)

/-- A request to a buffer that was answered with an error. -/
def Entry.refused {ι : Type} : Entry ι → Bool
  | ⟨.perform .., some (.error _), _⟩ | ⟨.quit _, some (.error _), _⟩ => true
  | _ => false

namespace Session

variable {ι : Type} [DecidableEq ι] {s s' : Session ι}

def entry (s : Session ι) (action : Action ι) : Entry ι :=
  let answer := (s.step action).1
  ⟨action, answer.map Recorder.Answer.result, answer.bind Recorder.Answer.region?⟩

/-- The entries of the actions, one after another. -/
def transcript (s : Session ι) : List (Action ι) → List (Entry ι)
  | [] => []
  | action :: actions => s.entry action :: (s.step action).2.transcript actions

/-- One action in sessions that are alike. -/
def Alongside (s s' : Session ι) (action : Action ι) : Prop :=
  Shared.AllSound (s.step action).2.buffers ∧
    (((s.entry action).refused = true ∧ (s.step action).2.Alike s') ∨
      ((s.entry action).refused = false ∧ s'.entry action = s.entry action ∧
        (s.step action).2.Alike (s'.step action).2))

/-- Where there is no buffer nothing happens. -/
theorem alongside_of_none (h : s.Alike s') (hs : Shared.AllSound s.buffers) {action : Action ι}
    (hstep : s.step action = (none, s)) (hstep' : s'.step action = (none, s')) :
    s.Alongside s' action := by
  have hentry : s'.entry action = s.entry action := by rw [entry, entry, hstep, hstep']
  have htaken : (s.entry action).refused = false := by
    rw [entry, hstep]
    cases action <;> rfl
  rw [Alongside, hentry, hstep, hstep']
  exact ⟨hs, .inr ⟨htaken, rfl, h⟩⟩

theorem perform_alongside (h : s.Alike s') (hs : Shared.AllSound s.buffers) (i : ι)
    (op : Buffer.Op) : s.Alongside s' (.perform i op) := by
  cases hb : s.buffers i with
  | none =>
    have hb' := h.buffers_eq_none hb
    exact alongside_of_none h hs (Shared.step_perform_of_none hb op)
      (Shared.step_perform_of_none hb' op)
  | some b =>
    obtain ⟨b', hb', halike⟩ := h.exists_buffer hb
    have hside := Buffer.perform_alongside halike (hs i b hb) s.sink op
    simp only [Alongside, entry, step, Shared.step_perform hb, Shared.step_perform hb', h.sink_eq]
    generalize b.perform s.sink op = asked, b'.perform s.sink op = asked' at hside ⊢
    cases hside with
    | refused halike₁ hsound₁ =>
      exact ⟨hs.put (by simpa using hsound₁), .inl ⟨rfl, h.put_left hb' halike₁⟩⟩
    | taken halike₁ hsound₁ =>
      exact ⟨hs.put (by simpa using hsound₁), .inr ⟨rfl, rfl, h.put (.some halike₁)⟩⟩

theorem quit_alongside (h : s.Alike s') (hs : Shared.AllSound s.buffers) (i : ι) :
    s.Alongside s' (.quit i) := by
  cases hb : s.buffers i with
  | none =>
    have hb' := h.buffers_eq_none hb
    exact alongside_of_none h hs (Shared.step_quit_of_none hb) (Shared.step_quit_of_none hb')
  | some b =>
    obtain ⟨b', hb', halike⟩ := h.exists_buffer hb
    have hside := Buffer.perform_alongside halike (hs i b hb) s.sink .flush
    have hempty : (b.perform s.sink .flush).1 = .ok () → (b.perform s.sink .flush).2.1.isEmpty :=
      Buffer.isEmpty_flush (hs i b hb)
    simp only [Alongside, entry, step, Shared.step_quit hb, Shared.step_quit hb', h.sink_eq]
    generalize b.perform s.sink .flush = asked, b'.perform s.sink .flush = asked' at hside hempty ⊢
    cases hside with
    | refused halike₁ hsound₁ =>
      exact ⟨hs.put (by simpa using hsound₁), .inl ⟨rfl, h.put_left hb' halike₁⟩⟩
    | taken halike₁ hsound₁ =>
      -- the regions handed back are the same, as nothing is waiting in them any more
      have hbytes := halike₁.toList_eq (hempty rfl)
      refine ⟨hs.put (by simp), .inr ⟨rfl, ?_, h.put .none⟩⟩
      simp [Recorder.Answer.result, Recorder.Answer.region?, hbytes]

/-- Every action is refused and leaves no trace, or does the same to both sessions. -/
theorem step_alongside (h : s.Alike s') (hs : Shared.AllSound s.buffers) (action : Action ι) :
    s.Alongside s' action := by
  cases action with
  | perform i op => exact perform_alongside h hs i op
  | quit i => exact quit_alongside h hs i
  | setFailing failing =>
    simp only [Alongside, entry, step, h.sink_eq]
    exact ⟨hs, .inr ⟨rfl, trivial, h.withSink _⟩⟩
  | quitSink =>
    simp only [Alongside, entry, step, Shared.step, h.sink_eq]
    exact ⟨hs, .inr ⟨rfl, trivial, h.withSink _⟩⟩

/-- The entries of the actions that were not refused. -/
def kept (s : Session ι) (actions : List (Action ι)) : List (Entry ι) :=
  (s.transcript actions).filter (!·.refused)

theorem run_kept (h : s.Alike s') (hs : Shared.AllSound s.buffers) (actions : List (Action ι)) :
    s'.transcript ((s.kept actions).map Entry.action) = s.kept actions ∧
      (s.run actions).2.Alike (s'.run ((s.kept actions).map Entry.action)).2 := by
  induction actions generalizing s s' with
  | nil => exact ⟨rfl, h⟩
  | cons action actions ih =>
    obtain ⟨hs₁, ⟨hrefused, h₁⟩ | ⟨htaken, hentry, h₁⟩⟩ := step_alongside h hs action
    · have hkept : s.kept (action :: actions) = (s.step action).2.kept actions := by
        simp [kept, transcript, hrefused]
      rw [hkept]
      exact ih h₁ hs₁
    · have hkept : s.kept (action :: actions) =
          s.entry action :: (s.step action).2.kept actions := by
        simp [kept, transcript, htaken]
      obtain ⟨hrest, hlast⟩ := ih h₁ hs₁
      rw [hkept]
      refine ⟨?_, hlast⟩
      show s'.entry action :: (s'.step action).2.transcript _ = _
      rw [hentry, hrest]

/-- **Refused requests can be left out.**  The other actions are answered as before and hand back
the same regions, the sink ends with the same writes, and every buffer that is left is alike: it has
the same events waiting and will write them in the same chunk. -/
theorem transcript_without_refused {owner : ι → UInt32 × UInt32} {regions : ι → Region}
    {buffers : ι → Buffer}
    (hnew : ∀ i, Buffer.new (regions i) (owner i).1 (owner i).2 = .ok (buffers i))
    (sink : Sink Memory) (actions : List (Action ι)) :
    let start : Session ι := ⟨sink, fun i => some (buffers i)⟩
    let kept := (start.transcript actions).filter (!·.refused)
    let without := start.run (kept.map Entry.action)
    start.transcript (kept.map Entry.action) = kept ∧
      without.2.sink = (start.run actions).2.sink ∧
      ∀ i, Option.Rel Buffer.Alike ((start.run actions).2.buffers i) (without.2.buffers i) ∧
        without.2.pending i = (start.run actions).2.pending i := by
  intro start kept without
  have hsound : Shared.AllSound start.buffers := by
    rintro i b ⟨⟩
    exact (Buffer.new_eq_ok (hnew i)).2
  have hself : start.Alike start := ⟨rfl, fun i => .some .rfl⟩
  obtain ⟨htranscript, halike⟩ := run_kept hself hsound actions
  exact ⟨htranscript, halike.sink_eq, fun i => ⟨halike.slots i, halike.pending_eq i⟩⟩

/-- Two of the nine actions are refused: one as the buffer is full and writing fails, and one as the
sink has been closed. -/
theorem transcript_outage :
    (∀ i, Buffer.new (.filled minRegionSize 0) (threadOf i).1 (threadOf i).2 =
        .ok (threadBuffer i)) ∧
      let start : Session Bool := ⟨⟨.one, .empty, true⟩, fun i => some (threadBuffer i)⟩
      let kept := (start.transcript outage).filter (!·.refused)
      outage.length = 9 ∧ kept.length = 7 ∧ start.transcript (kept.map Entry.action) = kept := by
  have hnew : ∀ i, Buffer.new (.filled minRegionSize 0) (threadOf i).1 (threadOf i).2 =
      .ok (threadBuffer i) := fun _ => rfl
  have h := transcript_without_refused hnew ⟨.one, .empty, true⟩ outage
  exact ⟨hnew, rfl, by decide +kernel, h.1⟩

end Session

end ThreadTrace
