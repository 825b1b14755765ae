import ThreadTrace.Proofs.Capture.Buffer
import ThreadTrace.Proofs.Capture.Lifecycle
import ThreadTrace.Proofs.Capture.Tracer
import Mathlib.Logic.Function.Basic

/-!
# ThreadTrace.Proofs.Capture.Shared — buffers on one sink, of any kind

A `Shared` sink is one that buffers write to and that is also asked directly.  What is requested of
it comes down to at most one request to the sink, its `demand`, and to what is made of the sink's
answer, `after`, where the kind of destination plays no part (`Shared.step_eq`).  So two sinks that
give the same answers make the same of the buffers, and `accepted` is what they took.
-/

namespace ThreadTrace

open Wire

/-- The destination could not do what it was asked for. -/
def CaptureError.isIo : CaptureError → Bool
  | io _ => true
  | _ => false

/-- The answer says that the destination failed. -/
def Recorder.Answer.failed (answer : Recorder.Answer) : Bool :=
  answer.error?.any CaptureError.isIo

/-! ### What a buffer asks of a sink -/

namespace Sink

variable {δ : Type} [Destination δ]

/-- Ask the sink, if there is something to ask it for. -/
def attempt (s : Sink δ) : Option Op → Except CaptureError Unit × Sink δ
  | none => (.ok (), s)
  | some op => s.perform op

/-- The bytes that a sink takes when it gives this answer. -/
def Op.taken : Op → Except CaptureError Unit → List (List UInt8)
  | write bs, .ok () => [bs]
  | _, _ => []

end Sink

namespace Buffer

variable {b : Buffer}

/-- Whether a request can be met without the sink. -/
def settles (b : Buffer) (op : Op) : Bool :=
  match op.record? with
  | some record => b.head + record.size ≤ b.region.size
  | none => b.isEmpty

/-- What has to be asked of the sink before a request can be met. -/
def demand (b : Buffer) (op : Op) : Option Sink.Op :=
  if b.settles op then none else some (.write b.chunk.toBytes)

/-- The buffer when a request can be met. -/
def ready (b : Buffer) (op : Op) : Buffer := if b.settles op then b else b.emptied

/-- The buffer after a request, if the sink gave this answer. -/
def after (b : Buffer) (op : Op) : Except CaptureError Unit → Buffer
  | .ok () =>
    match op.record? with
    | some record => (b.ready op).stored record op.ticks?
    | none => b.ready op
  | .error _ => b.stamped

variable {op : Op} {record : Record}

theorem Op.eq_flush (hop : op.record? = none) : op = .flush := by
  cases op with
  | flush => rfl
  | spanBegin | spanEnd | name => cases hop

theorem settles_iff (hop : op.record? = some record) :
    b.settles op = true ↔ b.head + record.size ≤ b.region.size := by
  simp only [settles, hop, decide_eq_true_eq]

theorem settles_flush (b : Buffer) : b.settles .flush = b.isEmpty := rfl

/-- A request to a buffer is a request to the sink, or none, and what the buffer makes of the
answer. -/
theorem perform_eq_after {δ : Type} [Destination δ] (hb : b.Sound) (op : Op) (s : Sink δ) :
    b.perform s op =
      ((s.attempt (b.demand op)).1, b.after op (s.attempt (b.demand op)).1,
        (s.attempt (b.demand op)).2) := by
  cases hop : op.record? with
  | none =>
    obtain rfl := Op.eq_flush hop
    show b.flush s = _
    rw [flush_eq hb]
    by_cases hempty : b.isEmpty = true
    · rw [if_pos hempty]
      simp only [demand, ready, after, settles_flush, hempty, if_true, Sink.attempt, hop]
    · rw [if_neg hempty]
      rcases hwrite : s.write b.chunk.toBytes with ⟨_ | ⟨⟨⟩⟩, s'⟩ <;>
        simp only [demand, ready, after, settles_flush, hempty, Bool.false_eq_true, if_false,
          Sink.attempt, Sink.perform, hwrite, hop]
  | some record =>
    rw [perform_eq hop, append_eq hb s (Op.size_le hop)]
    by_cases hsettles : b.settles op = true
    · rw [if_pos ((settles_iff hop).1 hsettles)]
      simp only [demand, ready, after, hsettles, if_true, Sink.attempt, hop]
    · rw [if_neg (mt (settles_iff hop).2 hsettles)]
      rcases hwrite : s.write b.chunk.toBytes with ⟨_ | ⟨⟨⟩⟩, s'⟩ <;>
        simp only [demand, ready, after, hsettles, Bool.false_eq_true, if_false, Sink.attempt,
          Sink.perform, hwrite, hop]

theorem ready_sound (hb : b.Sound) (op : Op) : (b.ready op).Sound := by
  unfold ready
  split
  · exact hb
  · exact emptied_sound hb

theorem ready_fits (hb : b.Sound) (hop : op.record? = some record) :
    (b.ready op).head + record.size ≤ (b.ready op).region.size := by
  by_cases hsettles : b.settles op = true
  · rw [ready, if_pos hsettles]
    exact (settles_iff hop).1 hsettles
  · rw [ready, if_neg hsettles]
    exact emptied_fits hb (Op.size_le hop)

theorem after_sound (hb : b.Sound) (op : Op) (result : Except CaptureError Unit) :
    (b.after op result).Sound := by
  rcases result with e | ⟨⟨⟩⟩
  · exact stamped_sound hb
  · have hready := ready_sound hb op
    cases hop : op.record? with
    | none => simpa only [after, hop] using hready
    | some record => simpa only [after, hop] using stored_sound hready (ready_fits hb hop)

theorem size_ready (hb : b.Sound) (op : Op) : (b.ready op).region.size = b.region.size := by
  unfold ready
  split
  · rfl
  · exact size_stamped hb

theorem size_after (hb : b.Sound) (op : Op) (result : Except CaptureError Unit) :
    (b.after op result).region.size = b.region.size := by
  rcases result with e | ⟨⟨⟩⟩
  · exact size_stamped hb
  · cases hop : op.record? with
    | none => simpa only [after, hop] using size_ready hb op
    | some record =>
      have hstored : ((b.ready op).stored record op.ticks?).region.size = b.region.size :=
        (Region.size_write? (write?_record _ (ready_fits hb hop))).trans (size_ready hb op)
      simpa only [after, hop] using hstored

@[simp] theorem owner_after (b : Buffer) (op : Op) (result : Except CaptureError Unit) :
    (b.after op result).owner = b.owner := by
  rcases result with e | ⟨⟨⟩⟩
  · rfl
  · cases hop : op.record? <;> cases hsettles : b.settles op <;>
      simp [after, ready, hop, hsettles]

/-- Only a buffer that holds something needs the sink. -/
theorem isEmpty_of_not_settles (hb : b.Sound) (h : b.settles op = false) :
    b.isEmpty = false := by
  cases hop : op.record? with
  | none =>
    obtain rfl := Op.eq_flush hop
    exact h
  | some record =>
    refine isEmpty_of_not_fits hb (Op.size_le hop) fun hfit => ?_
    rw [(settles_iff hop).2 hfit] at h
    cases h

theorem perform_of_settles {δ : Type} [Destination δ] (hb : b.Sound) (h : b.settles op = true)
    (s : Sink δ) : b.perform s op = (.ok (), b.after op (.ok ()), s) := by
  have hdemand : b.demand op = none := if_pos h
  rw [perform_eq_after hb, hdemand]
  rfl

theorem perform_of_not_settles {δ : Type} [Destination δ] (hb : b.Sound)
    (h : b.settles op = false) (s : Sink δ) :
    b.perform s op =
      ((s.write b.chunk.toBytes).1, b.after op (s.write b.chunk.toBytes).1,
        (s.write b.chunk.toBytes).2) := by
  have hdemand : b.demand op = some (.write b.chunk.toBytes) := by
    rw [demand, h]
    rfl
  rw [perform_eq_after hb, hdemand]
  rfl

/-- To quit is to flush and to hand the region back. -/
theorem quit_eq {δ : Type} [Destination δ] (b : Buffer) (s : Sink δ) :
    b.quit s =
      ((b.perform s .flush).1.map fun _ => (b.perform s .flush).2.1.region,
        (b.perform s .flush).2) := by
  have hflush : b.perform s .flush = b.flush s := rfl
  rw [hflush, quit]
  rcases b.flush s with ⟨_ | ⟨⟨⟩⟩, b', s'⟩ <;> rfl

theorem snd_quit {δ : Type} [Destination δ] (b : Buffer) (s : Sink δ) :
    (b.quit s).2 = (b.perform s .flush).2 := congrArg Prod.snd (b.quit_eq s)

end Buffer

/-! ### Buffers on one sink -/

/-- A sink and the buffers that write to it. -/
structure Shared (ι δ : Type) where
  sink : Sink δ
  /-- A buffer whose region was handed back is gone. -/
  buffers : ι → Option Buffer

namespace Shared

/-- What can be requested while a sink is shared. -/
inductive Request (ι : Type) where
  | perform (i : ι) (op : Buffer.Op)
  | quit (i : ι)
  /-- Asked of the sink, and not by a buffer. -/
  | sink (op : Sink.Op)

variable {ι δ : Type}

/-- What a buffer has not written yet. -/
def pending (s : Shared ι δ) (i : ι) : List UInt8 := (s.buffers i).elim [] Buffer.pending

/-- What a request asks of the sink. -/
def demand (s : Shared ι δ) : Request ι → Option Sink.Op
  | .perform i op => (s.buffers i).bind (·.demand op)
  | .quit i => (s.buffers i).bind (·.demand .flush)
  | .sink op => some op

/-- Every buffer that is there was accepted once. -/
def AllSound (buffers : ι → Option Buffer) : Prop := ∀ i b, buffers i = some b → b.Sound

variable {s : Shared ι δ} {i j : ι} {b : Buffer}

theorem pending_of_some (hb : s.buffers i = some b) : s.pending i = b.pending := by
  rw [pending, hb, Option.elim_some]

variable [DecidableEq ι]

/-- What is there after something was asked of a buffer. -/
def put (s : Shared ι δ) (i : ι) (slot : Option Buffer) (sink : Sink δ) : Shared ι δ :=
  ⟨sink, Function.update s.buffers i slot⟩

section Put

variable {slot : Option Buffer} {sink : Sink δ}

/-- A buffer that is there after one slot was filled anew. -/
theorem update_cases {buffers : ι → Option Buffer}
    (h : Function.update buffers i slot j = some b) :
    j = i ∧ slot = some b ∨ j ≠ i ∧ buffers j = some b := by
  by_cases hj : j = i
  · subst hj
    rw [Function.update_self] at h
    exact .inl ⟨rfl, h⟩
  · rw [Function.update_of_ne hj] at h
    exact .inr ⟨hj, h⟩

@[simp] theorem pending_put_self (s : Shared ι δ) (i : ι) (slot : Option Buffer) (sink : Sink δ) :
    (s.put i slot sink).pending i = slot.elim [] Buffer.pending := by
  simp only [pending, put, Function.update_self]

theorem pending_put_of_ne (h : j ≠ i) : (s.put i slot sink).pending j = s.pending j := by
  simp only [pending, put, Function.update_of_ne h]

theorem put_put (s : Shared ι δ) (i : ι) (slot₁ slot₂ : Option Buffer) (sink₁ sink₂ : Sink δ) :
    (s.put i slot₁ sink₁).put i slot₂ sink₂ = s.put i slot₂ sink₂ := by
  simp only [put, Function.update_idem]

theorem put_self (h : s.buffers i = slot) : s.put i slot s.sink = s := by
  subst h
  simp only [put, Function.update_eq_self]

theorem AllSound.update {buffers : ι → Option Buffer} (h : AllSound buffers) (i : ι)
    (hslot : ∀ b, slot = some b → b.Sound) : AllSound (Function.update buffers i slot) := by
  intro j b hb
  rcases update_cases hb with ⟨-, hb⟩ | ⟨-, hb⟩
  · exact hslot b hb
  · exact h j b hb

theorem AllSound.put (h : AllSound s.buffers) (hslot : ∀ b, slot = some b → b.Sound) :
    AllSound (s.put i slot sink).buffers := h.update i hslot

end Put

variable [Destination δ]

/-- The answer to a request; there is none where there is no buffer. -/
def step (s : Shared ι δ) : Request ι → Option Recorder.Answer × Shared ι δ
  | .perform i op =>
    match s.buffers i with
    | none => (none, s)
    | some b =>
      let (result, b, sink) := b.perform s.sink op
      (some (.done result), s.put i (some b) sink)
  | .quit i =>
    match s.buffers i with
    | none => (none, s)
    | some b =>
      match b.quit s.sink with
      | (.ok region, _, sink) => (some (.handed (.ok region)), s.put i none sink)
      | (.error e, b, sink) => (some (.handed (.error e)), s.put i (some b) sink)
  | .sink op =>
    let (result, sink) := s.sink.perform op
    (some (.done result), { s with sink })

theorem step_perform_of_none (hb : s.buffers i = none) (op : Buffer.Op) :
    s.step (.perform i op) = (none, s) := by
  simp only [step, hb]

theorem step_perform (hb : s.buffers i = some b) (op : Buffer.Op) :
    s.step (.perform i op) =
      (some (.done (b.perform s.sink op).1),
        s.put i (some (b.perform s.sink op).2.1) (b.perform s.sink op).2.2) := by
  simp only [step, hb]

theorem step_quit_of_none (hb : s.buffers i = none) : s.step (.quit i) = (none, s) := by
  simp only [step, hb]

/-- A buffer is gone when it has nothing left to write, and stays otherwise. -/
theorem step_quit (hb : s.buffers i = some b) :
    s.step (.quit i) =
      match b.perform s.sink .flush with
      | (.ok (), b, sink) => (some (.handed (.ok b.region)), s.put i none sink)
      | (.error e, b, sink) => (some (.handed (.error e)), s.put i (some b) sink) := by
  simp only [step, hb, Buffer.quit_eq]
  rcases b.perform s.sink .flush with ⟨_ | ⟨⟨⟩⟩, b', sink⟩ <;> rfl

/-- The answer to a request, if the sink gave this one, and the buffers then. -/
def after (buffers : ι → Option Buffer) (request : Request ι) (result : Except CaptureError Unit) :
    Option Recorder.Answer × (ι → Option Buffer) :=
  match request with
  | .perform i op =>
    match buffers i with
    | none => (none, buffers)
    | some b => (some (.done result), Function.update buffers i (some (b.after op result)))
  | .quit i =>
    match buffers i, result with
    | none, _ => (none, buffers)
    | some b, .ok () =>
      (some (.handed (.ok (b.after .flush result).region)), Function.update buffers i none)
    | some b, .error e =>
      (some (.handed (.error e)), Function.update buffers i (some (b.after .flush result)))
  | .sink _ => (some (.done result), buffers)

/-- **What the sink answers decides what comes of a request.** -/
theorem step_eq (hs : AllSound s.buffers) (request : Request ι) :
    s.step request =
      ((after s.buffers request (s.sink.attempt (s.demand request)).1).1,
        ⟨(s.sink.attempt (s.demand request)).2,
          (after s.buffers request (s.sink.attempt (s.demand request)).1).2⟩) := by
  cases request with
  | perform i op =>
    cases hb : s.buffers i with
    | none =>
      rw [step_perform_of_none hb]
      simp only [demand, after, hb, Option.bind_none, Sink.attempt]
    | some b =>
      rw [step_perform hb, Buffer.perform_eq_after (hs i b hb)]
      simp only [demand, after, hb, Option.bind_some, put]
  | quit i =>
    cases hb : s.buffers i with
    | none =>
      rw [step_quit_of_none hb]
      simp only [demand, after, hb, Option.bind_none, Sink.attempt]
    | some b =>
      rw [step_quit hb, Buffer.perform_eq_after (hs i b hb)]
      simp only [demand, after, hb, Option.bind_some]
      rcases (s.sink.attempt (b.demand .flush)).1 with e | ⟨⟨⟩⟩ <;> rfl
  | sink op => rfl

/-- Whatever the sink answers, the buffers that are left are sound. -/
theorem AllSound.after {buffers : ι → Option Buffer} (h : AllSound buffers) (request : Request ι)
    (result : Except CaptureError Unit) : AllSound (after buffers request result).2 := by
  have hasked : ∀ {i b} (op : Buffer.Op), buffers i = some b →
      ∀ b', some (b.after op result) = some b' → b'.Sound := by
    rintro i b op hb _ ⟨⟩
    exact Buffer.after_sound (h i b hb) op result
  cases request with
  | perform i op =>
    cases hb : buffers i with
    | none => simpa only [Shared.after, hb] using h
    | some b => simpa only [Shared.after, hb] using h.update i (hasked op hb)
  | quit i =>
    cases hb : buffers i with
    | none => simpa only [Shared.after, hb] using h
    | some b =>
      rcases result with e | ⟨⟨⟩⟩
      · simpa only [Shared.after, hb] using h.update i (hasked .flush hb)
      · have hgone : ∀ b', none = some b' → Buffer.Sound b' := by rintro _ ⟨⟩
        simpa only [Shared.after, hb] using h.update i hgone
  | sink op => exact h

/-- The answers in order, and what became of the sink and the buffers. -/
def run (s : Shared ι δ) : List (Request ι) → List (Option Recorder.Answer) × Shared ι δ
  | [] => ([], s)
  | request :: requests =>
    let (answer, s) := s.step request
    let (answers, s) := s.run requests
    (answer :: answers, s)

/-- A request fails if what it asks of the sink does, and not otherwise. -/
theorem failed_step {s : Shared ι δ} (hs : AllSound s.buffers) (request : Request ι) :
    (s.step request).1.any Recorder.Answer.failed =
      Recorder.Answer.failed (.done (s.sink.attempt (s.demand request)).1) := by
  rw [step_eq hs]
  cases request with
  | perform i op =>
    cases hb : s.buffers i with
    | none =>
      simp only [demand, Shared.after, hb, Option.bind_none, Sink.attempt]
      rfl
    | some b => simp only [Shared.after, hb, Option.any_some]
  | quit i =>
    cases hb : s.buffers i with
    | none =>
      simp only [demand, Shared.after, hb, Option.bind_none, Sink.attempt]
      rfl
    | some b =>
      rcases (s.sink.attempt (s.demand (.quit i))).1 with e | ⟨⟨⟩⟩ <;>
        simp only [Shared.after, hb] <;> rfl
  | sink op => rfl

/-- What the sink takes of a request. -/
def taken (s : Shared ι δ) (request : Request ι) : List (List UInt8) :=
  (s.demand request).elim [] fun op => op.taken (s.sink.perform op).1

/-- All that the sink takes in a run, in order. -/
def accepted (s : Shared ι δ) : List (Request ι) → List (List UInt8)
  | [] => []
  | request :: requests => s.taken request ++ (s.step request).2.accepted requests

theorem run_concat (s : Shared ι δ) (requests : List (Request ι)) (request : Request ι) :
    s.run (requests ++ [request]) =
      ((s.run requests).1 ++ [((s.run requests).2.step request).1],
        ((s.run requests).2.step request).2) := by
  induction requests generalizing s with
  | nil => rfl
  | cons first requests ih => simp only [List.cons_append, run, ih]

end Shared

end ThreadTrace
