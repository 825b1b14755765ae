import ThreadTrace.Proofs.Capture.Chunks

/-!
# ThreadTrace.Proofs.Capture.Bounds — no request fails for lack of room

A sound buffer is `InBounds`: the chunk header, the chunk and the next record lie in the region, and
the numbers that a request works with fit their words (`Sound.inBounds`).  So a request fails only
if the sink does not take a chunk that has to be written first (`perform_eq_error`), and it changes
no byte at or behind the heads before and after it (`get?_perform`).  Steps keep this, whatever
happens to the sink between them, and `run_inBounds` has it for every buffer that is reached.
-/

namespace ThreadTrace

open Wire

/-- The sink does not take these bytes, and this is why: it has been closed, or its destination
failed. -/
def Sink.Refuses {δ : Type} [Destination δ] (s : Sink δ) (bs : List UInt8) (e : CaptureError) :
    Prop :=
  s.isOpen = false ∧ e = .sinkClosed ∨
    s.isOpen = true ∧
      ∃ failure, (Destination.write s.destination bs).1 = .error failure ∧ e = .io failure

theorem Sink.write_eq_error_iff {δ : Type} [Destination δ] {s : Sink δ} {bs : List UInt8}
    {e : CaptureError} : (s.write bs).1 = .error e ↔ s.Refuses bs e := by
  cases hopen : s.isOpen with
  | false => simp [write, ask, Refuses, hopen, eq_comm]
  | true =>
    rw [write, ask_of_isOpen hopen, Refuses, hopen]
    rcases (Destination.write s.destination bs).1 with failure | ⟨⟨⟩⟩ <;>
      simp [Outcome.reply, eq_comm]

theorem Sink.Refuses.sinkClosed_or_io {δ : Type} [Destination δ] {s : Sink δ} {bs : List UInt8}
    {e : CaptureError} (h : s.Refuses bs e) : e = .sinkClosed ∨ ∃ failure, e = .io failure := by
  obtain ⟨-, he⟩ | ⟨-, failure, -, he⟩ := h
  · exact .inl he
  · exact .inr ⟨failure, he⟩

namespace Buffer

/-! ### Sizes -/

/-- The size that a request makes room for, told from its fields before they are cut. -/
def Op.size : Op → Nat
  | spanBegin text args _ => beginSize text.length args.length
  | spanEnd _ => endSize
  | name _ text => nameSize text.length
  | flush => 0

variable {b : Buffer} {op : Op} {record : Record}

/-- It is the size of what is stored. -/
theorem Op.size_eq (hop : op.record? = some record) : op.size = record.size := by
  cases op with
  | spanBegin text args ticks =>
    obtain rfl := Option.some.inj hop
    exact (Record.size_spanBegin _ _ _).symm
  | spanEnd ticks =>
    obtain rfl := Option.some.inj hop
    rfl
  | name kind text =>
    obtain rfl := Option.some.inj hop
    exact (Record.size_naming _ _).symm
  | flush => cases hop

theorem Op.size_le_max (op : Op) : op.size ≤ maxBeginSize := by
  cases hop : op.record? with
  | none =>
    obtain rfl := Op.eq_flush hop
    exact Nat.zero_le _
  | some record =>
    rw [Op.size_eq hop]
    exact Op.size_le hop

/-- The places that a request uses are in the region, and the numbers that it works with fit their
words. -/
structure InBounds (b : Buffer) : Prop where
  head_ge : chunkHeaderSize ≤ b.head
  head_le : b.head ≤ b.region.size
  /-- Where the next event would end is not far behind the region. -/
  end_le : ∀ op : Op, b.head + op.size ≤ b.region.size + maxBeginSize
  end_lt : ∀ op : Op, b.head + op.size < UInt64.size
  /-- The chunk header gives the size of what is waiting as it is. -/
  payloadSize_eq : b.chunkHeader.payloadSize.toNat = b.head - chunkHeaderSize
  header : (b.region.write? 0 b.chunkHeader.toBytes).isSome
  /-- A chunk is written from everything up to the head. -/
  chunk : (b.stamped.region.first b.head).length = b.head
  /-- An event is stored in the place that was made for it, and fills it. -/
  record : ∀ (op : Op) (record : Record), op.record? = some record →
    ∃ r, record.store (b.ready op).region (b.ready op).head = some (r, op.size)

theorem Sound.inBounds (hb : b.Sound) : b.InBounds where
  head_ge := hb.head_ge
  head_le := hb.head_le
  end_le op := Nat.add_le_add hb.head_le op.size_le_max
  end_lt op := by
    have hsize := op.size_le_max
    have hlt := hb.size_lt
    have hle := hb.head_le
    simp only [maxBeginSize, beginHeaderSize, maxField, chunkHeaderSize, UInt32.size,
      UInt64.size] at *
    omega
  payloadSize_eq := UInt32.toNat_ofNat_of_lt' (length_lt hb)
  header := by
    rw [write?_chunkHeader hb]
    rfl
  chunk := by
    rw [Region.length_first, size_stamped hb, Nat.min_eq_left hb.head_le]
  record op record hop := by
    rw [Record.store_eq, write?_record none (ready_fits hb hop), Op.size_eq hop]
    exact ⟨_, rfl⟩

/-! ### One request -/

variable {δ : Type} [Destination δ] {s : Sink δ} {e : CaptureError}

theorem perform_sound (hb : b.Sound) (s : Sink δ) (op : Op) :
    (b.perform s op).2.1.Sound ∧ (b.perform s op).2.1.region.size = b.region.size := by
  rw [perform_eq_after hb]
  exact ⟨after_sound hb op _, size_after hb op _⟩

/-- A request fails only if a chunk has to be written first and the sink does not take it. -/
theorem perform_eq_error (hb : b.Sound) (h : (b.perform s op).1 = .error e) :
    b.settles op = false ∧ s.Refuses b.chunk.toBytes e := by
  cases hsettles : b.settles op with
  | true =>
    rw [perform_of_settles hb hsettles] at h
    cases h
  | false =>
    rw [perform_of_not_settles hb hsettles] at h
    exact ⟨rfl, Sink.write_eq_error_iff.1 h⟩

theorem quit_eq_error (hb : b.Sound) (h : (b.quit s).1 = .error e) :
    b.isEmpty = false ∧ s.Refuses b.chunk.toBytes e := by
  rw [quit_eq] at h
  cases hflush : (b.perform s .flush).1 with
  | error e' =>
    rw [hflush] at h
    obtain rfl : e' = e := Except.error.inj h
    exact perform_eq_error hb hflush
  | ok =>
    rw [hflush] at h
    cases h

/-! ### Bytes behind the head -/

/-- The chunk header is in front of every head. -/
theorem get?_stamped_of_le (hb : b.Sound) {i : Nat} (hi : b.head ≤ i) :
    b.stamped.region.get? i = b.region.get? i := by
  have hge := hb.head_ge
  rw [get?_stamped hb, if_neg (by omega)]

theorem get?_ready_of_le (hb : b.Sound) (op : Op) {i : Nat} (hi : b.head ≤ i) :
    (b.ready op).region.get? i = b.region.get? i := by
  unfold ready
  split
  · rfl
  · exact get?_stamped_of_le hb hi

theorem get?_after_of_le (hb : b.Sound) (op : Op) (result : Except CaptureError Unit) {i : Nat}
    (hi : b.head ≤ i) (hi' : (b.after op result).head ≤ i) :
    (b.after op result).region.get? i = b.region.get? i := by
  rcases result with e | ⟨⟨⟩⟩
  · exact get?_stamped_of_le hb hi
  · have hready := get?_ready_of_le hb op hi
    cases hop : op.record? with
    | none => simpa only [after, hop] using hready
    | some record =>
      simp only [after, hop] at hi' ⊢
      have hend : (b.ready op).head + record.size ≤ i := hi'
      rw [get?_stored (ready_fits hb hop), if_neg (by omega), hready]

/-- A request changes nothing at or behind the heads before and after it. -/
theorem get?_perform_of_le (hb : b.Sound) (s : Sink δ) (op : Op) {i : Nat} (hi : b.head ≤ i)
    (hi' : (b.perform s op).2.1.head ≤ i) :
    (b.perform s op).2.1.region.get? i = b.region.get? i := by
  rw [perform_eq_after hb] at hi' ⊢
  exact get?_after_of_le hb op _ hi hi'

/-! ### Runs -/

open Recorder

variable {m : Nat} {region : Region}

/-- A sound buffer whose region has the size of this one, and its bytes from `m` on. -/
structure Within (m : Nat) (region : Region) (b : Buffer) : Prop where
  sound : b.Sound
  size_eq : b.region.size = region.size
  get?_eq : ∀ i, m ≤ i → b.region.get? i = region.get? i

/-- An answer has no error but the sink's, and a region that it hands back has the size of this one,
and its bytes from `m` on. -/
structure Proper (m : Nat) (region : Region) (answer : Answer) : Prop where
  error : ∀ e, answer.error? = some e → e = .sinkClosed ∨ ∃ failure, e = .io failure
  handed : ∀ r, answer = .handed (.ok r) →
    r.size = region.size ∧ ∀ i, m ≤ i → r.get? i = region.get? i

theorem Within.perform (h : Within m region b) (s : Sink δ) (op : Op) (hm : b.head ≤ m)
    (hm' : (b.perform s op).2.1.head ≤ m) : Within m region (b.perform s op).2.1 where
  sound := (perform_sound h.sound s op).1
  size_eq := (perform_sound h.sound s op).2.trans h.size_eq
  get?_eq i hi := by
    rw [get?_perform_of_le h.sound s op (Nat.le_trans hm hi) (Nat.le_trans hm' hi), h.get?_eq i hi]

theorem proper_done (hb : b.Sound) (s : Sink δ) (op : Op) :
    Proper m region (.done (b.perform s op).1) where
  error e he := by
    cases hresult : (b.perform s op).1 with
    | error e' =>
      rw [hresult] at he
      obtain rfl : e' = e := Option.some.inj he
      exact (perform_eq_error hb hresult).2.sinkClosed_or_io
    | ok =>
      rw [hresult] at he
      cases he
  handed _ hr := by cases hr

/-- What is handed back is the region of the buffer that was flushed. -/
theorem Within.proper_handed (hb : b.Sound) (h : Within m region (b.perform s .flush).2.1) :
    Proper m region (.handed (b.quit s).1) where
  error e he := by
    cases hresult : (b.quit s).1 with
    | error e' =>
      rw [hresult] at he
      obtain rfl : e' = e := Option.some.inj he
      exact (quit_eq_error hb hresult).2.sinkClosed_or_io
    | ok =>
      rw [hresult] at he
      cases he
  handed r hr := by
    have hquit : (b.quit s).1 = .ok r := Answer.handed.inj hr
    rw [quit_eq] at hquit
    cases hflush : (b.perform s .flush).1 with
    | error =>
      rw [hflush] at hquit
      cases hquit
    | ok =>
      rw [hflush] at hquit
      obtain rfl := Except.ok.inj hquit
      exact ⟨h.size_eq, h.get?_eq⟩

/-- A step leaves the buffer to itself or asks it for something. -/
theorem buffer_step (b : Buffer) (s : Sink δ) (step : Step Op δ) :
    (Recorder.run b s [step]).2.1 = b ∨
      ∃ op, (Recorder.run b s [step]).2.1 = (b.perform s op).2.1 := by
  cases step with
  | perform op => exact .inr ⟨op, rfl⟩
  | quit => exact .inr ⟨.flush, congrArg Prod.fst (b.snd_quit s)⟩
  | outside change => exact .inl rfl

/-- A sound buffer stays sound, and its region keeps its size. -/
theorem run_sound (hb : b.Sound) (s : Sink δ) (steps : List (Step Op δ)) :
    (Recorder.run b s steps).2.1.Sound ∧
      (Recorder.run b s steps).2.1.region.size = b.region.size := by
  induction steps generalizing b s with
  | nil => exact ⟨hb, rfl⟩
  | cons step steps ih =>
    have hfirst : (Recorder.run b s [step]).2.1.Sound ∧
        (Recorder.run b s [step]).2.1.region.size = b.region.size := by
      obtain hleft | ⟨op, hasked⟩ := buffer_step b s step
      · rw [hleft]
        exact ⟨hb, rfl⟩
      · rw [hasked]
        exact perform_sound hb s op
    rw [run_cons]
    obtain ⟨hlast, hsize⟩ := ih hfirst.1 (Recorder.run b s [step]).2.2
    exact ⟨hlast, hsize.trans hfirst.2⟩

/-- One step of a run, if the head is not beyond `m` before and after it. -/
theorem Within.step (h : Within m region b) (s : Sink δ) (step : Step Op δ) (hm : b.head ≤ m)
    (hm' : (Recorder.run b s [step]).2.1.head ≤ m) :
    Within m region (Recorder.run b s [step]).2.1 := by
  obtain hleft | ⟨op, hasked⟩ := buffer_step b s step
  · rw [hleft]
    exact h
  · rw [hasked] at hm' ⊢
    exact h.perform s op hm hm'

theorem Within.proper_step {step : Step Op δ}
    (h : Within m region (Recorder.run b s [step]).2.1) (hb : b.Sound) :
    ∀ answer ∈ (Recorder.run b s [step]).1, Proper m region answer := by
  intro answer hanswer
  cases step with
  | perform op =>
    obtain rfl := List.mem_singleton.1 hanswer
    exact proper_done hb s op
  | quit =>
    obtain rfl := List.mem_singleton.1 hanswer
    refine Within.proper_handed hb ?_
    rw [← snd_quit]
    exact h
  | outside change => exact absurd hanswer List.not_mem_nil

/-- A run in which no head is beyond `m`. -/
theorem Within.run (h : Within m region b) (s : Sink δ) (steps : List (Step Op δ))
    (hm : ∀ n, (Recorder.run b s (steps.take n)).2.1.head ≤ m) :
    Within m region (Recorder.run b s steps).2.1 ∧
      ∀ answer ∈ (Recorder.run b s steps).1, Proper m region answer := by
  induction steps generalizing b s with
  | nil => exact ⟨h, fun answer hanswer => absurd hanswer List.not_mem_nil⟩
  | cons step steps ih =>
    have hfirst := h.step s step (hm 0) (hm 1)
    have hrest := ih hfirst (Recorder.run b s [step]).2.2 fun n => by
      have hhead := hm (n + 1)
      rwa [List.take_succ_cons, run_cons] at hhead
    rw [run_cons]
    refine ⟨hrest.1, fun answer hanswer => ?_⟩
    obtain hanswer | hanswer := List.mem_append.1 hanswer
    · exact hfirst.proper_step h.sound answer hanswer
    · exact hrest.2 answer hanswer

/-- **No request fails for lack of room.**  A region is accepted if it has 541 bytes and not more
behind a chunk header than 32 bits can count.  Whatever is then asked of the buffer and happens to
the sink, it stays in bounds, and its only errors are the sink's for a chunk that had to be written.
The region keeps its size and, from the furthest head on, its bytes. -/
theorem run_inBounds (region : Region) (process thread : UInt32) :
    ((∃ b, Buffer.new region process thread = .ok b) ↔
      541 ≤ region.size ∧ region.size - 20 ≤ 2 ^ 32 - 1) ∧
    ∀ b, Buffer.new region process thread = .ok b →
      ∀ (s : Sink δ) (steps : List (Step Op δ)),
        let ran := Recorder.run b s steps
        let reached := ran.2.1
        reached.InBounds ∧ reached.region.size = region.size ∧
        (∀ answer ∈ ran.1, ∀ e, answer.error? = some e →
          e = .sinkClosed ∨ ∃ failure, e = .io failure) ∧
        (∀ (s : Sink δ) op e, (reached.perform s op).1 = .error e →
          reached.settles op = false ∧ s.Refuses reached.chunk.toBytes e) ∧
        (∀ (s : Sink δ) e, (reached.quit s).1 = .error e →
          reached.isEmpty = false ∧ s.Refuses reached.chunk.toBytes e) ∧
        ∀ m, (∀ n, (Recorder.run b s (steps.take n)).2.1.head ≤ m) →
          (∀ i, m ≤ i → reached.region.get? i = region.get? i) ∧
          ∀ r, .handed (.ok r) ∈ ran.1 →
            r.size = region.size ∧ ∀ i, m ≤ i → r.get? i = region.get? i := by
  refine ⟨?_, fun b hnew s steps => ?_⟩
  · rw [exists_new_iff]
    simp only [minRegionSize, maxBeginSize, beginHeaderSize, maxField, chunkHeaderSize,
      UInt32.size]
    omega
  · obtain ⟨rfl, hsound⟩ := new_eq_ok hnew
    intro ran reached
    obtain ⟨hreached, hsize⟩ := run_sound hsound s steps
    have hstart : ∀ m, Within m region ⟨region, chunkHeaderSize, process, thread, 0, false⟩ :=
      fun m => ⟨hsound, rfl, fun _ _ => rfl⟩
    -- no head is beyond the end of the region
    have hanswers := (hstart region.size).run s steps fun n => by
      obtain ⟨hsound', hsize'⟩ := run_sound hsound s (steps.take n)
      exact Nat.le_trans hsound'.head_le (Nat.le_of_eq hsize')
    refine ⟨hreached.inBounds, hsize, fun answer hanswer => (hanswers.2 answer hanswer).error,
      fun _ _ _ => perform_eq_error hreached, fun _ _ => quit_eq_error hreached, fun m hm => ?_⟩
    obtain ⟨hwithin, hproper⟩ := (hstart m).run s steps hm
    exact ⟨hwithin.get?_eq, fun r hr => (hproper _ hr).handed r rfl⟩

/-- A long event that finds no room while writing fails, between others that do. -/
def crampedSteps : List (Step Op Memory) :=
  let failing (on : Bool) (s : Sink Memory) : Sink Memory :=
    { s with destination := { s.destination with failing := on } }
  let long : Op := .spanBegin (List.replicate 300 65) (List.replicate 300 66) 5
  [.perform (.name .thread [67]), .perform long, .outside (failing true), .perform long, .quit,
    .outside (failing false), .perform (.spanEnd 6), .quit]

/-- The head gets as far as 553, and the bytes from there on stay 9. -/
theorem run_inBounds_cramped :
    let region := Region.filled 600 9
    let b : Buffer := ⟨region, chunkHeaderSize, 7, 1, 0, false⟩
    let s : Sink Memory := ⟨.one, .empty, true⟩
    let ran := Recorder.run b s crampedSteps
    Buffer.new region 7 1 = .ok b ∧
      (∀ n, (Recorder.run b s (crampedSteps.take n)).2.1.head ≤ 553) ∧
      ran.1.map Answer.error? =
        [none, none, some (.io (.custom "injected write failure")),
          some (.io (.custom "injected write failure")), none, none] ∧
      ran.2.1.InBounds ∧
      (∀ i, 553 ≤ i → ran.2.1.region.get? i = region.get? i) ∧
      ∀ r, .handed (.ok r) ∈ ran.1 → r.size = 600 ∧ r.get? 599 = some 9 := by
  intro region b s
  have hnew : Buffer.new region 7 1 = .ok b := rfl
  have hheads : ∀ n, (Recorder.run b s (crampedSteps.take n)).2.1.head ≤ 553 := by
    have hfront : ∀ n < 8, (Recorder.run b s (crampedSteps.take n)).2.1.head ≤ 553 := by
      decide +kernel
    have hend : (Recorder.run b s crampedSteps).2.1.head ≤ 553 := by decide +kernel
    intro n
    obtain hn | hn := Nat.lt_or_ge n 8
    · exact hfront n hn
    · rw [List.take_of_length_le (show crampedSteps.length ≤ n from hn)]
      exact hend
  have herrors : (Recorder.run b s crampedSteps).1.map Answer.error? =
      [none, none, some (.io (.custom "injected write failure")),
        some (.io (.custom "injected write failure")), none, none] := by
    decide +kernel
  obtain ⟨hinBounds, -, -, -, -, hbytes⟩ := (run_inBounds region 7 1).2 b hnew s crampedSteps
  obtain ⟨hreached, hregions⟩ := hbytes 553 hheads
  refine ⟨hnew, hheads, herrors, hinBounds, hreached, fun r hr => ?_⟩
  obtain ⟨hsize, hlast⟩ := hregions r hr
  exact ⟨hsize, hlast 599 (by decide)⟩

end Buffer

end ThreadTrace
