import ThreadTrace.Proofs.Stream.Reader

/-!
# ThreadTrace.Proofs.Stream.Delivery — how the bytes come does not matter

A reader `Follows` another if both know the same header and have the same bytes before them, and the
other one's source does not fail.  What is asked of the two is answered alike, or the follower's
source fails in it and the answer says so (`perform_parallel`).  So a source may deliver its bytes
in any pieces and with any pauses, and a failure changes no answer before its own (`run_follows`).
-/

namespace ThreadTrace.Reader

open Wire

/-! ### What a reader is asked -/

/-- What can be asked of a reader. -/
inductive Call where
  | readHeader
  | next
  /-- Up to `n` items of the sequence of chunks. -/
  | chunks (n : Nat)
  /-- The last call, as it takes the reader. -/
  | readAll
  deriving DecidableEq

inductive Answer where
  | header (answer : Except ReadError StreamHeader)
  | chunk (answer : Except ReadError (Option Chunk))
  /-- Fewer items than were asked for when the stream has ended. -/
  | chunks (items : List (Except ReadError Chunk))
  | trace (answer : Except ReadError Trace)
  deriving DecidableEq

/-- Go on with what was read, if it could be read. -/
def andThen {α β : Type} (k : α → Reader → Except ReadError β × Reader) :
    Except ReadError α × Reader → Except ReadError β × Reader
  | (.error e, r) => (.error e, r)
  | (.ok a, r) => k a r

/-- The chunks up to the end of the stream or the first error, and what becomes of the reader. -/
def collect : Nat → Reader → Except ReadError (List Chunk) × Reader
  | 0, r => (.ok [], r)
  | n + 1, r => r.next |> andThen fun
    | none, r => (.ok [], r)
    | some c, r => collect n r |> andThen fun cs r => (.ok (c :: cs), r)

/-- The whole stream, and what becomes of the reader. -/
def consume (r : Reader) : Except ReadError Trace × Reader :=
  r.readHeader |> andThen fun header r =>
    r.collect (r.source.rest.length + 1) |> andThen fun cs r => (.ok ⟨header, cs⟩, r)

theorem andThen_ok {α β : Type} (k : α → Reader → Except ReadError β × Reader) (a : α)
    (r : Reader) : andThen k (.ok a, r) = k a r := rfl

theorem andThen_ok_fst {α β : Type} (f : α → β) (out : Except ReadError α × Reader) :
    (andThen (fun a r => (.ok (f a), r)) out).1 = out.1.map f := by
  rcases out with ⟨_ | _, r⟩ <;> rfl

theorem collect_fst (n : Nat) (r : Reader) :
    (r.collect n).1 = r.chunksWithin (fun _ => false) n := by
  induction n generalizing r with
  | zero => rfl
  | succ n ih =>
    unfold collect chunksWithin
    rcases r.next with ⟨_ | _ | c, r'⟩
    · rfl
    · rfl
    · simp only [andThen_ok, andThen_ok_fst, ih]

/-- The reader that is left does not show in what was read. -/
theorem consume_fst (r : Reader) : r.consume.1 = r.readAll := by
  unfold consume readAll
  rcases r.readHeader with ⟨_ | header, r'⟩
  · rfl
  · simp only [andThen_ok, andThen_ok_fst, collect_fst, chunks]

def perform (r : Reader) : Call → Answer × Reader
  | .readHeader => let (answer, r) := r.readHeader; (.header answer, r)
  | .next => let (answer, r) := r.next; (.chunk answer, r)
  | .chunks n => let (items, r) := items n r; (.chunks items, r)
  | .readAll => (.trace r.readAll, r.consume.2)

/-- The answers in order, and what becomes of the reader. -/
def run (r : Reader) : List Call → List Answer × Reader
  | [] => ([], r)
  | call :: calls =>
    let (answer, r) := r.perform call
    let (answers, r) := r.run calls
    (answer :: answers, r)

theorem run_cons (r : Reader) (call : Call) (calls : List Call) :
    r.run (call :: calls) = ((r.perform call).1 :: ((r.perform call).2.run calls).1,
      ((r.perform call).2.run calls).2) := rfl

/-! ### One request after another -/

/-- What a reader makes of the bytes in the place of the stream header. -/
def takeHeader (bs : List UInt8) (r : Reader) : Except ReadError StreamHeader × Reader :=
  match decodeStreamHeader bs with
  | .ok header => (.ok header, { r with header := some header })
  | .error e => (.error (.decode e), r)

/-- What a reader makes of the bytes behind a chunk header. -/
def takePayload (header : ChunkHeader) (payload : List UInt8) (r : Reader) :
    Except ReadError (Option Chunk) × Reader :=
  if payload.length < header.payloadSize.toNat then
    (.error (.chunkCutShort header.payloadSize.toNat payload.length), r)
  else (.ok (some ⟨header, payload⟩), r)

/-- What a reader makes of the bytes in the place of a chunk header. -/
def takeChunk : List UInt8 → Reader → Except ReadError (Option Chunk) × Reader
  | [], r => (.ok none, r)
  | b :: bs, r =>
    match decodeChunkHeader (b :: bs) with
    | .error e => (.error (.decode e), r)
    | .ok header => r.readPayload header

theorem readHeader_eq {r : Reader} (h : r.header = none) :
    r.readHeader = andThen takeHeader (r.fill streamHeaderSize) := by
  simp only [readHeader, h]
  rcases r.fill streamHeaderSize with ⟨_ | _, r'⟩ <;> rfl

theorem readPayload_eq (header : ChunkHeader) (r : Reader) :
    r.readPayload header = andThen (takePayload header) (r.fill header.payloadSize.toNat) := by
  unfold readPayload
  rcases r.fill header.payloadSize.toNat with ⟨_ | _, r'⟩ <;> rfl

theorem next_eq (r : Reader) :
    r.next = andThen (fun _ r => andThen takeChunk (r.fill chunkHeaderSize)) r.readHeader := by
  unfold next
  rcases r.readHeader with ⟨_ | _, r₁⟩
  · rfl
  · rw [andThen_ok]
    simp only
    rcases r₁.fill chunkHeaderSize with ⟨_ | _ | _, r₂⟩ <;> rfl

/-! ### Two readers -/

/-- The readers know the same header and have the same bytes before them, and `q`'s source does not
fail. -/
structure Follows (r q : Reader) : Prop where
  header_eq : r.header = q.header
  rest_eq : r.source.rest = q.source.rest
  sound : q.source.Sound

/-- What came of a request to a reader `r`, and of the same request to one that it follows. -/
inductive Parallel {α : Type} (r : Reader) :
    Except ReadError α × Reader → Except ReadError α × Reader → Prop
  | same {answer r' q'} (follows : r'.Follows q') (fault_eq : r'.source.fault = r.source.fault) :
    Parallel r (answer, r') (answer, q')
  | failed {position failure r' out} (fault_eq : r.source.fault = some (position, failure))
    (gone : r'.source.fault = none) : Parallel r (.error (.io failure), r') out

variable {r q : Reader}

/-- A reader whose source does not fail follows itself. -/
theorem follows_self (h : r.source.Sound) : r.Follows r := ⟨rfl, rfl, h⟩

namespace Parallel

variable {α β : Type} {out out' : Except ReadError α × Reader}

theorem of_fault_eq {r₀ : Reader} (h : Parallel r out out')
    (hfault : r.source.fault = r₀.source.fault) : Parallel r₀ out out' := by
  cases h with
  | same hfollows hsame => exact .same hfollows (hsame.trans hfault)
  | failed hfailed hgone => exact .failed (hfault.symm.trans hfailed) hgone

/-- It is enough to look at one request after another. -/
theorem andThen {k : α → Reader → Except ReadError β × Reader} (h : Parallel r out out')
    (hk : ∀ a {r' q'}, r'.Follows q' → Parallel r' (k a r') (k a q')) :
    Parallel r (Reader.andThen k out) (Reader.andThen k out') := by
  cases h with
  | failed hfault hgone => exact .failed hfault hgone
  | @same answer r' q' hfollows hfault =>
    cases answer with
    | error e => exact .same hfollows hfault
    | ok a => exact (hk a hfollows).of_fault_eq hfault

end Parallel

theorem fill_parallel (h : r.Follows q) (n : Nat) : Parallel r (r.fill n) (q.fill n) := by
  obtain ⟨q', hq, hrest, hq'⟩ := Source.fill_of_sound h.sound n
  have hr := r.source.fill_filled n
  unfold fill
  rw [hq]
  generalize r.source.fill n = out at hr
  cases hr with
  | bytes hrest' hfault =>
    rw [h.rest_eq] at hrest' ⊢
    exact .same ⟨h.header_eq, hrest'.trans hrest.symm, hq'⟩ hfault
  | failed hfault hgone => exact .failed hfault hgone

theorem takeHeader_parallel (h : r.Follows q) (bs : List UInt8) :
    Parallel r (r.takeHeader bs) (q.takeHeader bs) := by
  unfold takeHeader
  cases decodeStreamHeader bs with
  | error e => exact .same h rfl
  | ok header => exact .same ⟨rfl, h.rest_eq, h.sound⟩ rfl

theorem readHeader_parallel (h : r.Follows q) : Parallel r r.readHeader q.readHeader := by
  cases hheader : q.header with
  | some header =>
    rw [readHeader_of_header hheader, readHeader_of_header (h.header_eq.trans hheader)]
    exact .same h rfl
  | none =>
    rw [readHeader_eq hheader, readHeader_eq (h.header_eq.trans hheader)]
    exact (fill_parallel h _).andThen fun bs _ _ h₁ => takeHeader_parallel h₁ bs

theorem readPayload_parallel (h : r.Follows q) (header : ChunkHeader) :
    Parallel r (r.readPayload header) (q.readPayload header) := by
  rw [readPayload_eq, readPayload_eq]
  refine (fill_parallel h _).andThen fun payload r₁ q₁ h₁ => ?_
  unfold takePayload
  split
  · exact .same h₁ rfl
  · exact .same h₁ rfl

theorem takeChunk_parallel (h : r.Follows q) (bs : List UInt8) :
    Parallel r (r.takeChunk bs) (q.takeChunk bs) := by
  cases bs with
  | nil => exact .same h rfl
  | cons b bs =>
    simp only [takeChunk]
    cases decodeChunkHeader (b :: bs) with
    | error e => exact .same h rfl
    | ok header => exact readPayload_parallel h header

theorem next_parallel (h : r.Follows q) : Parallel r r.next q.next := by
  rw [next_eq, next_eq]
  refine (readHeader_parallel h).andThen fun _ r₁ q₁ h₁ => ?_
  exact (fill_parallel h₁ _).andThen fun bs _ _ h₂ => takeChunk_parallel h₂ bs

theorem collect_parallel (h : r.Follows q) (n : Nat) :
    Parallel r (r.collect n) (q.collect n) := by
  induction n generalizing r q with
  | zero => exact .same h rfl
  | succ n ih =>
    refine (next_parallel h).andThen fun answer r₁ q₁ h₁ => ?_
    cases answer with
    | none => exact .same h₁ rfl
    | some c => exact (ih h₁).andThen fun _ _ _ h₂ => .same h₂ rfl

theorem consume_parallel (h : r.Follows q) : Parallel r r.consume q.consume := by
  refine (readHeader_parallel h).andThen fun header r₁ q₁ h₁ => ?_
  rw [h₁.rest_eq]
  exact (collect_parallel h₁ _).andThen fun _ _ _ h₂ => .same h₂ rfl

/-! ### Calls and runs -/

/-- The answer of a call in which the source failed, in place of the one it would have got.  Items
of the sequence of chunks from before the failure are as they would have been. -/
inductive Answer.FailsFor (failure : IoFailure) : Answer → Answer → Prop
  | header {answer} : FailsFor failure (.header (.error (.io failure))) (.header answer)
  | chunk {answer} : FailsFor failure (.chunk (.error (.io failure))) (.chunk answer)
  | chunks {before behind items} (prefix_of : before <+: items) :
    FailsFor failure (.chunks (before ++ .error (.io failure) :: behind)) (.chunks items)
  | trace {answer} : FailsFor failure (.trace (.error (.io failure))) (.trace answer)

/-- What came of a call to a reader `r`, and of the same call to one that it follows. -/
inductive ParallelCall (r : Reader) : Answer × Reader → Answer × Reader → Prop
  | same {answer r' q'} (follows : r'.Follows q') (fault_eq : r'.source.fault = r.source.fault) :
    ParallelCall r (answer, r') (answer, q')
  | failed {position failure answer answer' r' q'}
    (fault_eq : r.source.fault = some (position, failure)) (gone : r'.source.fault = none)
    (fails : answer.FailsFor failure answer') : ParallelCall r (answer, r') (answer', q')

/-- A call that is one request. -/
theorem Parallel.call {α : Type} {out out' : Except ReadError α × Reader}
    (h : Parallel r out out') {answer : Except ReadError α → Answer}
    (hfails : ∀ failure plain, (answer (.error (.io failure))).FailsFor failure (answer plain)) :
    ParallelCall r (answer out.1, out.2) (answer out'.1, out'.2) := by
  cases h with
  | same hfollows hfault => exact .same hfollows hfault
  | failed hfault hgone => exact .failed hfault hgone (hfails _ _)

namespace ParallelCall

variable {out out' : Answer × Reader}

/-- A source that does not fail, or has failed, does not fail any more. -/
theorem sound (h : ParallelCall r out out') (hr : r.source.Sound) : out.2.source.Sound := by
  cases h with
  | same hfollows hfault => exact hfault.trans hr
  | failed hfault hgone => exact hgone

/-- Both items were the same, and the source has not failed in them. -/
theorem item {r₀ r' q' : Reader} {items items' : List (Except ReadError Chunk)}
    (h : ParallelCall r (.chunks items, r') (.chunks items', q'))
    (hfault : r.source.fault = r₀.source.fault) (c : Except ReadError Chunk) :
    ParallelCall r₀ (.chunks (c :: items), r') (.chunks (c :: items'), q') := by
  cases h with
  | same hfollows hsame => exact .same hfollows (hsame.trans hfault)
  | failed hfailed hgone hfails =>
    cases hfails with
    | chunks hprefix =>
      exact .failed (hfault.symm.trans hfailed) hgone
        (.chunks (List.cons_prefix_cons.2 ⟨rfl, hprefix⟩))

end ParallelCall

theorem items_parallel (h : r.Follows q) (n : Nat) :
    ParallelCall r (.chunks (items n r).1, (items n r).2)
      (.chunks (items n q).1, (items n q).2) := by
  induction n generalizing r q with
  | zero => exact .same h rfl
  | succ n ih =>
    have hnext := next_parallel h
    unfold items
    generalize r.next = out, q.next = out' at hnext
    cases hnext with
    | failed hfault hgone =>
      -- nothing fails any more in the items behind the failure
      have hlast := (ih (follows_self hgone)).sound hgone
      exact .failed hfault hlast (.chunks List.nil_prefix)
    | @same answer r₁ q₁ h₁ hfault =>
      match answer with
      | .ok none => exact .same h₁ hfault
      | .ok (some c) => exact (ih h₁).item hfault (.ok c)
      | .error e => exact (ih h₁).item hfault (.error e)

theorem perform_parallel (h : r.Follows q) (call : Call) :
    ParallelCall r (r.perform call) (q.perform call) := by
  cases call with
  | readHeader => exact (readHeader_parallel h).call fun _ _ => .header
  | next => exact (next_parallel h).call fun _ _ => .chunk
  | chunks n => exact items_parallel h n
  | readAll =>
    show ParallelCall r (.trace r.readAll, r.consume.2) (.trace q.readAll, q.consume.2)
    rw [← consume_fst, ← consume_fst]
    exact (consume_parallel h).call fun _ _ => .trace

theorem sound_perform (h : r.source.Sound) (call : Call) : (r.perform call).2.source.Sound :=
  (perform_parallel (follows_self h) call).sound h

theorem sound_run (h : r.source.Sound) (calls : List Call) : (r.run calls).2.source.Sound := by
  induction calls generalizing r with
  | nil => exact h
  | cons call calls ih => exact ih (sound_perform h call)

/-- The answers are the same, unless the follower's source has failed. -/
theorem run_follows (h : r.Follows q) (calls : List Call) :
    ((r.run calls).1 = (q.run calls).1 ∧ (r.run calls).2.Follows (q.run calls).2 ∧
      (r.run calls).2.source.fault = r.source.fault) ∨
    (r.source.fault ≠ none ∧ (r.run calls).2.source.fault = none) := by
  induction calls generalizing r q with
  | nil => exact .inl ⟨rfl, h, rfl⟩
  | cons call calls ih =>
    have hcall := perform_parallel h call
    rw [run_cons, run_cons]
    generalize r.perform call = out, q.perform call = out' at hcall ⊢
    cases hcall with
    | @same answer r₁ q₁ h₁ hfault₁ =>
      obtain ⟨hanswers, hlast, hfault⟩ | ⟨hsome, hnone⟩ := ih h₁
      · exact .inl ⟨congrArg (answer :: ·) hanswers, hlast, hfault.trans hfault₁⟩
      · exact .inr ⟨hfault₁ ▸ hsome, hnone⟩
    | failed hfault hgone => exact .inr ⟨by simp [hfault], sound_run hgone calls⟩

/-! ### Reading the header again -/

def Answer.isHeader : Answer → Bool
  | header _ => true
  | _ => false

variable {sh : StreamHeader}

theorem header_fill (n : Nat) (r : Reader) : (r.fill n).2.header = r.header := by
  unfold fill
  rcases r.source.fill n with ⟨_ | _, s⟩ <;> rfl

theorem header_andThen {α β : Type} {k : α → Reader → Except ReadError β × Reader}
    {out : Except ReadError α × Reader} (h : out.2.header = some sh)
    (hk : ∀ a {r : Reader}, r.header = some sh → (k a r).2.header = some sh) :
    (andThen k out).2.header = some sh := by
  obtain ⟨answer, r⟩ := out
  cases answer with
  | error e => exact h
  | ok a => exact hk a h

theorem header_readPayload (h : r.header = some sh) (ch : ChunkHeader) :
    (r.readPayload ch).2.header = some sh := by
  rw [readPayload_eq]
  refine header_andThen ((header_fill _ r).trans h) fun payload r₁ h₁ => ?_
  unfold takePayload
  split
  · exact h₁
  · exact h₁

theorem header_takeChunk (h : r.header = some sh) (bs : List UInt8) :
    (r.takeChunk bs).2.header = some sh := by
  cases bs with
  | nil => exact h
  | cons b bs =>
    simp only [takeChunk]
    cases decodeChunkHeader (b :: bs) with
    | error e => exact h
    | ok ch => exact header_readPayload h ch

theorem header_next (h : r.header = some sh) : r.next.2.header = some sh := by
  rw [next_eq, readHeader_of_header h, andThen_ok]
  exact header_andThen ((header_fill _ r).trans h) fun bs _ h₁ => header_takeChunk h₁ bs

theorem header_items (h : r.header = some sh) (n : Nat) : (items n r).2.header = some sh := by
  induction n generalizing r with
  | zero => exact h
  | succ n ih =>
    have hnext := header_next h
    unfold items
    generalize r.next = out at hnext
    rcases out with ⟨_ | _ | c, r₁⟩
    · exact ih hnext
    · exact hnext
    · exact ih hnext

theorem header_collect (h : r.header = some sh) (n : Nat) :
    (r.collect n).2.header = some sh := by
  induction n generalizing r with
  | zero => exact h
  | succ n ih =>
    refine header_andThen (header_next h) fun answer r₁ h₁ => ?_
    cases answer with
    | none => exact h₁
    | some c => exact header_andThen (ih h₁) fun _ _ h₂ => h₂

theorem perform_readHeader_of_header (h : r.header = some sh) :
    r.perform .readHeader = (.header (.ok sh), r) := by
  simp only [perform, readHeader_of_header h]

theorem header_perform (h : r.header = some sh) (call : Call) :
    (r.perform call).2.header = some sh := by
  cases call with
  | readHeader =>
    rw [perform_readHeader_of_header h]
    exact h
  | next => exact header_next h
  | chunks n => exact header_items h n
  | readAll =>
    show r.consume.2.header = some sh
    rw [consume, readHeader_of_header h, andThen_ok]
    exact header_andThen (header_collect h _) fun _ _ h₁ => h₁

theorem isHeader_perform {call : Call} (hcall : call ≠ .readHeader) :
    (r.perform call).1.isHeader = false := by
  cases call with
  | readHeader => exact absurd rfl hcall
  | next | chunks | readAll => rfl

/-- Once the header is known, calls for it are answered with it. -/
theorem header_answers (h : r.header = some sh) (calls : List Call) :
    ∀ answer ∈ (r.run calls).1, answer.isHeader → answer = .header (.ok sh) := by
  induction calls generalizing r with
  | nil => exact fun _ hnone => absurd hnone List.not_mem_nil
  | cons call calls ih =>
    rw [run_cons]
    refine List.forall_mem_cons.2 ⟨fun hisheader => ?_, ih (header_perform h call)⟩
    by_cases hcall : call = .readHeader
    · rw [hcall, perform_readHeader_of_header h]
    · rw [isHeader_perform hcall] at hisheader
      cases hisheader

/-- Once the header is known, calls for it change nothing else. -/
theorem run_of_header (h : r.header = some sh) (calls : List Call) :
    (r.run calls).1.filter (!·.isHeader) = (r.run (calls.filter (· ≠ .readHeader))).1 := by
  induction calls generalizing r with
  | nil => rfl
  | cons call calls ih =>
    have hothers := ih (header_perform h call)
    by_cases hcall : call = .readHeader
    · rw [hcall, perform_readHeader_of_header h] at hothers
      rw [hcall, run_cons, perform_readHeader_of_header h,
        List.filter_cons_of_neg (by simp [Answer.isHeader]), List.filter_cons_of_neg (by simp),
        hothers]
    · have hother := isHeader_perform (r := r) hcall
      rw [List.filter_cons_of_pos (by simpa using hcall), run_cons, run_cons,
        List.filter_cons_of_pos (by simp [hother]), hothers]

/-! ### All sources -/

/-- From now on the source fails once, at this position. -/
def arm (r : Reader) (position : Nat) (failure : IoFailure) : Reader :=
  { r with source.fault := some (position, failure) }

/-- **Readers depend on the bytes of a source and not on how they come.**  All answers are those of
a reader of the bytes at once, and calls for a header that is known change no other.  If the source
fails once, after any calls, the call in which it does says so, and the answers before it are the
same. -/
theorem run_ofSource {s : Source} (hs : s.Sound) :
    (∀ calls, ((ofSource s).run calls).1 = ((ofBytes s.rest).run calls).1) ∧
    (∀ (r : Reader) header, r.header = some header → ∀ calls,
      (r.run calls).1.filter (!·.isHeader) = (r.run (calls.filter (· ≠ .readHeader))).1 ∧
        ∀ answer ∈ (r.run calls).1, answer.isHeader → answer = .header (.ok header)) ∧
    ∀ before position failure calls,
      let plain := ((ofBytes s.rest).run before).2
      let failing := ((ofSource s).run before).2.arm position failure
      let r := (failing.run calls).2
      r.source.fault ≠ none →
        (failing.run calls).1 = (plain.run calls).1 ∧
        ∀ call, (r.perform call).2.source.fault = none →
          (r.perform call).1.FailsFor failure ((plain.run calls).2.perform call).1 := by
  have hstart : (ofSource s).Follows (ofBytes s.rest) := ⟨rfl, rfl, rfl⟩
  have hrun : ∀ calls, ((ofSource s).run calls).1 = ((ofBytes s.rest).run calls).1 ∧
      ((ofSource s).run calls).2.Follows ((ofBytes s.rest).run calls).2 := by
    intro calls
    obtain ⟨hanswers, hfollows, -⟩ | ⟨hsome, -⟩ := run_follows hstart calls
    · exact ⟨hanswers, hfollows⟩
    · exact absurd hs hsome
  refine ⟨fun calls => (hrun calls).1, fun r header h calls =>
    ⟨run_of_header h calls, header_answers h calls⟩, ?_⟩
  intro before position failure calls plain failing r hkept
  have hfailing : failing.Follows plain :=
    ⟨(hrun before).2.header_eq, (hrun before).2.rest_eq, (hrun before).2.sound⟩
  obtain ⟨hanswers, hfollows, hfault⟩ | ⟨-, hnone⟩ := run_follows hfailing calls
  · refine ⟨hanswers, fun call hgone => ?_⟩
    have harmed : r.source.fault = some (position, failure) := hfault
    have hcall : ParallelCall r (r.perform call) ((plain.run calls).2.perform call) :=
      perform_parallel hfollows call
    generalize r.perform call = out, (plain.run calls).2.perform call = out' at hcall hgone
    cases hcall with
    | same _ hsame =>
      rw [hgone, harmed] at hsame
      cases hsame
    | failed hfailed _ hfails =>
      rw [harmed] at hfailed
      cases hfailed
      exact hfails
  · exact absurd hnone hkept

/-- The source fails in the header of the second chunk, after the first has been read. -/
theorem run_pausingSource :
    pausingSource.Sound ∧
      ((ofSource pausingSource).run [.next, .readHeader, .chunks 5]).1 =
        ((ofBytes headerLookalike.toBytes).run [.next, .readHeader, .chunks 5]).1 ∧
      let failing := ((ofSource pausingSource).run [.next]).2.arm 60 (.custom "unplugged")
      let r := (failing.run [.readHeader]).2
      (failing.run [.readHeader]).1 = [.header (.ok headerLookalike.header)] ∧
        r.source.fault ≠ none ∧ (r.perform (.chunks 5)).2.source.fault = none ∧
        (r.perform (.chunks 5)).1.FailsFor (.custom "unplugged")
          (.chunks [.ok ⟨⟨32, 8, 9, 5⟩, (StreamHeader.mk .one).toBytes⟩]) := by
  have hs : pausingSource.Sound := rfl
  obtain ⟨hanswers, -, hfails⟩ := run_ofSource hs
  have hplain : ((((ofBytes pausingSource.rest).run [.next]).2.run [.readHeader]).2.perform
      (.chunks 5)).1 = .chunks [.ok ⟨⟨32, 8, 9, 5⟩, (StreamHeader.mk .one).toBytes⟩] := by
    decide +kernel
  obtain ⟨hbefore, hcall⟩ := hfails [.next] 60 (.custom "unplugged") [.readHeader]
    (by decide +kernel)
  refine ⟨hs, hanswers _, ?_, by decide +kernel, by decide +kernel, ?_⟩
  · rw [hbefore]
    decide +kernel
  · rw [← hplain]
    exact hcall (.chunks 5) (by decide +kernel)

end ThreadTrace.Reader
