import ThreadTrace.Proofs.Report.Totals

/-!
# ThreadTrace.Proofs.Report.Account — a summary is an account of its trace

`Summary.Accounts` says what each entry of a summary stands for, by counting over the chunks and
events of the trace: no summary is carried from chunk to chunk.  What a thread's chunks add up to
is settled field by field (`ThreadSummary.accounts_of_withChunks`).  `ofTrace_accounts` has the
whole: a trace fails with its first error, or its summary accounts for it.
-/

namespace ThreadTrace

open Wire

/-- The name that an event gives to its thread. -/
def Wire.Event.threadName? : Event → Option (List UInt8)
  | .threadName name => some name
  | _ => none

/-- The name that an event gives to its process. -/
def Wire.Event.processName? : Event → Option (List UInt8)
  | .processName name => some name
  | _ => none

/-- The last name that some events give, as text. -/
def lastName (given : Event → Option (List UInt8)) (es : List Event) : Option String :=
  (es.filterMap given).getLast?.map Text.lossy

theorem lastName_append (given : Event → Option (List UInt8)) (es es' : List Event) :
    lastName given (es ++ es') = (lastName given es').or (lastName given es) := by
  rw [lastName, List.filterMap_append, List.getLast?_append, Option.map_or]
  rfl

/-- There is a last name if there is any. -/
theorem isSome_lastName_iff {given : Event → Option (List UInt8)} {es : List Event} :
    (lastName given es).isSome ↔ ∃ e ∈ es, (given e).isSome := by
  rw [lastName, Option.isSome_map, List.getLast?_isSome, Ne, List.filterMap_eq_nil_iff]
  simp [Option.isSome_iff_ne_none]

theorem Wire.Event.isSome_processName?_iff {e : Event} :
    e.processName?.isSome ↔ e.tag = .processName := by
  cases e <;> simp [processName?, tag]

/-! ### Threads -/

namespace ThreadSummary

/-- The entry of a thread that has recorded these chunks. -/
structure Accounts (t : ThreadSummary) (cs : List Chunk) : Prop where
  chunks_eq : t.chunks = cs.length
  begins_eq : t.begins = (cs.flatMap Chunk.cleanEvents).countP (·.tag = .spanBegin)
  ends_eq : t.ends = (cs.flatMap Chunk.cleanEvents).countP (·.tag = .spanEnd)
  other_eq : t.other = (cs.flatMap Chunk.cleanEvents).countP (·.tag ∉ [.spanBegin, .spanEnd])
  name_eq : t.name = lastName Event.threadName? (cs.flatMap Chunk.cleanEvents)
  firstTicks_mem : ∃ c ∈ cs, c.header.firstTicks = t.firstTicks
  firstTicks_le : ∀ c ∈ cs, t.firstTicks ≤ c.header.firstTicks

theorem counts_other : Counts other (·.tag ∉ [.spanBegin, .spanEnd]) where
  empty_eq := rfl
  openChunk_eq c t := by cases t <;> rfl
  addEvent_eq t e := by cases e <;> simp [addEvent, Event.tag]

variable {count : ThreadSummary → Nat} {p : Event → Bool}

theorem Adds.elim_withChunks {added : Chunk → Nat} (h : Adds count added)
    (t : Option ThreadSummary) (cs : List Chunk) :
    (withChunks t cs).elim 0 count = t.elim 0 count + (cs.map added).sum := by
  induction cs generalizing t with
  | nil => rfl
  | cons c cs ih =>
    rw [List.map_cons, List.sum_cons, ← Nat.add_assoc, ← h t c]
    exact ih (some (withChunk t c))

theorem Counts.elim_withChunks (h : Counts count p) (t : Option ThreadSummary) (cs : List Chunk) :
    (withChunks t cs).elim 0 count =
      t.elim 0 count + (cs.flatMap Chunk.cleanEvents).countP p := by
  rw [h.adds.elim_withChunks, List.countP_flatMap]
  rfl

/-- Events change neither the number of chunks nor when the first of them began. -/
theorem addEvents_frame (t : ThreadSummary) (es : List Event) :
    (es.foldl addEvent t).chunks = t.chunks ∧ (es.foldl addEvent t).firstTicks = t.firstTicks := by
  induction es generalizing t with
  | nil => exact ⟨rfl, rfl⟩
  | cons e es ih =>
    obtain ⟨hchunks, hticks⟩ := ih (t.addEvent e)
    rw [List.foldl_cons, hchunks, hticks]
    cases e <;> exact ⟨rfl, rfl⟩

theorem adds_chunks : Adds chunks fun _ => 1 := by
  intro t c
  rw [withChunk, (addEvents_frame _ _).1]
  cases t <;> rfl

theorem name_addEvents (t : ThreadSummary) (es : List Event) :
    (es.foldl addEvent t).name = (lastName Event.threadName? es).or t.name := by
  induction es generalizing t with
  | nil => rfl
  | cons e es ih =>
    rw [List.foldl_cons, ih, show e :: es = [e] ++ es from rfl, lastName_append, Option.or_assoc]
    cases e <;> rfl

theorem name_withChunks (t : Option ThreadSummary) (cs : List Chunk) :
    (withChunks t cs).bind name =
      (lastName Event.threadName? (cs.flatMap Chunk.cleanEvents)).or (t.bind name) := by
  induction cs generalizing t with
  | nil => rfl
  | cons c cs ih =>
    have hchunk : (withChunk t c).name =
        (lastName Event.threadName? c.cleanEvents).or (t.bind name) := by
      rw [withChunk, name_addEvents]
      cases t <;> rfl
    rw [List.flatMap_cons, lastName_append, Option.or_assoc, ← hchunk]
    exact ih (some (withChunk t c))

theorem firstTicks_withChunks (t : Option ThreadSummary) (cs : List Chunk) :
    (withChunks t cs).map firstTicks =
      ((t.map firstTicks).toList ++ cs.map (·.header.firstTicks)).min? := by
  induction cs generalizing t with
  | nil => cases t <;> rfl
  | cons c cs ih =>
    refine (ih (some (withChunk t c))).trans ?_
    rw [Option.map_some, withChunk, (addEvents_frame _ _).2]
    cases t with
    | none => rfl
    | some t =>
      -- the least of the earlier chunks and this one stands for both
      simp only [Option.toList_some, Option.map_some, List.cons_append, List.nil_append,
        List.map_cons, List.min?_cons', List.foldl_cons]
      rfl

/-- What is said of a thread is what its chunks come to. -/
theorem accounts_of_withChunks {t : ThreadSummary} {cs : List Chunk}
    (h : withChunks none cs = some t) : t.Accounts cs := by
  have hbegins := counts_begins.elim_withChunks none cs
  have hends := counts_ends.elim_withChunks none cs
  have hother := counts_other.elim_withChunks none cs
  have hchunks := adds_chunks.elim_withChunks none cs
  have hname := name_withChunks none cs
  have hticks := firstTicks_withChunks none cs
  rw [h] at hbegins hends hother hchunks hname hticks
  simp only [Option.elim_some, Option.elim_none, Nat.zero_add, List.map_const',
    List.sum_replicate_nat, Nat.mul_one] at hbegins hends hother hchunks
  obtain ⟨hmem, hle⟩ := List.min?_eq_some_iff.1 hticks.symm
  refine ⟨hchunks, hbegins, hends, hother, ?_, List.mem_map.1 hmem, fun c hc => ?_⟩
  · simpa using hname
  · exact hle _ (List.mem_map_of_mem hc)

end ThreadSummary

theorem foldl_processNameAfter_eq (name : Option String) (es : List Event) :
    es.foldl processNameAfter name = (lastName Event.processName? es).or name := by
  induction es generalizing name with
  | nil => rfl
  | cons e es ih =>
    rw [List.foldl_cons, ih, show e :: es = [e] ++ es from rfl, lastName_append, Option.or_assoc]
    cases e <;> rfl

/-! ### Traces -/

namespace Summary

/-- Every entry of the summary, and every total, is that of the trace. -/
structure Accounts (s : Summary) (t : Trace) : Prop where
  unit_eq : s.unit = t.header.unit
  /-- There is one entry for a key at most. -/
  ordered : s.Ordered
  mem_owners_iff : ∀ owner, owner ∈ s.threads.map Prod.fst ↔ ∃ c ∈ t.chunks, c.owner = owner
  threads : ∀ owner thread, (owner, thread) ∈ s.threads →
    thread.Accounts (t.chunks.filter (·.owner = owner))
  mem_processes_iff : ∀ process, process ∈ s.processNames.map Prod.fst ↔
    ∃ c ∈ t.chunks, c.owner.1 = process ∧ c.NamesProcess
  /-- All threads of a process can name it. -/
  processNames : ∀ process name, (process, name) ∈ s.processNames →
    lastName Event.processName?
      ((t.chunks.filter (·.owner.1 = process)).flatMap Chunk.cleanEvents) = some name
  totalChunks_eq : s.totalChunks = t.chunks.length
  totalEvents_eq : s.totalEvents = (t.chunks.flatMap Chunk.events).length

theorem totalChunks_eq (s : Summary) : s.totalChunks = s.threads.total ThreadSummary.chunks := by
  rw [totalChunks, Keyed.total, List.sum_eq_foldr]

/-- A process has a name when one of its chunks gives it one. -/
theorem isSome_lastName_processName?_iff {cs : List Chunk} {process : UInt32} :
    (lastName Event.processName?
        ((cs.filter (·.owner.1 = process)).flatMap Chunk.cleanEvents)).isSome ↔
      ∃ c ∈ cs, c.owner.1 = process ∧ c.NamesProcess := by
  rw [isSome_lastName_iff]
  constructor
  · rintro ⟨e, he, hname⟩
    obtain ⟨c, hc, hec⟩ := List.mem_flatMap.1 he
    obtain ⟨hmem, hprocess⟩ := List.mem_filter.1 hc
    exact ⟨c, hmem, of_decide_eq_true hprocess, e, hec, Event.isSome_processName?_iff.1 hname⟩
  · rintro ⟨c, hmem, hprocess, e, hec, htag⟩
    have hc : c ∈ cs.filter (·.owner.1 = process) :=
      List.mem_filter.2 ⟨hmem, decide_eq_true hprocess⟩
    exact ⟨e, List.mem_flatMap.2 ⟨c, hc, hec⟩, Event.isSome_processName?_iff.2 htag⟩

/-- The threads of a new summary are their chunks. -/
theorem get?_threads_of_chunks (unit : Binary64) (owner : UInt32 × UInt32) (cs : List Chunk) :
    (withChunks ⟨unit, [], []⟩ cs).threads.get? ownerRank owner =
      ThreadSummary.withChunks none (cs.filter (·.owner = owner)) :=
  get?_threads_withChunks (ordered_empty unit) owner cs

/-- A process of a new summary has the last name that it was given. -/
theorem get?_processNames_of_chunks (unit : Binary64) (process : UInt32) (cs : List Chunk) :
    (withChunks ⟨unit, [], []⟩ cs).processNames.get? processRank process =
      lastName Event.processName?
        ((cs.filter (·.owner.1 = process)).flatMap Chunk.cleanEvents) := by
  rw [get?_processNames_withChunks (ordered_empty unit), foldl_processNameAfter_eq]
  exact Option.or_none

theorem accounts_withChunks {t : Trace} (hclean : ∀ c ∈ t.chunks, c.Clean) :
    (withChunks ⟨t.header.unit, [], []⟩ t.chunks).Accounts t := by
  have hordered := (ordered_empty t.header.unit).withChunks t.chunks
  refine ⟨by simp, hordered, fun owner => ?_, fun owner thread hmem => ?_, fun process => ?_,
    fun process name hmem => ?_, ?_, ?_⟩
  · rw [hordered.threads.mem_keys_iff ownerRank_injective, get?_threads_of_chunks,
      ThreadSummary.isSome_withChunks]
    simp
  · rw [hordered.threads.mem_iff ownerRank_injective, get?_threads_of_chunks] at hmem
    exact ThreadSummary.accounts_of_withChunks hmem
  · rw [hordered.processNames.mem_keys_iff processRank_injective, get?_processNames_of_chunks]
    exact isSome_lastName_processName?_iff
  · rwa [hordered.processNames.mem_iff processRank_injective, get?_processNames_of_chunks] at hmem
  · rw [totalChunks_eq, ThreadSummary.adds_chunks.total_withChunks, List.map_const',
      List.sum_replicate_nat, Nat.mul_one]
    exact Nat.zero_add _
  · have hevents : ∀ c ∈ t.chunks, c.events.length = c.cleanEvents.length := fun c hc => by
      rw [(hclean c hc).events_eq, List.length_map]
    rw [totalEvents_eq, ThreadSummary.counts_events.total_withChunks, List.countP_true,
      List.length_flatMap, List.length_flatMap, List.map_congr_left hevents]
    exact Nat.zero_add _

/-- The first error of a trace is that of the first chunk that has one. -/
theorem findSome?_errorOf?_events (cs : List Chunk) :
    (cs.flatMap Chunk.events).findSome? Chunk.errorOf? = cs.findSome? Chunk.firstError? := by
  induction cs with
  | nil => rfl
  | cons c cs ih =>
    rw [List.flatMap_cons, List.findSome?_append, ih, List.findSome?_cons, Chunk.firstError?]
    cases c.events.findSome? Chunk.errorOf? <;> rfl

/-- **A summary is an exact account of its trace.**  A trace in which an event cannot be read has no
summary, and fails with the first such error of the stream.  Any other trace has one, and the
summary has an entry for each thread that has a chunk and for each process that was named, and for
no others: the counts are those of the thread's chunks and events, the names are the last that were
given, and the totals are those of the whole trace. -/
theorem ofTrace_accounts (t : Trace) :
    match (t.chunks.flatMap Chunk.events).findSome? Chunk.errorOf? with
    | some e => ofTrace t = .error e
    | none => ∃ s, ofTrace t = .ok s ∧ s.Accounts t := by
  rw [findSome?_errorOf?_events]
  cases hfirst : t.chunks.findSome? Chunk.firstError? with
  | some e =>
    show ofTrace t = .error e
    rw [ofTrace, foldlM_addChunk_eq, hfirst]
    rfl
  | none =>
    have hclean := Chunk.findSome?_firstError?_eq_none_iff.1 hfirst
    exact ⟨_, ofTrace_eq_ok_iff.2 ⟨hclean, rfl⟩, accounts_withChunks hclean⟩

end Summary

end ThreadTrace
