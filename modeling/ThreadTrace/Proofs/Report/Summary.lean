import ThreadTrace.Proofs.Report.Keyed
import ThreadTrace.Proofs.Stream.Chunk
import ThreadTrace.Report.Summary

/-!
# ThreadTrace.Proofs.Report.Summary — a thread is summed up by its own chunks

A trace has a summary when its chunks are clean, and only then (`ofTrace_eq_ok_iff`).  What a chunk
adds is settled by the chunk and what is known of its thread: so the entry of a thread comes from
the chunks of that thread alone (`get?_threads_withChunks`), and the name of a process from its own
chunks (`get?_processNames_withChunks`).  How the chunks of different threads lie between one
another does not matter then, except to a process that more than one of its threads name
(`ofTrace_of_interleaves`).
-/

namespace ThreadTrace

open Wire

/-! ### Threads -/

namespace ThreadSummary

/-- The thread after one more clean chunk. -/
def withChunk (t : Option ThreadSummary) (c : Chunk) : ThreadSummary :=
  c.cleanEvents.foldl addEvent (openChunk c t)

/-- The thread after more clean chunks, if it has any. -/
def withChunks (t : Option ThreadSummary) (cs : List Chunk) : Option ThreadSummary :=
  cs.foldl (fun t c => some (withChunk t c)) t

/-- What comes from the events, and not from how they lie in chunks. -/
def tally (t : ThreadSummary) : Option String × Nat × Nat × Nat :=
  (t.name, t.begins, t.ends, t.other)

theorem tally_addEvents {t t' : ThreadSummary} (h : t.tally = t'.tally) (es : List Event) :
    (es.foldl addEvent t).tally = (es.foldl addEvent t').tally := by
  induction es generalizing t t' with
  | nil => exact h
  | cons e es ih =>
    obtain ⟨hname, hbegins, hends, hother⟩ : t.name = t'.name ∧ t.begins = t'.begins ∧
        t.ends = t'.ends ∧ t.other = t'.other := by simpa [tally] using h
    refine ih ?_
    cases e <;> simp [addEvent, tally, hname, hbegins, hends, hother]

theorem tally_openChunk (c : Chunk) (t : Option ThreadSummary) :
    (openChunk c t).tally = (t.getD empty).tally := by
  cases t <;> rfl

theorem tally_withChunks (t : Option ThreadSummary) (cs : List Chunk) :
    ((withChunks t cs).getD empty).tally =
      ((cs.flatMap Chunk.cleanEvents).foldl addEvent (t.getD empty)).tally := by
  induction cs generalizing t with
  | nil => rfl
  | cons c cs ih =>
    rw [List.flatMap_cons, List.foldl_append]
    exact (ih (some (withChunk t c))).trans
      (tally_addEvents (tally_addEvents (tally_openChunk c t) c.cleanEvents) _)

theorem isSome_withChunks (t : Option ThreadSummary) (cs : List Chunk) :
    (withChunks t cs).isSome = (t.isSome || !cs.isEmpty) := by
  induction cs generalizing t with
  | nil => simp [withChunks]
  | cons c cs ih =>
    rw [withChunks, List.foldl_cons]
    refine (ih (some (withChunk t c))).trans ?_
    simp

/-- The same events in other chunks. -/
theorem map_tally_withChunks {cs cs' : List Chunk} (hempty : cs = [] ↔ cs' = [])
    (hevents : cs.flatMap Chunk.cleanEvents = cs'.flatMap Chunk.cleanEvents)
    (t : Option ThreadSummary) :
    (withChunks t cs).map tally = (withChunks t cs').map tally := by
  have htally := tally_withChunks t cs
  rw [hevents, ← tally_withChunks t cs'] at htally
  have hsome : (withChunks t cs).isSome = (withChunks t cs').isSome := by
    rw [isSome_withChunks, isSome_withChunks, Bool.eq_iff_iff]
    simp [hempty]
  cases hs : withChunks t cs with
  | none =>
    rw [hs, Option.isSome_none, eq_comm, Option.isSome_eq_false_iff, Option.isNone_iff_eq_none]
      at hsome
    rw [hsome]
  | some summary =>
    rw [hs, Option.isSome_some, eq_comm, Option.isSome_iff_exists] at hsome
    obtain ⟨summary', hs'⟩ := hsome
    rw [hs, hs'] at htally
    rw [hs']
    exact congrArg some htally

end ThreadSummary

/-- The name of a process behind an event of it. -/
def processNameAfter (name : Option String) : Event → Option String
  | .processName new => some (Text.lossy new)
  | _ => name

namespace Summary

theorem processRank_injective : Function.Injective processRank := fun _ _ h => UInt32.toNat_inj.1 h

theorem ownerRank_injective : Function.Injective ownerRank := by
  rintro ⟨process, thread⟩ ⟨process', thread'⟩ h
  have hthread : thread.toNat < UInt32.size := thread.toNat_lt_size
  have hthread' : thread'.toNat < UInt32.size := thread'.toNat_lt_size
  simp only [ownerRank, UInt32.size] at h hthread hthread'
  rw [Prod.mk.injEq, ← UInt32.toNat_inj, ← UInt32.toNat_inj]
  omega

variable {s s' : Summary} {c : Chunk} {cs : List Chunk} {owner : UInt32 × UInt32}

/-! ### Clean chunks -/

/-- The summary after one more clean chunk. -/
def withChunk (s : Summary) (c : Chunk) : Summary :=
  c.cleanEvents.foldl (addEvent c.owner) (s.openChunk c)

def withChunks (s : Summary) (cs : List Chunk) : Summary := cs.foldl withChunk s

theorem foldlM_map_ok (owner : UInt32 × UInt32) (s : Summary) (es : List Event) :
    (es.map .ok : List (Except DecodeError Event)).foldlM
      (fun s item => item.map (s.addEvent owner)) s = .ok (es.foldl (addEvent owner) s) := by
  rw [List.foldlM_map]
  exact List.foldlM_pure

theorem addChunk_eq (s : Summary) (c : Chunk) :
    s.addChunk c = c.firstError?.elim (.ok (s.withChunk c)) .error := by
  obtain ⟨-, hfirst, hevents⟩ | ⟨-, e, hfirst, hevents⟩ := c.events_cases
  · rw [addChunk, hevents, foldlM_map_ok, hfirst]
    rfl
  · rw [addChunk, hevents, List.foldlM_append, foldlM_map_ok, hfirst]
    rfl

/-- All chunks are in the summary, or the first error of one of them is what it fails with. -/
theorem foldlM_addChunk_eq (s : Summary) (cs : List Chunk) :
    cs.foldlM addChunk s =
      (cs.findSome? Chunk.firstError?).elim (.ok (s.withChunks cs)) .error := by
  induction cs generalizing s with
  | nil => rfl
  | cons c cs ih =>
    rw [List.foldlM_cons, addChunk_eq, List.findSome?_cons]
    cases c.firstError? with
    | none => exact ih (s.withChunk c)
    | some e => rfl

theorem foldlM_addChunk_eq_ok_iff :
    cs.foldlM addChunk s = .ok s' ↔ (∀ c ∈ cs, c.Clean) ∧ s' = s.withChunks cs := by
  rw [foldlM_addChunk_eq, ← Chunk.findSome?_firstError?_eq_none_iff]
  cases cs.findSome? Chunk.firstError? <;> simp [eq_comm]

theorem ofTrace_eq_ok_iff {t : Trace} :
    ofTrace t = .ok s ↔
      (∀ c ∈ t.chunks, c.Clean) ∧ s = withChunks ⟨t.header.unit, [], []⟩ t.chunks :=
  foldlM_addChunk_eq_ok_iff

/-! ### Entries stay in order -/

/-- Both kinds of entries are in order, one for each key. -/
structure Ordered (s : Summary) : Prop where
  processNames : s.processNames.Sorted processRank
  threads : s.threads.Sorted ownerRank

theorem ordered_empty (unit : Binary64) : Ordered ⟨unit, [], []⟩ :=
  ⟨Keyed.sorted_nil _, Keyed.sorted_nil _⟩

theorem Ordered.openChunk (h : s.Ordered) (c : Chunk) : (s.openChunk c).Ordered :=
  ⟨h.processNames, h.threads.update _ _⟩

theorem Ordered.addEvent (h : s.Ordered) (owner : UInt32 × UInt32) (e : Event) :
    (s.addEvent owner e).Ordered where
  processNames := by
    cases e with
    | processName name => exact h.processNames.update _ _
    | _ => exact h.processNames
  threads := h.threads.update _ _

theorem Ordered.addEvents (h : s.Ordered) (owner : UInt32 × UInt32) (es : List Event) :
    (es.foldl (Summary.addEvent owner) s).Ordered := by
  induction es generalizing s with
  | nil => exact h
  | cons e es ih => exact ih (h.addEvent owner e)

theorem Ordered.withChunk (h : s.Ordered) (c : Chunk) : (s.withChunk c).Ordered :=
  (h.openChunk c).addEvents c.owner c.cleanEvents

theorem Ordered.withChunks (h : s.Ordered) (cs : List Chunk) : (s.withChunks cs).Ordered := by
  induction cs generalizing s with
  | nil => exact h
  | cons c cs ih => exact ih (h.withChunk c)

/-! ### What a chunk adds -/

theorem threads_addEvents {threads : Keyed (UInt32 × UInt32) ThreadSummary}
    {f : Option ThreadSummary → ThreadSummary} (h : s.threads = threads.update ownerRank owner f)
    (es : List Event) :
    (es.foldl (addEvent owner) s).threads =
      threads.update ownerRank owner fun t => es.foldl ThreadSummary.addEvent (f t) := by
  induction es generalizing s f with
  | nil => exact h
  | cons e es ih =>
    refine ih (f := fun t => (f t).addEvent e) ?_
    show s.threads.update ownerRank owner (fun t => (t.getD .empty).addEvent e) = _
    rw [h, Keyed.update_update]
    rfl

theorem threads_withChunk (s : Summary) (c : Chunk) :
    (s.withChunk c).threads =
      s.threads.update ownerRank c.owner fun t => ThreadSummary.withChunk t c :=
  threads_addEvents rfl c.cleanEvents

theorem get?_processNames_addEvents (h : s.Ordered) (process : UInt32) (es : List Event) :
    (es.foldl (addEvent owner) s).processNames.get? processRank process =
      if owner.1 = process then
        es.foldl processNameAfter (s.processNames.get? processRank process)
      else s.processNames.get? processRank process := by
  induction es generalizing s with
  | nil => simp
  | cons e es ih =>
    rw [List.foldl_cons, ih (h.addEvent owner e), List.foldl_cons]
    cases e with
    | processName name =>
      simp only [addEvent]
      by_cases howner : owner.1 = process
      · rw [if_pos howner, if_pos howner, howner,
          Keyed.get?_update_self _ _ _ _ h.processNames]
        rfl
      · have hne : processRank process ≠ processRank owner.1 :=
          fun heq => howner (processRank_injective heq).symm
        rw [if_neg howner, if_neg howner, Keyed.get?_update_of_ne _ hne]
    | _ => rfl

/-- Only a chunk of the thread changes its entry. -/
theorem get?_threads_withChunk (h : s.Ordered) (owner : UInt32 × UInt32) (c : Chunk) :
    (s.withChunk c).threads.get? ownerRank owner =
      if c.owner = owner then
        some (ThreadSummary.withChunk (s.threads.get? ownerRank owner) c)
      else s.threads.get? ownerRank owner := by
  rw [threads_withChunk]
  by_cases howner : c.owner = owner
  · rw [if_pos howner, howner, Keyed.get?_update_self _ _ _ _ h.threads]
  · have hne : ownerRank owner ≠ ownerRank c.owner :=
      fun heq => howner (ownerRank_injective heq).symm
    rw [if_neg howner, Keyed.get?_update_of_ne _ hne]

/-- Only a chunk of the process changes its name. -/
theorem get?_processNames_withChunk (h : s.Ordered) (process : UInt32) (c : Chunk) :
    (s.withChunk c).processNames.get? processRank process =
      if c.owner.1 = process then
        c.cleanEvents.foldl processNameAfter (s.processNames.get? processRank process)
      else s.processNames.get? processRank process :=
  get?_processNames_addEvents (h.openChunk c) process c.cleanEvents

/-! ### What a trace adds up to -/

theorem get?_threads_withChunks (h : s.Ordered) (owner : UInt32 × UInt32) (cs : List Chunk) :
    (s.withChunks cs).threads.get? ownerRank owner =
      ThreadSummary.withChunks (s.threads.get? ownerRank owner)
        (cs.filter (·.owner = owner)) := by
  induction cs generalizing s with
  | nil => rfl
  | cons c cs ih =>
    rw [withChunks, List.foldl_cons]
    refine (ih (h.withChunk c)).trans ?_
    rw [get?_threads_withChunk h]
    by_cases howner : c.owner = owner
    · rw [if_pos howner, List.filter_cons_of_pos (by simpa using howner)]
      rfl
    · rw [if_neg howner, List.filter_cons_of_neg (by simpa using howner)]

theorem get?_processNames_withChunks (h : s.Ordered) (process : UInt32) (cs : List Chunk) :
    (s.withChunks cs).processNames.get? processRank process =
      ((cs.filter (·.owner.1 = process)).flatMap Chunk.cleanEvents).foldl processNameAfter
        (s.processNames.get? processRank process) := by
  induction cs generalizing s with
  | nil => rfl
  | cons c cs ih =>
    rw [withChunks, List.foldl_cons]
    refine (ih (h.withChunk c)).trans ?_
    rw [get?_processNames_withChunk h]
    by_cases howner : c.owner.1 = process
    · rw [if_pos howner, List.filter_cons_of_pos (by simpa using howner), List.flatMap_cons,
        List.foldl_append]
    · rw [if_neg howner, List.filter_cons_of_neg (by simpa using howner)]

@[simp] theorem unit_withChunks (s : Summary) (cs : List Chunk) :
    (s.withChunks cs).unit = s.unit := by
  induction cs generalizing s with
  | nil => rfl
  | cons c cs ih =>
    have hunit : ∀ (es : List Event) (s : Summary),
        (es.foldl (addEvent c.owner) s).unit = s.unit := by
      intro es
      induction es with
      | nil => exact fun _ => rfl
      | cons e es ihes => exact fun s => ihes (s.addEvent c.owner e)
    exact (ih (s.withChunk c)).trans (hunit c.cleanEvents _)

/-- **Where chunks are cut does not show.**  If the chunks of every thread have the same events, in
the same order, the threads and processes are summed up in the same way. -/
theorem withChunks_congr {cs' : List Chunk} (h : s.Ordered)
    (hempty : ∀ owner, cs.filter (·.owner = owner) = [] ↔ cs'.filter (·.owner = owner) = [])
    (hthreads : ∀ owner, (cs.filter (·.owner = owner)).flatMap Chunk.cleanEvents =
      (cs'.filter (·.owner = owner)).flatMap Chunk.cleanEvents)
    (hprocesses : ∀ process, (cs.filter (·.owner.1 = process)).flatMap Chunk.cleanEvents =
      (cs'.filter (·.owner.1 = process)).flatMap Chunk.cleanEvents) :
    ((s.withChunks cs).threads.map fun (owner, t) => (owner, t.tally)) =
        ((s.withChunks cs').threads.map fun (owner, t) => (owner, t.tally)) ∧
      (s.withChunks cs).processNames = (s.withChunks cs').processNames := by
  constructor
  · refine ((h.withChunks cs).threads.map _).ext ownerRank_injective
      ((h.withChunks cs').threads.map _) fun owner => ?_
    rw [Keyed.get?_map, Keyed.get?_map, get?_threads_withChunks h, get?_threads_withChunks h]
    exact ThreadSummary.map_tally_withChunks (hempty owner) (hthreads owner) _
  · refine (h.withChunks cs).processNames.ext processRank_injective
      (h.withChunks cs').processNames fun process => ?_
    rw [get?_processNames_withChunks h, get?_processNames_withChunks h, hprocesses]

end Summary

/-! ### Interleavings -/

/-- The chunks are the chunks of these threads, those of each thread in their order. -/
def Trace.Interleaves (t : Trace) (sequences : UInt32 × UInt32 → List Chunk) : Prop :=
  ∀ owner, t.chunks.filter (·.owner = owner) = sequences owner

/-- The chunk has an event that names its process. -/
def Chunk.NamesProcess (c : Chunk) : Prop := ∃ e ∈ c.cleanEvents, e.tag = .processName

instance (c : Chunk) : Decidable c.NamesProcess :=
  inferInstanceAs (Decidable (∃ e ∈ c.cleanEvents, e.tag = .processName))

/-- All chunks that name the process are of one thread. -/
def Trace.NamedByOneThread (t : Trace) (process : UInt32) : Prop :=
  ∀ c ∈ t.chunks, ∀ c' ∈ t.chunks, c.owner.1 = process → c'.owner.1 = process →
    c.NamesProcess → c'.NamesProcess → c.owner = c'.owner

section Interleavings

variable {t t' : Trace} {sequences : UInt32 × UInt32 → List Chunk} {process : UInt32}

theorem Trace.Interleaves.mem_iff (h : t.Interleaves sequences) {c : Chunk} :
    c ∈ t.chunks ↔ c ∈ sequences c.owner := by
  rw [← h c.owner, List.mem_filter]
  simp

/-- The thread that names the process, or any if none does. -/
theorem Trace.NamedByOneThread.exists_owner (h : t.NamedByOneThread process) :
    ∃ owner, ∀ c ∈ t.chunks,
      (c.owner.1 = process ∧ c.NamesProcess) ↔ (c.owner = owner ∧ c.NamesProcess) := by
  by_cases hname : ∃ c ∈ t.chunks, c.owner.1 = process ∧ c.NamesProcess
  · obtain ⟨c, hc, hprocess, hnames⟩ := hname
    refine ⟨c.owner, fun c' hc' => and_congr_left fun hnames' => ⟨fun hprocess' => ?_, ?_⟩⟩
    · exact h c' hc' c hc hprocess' hprocess hnames' hnames
    · intro howner
      rw [howner, hprocess]
  · refine ⟨(process, 0), fun c hc => ⟨fun hnames => absurd ⟨c, hc, hnames⟩ hname, ?_⟩⟩
    rintro ⟨howner, hnames⟩
    rw [howner]
    exact ⟨rfl, hnames⟩

theorem Trace.Interleaves.filter_namesProcess (h : t.Interleaves sequences)
    {owner : UInt32 × UInt32} (howner : ∀ c ∈ t.chunks,
      (c.owner.1 = process ∧ c.NamesProcess) ↔ (c.owner = owner ∧ c.NamesProcess)) :
    t.chunks.filter (fun c => c.owner.1 = process ∧ c.NamesProcess) =
      (sequences owner).filter (·.NamesProcess) := by
  rw [← h owner, List.filter_filter]
  refine List.filter_congr fun c hc => ?_
  rw [decide_eq_decide.2 (howner c hc), Bool.decide_and, Bool.and_comm]

theorem foldl_processNameAfter_of_ne {es : List Event} (h : ∀ e ∈ es, e.tag ≠ .processName)
    (name : Option String) : es.foldl processNameAfter name = name := by
  induction es with
  | nil => rfl
  | cons e es ih =>
    obtain ⟨he, hes⟩ := List.forall_mem_cons.1 h
    rw [List.foldl_cons]
    cases e with
    | processName new => exact absurd rfl he
    | _ => exact ih hes

/-- Chunks that do not name their process can be left out. -/
theorem foldl_processNameAfter_filter (name : Option String) (cs : List Chunk) :
    ((cs.filter (·.owner.1 = process)).flatMap Chunk.cleanEvents).foldl processNameAfter name =
      ((cs.filter fun c => c.owner.1 = process ∧ c.NamesProcess).flatMap
        Chunk.cleanEvents).foldl processNameAfter name := by
  induction cs generalizing name with
  | nil => rfl
  | cons c cs ih =>
    by_cases hprocess : c.owner.1 = process
    · by_cases hnames : c.NamesProcess
      · rw [List.filter_cons_of_pos (by simpa using hprocess),
          List.filter_cons_of_pos (by simpa using ⟨hprocess, hnames⟩), List.flatMap_cons,
          List.flatMap_cons, List.foldl_append, List.foldl_append, ih]
      · rw [List.filter_cons_of_pos (by simpa using hprocess),
          List.filter_cons_of_neg (by simp [hnames]), List.flatMap_cons, List.foldl_append,
          foldl_processNameAfter_of_ne fun e he htag => hnames ⟨e, he, htag⟩, ih]
    · rw [List.filter_cons_of_neg (by simpa using hprocess),
        List.filter_cons_of_neg (by simp [hprocess]), ih]

namespace Summary

/-- **The order in which threads hand their chunks over does not show.**  Two interleavings of the
same threads' chunks both have a summary or neither has.  Their summaries agree in everything but
the name of a process that more than one of its threads name. -/
theorem ofTrace_of_interleaves (hheader : t.header = t'.header) (ht : t.Interleaves sequences)
    (ht' : t'.Interleaves sequences) :
    ((∃ s, ofTrace t = .ok s) ↔ ∃ s', ofTrace t' = .ok s') ∧
      ∀ s s', ofTrace t = .ok s → ofTrace t' = .ok s' →
        s.unit = s'.unit ∧ s.threads = s'.threads ∧ s.totalEvents = s'.totalEvents ∧
          s.totalChunks = s'.totalChunks ∧
          ((∀ process, t.NamedByOneThread process) → s.processNames = s'.processNames) := by
  have hmem : ∀ c, c ∈ t'.chunks ↔ c ∈ t.chunks := fun c => ht'.mem_iff.trans ht.mem_iff.symm
  have hclean : (∀ c ∈ t.chunks, c.Clean) ↔ ∀ c ∈ t'.chunks, c.Clean :=
    forall_congr' fun c => by rw [hmem c]
  refine ⟨?_, fun s s' hs hs' => ?_⟩
  · simpa only [ofTrace_eq_ok_iff, exists_and_left, exists_eq, and_true] using hclean
  · obtain ⟨-, rfl⟩ := ofTrace_eq_ok_iff.1 hs
    obtain ⟨-, rfl⟩ := ofTrace_eq_ok_iff.1 hs'
    have hempty := ordered_empty t.header.unit
    rw [← hheader]
    have hthreads : (withChunks ⟨t.header.unit, [], []⟩ t.chunks).threads =
        (withChunks ⟨t.header.unit, [], []⟩ t'.chunks).threads := by
      refine (hempty.withChunks _).threads.ext ownerRank_injective (hempty.withChunks _).threads
        fun owner => ?_
      rw [get?_threads_withChunks hempty, get?_threads_withChunks hempty, ht, ht']
    refine ⟨by simp, hthreads, by rw [totalEvents, totalEvents, hthreads],
      by rw [totalChunks, totalChunks, hthreads], fun hnamed => ?_⟩
    refine (hempty.withChunks _).processNames.ext processRank_injective
      (hempty.withChunks _).processNames fun process => ?_
    obtain ⟨owner, howner⟩ := (hnamed process).exists_owner
    rw [get?_processNames_withChunks hempty, get?_processNames_withChunks hempty,
      foldl_processNameAfter_filter, foldl_processNameAfter_filter,
      ht.filter_namesProcess howner,
      ht'.filter_namesProcess fun c hc => howner c ((hmem c).1 hc)]

/-- A chunk of process 7 with these records. -/
def chunkOf (thread : UInt32) (records : List Record) : Chunk :=
  let payload := records.flatMap Record.toBytes
  ⟨⟨UInt32.ofNat payload.length, thread, 7, 5⟩, payload⟩

/-- The first thread names the process twice; the second does not. -/
def chunksOf (owner : UInt32 × UInt32) : List Chunk :=
  if owner = (7, 1) then
    [chunkOf 1 [.naming .process [97], .spanEnd 5], chunkOf 1 [.naming .process [98]]]
  else if owner = (7, 2) then [chunkOf 2 [.naming .thread [99], .spanBegin [100] [] 9]]
  else []

/-- The chunk of the second thread comes first. -/
def secondFirst : Trace := ⟨⟨.one⟩, chunksOf (7, 2) ++ chunksOf (7, 1)⟩

/-- The chunk of the second thread comes between those of the first. -/
def secondBetween : Trace :=
  ⟨⟨.one⟩, (chunksOf (7, 1)).take 1 ++ chunksOf (7, 2) ++ (chunksOf (7, 1)).drop 1⟩

theorem interleaves_chunksOf (hother : ∀ c ∈ t.chunks, c.owner = (7, 1) ∨ c.owner = (7, 2))
    (hfirst : t.chunks.filter (·.owner = (7, 1)) = chunksOf (7, 1))
    (hsecond : t.chunks.filter (·.owner = (7, 2)) = chunksOf (7, 2)) : t.Interleaves chunksOf := by
  intro owner
  by_cases h1 : owner = (7, 1)
  · rw [h1, hfirst]
  by_cases h2 : owner = (7, 2)
  · rw [h2, hsecond]
  rw [chunksOf, if_neg h1, if_neg h2, List.filter_eq_nil_iff]
  intro c hc
  obtain howner | howner := hother c hc
  · simpa [howner] using Ne.symm h1
  · simpa [howner] using Ne.symm h2

theorem ofTrace_secondFirst :
    secondFirst.header = secondBetween.header ∧ secondFirst.Interleaves chunksOf ∧
      secondBetween.Interleaves chunksOf ∧ (∀ process, secondFirst.NamedByOneThread process) ∧
      ∃ s s', ofTrace secondFirst = .ok s ∧ ofTrace secondBetween = .ok s' ∧
        s.threads = s'.threads ∧ s.processNames = s'.processNames ∧
        s.totalEvents = 5 ∧ s.processNames = [(7, "b")] := by
  have hfirst : secondFirst.Interleaves chunksOf :=
    interleaves_chunksOf (by decide) (by decide) (by decide)
  have hbetween : secondBetween.Interleaves chunksOf :=
    interleaves_chunksOf (by decide) (by decide) (by decide)
  have hone : ∀ c ∈ secondFirst.chunks, c.NamesProcess → c.owner = (7, 1) := by decide +kernel
  have hnamed : ∀ process, secondFirst.NamedByOneThread process :=
    fun _ c hc c' hc' _ _ hn hn' => (hone c hc hn).trans (hone c' hc' hn').symm
  have hheader : secondFirst.header = secondBetween.header := rfl
  obtain ⟨hiff, hagree⟩ := ofTrace_of_interleaves hheader hfirst hbetween
  have hclean : ∀ c ∈ secondFirst.chunks, c.Clean := by decide +kernel
  obtain ⟨s, hs, htotal, hname⟩ : ∃ s, ofTrace secondFirst = .ok s ∧ s.totalEvents = 5 ∧
      s.processNames = [(7, "b")] :=
    ⟨_, ofTrace_eq_ok_iff.2 ⟨hclean, rfl⟩, by decide +kernel, by decide +kernel⟩
  obtain ⟨s', hs'⟩ := hiff.1 ⟨s, hs⟩
  obtain ⟨-, hthreads, -, -, hnames⟩ := hagree s s' hs hs'
  exact ⟨hheader, hfirst, hbetween, hnamed, s, s', hs, hs', hthreads, hnames hnamed, htotal, hname⟩

end Summary

end Interleavings

end ThreadTrace
