import ThreadTrace.Proofs.Capture.Chunks
import ThreadTrace.Proofs.Stream.Chunk

/-!
# ThreadTrace.Proofs.Capture.FirstTicks — what a chunk header gives as its first timestamp

A chunk opens with its first timestamp.  `Leading` says of the chunks of one buffer that each gives
the latest opening up to its own.  A request keeps this for the chunks written and the one in the
making (`Leads.after`), and so it holds in every run, whatever happens to the sink.
`run_firstTicks` has it together with what follows: the first timestamps of a buffer's chunks never
go back, and when the recorded ones do not either, each is the earliest of its chunk.

The chunks written are what the sink has in its `Ledger`.
-/

namespace ThreadTrace

open Wire

/-! ### Openings -/

theorem le_max_word (s t : UInt64) : s ≤ max s t := by
  by_cases h : s ≤ t
  · rwa [show max s t = t from if_pos h]
  · rw [show max s t = s from if_neg h]
    exact UInt64.le_refl s

theorem max_word_of_le {s t : UInt64} (h : s ≤ t) : max s t = t := if_pos h

theorem max_word_le {s t u : UInt64} (hs : s ≤ u) (ht : t ≤ u) : max s t ≤ u := by
  by_cases h : s ≤ t
  · rwa [show max s t = t from if_pos h]
  · rwa [show max s t = s from if_neg h]

namespace Chunk

/-- The timestamps of a chunk's events, in order. -/
def ticks (c : Chunk) : List UInt64 := c.cleanEvents.filterMap Event.ticks?

/-- The timestamp of the first event that has one. -/
def opening (c : Chunk) : Option UInt64 := c.ticks.head?

/-- The latest of the timestamps that these chunks open with, and 0 if there is none. -/
def latestOpening (cs : List Chunk) : UInt64 := (cs.filterMap opening).foldl max 0

theorem latestOpening_concat (cs : List Chunk) (c : Chunk) :
    latestOpening (cs ++ [c]) = c.opening.elim (latestOpening cs) (max (latestOpening cs)) := by
  rw [latestOpening, List.filterMap_append, List.foldl_append]
  cases hc : c.opening with
  | none => simp [latestOpening, hc]
  | some t => simp [latestOpening, hc]

theorem latestOpening_le_concat (cs : List Chunk) (c : Chunk) :
    latestOpening cs ≤ latestOpening (cs ++ [c]) := by
  rw [latestOpening_concat]
  cases c.opening with
  | none => exact UInt64.le_refl _
  | some t => exact le_max_word _ t

theorem latestOpening_le_append (cs cs' : List Chunk) :
    latestOpening cs ≤ latestOpening (cs ++ cs') := by
  induction cs' using List.reverseRecOn with
  | nil =>
    rw [List.append_nil]
    exact UInt64.le_refl _
  | append_singleton cs' c ih =>
    rw [← List.append_assoc]
    exact UInt64.le_trans ih (latestOpening_le_concat _ c)

/-- What no opening exceeds, the latest does not. -/
theorem latestOpening_le {cs : List Chunk} {t : UInt64}
    (h : ∀ c ∈ cs, ∀ s, c.opening = some s → s ≤ t) : latestOpening cs ≤ t := by
  induction cs using List.reverseRecOn with
  | nil => exact UInt64.le_iff_toNat_le.2 (Nat.zero_le _)
  | append_singleton cs c ih =>
    have hcs : latestOpening cs ≤ t := ih fun c' hc' => h c' (List.mem_append_left _ hc')
    rw [latestOpening_concat]
    cases hc : c.opening with
    | none => exact hcs
    | some s => exact max_word_le hcs (h c (by simp) s hc)

/-- Each chunk gives the latest opening among those before it and its own. -/
def Leading (cs : List Chunk) : Prop :=
  ∀ k (hk : k < cs.length), cs[k].header.firstTicks = latestOpening (cs.take (k + 1))

theorem leading_concat_iff {cs : List Chunk} {c : Chunk} :
    Leading (cs ++ [c]) ↔
      Leading cs ∧ c.header.firstTicks = latestOpening (cs ++ [c]) := by
  have hall : (cs ++ [c]).take (cs.length + 1) = cs ++ [c] :=
    List.take_of_length_le (by rw [List.length_append, List.length_singleton])
  have hfront : ∀ k < cs.length, (cs ++ [c]).take (k + 1) = cs.take (k + 1) := fun k hk =>
    List.take_append_of_le_length hk
  constructor
  · intro h
    refine ⟨fun k hk => ?_, ?_⟩
    · have hk' := h k (by rw [List.length_append]; omega)
      rwa [List.getElem_append_left hk, hfront k hk] at hk'
    · have hlast := h cs.length (by simp)
      rwa [List.getElem_concat_length rfl, hall] at hlast
  · rintro ⟨hcs, hc⟩ k hk
    by_cases hlt : k < cs.length
    · rw [List.getElem_append_left hlt, hfront k hlt]
      exact hcs k hlt
    · obtain rfl : k = cs.length := by
        rw [List.length_append, List.length_singleton] at hk
        omega
      rw [List.getElem_concat_length rfl, hall, hc]

namespace Leading

variable {cs : List Chunk}

/-- First timestamps never go back. -/
theorem pairwise (h : Leading cs) :
    cs.Pairwise fun c c' => c.header.firstTicks ≤ c'.header.firstTicks := by
  rw [List.pairwise_iff_getElem]
  intro i j hi hj hij
  obtain ⟨rest, hrest⟩ : cs.take (i + 1) <+: cs.take (j + 1) :=
    List.take_prefix_take_left (by omega)
  rw [h i hi, h j hj, ← hrest]
  exact latestOpening_le_append _ _

/-- When the timestamps of all chunks are in order, each chunk gives its own first one. -/
theorem opening_eq (h : Leading cs) (hsorted : (cs.flatMap ticks).Pairwise (· ≤ ·)) {c : Chunk}
    (hc : c ∈ cs) (hticks : c.ticks ≠ []) : c.opening = some c.header.firstTicks := by
  obtain ⟨k, hk, rfl⟩ := List.getElem_of_mem hc
  obtain ⟨t, ts, ht⟩ := List.exists_cons_of_ne_nil hticks
  have hopening : cs[k].opening = some t := by rw [opening, ht, List.head?_cons]
  -- the chunks in front do not open later
  have hfront : latestOpening (cs.take k) ≤ t := by
    refine latestOpening_le fun c' hc' s hs => ?_
    obtain ⟨i, hi, rfl⟩ := List.getElem_of_mem hc'
    rw [List.length_take] at hi
    rw [List.getElem_take] at hs
    have hpairs := List.pairwise_iff_getElem.1 (List.pairwise_flatMap.1 hsorted).2
    have hi' : i < cs.length := by omega
    refine hpairs i k hi' hk (by omega) s ?_ t ?_
    · exact List.mem_of_mem_head? hs
    · rw [ht]
      exact List.mem_cons_self
  rw [hopening, h k hk, ← List.take_append_getElem hk, latestOpening_concat, hopening,
    Option.elim_some, max_word_of_le hfront]

/-- In order, the first timestamp is the earliest. -/
theorem earliest (h : Leading cs) (hsorted : (cs.flatMap ticks).Pairwise (· ≤ ·)) {c : Chunk}
    (hc : c ∈ cs) (hticks : c.ticks ≠ []) :
    c.header.firstTicks ∈ c.ticks ∧ ∀ t ∈ c.ticks, c.header.firstTicks ≤ t := by
  have hopening := h.opening_eq hsorted hc hticks
  have hown : c.ticks.Pairwise (· ≤ ·) := (List.pairwise_flatMap.1 hsorted).1 c hc
  obtain ⟨t, ts, ht⟩ := List.exists_cons_of_ne_nil hticks
  rw [opening, ht, List.head?_cons, Option.some.injEq] at hopening
  rw [ht] at hown ⊢
  rw [← hopening]
  refine ⟨List.mem_cons_self, fun t' ht' => ?_⟩
  rcases List.mem_cons.1 ht' with rfl | ht'
  · exact UInt64.le_refl _
  · exact (List.pairwise_cons.1 hown).1 t' ht'

end Leading

theorem ticks_of_clean {cs : List Chunk} {events : List Event}
    (h : cs.flatMap Chunk.events = events.map .ok) :
    cs.flatMap ticks = events.filterMap Event.ticks? := by
  obtain ⟨-, hevents⟩ := clean_of_flatMap h
  rw [← hevents, List.filterMap_flatMap]
  rfl

end Chunk

/-! ### One request -/

namespace Buffer

open Chunk

variable {b : Buffer} {cs : List Chunk}

/-- The chunks written and the one in the making are leading, and the buffer knows whether that one
has a timestamp. -/
structure Leads (cs : List Chunk) (b : Buffer) : Prop where
  leading : Leading (cs ++ [b.chunk])
  timed_eq : b.timed = b.chunk.opening.isSome

/-- The timestamp of a request is that of its event. -/
theorem Op.ticks?_of_event? {op : Op} {e : Event} (h : op.event? = some e) :
    e.ticks? = op.ticks? := by
  cases op with
  | spanBegin text args ticks =>
    obtain rfl := Option.some.inj h
    rfl
  | spanEnd ticks =>
    obtain rfl := Option.some.inj h
    rfl
  | name kind text => cases kind <;> obtain rfl := Option.some.inj h <;> rfl
  | flush => cases h

theorem opening_stored {record : Record} {e : Event} (he : record.event? = some e) (hb : b.Sound)
    (hclean : Clean b.pending) (hfit : b.head + record.size ≤ b.region.size)
    (ticks : Option UInt64) :
    (b.stored record ticks).chunk.opening = b.chunk.opening.or e.ticks? := by
  have hevents : (b.stored record ticks).chunk.events = b.chunk.events ++ [.ok e] :=
    decodeEvents_stored he hb hclean hfit ticks
  rw [opening, Chunk.ticks, cleanEvents, hevents, List.filterMap_append, List.filterMap_append,
    List.head?_append]
  congr 1
  cases hticks : e.ticks? <;> simp [Except.toOption, hticks]

namespace Leads

theorem new {region : Region} {process thread : UInt32}
    (h : Buffer.new region process thread = .ok b) : Leads [] b := by
  obtain ⟨rfl, -⟩ := new_eq_ok h
  have hnone : pending ⟨region, chunkHeaderSize, process, thread, 0, false⟩ = [] :=
    pending_of_isEmpty (beq_self_eq_true _)
  have hopening : opening (chunk ⟨region, chunkHeaderSize, process, thread, 0, false⟩) = none := by
    simp [opening, Chunk.ticks, cleanEvents, Chunk.events, chunk, hnone, decodeEvents]
  refine ⟨leading_concat_iff.2 ⟨fun k hk => absurd hk (Nat.not_lt_zero k), ?_⟩, ?_⟩
  · rw [latestOpening_concat, hopening]
    rfl
  · rw [hopening]
    rfl

theorem firstTicks_eq (h : Leads cs b) : b.firstTicks = latestOpening (cs ++ [b.chunk]) :=
  (leading_concat_iff.1 h.leading).2

theorem stamped (h : Leads cs b) (hb : b.Sound) : Leads cs b.stamped where
  leading := by
    rw [chunk_stamped hb]
    exact h.leading
  timed_eq := by
    rw [chunk_stamped hb]
    exact h.timed_eq

theorem emptied (h : Leads cs b) : Leads (cs ++ [b.chunk]) b.emptied := by
  have hopening : b.emptied.chunk.opening = none := by
    simp [opening, Chunk.ticks, cleanEvents, Chunk.events, chunk, decodeEvents]
  refine ⟨leading_concat_iff.2 ⟨h.leading, ?_⟩, ?_⟩
  · rw [latestOpening_concat, hopening]
    exact h.firstTicks_eq
  · rw [hopening]
    rfl

/-- Only the first timestamp of a chunk counts. -/
theorem stored (h : Leads cs b) {record : Record} {e : Event} (he : record.event? = some e)
    (hb : b.Sound) (hclean : Clean b.pending) (hfit : b.head + record.size ≤ b.region.size) :
    Leads cs (b.stored record e.ticks?) := by
  have hopening := opening_stored he hb hclean hfit e.ticks?
  have hfirst := h.firstTicks_eq
  have htimed := h.timed_eq
  rw [latestOpening_concat] at hfirst
  refine ⟨leading_concat_iff.2 ⟨(leading_concat_iff.1 h.leading).1, ?_⟩, ?_⟩
  · show (b.stored record e.ticks?).firstTicks = _
    rw [latestOpening_concat, hopening]
    cases hticks : e.ticks? with
    | none => simpa [Buffer.stored] using hfirst
    | some t =>
      cases hold : b.chunk.opening with
      | none => simp_all [Buffer.stored]
      | some s => simp_all [Buffer.stored]
  · rw [hopening]
    show (b.timed || e.ticks?.isSome) = _
    rw [htimed, Option.isSome_or]

theorem ready (h : Leads cs b) (op : Op) : Leads (cs ++ b.sent op) (b.ready op) := by
  cases hsettles : b.settles op with
  | true =>
    rw [sent_of_settles hsettles, List.append_nil, Buffer.ready, if_pos hsettles]
    exact h
  | false =>
    rw [sent_of_not_settles hsettles, Buffer.ready, hsettles]
    exact h.emptied

/-- A request that is granted. -/
theorem after {owner : UInt32 × UInt32} {events : List Event} (h : Leads cs b)
    (hcuts : Cuts owner events cs b) (op : Op) :
    Leads (cs ++ b.sent op) (b.after op (.ok ())) := by
  have hready := h.ready op
  cases hop : op.record? with
  | none =>
    obtain rfl := Op.eq_flush hop
    exact hready
  | some record =>
    obtain ⟨e, hevent, he⟩ := Op.exists_event hop
    have hroom := ready_fits hcuts.sound hop
    have hstored := hready.stored he (ready_sound hcuts.sound op) (hcuts.ready op).clean hroom
    rw [Op.ticks?_of_event? hevent] at hstored
    simpa only [Buffer.after, hop] using hstored

end Leads

end Buffer

/-! ### Ledgers -/

/-- A destination together with the writes that succeeded, in order. -/
structure Ledger (δ : Type) where
  destination : δ
  taken : List (List UInt8)

namespace Ledger

variable {δ : Type}

/-- Only what was written goes into the ledger. -/
def note (l : Ledger δ) (taken : List (List UInt8)) : Outcome × δ → Outcome × Ledger δ
  | (.ok (), d) => (.ok (), ⟨d, l.taken ++ taken⟩)
  | (.error failure, d) => (.error failure, ⟨d, l.taken⟩)

instance [Destination δ] : Destination (Ledger δ) where
  write l bs := l.note [bs] (Destination.write l.destination bs)
  flush l := l.note [] (Destination.flush l.destination)
  close l := l.note [] (Destination.close l.destination)
  release l := { l with destination := Destination.release l.destination }

end Ledger

namespace Sink

variable {δ : Type}

/-- The sink with this ledger of its destination. -/
def ledgered (s : Sink δ) (taken : List (List UInt8)) : Sink (Ledger δ) :=
  ⟨s.unit, ⟨s.destination, taken⟩, s.isOpen⟩

/-- The sink without a ledger. -/
def unledgered (s : Sink (Ledger δ)) : Sink δ := ⟨s.unit, s.destination.destination, s.isOpen⟩

theorem write_ledgered [Destination δ] (s : Sink (Ledger δ)) (bs : List UInt8) :
    (∃ e s', s.write bs = (.error e, s') ∧ s'.destination.taken = s.destination.taken) ∨
      ∃ s', s.write bs = (.ok (), s') ∧ s'.destination.taken = s.destination.taken ++ [bs] := by
  obtain ⟨unit, ⟨d, taken⟩, isOpen⟩ := s
  cases isOpen with
  | false => exact .inl ⟨_, _, rfl, rfl⟩
  | true =>
    rw [write, ask_of_isOpen rfl]
    simp only [Destination.write, Ledger.note]
    rcases Destination.write d bs with ⟨failure | ⟨⟨⟩⟩, d'⟩
    · exact .inl ⟨_, _, rfl, rfl⟩
    · exact .inr ⟨_, rfl, rfl⟩

end Sink

namespace Recorder.Step

/-- What happens to a sink from outside is not in its ledger. -/
def ledgered {Op δ : Type} : Step Op δ → Step Op (Ledger δ)
  | .perform op => .perform op
  | .quit => .quit
  | .outside change => .outside fun s => (change s.unledgered).ledgered s.destination.taken

end Recorder.Step

/-! ### Runs -/

namespace Buffer

open Chunk

/-- The events that were accepted, going by the answers. -/
def recorded {δ : Type} : List (Recorder.Step Op δ) → List Recorder.Answer → List Event
  | .perform op :: steps, .done result :: answers => op.accepted result ++ recorded steps answers
  | .quit :: steps, _ :: answers => recorded steps answers
  | .outside _ :: steps, answers => recorded steps answers
  | _, _ => []

variable {δ : Type} [Destination δ] {owner : UInt32 × UInt32} {events : List Event}
variable {cs : List Chunk} {b : Buffer} {s : Sink (Ledger δ)}

/-- The chunks in the ledger and the one in the making have the events that were accepted, and they
are leading. -/
structure Traces (owner : UInt32 × UInt32) (events : List Event) (cs : List Chunk) (b : Buffer)
    (s : Sink (Ledger δ)) : Prop where
  cuts : Cuts owner events cs b
  leads : Leads cs b
  taken_eq : s.destination.taken = cs.map Chunk.toBytes

namespace Traces

theorem perform (h : Traces owner events cs b s) (op : Op) :
    let asked := b.perform s op
    ∃ cs', Traces owner (events ++ op.accepted asked.1) cs' asked.2.1 asked.2.2 := by
  intro asked
  -- what a granted request sends is what the ledger gets
  have hgranted : ∀ {s' : Sink (Ledger δ)},
      s'.destination.taken = s.destination.taken ++ (b.sent op).map Chunk.toBytes →
      Traces owner (events ++ op.accepted (.ok ())) (cs ++ b.sent op) (b.after op (.ok ())) s' := by
    intro s' htaken
    refine ⟨h.cuts.after op, h.leads.after h.cuts op, ?_⟩
    rw [htaken, h.taken_eq, List.map_append]
  cases hsettles : b.settles op with
  | true =>
    have hasked : asked = _ := perform_of_settles h.cuts.sound hsettles s
    rw [hasked]
    exact ⟨_, hgranted (by rw [sent_of_settles hsettles]; exact (List.append_nil _).symm)⟩
  | false =>
    have hasked : asked = _ := perform_of_not_settles h.cuts.sound hsettles s
    rw [hasked]
    obtain ⟨e, s', hwrite, htaken⟩ | ⟨s', hwrite, htaken⟩ := s.write_ledgered b.chunk.toBytes
    · rw [hwrite]
      refine ⟨cs, ?_⟩
      rw [Op.accepted, List.append_nil]
      exact ⟨h.cuts.stamped, h.leads.stamped h.cuts.sound, htaken.trans h.taken_eq⟩
    · rw [hwrite]
      exact ⟨_, hgranted (by rw [htaken, sent_of_not_settles hsettles]; rfl)⟩

theorem run (h : Traces owner events cs b s) (steps : List (Recorder.Step Op δ)) :
    let (answers, b', s') := Recorder.run b s (steps.map Recorder.Step.ledgered)
    ∃ cs', Traces owner (events ++ recorded steps answers) cs' b' s' := by
  induction steps generalizing events cs b s with
  | nil => exact ⟨cs, by simpa [Recorder.run, recorded] using h⟩
  | cons step steps ih =>
    cases step with
    | perform op =>
      obtain ⟨cs', hnext⟩ := h.perform op
      obtain ⟨cs'', hlast⟩ := ih hnext
      rw [List.append_assoc] at hlast
      exact ⟨cs'', hlast⟩
    | quit =>
      obtain ⟨cs', hnext⟩ := h.perform .flush
      rw [Op.accepted_flush, List.append_nil] at hnext
      rw [← snd_quit] at hnext
      exact ih hnext
    | outside change =>
      have hnext : Traces owner events cs b
          ((change s.unledgered).ledgered s.destination.taken) := ⟨h.cuts, h.leads, h.taken_eq⟩
      exact ih hnext

end Traces

/-- **A chunk gives as its first timestamp the latest of those that the chunks so far open with.**
The chunks are those that were written, whatever happened to the sink, and behind them the one in
the making.  So first timestamps never go back, and if the recorded timestamps are in order each
chunk gives its earliest. -/
theorem run_firstTicks {region : Region} {process thread : UInt32} {b : Buffer}
    (h : Buffer.new region process thread = .ok b) (s : Sink δ)
    (steps : List (Recorder.Step Op δ)) :
    let ran := Recorder.run b (s.ledgered []) (steps.map Recorder.Step.ledgered)
    let events := recorded steps ran.1
    ∃ cs : List Chunk,
      let all := cs ++ [ran.2.1.chunk]
      ran.2.2.destination.taken = cs.map Chunk.toBytes ∧
      (∀ c ∈ cs, c.Framed ∧ c.owner = (process, thread)) ∧
      all.flatMap Chunk.events = events.map .ok ∧
      (∀ k (hk : k < cs.length), cs[k].header.firstTicks = latestOpening (cs.take (k + 1))) ∧
      ran.2.1.firstTicks = latestOpening all ∧
      all.Pairwise (fun c c' => c.header.firstTicks ≤ c'.header.firstTicks) ∧
      ((events.filterMap Event.ticks?).Pairwise (· ≤ ·) →
        ∀ c ∈ all, c.ticks ≠ [] →
          c.header.firstTicks ∈ c.ticks ∧ ∀ t ∈ c.ticks, c.header.firstTicks ≤ t) := by
  have hnew : Traces (process, thread) [] [] b (s.ledgered []) := ⟨Cuts.new h, Leads.new h, rfl⟩
  obtain ⟨cs, hcuts, hleads, htaken⟩ := hnew.run steps
  refine ⟨cs, htaken, hcuts.framed, hcuts.events_eq, (leading_concat_iff.1 hleads.leading).1,
    hleads.firstTicks_eq, hleads.leading.pairwise, fun hsorted c hc => ?_⟩
  have hticks := ticks_of_clean hcuts.events_eq
  exact hleads.leading.earliest (by rwa [hticks]) hc

/-- A chunk with a name only, and one that is refused at first and then gets longer. -/
def outageSteps : List (Recorder.Step Op Memory) :=
  let failing (on : Bool) (s : Sink Memory) : Sink Memory :=
    { s with destination := { s.destination with failing := on } }
  [.perform (.name .thread [65]), .perform .flush, .perform (.spanEnd 5), .outside (failing true),
    .perform .flush, .quit, .perform (.name .process [66]), .outside (failing false),
    .perform (.spanEnd 6), .perform .flush, .perform (.spanEnd 8), .quit]

theorem run_firstTicks_outage :
    let b : Buffer := ⟨.filled minRegionSize 0, chunkHeaderSize, 7, 1, 0, false⟩
    let s : Sink Memory := ⟨.one, .empty, true⟩
    let ran := Recorder.run b (s.ledgered []) (outageSteps.map Recorder.Step.ledgered)
    Buffer.new (.filled minRegionSize 0) 7 1 = .ok b ∧
      ran.2.2.destination.taken.map List.length = [23, 41, 29] ∧
      recorded outageSteps ran.1 =
        [.threadName [65], .spanEnd 5, .processName [66], .spanEnd 6, .spanEnd 8] ∧
      ran.2.1.firstTicks = 8 ∧
      ∃ cs : List Chunk, ran.2.2.destination.taken = cs.map Chunk.toBytes ∧
        (∀ k (hk : k < cs.length), cs[k].header.firstTicks = latestOpening (cs.take (k + 1))) ∧
        ∀ c ∈ cs, c.ticks ≠ [] →
          c.header.firstTicks ∈ c.ticks ∧ ∀ t ∈ c.ticks, c.header.firstTicks ≤ t := by
  intro b s ran
  have hnew : Buffer.new (.filled minRegionSize 0) 7 1 = .ok b := rfl
  have hruns := run_firstTicks hnew s outageSteps
  extract_lets events at hruns
  have hrecorded : recorded outageSteps ran.1 =
      [.threadName [65], .spanEnd 5, .processName [66], .spanEnd 6, .spanEnd 8] := by
    decide +kernel
  have hsorted : ((recorded outageSteps ran.1).filterMap Event.ticks?).Pairwise (· ≤ ·) := by
    rw [hrecorded]
    decide
  have hlengths : ran.2.2.destination.taken.map List.length = [23, 41, 29] := by decide +kernel
  have hlatest : ran.2.1.firstTicks = 8 := by decide +kernel
  -- the run itself need not be looked at any more
  clear_value ran
  obtain ⟨cs, htaken, -, -, hfirst, -, -, hearliest⟩ := hruns
  refine ⟨hnew, hlengths, hrecorded, hlatest, cs, htaken, hfirst, fun c hc => ?_⟩
  exact hearliest hsorted c (List.mem_append_left _ hc)

end Buffer

end ThreadTrace
