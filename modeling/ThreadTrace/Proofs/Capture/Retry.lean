import ThreadTrace.Proofs.Capture.Chunks
import ThreadTrace.Proofs.Capture.Spool
import ThreadTrace.Proofs.Stream.Reader

/-!
# ThreadTrace.Proofs.Capture.Retry — what a stream is when nothing is given up

A destination that fails may have taken the first of the bytes.  A buffer does not hear of them:
asked again, it writes the whole chunk behind them.  `Placed` is a chunk with what was left of it
before it went through.  One request that is made until it is granted leaves at most one such chunk
(`Until.placed`), and a run of them, closed by a `quit`, the stream header and one for each chunk
(`Persists.placed`).  `Persists.readAll_iff` says when that can be read back.
-/

namespace ThreadTrace

open Wire

/-! ### Destinations that fail -/

/-- A write that succeeds appends the bytes, and one that fails the first of them: something that
the destination leaves behind. -/
structure Appends {δ : Type} [Destination δ] (contents : δ → List UInt8)
    (leaves : List UInt8 → Prop) : Prop where
  written : ∀ {d bs d'}, Destination.write d bs = (.ok (), d') → contents d' = contents d ++ bs
  refused : ∀ {d bs failure d'}, Destination.write d bs = (.error failure, d') →
    ∃ part, part <+: bs ∧ leaves part ∧ contents d' = contents d ++ part

namespace Appends

variable {δ : Type} [Destination δ] {contents : δ → List UInt8} {leaves : List UInt8 → Prop}

theorem write (h : Appends contents leaves) {s : Sink δ} (hopen : s.isOpen = true)
    (bs : List UInt8) :
    (∃ e s' part, s.write bs = (.error e, s') ∧ s'.isOpen = true ∧ part <+: bs ∧ leaves part ∧
      contents s'.destination = contents s.destination ++ part) ∨
    ∃ s', s.write bs = (.ok (), s') ∧ s'.isOpen = true ∧
      contents s'.destination = contents s.destination ++ bs := by
  rw [Sink.write, Sink.ask_of_isOpen hopen]
  rcases hwrite : Destination.write s.destination bs with ⟨failure | ⟨⟨⟩⟩, d⟩
  · obtain ⟨part, hpart, hleaves, hcontents⟩ := h.refused hwrite
    exact .inl ⟨_, _, part, rfl, rfl, hpart, hleaves, hcontents⟩
  · exact .inr ⟨_, rfl, rfl, h.written hwrite⟩

theorem start (h : Appends contents leaves) {unit : Binary64} {d : δ} {s : Sink δ}
    (hstart : Sink.start unit d = .ok s) :
    s.isOpen = true ∧
      contents s.destination = contents d ++ (StreamHeader.mk unit).toBytes := by
  unfold Sink.start at hstart
  split at hstart
  · rcases hwrite : Destination.write d (StreamHeader.mk unit).toBytes with ⟨failure | ⟨⟨⟩⟩, d'⟩
    · rw [hwrite] at hstart
      cases hstart
    · rw [hwrite] at hstart
      obtain rfl := Except.ok.inj hstart
      exact ⟨rfl, h.written hwrite⟩
  · cases hstart

end Appends

/-- A memory leaves nothing behind. -/
theorem Memory.appends : Appends Memory.contents (· = []) where
  written {m bs m'} h := by
    obtain ⟨writes, flushes, closes, failing, closeFails⟩ := m
    cases failing with
    | true => cases h
    | false =>
      cases h
      simp [Memory.contents]
  refused {m bs failure m'} h := by
    obtain ⟨writes, flushes, closes, failing, closeFails⟩ := m
    cases failing with
    | true =>
      cases h
      exact ⟨[], List.nil_prefix, rfl, (List.append_nil _).symm⟩
    | false => cases h

/-- A file on a disk that gets full may leave part of a write behind. -/
theorem SpoolFile.appends : Appends SpoolFile.text (fun _ => True) where
  written {f bs f'} h := text_of_write h
  refused {f bs failure f'} h := by
    obtain ⟨part, hpart, htext⟩ := f.exists_text_write bs
    have hwrite : f.write bs = (.error failure, f') := h
    rw [hwrite] at htext
    exact ⟨part, hpart, trivial, htext⟩

/-- A destination that breaks off in the middle of a write whenever it is told to. -/
structure Breaking where
  contents : List UInt8
  /-- For the next writes the number of bytes to take before failing, or none if all are taken. -/
  plan : List (Option Nat)

instance : Destination Breaking where
  write d bs :=
    match d.plan with
    | some n :: plan => (.error (.custom "broken off"), ⟨d.contents ++ bs.take n, plan⟩)
    | none :: plan => (.ok (), ⟨d.contents ++ bs, plan⟩)
    | [] => (.ok (), ⟨d.contents ++ bs, []⟩)
  flush d := (.ok (), d)
  close d := (.ok (), d)
  release := id

theorem Breaking.appends : Appends Breaking.contents (fun _ => True) where
  written {d bs d'} h := by
    obtain ⟨bytes, _ | ⟨_ | n, plan⟩⟩ := d <;> cases h <;> rfl
  refused {d bs failure d'} h := by
    obtain ⟨bytes, _ | ⟨_ | n, plan⟩⟩ := d <;> cases h
    exact ⟨bs.take n, List.take_prefix n bs, trivial, rfl⟩

/-- A chunk, and what is in front of it of the writes of it that failed. -/
structure Placed where
  torn : List (List UInt8)
  chunk : Chunk

namespace Placed

def toBytes (p : Placed) : List UInt8 := p.torn.flatten ++ p.chunk.toBytes

/-- What is in front are first bytes of the chunk, as they were left behind. -/
def Sound (leaves : List UInt8 → Prop) (p : Placed) : Prop :=
  ∀ part ∈ p.torn, part <+: p.chunk.toBytes ∧ leaves part

theorem length_le_flatMap (ps : List Placed) :
    ((ps.map chunk).flatMap Chunk.toBytes).length ≤ (ps.flatMap toBytes).length := by
  induction ps with
  | nil => exact Nat.le_refl _
  | cons p ps ih =>
    simp only [List.map_cons, List.flatMap_cons, List.length_append, toBytes]
    omega

/-- Nothing but the chunks is there exactly if nothing was left behind. -/
theorem flatMap_toBytes_eq_iff (ps : List Placed) :
    ps.flatMap toBytes = (ps.map chunk).flatMap Chunk.toBytes ↔
      ∀ p ∈ ps, ∀ part ∈ p.torn, part = [] := by
  induction ps with
  | nil => simp
  | cons p ps ih =>
    rw [List.forall_mem_cons, ← ih, ← List.flatten_eq_nil_iff, List.map_cons, List.flatMap_cons,
      List.flatMap_cons, toBytes, List.append_assoc]
    constructor
    · intro h
      -- behind the first chunk there is not less than the other chunks
      have hrest := length_le_flatMap ps
      have hlength := congrArg List.length h
      simp only [List.length_append] at hlength
      have hnil : p.torn.flatten = [] := List.eq_nil_of_length_eq_zero (by omega)
      rw [hnil, List.nil_append] at h
      exact ⟨hnil, List.append_cancel_left h⟩
    · rintro ⟨hnil, hrest⟩
      rw [hnil, List.nil_append, hrest]

end Placed

namespace Buffer

/-! ### Requests that are made again -/

/-- What is asked is asked again until it is granted. -/
inductive Until {δ α : Type} (ask : Buffer → Sink δ → Except CaptureError α × Buffer × Sink δ) :
    Buffer → Sink δ → Buffer → Sink δ → Prop
  | granted {b s a b' s'} (h : ask b s = (.ok a, b', s')) : Until ask b s b' s'
  | refused {b s e b₁ s₁ b' s'} (h : ask b s = (.error e, b₁, s₁)) (again : Until ask b₁ s₁ b' s') :
    Until ask b s b' s'

variable {δ : Type} [Destination δ]

/-- These requests one after another and then `quit`, none of them given up. -/
inductive Persists : List Op → Buffer → Sink δ → Buffer → Sink δ → Prop
  | quit {b s b' s'} (h : Until quit b s b' s') : Persists [] b s b' s'
  | perform {op ops b s b₁ s₁ b' s'} (h : Until (fun b s => b.perform s op) b s b₁ s₁)
    (rest : Persists ops b₁ s₁ b' s') : Persists (op :: ops) b s b' s'

variable {contents : δ → List UInt8} {leaves : List UInt8 → Prop}
variable {op : Op} {ops : List Op} {b b' : Buffer} {s s' : Sink δ}
variable {owner : UInt32 × UInt32} {events : List Event} {cs : List Chunk}

/-- A request is granted without the sink, or its chunk is written, or the sink refuses the chunk
and something may be left of it. -/
theorem perform_cases (hδ : Appends contents leaves) (hb : b.Sound) (hopen : s.isOpen = true)
    (op : Op) :
    (b.sent op = [] ∧ b.perform s op = (.ok (), b.after op (.ok ()), s)) ∨
    (∃ s', b.sent op = [b.chunk] ∧ b.perform s op = (.ok (), b.after op (.ok ()), s') ∧
      s'.isOpen = true ∧
      contents s'.destination = contents s.destination ++ b.chunk.toBytes) ∨
    ∃ e s' part, b.sent op = [b.chunk] ∧ b.perform s op = (.error e, b.stamped, s') ∧
      s'.isOpen = true ∧ part <+: b.chunk.toBytes ∧ leaves part ∧
      contents s'.destination = contents s.destination ++ part := by
  cases hsettles : b.settles op with
  | true => exact .inl ⟨sent_of_settles hsettles, perform_of_settles hb hsettles s⟩
  | false =>
    have hsent := sent_of_not_settles hsettles
    have hperform := perform_of_not_settles hb hsettles s
    obtain ⟨e, s', part, hwrite, hleft⟩ | ⟨s', hwrite, hwritten⟩ := hδ.write hopen b.chunk.toBytes
    · rw [hwrite] at hperform
      exact .inr (.inr ⟨e, s', part, hsent, hperform, hleft⟩)
    · rw [hwrite] at hperform
      exact .inr (.inl ⟨s', hsent, hperform, hwritten⟩)

namespace Until

theorem flush_of_quit (h : Until quit b s b' s') :
    Until (fun b s => b.perform s .flush) b s b' s' := by
  induction h with
  | @granted b s a b' s' hask =>
    rw [quit_eq] at hask
    rcases hflush : b.perform s .flush with ⟨e | ⟨⟨⟩⟩, b₁, s₁⟩
    · rw [hflush] at hask
      cases hask
    · rw [hflush] at hask
      obtain ⟨-, rfl, rfl⟩ := Prod.mk.inj hask |>.imp_right Prod.mk.inj
      exact .granted hflush
  | @refused b s e b₁ s₁ b' s' hask again ih =>
    rw [quit_eq] at hask
    rcases hflush : b.perform s .flush with ⟨e' | ⟨⟨⟩⟩, b₂, s₂⟩
    · rw [hflush] at hask
      obtain ⟨-, rfl, rfl⟩ := Prod.mk.inj hask |>.imp_right Prod.mk.inj
      exact .refused hflush ih
    · rw [hflush] at hask
      cases hask

/-- A flush that is granted in the end leaves nothing waiting. -/
theorem isEmpty (h : Until (fun b s => b.perform s .flush) b s b' s') (hb : b.Sound) :
    b'.isEmpty := by
  induction h with
  | @granted b s a b' s' hask =>
    have hflush : b.flush s = (.ok a, b', s') := hask
    have hempty := isEmpty_flush hb (s := s) (by rw [hflush])
    rwa [hflush] at hempty
  | @refused b s e b₁ s₁ b' s' hask again ih =>
    have hafter := perform_eq_after hb .flush s
    rw [show b.perform s .flush = _ from hask] at hafter
    obtain ⟨-, rfl, -⟩ := Prod.mk.inj hafter |>.imp_right Prod.mk.inj
    exact ih (after_sound hb .flush _)

/-- What is sent for one request is there in the end, behind what was left of it before. -/
theorem placed (h : Until (fun b s => b.perform s op) b s b' s') (hδ : Appends contents leaves)
    (hcuts : Cuts owner events cs b) (hopen : s.isOpen = true) :
    ∃ ps : List Placed, ps.map Placed.chunk = b.sent op ∧ (∀ p ∈ ps, p.Sound leaves) ∧
      s'.isOpen = true ∧
      contents s'.destination = contents s.destination ++ ps.flatMap Placed.toBytes ∧
      Cuts owner (events ++ op.event?.toList) (cs ++ b.sent op) b' := by
  induction h with
  | @granted b s a b' s' hask =>
    have hask : b.perform s op = (.ok a, b', s') := hask
    have hafter := hcuts.after op
    obtain ⟨hsent, hperform⟩ | ⟨s₁, hsent, hperform, hopen', hcontents⟩ |
      ⟨e, s₁, part, -, hperform, -⟩ := perform_cases hδ hcuts.sound hopen op
    · cases hperform.symm.trans hask
      exact ⟨[], hsent.symm, by simp, hopen, by simp, hafter⟩
    · cases hperform.symm.trans hask
      refine ⟨[⟨[], b.chunk⟩], hsent.symm, ?_, hopen', ?_, hafter⟩
      · simp [Placed.Sound]
      · simp [hcontents, Placed.toBytes]
    · cases hperform.symm.trans hask
  | @refused b s e b₁ s₁ b' s' hask again ih =>
    have hask : b.perform s op = (.error e, b₁, s₁) := hask
    obtain ⟨-, hperform⟩ | ⟨s₂, -, hperform, -⟩ |
      ⟨e', s₂, part, hsent, hperform, hopen', hpart, hleaves, hcontents⟩ :=
        perform_cases hδ hcuts.sound hopen op
    · cases hperform.symm.trans hask
    · cases hperform.symm.trans hask
    · cases hperform.symm.trans hask
      obtain ⟨ps, hps, hsound, hopen'', hrest, hcuts'⟩ := ih hcuts.stamped hopen'
      rw [sent_stamped hcuts.sound] at hps hcuts'
      -- the same chunk is sent again
      obtain ⟨p, rfl, hp⟩ := List.map_eq_singleton_iff.1 (hps.trans hsent)
      refine ⟨[⟨part :: p.torn, b.chunk⟩], hsent.symm, ?_, hopen'', ?_, hcuts'⟩
      · intro q hq
        obtain rfl := List.mem_singleton.1 hq
        have hp' := hsound p (List.mem_singleton_self p)
        rw [Placed.Sound, hp] at hp'
        exact List.forall_mem_cons.2 ⟨⟨hpart, hleaves⟩, hp'⟩
      · rw [hrest, hcontents]
        simp [Placed.toBytes, hp]

end Until

namespace Persists

/-- In the end all events are in the chunks that are there. -/
theorem placed (h : Persists ops b s b' s') (hδ : Appends contents leaves)
    (hcuts : Cuts owner events cs b) (hopen : s.isOpen = true) :
    ∃ ps : List Placed, (∀ p ∈ ps, p.Sound leaves) ∧
      contents s'.destination = contents s.destination ++ ps.flatMap Placed.toBytes ∧
      Cuts owner (events ++ ops.filterMap Op.event?) (cs ++ ps.map Placed.chunk) b' ∧
      b'.isEmpty := by
  induction h generalizing events cs with
  | quit hquit =>
    have hflush := hquit.flush_of_quit
    obtain ⟨ps, hps, hsound, -, hcontents, hcuts'⟩ := hflush.placed hδ hcuts hopen
    rw [← hps] at hcuts'
    exact ⟨ps, hsound, hcontents, hcuts', hflush.isEmpty hcuts.sound⟩
  | @perform op ops b s b₁ s₁ b' s' huntil rest ih =>
    obtain ⟨ps, hps, hsound, hopen', hcontents, hcuts'⟩ := huntil.placed hδ hcuts hopen
    obtain ⟨qs, hsound', hcontents', hlast, hempty⟩ := ih hcuts' hopen'
    have hevents : events ++ op.event?.toList ++ ops.filterMap Op.event? =
        events ++ (op :: ops).filterMap Op.event? := by
      rw [List.append_assoc]
      cases hevent : op.event? <;> simp [hevent]
    rw [hevents, ← hps, List.append_assoc, ← List.map_append] at hlast
    refine ⟨ps ++ qs, fun p hp => ?_, ?_, hlast, hempty⟩
    · exact (List.mem_append.1 hp).elim (hsound p) (hsound' p)
    · rw [hcontents', hcontents, List.append_assoc, ← List.flatMap_append]

/-- **Events are never lost, but what a failed write left behind stays in the stream.**  When
nothing is given up, the stream is its header and the chunks with all events, each once and in
order, and each chunk has in front of it what its failed writes left.  The chunks can be read back
if nothing was left, and only then; a destination that never leaves anything is safe. -/
theorem readAll_iff {unit : Binary64} {d : δ} {region : Region} {process thread : UInt32}
    (hδ : Appends contents leaves) (hd : contents d = []) (hstart : Sink.start unit d = .ok s)
    (hnew : Buffer.new region process thread = .ok b) (h : Persists ops b s b' s') :
    let bytes := contents s'.destination
    ∃ ps : List Placed,
      bytes = (StreamHeader.mk unit).toBytes ++ ps.flatMap Placed.toBytes ∧
      (∀ p ∈ ps, p.chunk.Framed ∧ p.chunk.owner = (process, thread) ∧ p.Sound leaves) ∧
      (ps.map Placed.chunk).flatMap Chunk.events = (ops.filterMap Op.event?).map .ok ∧
      ((Reader.ofBytes bytes).readAll = .ok ⟨⟨unit⟩, ps.map Placed.chunk⟩ ↔
        ∀ p ∈ ps, ∀ part ∈ p.torn, part = []) ∧
      ((∀ part, leaves part → part = []) →
        ∃ t, (Reader.ofBytes bytes).readAll = .ok t ∧ t.header = ⟨unit⟩ ∧
          t.chunks.flatMap Chunk.events = (ops.filterMap Op.event?).map .ok) := by
  intro bytes
  obtain ⟨hopen, hheader⟩ := hδ.start hstart
  obtain ⟨ps, hsound, hcontents, hcuts, hempty⟩ := h.placed hδ (Cuts.new hnew) hopen
  rw [hheader, hd, List.nil_append] at hcontents
  have hframed : ∀ p ∈ ps, p.chunk.Framed ∧ p.chunk.owner = (process, thread) := fun p hp =>
    hcuts.framed p.chunk (by simpa using List.mem_map_of_mem hp)
  have hevents : (ps.map Placed.chunk).flatMap Chunk.events = (ops.filterMap Op.event?).map .ok := by
    have hnone : b'.chunk.events = [] := by
      rw [Chunk.events, chunk, pending_of_isEmpty hempty, decodeEvents]
    have hall := hcuts.events_eq
    rwa [List.flatMap_append, List.flatMap_singleton, hnone, List.append_nil] at hall
  have hread : (Reader.ofBytes bytes).readAll = .ok ⟨⟨unit⟩, ps.map Placed.chunk⟩ ↔
      ∀ p ∈ ps, ∀ part ∈ p.torn, part = [] := by
    rw [← Placed.flatMap_toBytes_eq_iff]
    refine (Reader.readAll_eq_ok_iff (Source.ofBytes_sound _) _).trans ?_
    have hrest : (Source.ofBytes bytes).rest = bytes := rfl
    rw [hrest, show bytes = _ from hcontents, Trace.toBytes]
    constructor
    · rintro ⟨hbytes, -⟩
      exact List.append_cancel_left hbytes
    · intro hbytes
      refine ⟨by rw [hbytes], fun c hc => ?_⟩
      obtain ⟨p, hp, rfl⟩ := List.mem_map.1 hc
      exact (hframed p hp).1
  refine ⟨ps, hcontents, fun p hp => ⟨(hframed p hp).1, (hframed p hp).2, hsound p hp⟩, hevents,
    hread, fun hclean => ?_⟩
  have hnothing : ∀ p ∈ ps, ∀ part ∈ p.torn, part = [] := fun p hp part hpart =>
    hclean part (hsound p hp part hpart).2
  exact ⟨_, hread.2 hnothing, rfl, hevents⟩

/-- A buffer with the end of a span, told to quit twice: its chunk breaks off after four bytes when
it is first written. -/
theorem readAll_brokenOff :
    let b : Buffer := ⟨.filled minRegionSize 0, chunkHeaderSize, 7, 1, 0, false⟩
    let d : Breaking := ⟨[], [none, some 4]⟩
    let c : Chunk := ⟨⟨9, 1, 7, 5⟩, [4, 5, 0, 0, 0, 0, 0, 0, 0]⟩
    let bytes := (StreamHeader.mk .one).toBytes ++ c.toBytes.take 4 ++ c.toBytes
    ∃ s b' s', Sink.start .one d = .ok s ∧ Buffer.new (.filled minRegionSize 0) 7 1 = .ok b ∧
      Persists [.spanEnd 5] b s b' s' ∧ s'.destination.contents = bytes ∧
      (Reader.ofBytes bytes).readAll = .error (.decode (.truncated 8 4)) ∧
      ∃ ps : List Placed, bytes = (StreamHeader.mk .one).toBytes ++ ps.flatMap Placed.toBytes ∧
        (ps.map Placed.chunk).flatMap Chunk.events = [.ok (.spanEnd 5)] ∧
        ∃ p ∈ ps, ∃ part ∈ p.torn, part ≠ [] := by
  intro b d c bytes
  let header := (StreamHeader.mk .one).toBytes
  let s : Sink Breaking := ⟨.one, ⟨header, [some 4]⟩, true⟩
  let s₁ : Sink Breaking := ⟨.one, ⟨header ++ c.toBytes.take 4, []⟩, true⟩
  let s₂ : Sink Breaking := ⟨.one, ⟨bytes, []⟩, true⟩
  let b₁ := b.after (.spanEnd 5) (.ok ())
  have hstart : Sink.start .one d = .ok s := rfl
  have hnew : Buffer.new (.filled minRegionSize 0) 7 1 = .ok b := rfl
  have hsound : b.Sound := (new_eq_ok hnew).2
  have hsound₁ : b₁.Sound := after_sound hsound _ _
  have hchunk : b₁.chunk.toBytes = c.toBytes := by decide +kernel
  have hgranted : b.perform s (.spanEnd 5) = (.ok (), b₁, s) :=
    perform_of_settles hsound (by decide) s
  have hrefused : b₁.quit s = (.error (.io (.custom "broken off")), b₁.stamped, s₁) := by
    have hwrite : s.write c.toBytes = (.error (.io (.custom "broken off")), s₁) := rfl
    rw [quit_eq, perform_of_not_settles hsound₁ (by decide), hchunk, hwrite]
    rfl
  have hquit : b₁.stamped.quit s₁ =
      (.ok b₁.stamped.emptied.region, b₁.stamped.emptied, s₂) := by
    have hwrite : s₁.write c.toBytes = (.ok (), s₂) := rfl
    have hsettles := settles_stamped hsound₁ .flush
    rw [quit_eq, perform_of_not_settles (stamped_sound hsound₁) (hsettles.trans (by decide)),
      chunk_stamped hsound₁, hchunk, hwrite]
    rfl
  have hrun : Persists [.spanEnd 5] b s b₁.stamped.emptied s₂ :=
    .perform (.granted hgranted) (.quit (.refused hrefused (.granted hquit)))
  have hread : (Reader.ofBytes bytes).readAll = .error (.decode (.truncated 8 4)) := by
    decide +kernel
  obtain ⟨ps, hbytes, -, hevents, hiff, -⟩ := readAll_iff Breaking.appends rfl hstart hnew hrun
  refine ⟨s, _, s₂, hstart, hnew, hrun, rfl, hread, ps, hbytes, hevents, ?_⟩
  by_contra hnone
  push Not at hnone
  have hok : (Reader.ofBytes bytes).readAll = _ := hiff.2 hnone
  rw [hread] at hok
  cases hok

end Persists

end Buffer

end ThreadTrace
