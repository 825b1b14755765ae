import ThreadTrace.Proofs.Capture.Chunks

/-!
# ThreadTrace.Proofs.Capture.Packing — chunks are filled greedily

`Packing` puts encodings into packets one after another: each goes into the packet that is open, or
into a new one if that has no room for it.  A buffer on a sink that takes everything is `Packed` like
this.  A request keeps it so (`Packed.after`), and `run_packs` has it for a whole recording: what the
sink is called for are the packets, each with a chunk header in one write.
-/

namespace ThreadTrace

open Wire

/-! ### Packing -/

/-- Packets of encodings that are closed, and one that is open. -/
structure Packing where
  closed : List (List (List UInt8))
  waiting : List (List UInt8)
  deriving DecidableEq

namespace Packing

/-- The size of the open packet. -/
def load (p : Packing) : Nat := p.waiting.flatten.length

/-- Whether the open packet has to be closed first: it has no room for an encoding, or there is
something in it and it is asked to be closed. -/
def full (room : Nat) (p : Packing) : Option (List UInt8) → Bool
  | some bs => room < p.load + bs.length
  | none => !p.waiting.isEmpty

/-- The packing when an item can be put in. -/
def ready (room : Nat) (p : Packing) (item : Option (List UInt8)) : Packing :=
  if p.full room item then ⟨p.closed ++ [p.waiting], []⟩ else p

/-- Put in an encoding, or just close the packet. -/
def add (room : Nat) (p : Packing) (item : Option (List UInt8)) : Packing :=
  { p.ready room item with waiting := (p.ready room item).waiting ++ item.toList }

/-- All packets, the last one closed too. -/
def pack (room : Nat) (items : List (Option (List UInt8))) : List (List (List UInt8)) :=
  ((items ++ [none]).foldl (add room) ⟨[], []⟩).closed

/-- All encodings in order. -/
def contents (p : Packing) : List (List UInt8) := p.closed.flatten ++ p.waiting

theorem contents_add (room : Nat) (p : Packing) (item : Option (List UInt8)) :
    (p.add room item).contents = p.contents ++ item.toList := by
  unfold add ready
  split <;> simp [contents]

theorem contents_foldl_add (room : Nat) (p : Packing) (items : List (Option (List UInt8))) :
    (items.foldl (add room) p).contents = p.contents ++ items.flatMap Option.toList := by
  induction items generalizing p with
  | nil => simp
  | cons item items ih =>
    rw [List.foldl_cons, ih, contents_add, List.append_assoc, List.flatMap_cons]

theorem waiting_add_none (room : Nat) (p : Packing) : (p.add room none).waiting = [] := by
  unfold add ready full
  cases hwaiting : p.waiting <;> simp [hwaiting]

/-- Nothing is lost on the way, and no encoding is cut. -/
theorem flatten_pack (room : Nat) (items : List (Option (List UInt8))) :
    (pack room items).flatten = items.flatMap Option.toList := by
  have hcontents := contents_foldl_add room ⟨[], []⟩ (items ++ [none])
  rw [List.foldl_append, List.flatMap_append] at hcontents
  rw [pack, List.foldl_append]
  simpa [contents, waiting_add_none] using hcontents

end Packing

/-! ### Sinks that take everything -/

/-- Whatever has been written, the destination takes more. -/
def Destination.Willing {δ : Type} [Destination δ] (d : δ) : Prop :=
  ∀ (bss : List (List UInt8)) (bs : List UInt8),
    (Destination.write (bss.foldl (fun d bs => (Destination.write d bs).2) d) bs).1 = .ok ()

theorem Memory.willing {m : Memory} (h : m.failing = false) : Destination.Willing m := by
  intro bss bs
  induction bss generalizing m with
  | nil => simp [Destination.write, write, h]
  | cons bs' bss ih =>
    refine ih (m := (m.write bs').2) ?_
    simp [write, h]

/-- The sink is open, and its destination takes everything. -/
structure Sink.Willing {δ : Type} [Destination δ] (s : Sink (Watched δ)) : Prop where
  isOpen : s.isOpen = true
  destination : Destination.Willing s.destination.destination

theorem Sink.Willing.write {δ : Type} [Destination δ] {s : Sink (Watched δ)} (h : s.Willing)
    (bs : List UInt8) :
    ∃ s', s.write bs = (.ok (), s') ∧ s'.Willing ∧
      s'.destination.calls = s.destination.calls ++ [.write bs] := by
  have htaken : (Destination.write s.destination.destination bs).1 = .ok () := h.destination [] bs
  rw [Sink.write, Sink.ask_of_isOpen h.isOpen]
  refine ⟨_, Prod.ext ?_ rfl, ⟨rfl, fun bss => h.destination (bs :: bss)⟩, rfl⟩
  show Outcome.reply (Destination.write s.destination.destination bs).1 = _
  rw [htaken]
  rfl

namespace Buffer

/-! ### One request -/

/-- The encoding of the event that a request brings. -/
def Op.bytes? (op : Op) : Option (List UInt8) := op.record?.map Record.toBytes

theorem Op.bytes?_of_record? {op : Op} {record : Record} (hop : op.record? = some record) :
    op.bytes? = some record.toBytes := by
  rw [Op.bytes?, hop, Option.map_some]

theorem Op.toBytes_ne_nil {op : Op} {record : Record} (hop : op.record? = some record) :
    record.toBytes ≠ [] := by
  cases op with
  | flush => cases hop
  | spanBegin | spanEnd | name =>
    obtain rfl := Option.some.inj hop
    exact List.cons_ne_nil _ _

/-- The chunks that were written are the closed packets, and what is waiting is the open one. -/
structure Packed (room : Nat) (owner : UInt32 × UInt32) (p : Packing) (cs : List Chunk)
    (b : Buffer) : Prop where
  sound : b.Sound
  size_eq : b.region.size = chunkHeaderSize + room
  owner_eq : b.owner = owner
  pending_eq : b.pending = p.waiting.flatten
  /-- So the open packet is empty if nothing is waiting. -/
  ne_nil : ∀ bs ∈ p.waiting, bs ≠ []
  payloads_eq : cs.map Chunk.payload = p.closed.map List.flatten
  chunks : ∀ c ∈ cs, c.Framed ∧ c.owner = owner ∧ c.payload ≠ [] ∧ c.payload.length ≤ room

namespace Packed

variable {room : Nat} {owner : UInt32 × UInt32} {p : Packing} {cs : List Chunk} {b : Buffer}
variable {op : Op} {record : Record}

theorem new {region : Region} {process thread : UInt32}
    (h : Buffer.new region process thread = .ok b) :
    Packed (region.size - chunkHeaderSize) (process, thread) ⟨[], []⟩ [] b := by
  obtain ⟨rfl, hsound⟩ := new_eq_ok h
  refine ⟨hsound, ?_, rfl, pending_of_isEmpty (beq_self_eq_true _), by simp, rfl, by simp⟩
  have hle : chunkHeaderSize ≤ region.size := hsound.head_le
  show region.size = chunkHeaderSize + (region.size - chunkHeaderSize)
  omega

theorem load_eq (h : Packed room owner p cs b) : p.load = b.length := by
  rw [Packing.load, ← h.pending_eq, length_pending h.sound]

theorem isEmpty_eq (h : Packed room owner p cs b) : p.waiting.isEmpty = b.isEmpty := by
  have hload := h.load_eq
  have hge := h.sound.head_ge
  rw [Bool.eq_iff_iff, List.isEmpty_iff, isEmpty, beq_iff_eq]
  constructor
  · intro hnil
    rw [Packing.load, hnil, length] at hload
    simp only [List.flatten_nil, List.length_nil] at hload
    omega
  · intro hhead
    rw [length, hhead, Nat.sub_self, Packing.load, List.length_eq_zero_iff,
      List.flatten_eq_nil_iff] at hload
    exact List.eq_nil_iff_forall_not_mem.2 fun bs hbs => h.ne_nil bs hbs (hload bs hbs)

/-- A request needs the sink if it closes the packet. -/
theorem full_eq (h : Packed room owner p cs b) (op : Op) :
    p.full room op.bytes? = !b.settles op := by
  cases hop : op.record? with
  | none =>
    obtain rfl := Op.eq_flush hop
    show (!p.waiting.isEmpty) = _
    rw [h.isEmpty_eq, settles_flush]
  | some record =>
    have hsize := h.size_eq
    have hge := h.sound.head_ge
    rw [Op.bytes?_of_record? hop, Packing.full, h.load_eq, Record.length_toBytes, settles, hop,
      ← decide_not, decide_eq_decide, length]
    omega

/-- What is waiting becomes a chunk. -/
theorem emptied (h : Packed room owner p cs b) (hne : b.isEmpty = false) :
    Packed room owner ⟨p.closed ++ [p.waiting], []⟩ (cs ++ [b.chunk]) b.emptied where
  sound := emptied_sound h.sound
  size_eq := (size_stamped h.sound).trans h.size_eq
  owner_eq := h.owner_eq
  pending_eq := pending_emptied b
  ne_nil _ hbs := absurd hbs List.not_mem_nil
  payloads_eq := by
    rw [List.map_append, List.map_append, h.payloads_eq]
    exact congrArg (fun bs => p.closed.map List.flatten ++ [bs]) h.pending_eq
  chunks c hc := by
    obtain hc | hc := List.mem_append.1 hc
    · exact h.chunks c hc
    · obtain rfl := List.mem_singleton.1 hc
      have hlength : b.chunk.payload.length = b.head - chunkHeaderSize := length_pending h.sound
      have hle := h.sound.head_le
      have hsize := h.size_eq
      refine ⟨chunk_framed h.sound, (chunk_owner b).trans h.owner_eq,
        pending_ne_nil h.sound hne, ?_⟩
      omega

theorem stored (h : Packed room owner p cs b) (hop : op.record? = some record)
    (hfit : b.head + record.size ≤ b.region.size) (ticks : Option UInt64) :
    Packed room owner ⟨p.closed, p.waiting ++ [record.toBytes]⟩ cs (b.stored record ticks) where
  sound := stored_sound h.sound hfit
  size_eq := (Region.size_write? (write?_record ticks hfit)).trans h.size_eq
  owner_eq := h.owner_eq
  pending_eq := by
    rw [pending_stored h.sound hfit, h.pending_eq, List.flatten_concat]
  ne_nil bs hbs := by
    obtain hbs | hbs := List.mem_append.1 hbs
    · exact h.ne_nil bs hbs
    · obtain rfl := List.mem_singleton.1 hbs
      exact Op.toBytes_ne_nil hop
  payloads_eq := h.payloads_eq
  chunks := h.chunks

theorem ready (h : Packed room owner p cs b) (op : Op) :
    Packed room owner (p.ready room op.bytes?) (cs ++ b.sent op) (b.ready op) := by
  rw [Packing.ready, h.full_eq]
  cases hsettles : b.settles op with
  | true =>
    rw [sent_of_settles hsettles, List.append_nil, Buffer.ready, if_pos hsettles]
    exact h
  | false =>
    rw [sent_of_not_settles hsettles, Buffer.ready, hsettles]
    exact h.emptied (isEmpty_of_not_settles h.sound hsettles)

/-- A request that is granted. -/
theorem after (h : Packed room owner p cs b) (op : Op) :
    Packed room owner (p.add room op.bytes?) (cs ++ b.sent op) (b.after op (.ok ())) := by
  have hready := h.ready op
  cases hop : op.record? with
  | none =>
    obtain rfl := Op.eq_flush hop
    have hnone : Op.flush.bytes?.toList = [] := rfl
    rw [Packing.add, hnone, List.append_nil]
    exact hready
  | some record =>
    have hstored := hready.stored hop (ready_fits h.sound hop) op.ticks?
    rw [Op.bytes?_of_record? hop] at hstored ⊢
    rw [Packing.add, Option.toList_some]
    simpa only [Buffer.after, hop] using hstored

end Packed

/-! ### Runs -/

open Recorder

variable {δ : Type} [Destination δ] {room : Nat} {owner : UInt32 × UInt32} {p : Packing}
variable {cs : List Chunk} {b : Buffer} {s : Sink (Watched δ)}

/-- A sink that takes everything is called for the chunk in the making, or not at all. -/
theorem perform_willing (hb : b.Sound) (hs : s.Willing) (op : Op) :
    ∃ s', b.perform s op = (.ok (), b.after op (.ok ()), s') ∧ s'.Willing ∧
      s'.destination.calls =
        s.destination.calls ++ (b.sent op).map fun c => .write c.toBytes := by
  cases hsettles : b.settles op with
  | true =>
    rw [perform_of_settles hb hsettles, sent_of_settles hsettles]
    exact ⟨s, rfl, hs, (List.append_nil _).symm⟩
  | false =>
    obtain ⟨s', hwrite, hs', hcalls⟩ := hs.write b.chunk.toBytes
    rw [perform_of_not_settles hb hsettles, hwrite, sent_of_not_settles hsettles]
    exact ⟨s', rfl, hs', hcalls⟩

/-- A run without its end. -/
theorem Packed.run (h : Packed room owner p cs b) (hs : s.Willing) (ops : List Op) :
    let ran := Recorder.run b s (ops.map .perform)
    (∀ answer ∈ ran.1, answer.error? = none) ∧ ran.2.2.Willing ∧
      ∃ cs', ran.2.2.destination.calls =
          s.destination.calls ++ cs'.map (fun c => .write c.toBytes) ∧
        Packed room owner ((ops.map Op.bytes?).foldl (Packing.add room) p) (cs ++ cs')
          ran.2.1 := by
  induction ops generalizing p cs b s with
  | nil =>
    refine ⟨fun answer hanswer => absurd hanswer List.not_mem_nil, hs, [],
      (List.append_nil _).symm, ?_⟩
    rw [List.append_nil]
    exact h
  | cons op ops ih =>
    obtain ⟨s', hperform, hs', hcalls⟩ := perform_willing h.sound hs op
    obtain ⟨hanswers, hlast, cs', hcalls', hpacked⟩ := ih (h.after op) hs'
    rw [List.map_cons, run_perform, perform_buffer, hperform]
    refine ⟨fun answer hanswer => ?_, hlast, b.sent op ++ cs', ?_, ?_⟩
    · obtain rfl | hanswer := List.mem_cons.1 hanswer
      · rfl
      · exact hanswers answer hanswer
    · rw [hcalls', hcalls, List.map_append, List.append_assoc]
    · rw [← List.append_assoc]
      exact hpacked

/-- A whole recording; to quit closes the last packet. -/
theorem Packed.recording (h : Packed room owner p cs b) (hs : s.Willing) (ops : List Op) :
    let ran := Recorder.run b s (ops.map .perform ++ [.quit])
    (∀ answer ∈ ran.1, answer.error? = none) ∧
      ∃ cs', ran.2.2.destination.calls =
          s.destination.calls ++ cs'.map (fun c => .write c.toBytes) ∧
        Packed room owner ((ops.map Op.bytes? ++ [none]).foldl (Packing.add room) p) (cs ++ cs')
          ran.2.1 := by
  obtain ⟨hanswers, hs', cs', hcalls, hpacked⟩ := h.run hs ops
  rw [run_append]
  generalize Recorder.run b s (ops.map .perform) = reached at hanswers hs' hcalls hpacked ⊢
  obtain ⟨answers, b', s'⟩ := reached
  obtain ⟨s'', hflush, -, hcalls'⟩ := perform_willing hpacked.sound hs' .flush
  have hquit : Recorder.run b' s' [.quit] =
      ([.handed (.ok (b'.after .flush (.ok ())).region)], b'.after .flush (.ok ()), s'') := by
    show ([Answer.handed (b'.quit s').1], (b'.quit s').2) = _
    rw [quit_eq, hflush]
    rfl
  rw [hquit]
  refine ⟨fun answer hanswer => ?_, cs' ++ b'.sent .flush, ?_, ?_⟩
  · obtain hanswer | hanswer := List.mem_append.1 hanswer
    · exact hanswers answer hanswer
    · obtain rfl := List.mem_singleton.1 hanswer
      rfl
  · rw [hcalls', hcalls, List.map_append, List.append_assoc]
  · rw [List.foldl_append, ← List.append_assoc]
    exact hpacked.after .flush

/-- What a request makes the sink write first is said by the packing. -/
theorem Packed.calls_perform (h : Packed room owner p cs b) (hs : s.Willing) (op : Op) :
    (b.perform s op).2.2.destination.calls = s.destination.calls ++
      if p.full room op.bytes? then [.write b.chunk.toBytes] else [] := by
  obtain ⟨s', hperform, -, hcalls⟩ := perform_willing h.sound hs op
  rw [hperform, hcalls, h.full_eq, sent]
  cases b.settles op <;> rfl

theorem Packed.full_some (h : Packed room owner p cs b) (bs : List UInt8) :
    p.full room (some bs) = true ↔ room < b.length + bs.length := by
  rw [Packing.full, h.load_eq, decide_eq_true_iff]

theorem Packed.full_none (h : Packed room owner p cs b) :
    p.full room none = true ↔ 0 < b.length := by
  have hge := h.sound.head_ge
  have hfull := h.full_eq .flush
  rw [settles_flush, isEmpty] at hfull
  rw [show p.full room none = _ from hfull, Bool.not_eq_true', beq_eq_false_iff_ne, length]
  omega

/-- An event that just fits is stored, and then the region is full. -/
theorem Packed.perform_exact {δ : Type} [Destination δ] (h : Packed room owner p cs b) {op : Op}
    {bs : List UInt8} (hop : op.bytes? = some bs) (hexact : b.length + bs.length = room)
    (s : Sink δ) :
    (b.perform s op).2.2 = s ∧ (b.perform s op).2.1.head = chunkHeaderSize + room := by
  obtain ⟨record, hrecord, rfl⟩ := Option.map_eq_some_iff.1 hop
  have hge := h.sound.head_ge
  rw [length, Record.length_toBytes] at hexact
  have hsettles : b.settles op = true := by
    rw [settles_iff hrecord, h.size_eq]
    omega
  rw [perform_of_settles h.sound hsettles]
  refine ⟨rfl, ?_⟩
  simp only [Buffer.after, hrecord, Buffer.ready, hsettles, if_true]
  show b.head + record.size = _
  omega

/-- A chunk that was written holds something and is not larger than the region. -/
theorem Packed.chunk_size (h : Packed room owner p cs b) {c : Chunk} (hc : c ∈ cs) :
    c.toBytes.length = 20 + c.header.payloadSize.toNat ∧ 1 ≤ c.header.payloadSize.toNat ∧
      c.toBytes.length ≤ chunkHeaderSize + room := by
  obtain ⟨hframed, -, hne, hle⟩ := h.chunks c hc
  have hlength : c.toBytes.length = chunkHeaderSize + c.payload.length := by
    rw [Chunk.toBytes, List.length_append, ChunkHeader.length_toBytes]
  rw [hlength, ← hframed]
  exact ⟨rfl, List.length_pos_of_ne_nil hne, Nat.add_le_add_left hle _⟩

/-- **Chunks are filled greedily.**  On a sink that is open and takes everything, a recording makes
the sink write the packets of its encodings, each as a chunk in one write, and calls it for nothing
else.  Events are not cut or lost.  A request writes the chunk in the making first if its event has
no room behind it, and a flush and a `quit` write it if there is something in it; an event that just
fits fills the region. -/
theorem run_packs {region : Region} {process thread : UInt32} {b : Buffer}
    (hnew : Buffer.new region process thread = .ok b) {s : Sink (Watched δ)}
    (hopen : s.isOpen = true) (hwilling : Destination.Willing s.destination.destination)
    (ops : List Op) :
    let room := region.size - chunkHeaderSize
    let packets := Packing.pack room (ops.map Op.bytes?)
    let ran := Recorder.run b s (ops.map .perform ++ [.quit])
    let reached := Recorder.run b s (ops.map .perform)
    let asked (op : Op) := reached.2.1.perform reached.2.2 op
    let chunkWritten : List Call := [.write reached.2.1.chunk.toBytes]
    (∀ answer ∈ ran.1, answer.error? = none) ∧
    (∃ cs : List Chunk,
      ran.2.2.destination.calls = s.destination.calls ++ cs.map (fun c => .write c.toBytes) ∧
      cs.map Chunk.payload = packets.map List.flatten ∧
      ∀ c ∈ cs, c.Framed ∧ c.owner = (process, thread) ∧
        c.toBytes.length = 20 + c.header.payloadSize.toNat ∧
        1 ≤ c.header.payloadSize.toNat ∧ c.toBytes.length ≤ region.size) ∧
    packets.flatten = ops.flatMap (·.bytes?.toList) ∧
    (∀ op bs, op.bytes? = some bs →
      (asked op).2.2.destination.calls = reached.2.2.destination.calls ++
        if room < reached.2.1.length + bs.length then chunkWritten else []) ∧
    (∀ op bs, op.bytes? = some bs → reached.2.1.length + bs.length = room →
      (asked op).2.2 = reached.2.2 ∧ (asked op).2.1.head = region.size) ∧
    (asked .flush).2.2.destination.calls = reached.2.2.destination.calls ++
      (if 0 < reached.2.1.length then chunkWritten else []) ∧
    (reached.2.1.quit reached.2.2).2.2.destination.calls = reached.2.2.destination.calls ++
      if 0 < reached.2.1.length then chunkWritten else [] := by
  intro room packets ran reached asked chunkWritten
  have hnew' := Packed.new hnew
  have hroom : chunkHeaderSize + room = region.size :=
    Nat.add_sub_cancel' (Nat.le_trans (by decide) (exists_new_iff.1 ⟨b, hnew⟩).1)
  obtain ⟨hanswers, cs, hcalls, hwritten⟩ := hnew'.recording ⟨hopen, hwilling⟩ ops
  obtain ⟨-, hs, cs', -, hpacked⟩ := hnew'.run ⟨hopen, hwilling⟩ ops
  rw [List.nil_append] at hwritten hpacked
  have hflush : (asked .flush).2.2.destination.calls = reached.2.2.destination.calls ++
      if 0 < reached.2.1.length then chunkWritten else [] :=
    (hpacked.calls_perform hs .flush).trans (congrArg _ (if_congr hpacked.full_none rfl rfl))
  refine ⟨hanswers, ⟨cs, hcalls, hwritten.payloads_eq, fun c hc => ?_⟩,
    (Packing.flatten_pack _ _).trans (List.flatMap_map ..), fun op bs hop => ?_,
    fun op bs hop hexact => ?_, hflush, ?_⟩
  · obtain ⟨hframed, howner, -⟩ := hwritten.chunks c hc
    have hsize := hwritten.chunk_size hc
    rw [hroom] at hsize
    exact ⟨hframed, howner, hsize⟩
  · have hcalls' := hpacked.calls_perform hs op
    rw [hop] at hcalls'
    exact hcalls'.trans (congrArg _ (if_congr (hpacked.full_some bs) rfl rfl))
  · obtain ⟨hsink, hhead⟩ := hpacked.perform_exact hop hexact reached.2.2
    exact ⟨hsink, hhead.trans hroom⟩
  · rw [quit_eq]
    exact hflush

/-- The second event just fits behind the first in a region of the least size. -/
def fittingOps : List Op :=
  [.spanEnd 4, .spanBegin (List.replicate 300 65) (List.replicate 246 66) 5, .name .thread [67],
    .flush, .flush, .spanEnd 9]

theorem run_packs_fitting :
    let region := Region.filled minRegionSize 0
    let b : Buffer := ⟨region, chunkHeaderSize, 7, 1, 0, false⟩
    let s : Sink (Watched Memory) := ⟨.one, .ofDestination .empty, true⟩
    let packets := Packing.pack 521 (fittingOps.map Op.bytes?)
    Buffer.new region 7 1 = .ok b ∧ s.isOpen = true ∧
      Destination.Willing s.destination.destination ∧
      packets.map (·.map List.length) = [[9, 512], [3], [9]] ∧
      ∃ cs : List Chunk,
        (Recorder.run b s (fittingOps.map .perform ++ [.quit])).2.2.destination.calls =
          cs.map (fun c => .write c.toBytes) ∧
        cs.map Chunk.payload = packets.map List.flatten := by
  intro region b s packets
  have hnew : Buffer.new region 7 1 = .ok b := rfl
  have hwilling : Destination.Willing s.destination.destination := Memory.willing rfl
  obtain ⟨-, ⟨cs, hcalls, hpayloads, -⟩, -⟩ := run_packs hnew rfl hwilling fittingOps
  exact ⟨hnew, rfl, hwilling, by decide +kernel, cs, hcalls, hpayloads⟩

end Buffer

end ThreadTrace
