import ThreadTrace.Proofs.Wire.Layout
import ThreadTrace.Wire.Record

/-!
# ThreadTrace.Proofs.Wire.Event — events are read as they were stored

The bytes of a record are laid out as the event it announces (`Record.laidOut`), and so they are read
as this event.  No bytes behind an event change it (`decodeEvent_eq_ok`), so that payloads put behind
one another are read one after the other, as long as the first can be read to its end
(`decodeEvents_append`).
-/

namespace ThreadTrace.Wire

/-! ### One event -/

theorem toNat_length_cut (bs : List UInt8) :
    (cut bs).length = (UInt8.ofNat (cut bs).length).toNat := by
  have hle : (cut bs).length ≤ 255 := by
    rw [length_cut]
    exact Nat.min_le_left _ _
  rw [UInt8.toNat_ofNat', Nat.mod_eq_of_lt (by omega)]

/-- A record is laid out as the event it announces. -/
theorem Record.laidOut {r : Record} {e : Event} (h : r.event? = some e) : e.LaidOut r.toBytes := by
  cases r with
  | streamHeader _ => cases h
  | chunkHeader _ => cases h
  | spanBegin name args ticks =>
    obtain rfl := Option.some.inj h
    simp only [Record.toBytes, List.cons_append, List.append_assoc]
    exact .spanBegin ticks (toNat_length_cut name) (toNat_length_cut args)
  | spanEnd ticks =>
    obtain rfl := Option.some.inj h
    exact .spanEnd ticks
  | naming kind name =>
    cases kind with
    | thread =>
      obtain rfl := Option.some.inj h
      exact .threadName (toNat_length_cut name)
    | process =>
      obtain rfl := Option.some.inj h
      exact .processName (toNat_length_cut name)
  | padding size =>
    obtain rfl := Option.some.inj h
    exact .padding List.length_replicate
  | unitChange unit =>
    obtain rfl := Option.some.inj h
    exact .unitChange unit

theorem reads_scanEvent {r : Record} {e : Event} (h : r.event? = some e) :
    Reads scanEvent r.toBytes e :=
  (Record.laidOut h).reads

theorem Reads.decodeEvent_append {used : List UInt8} {e : Event} (h : Reads scanEvent used e)
    (rest : List UInt8) : decodeEvent (used ++ rest) = .ok (e, used.length) := by
  simp [decodeEvent, h.whole]

/-- An event is in front of the bytes it was read from. -/
theorem decodeEvent_eq_ok {src : List UInt8} {e : Event} {n : Nat}
    (h : decodeEvent src = .ok (e, n)) :
    ∃ used rest, src = used ++ rest ∧ used.length = n ∧ Reads scanEvent used e := by
  unfold decodeEvent at h
  cases hs : scanEvent ⟨src, 0⟩ with
  | error e => simp [hs] at h
  | ok r =>
    obtain ⟨found, c'⟩ := r
    obtain ⟨used, hsrc, hlaid⟩ := scanEvent_eq_ok hs
    have hsrc : src = used ++ c'.rest := hsrc
    have hreads := hlaid.reads
    rw [hsrc, hreads.whole] at h
    simp only [Except.ok.injEq, Prod.mk.injEq, Nat.zero_add] at h
    obtain ⟨rfl, rfl⟩ := h
    exact ⟨used, c'.rest, hsrc, rfl, hreads⟩

/-! ### All events of a payload -/

/-- An event has a tag at least. -/
theorem Reads.ne_nil {used : List UInt8} {e : Event} (h : Reads scanEvent used e) : used ≠ [] := by
  rintro rfl
  cases h.whole [] 0

theorem Reads.decodeEvents_append {used : List UInt8} {e : Event} (h : Reads scanEvent used e)
    (rest : List UInt8) : decodeEvents (used ++ rest) = .ok e :: decodeEvents rest := by
  obtain ⟨b, bs, rfl⟩ := List.exists_cons_of_ne_nil h.ne_nil
  rw [List.cons_append, decodeEvents, ← List.cons_append, h.decodeEvent_append]
  simp

theorem decodeEvents_of_ok {src : List UInt8} {e : Event} {n : Nat}
    (h : decodeEvent src = .ok (e, n)) :
    decodeEvents src = .ok e :: decodeEvents (src.drop n) := by
  obtain ⟨used, rest, rfl, rfl, hreads⟩ := decodeEvent_eq_ok h
  rw [hreads.decodeEvents_append, List.drop_left]

theorem decodeEvents_of_error {src : List UInt8} {e : DecodeError} (hne : src ≠ [])
    (h : decodeEvent src = .error e) : decodeEvents src = [.error e] := by
  obtain ⟨b, bs, rfl⟩ := List.exists_cons_of_ne_nil hne
  rw [decodeEvents, h]

/-- Items are events, and at most one error at the end. -/
theorem exists_decodeEvents_eq (payload : List UInt8) :
    ∃ (es : List Event) (last : Option DecodeError),
      decodeEvents payload = es.map .ok ++ (last.map .error).toList := by
  induction payload using decodeEvents.induct with
  | case1 => exact ⟨[], none, by rw [decodeEvents]; rfl⟩
  | case2 b bs e h => exact ⟨[], some e, decodeEvents_of_error (List.cons_ne_nil b bs) h⟩
  | case3 b bs event used h ih =>
    obtain ⟨es, last, hrest⟩ := ih
    refine ⟨event :: es, last, ?_⟩
    simp only [decodeEvents, h, hrest]
    rfl

/-- An event takes one byte at least. -/
theorem length_decodeEvents_le (payload : List UInt8) :
    (decodeEvents payload).length ≤ payload.length := by
  induction payload using decodeEvents.induct with
  | case1 => simp [decodeEvents]
  | case2 b bs e h => simp [decodeEvents, h]
  | case3 b bs event used h ih =>
    rw [List.length_drop] at ih
    simp only [decodeEvents, h, List.length_cons]
    omega

/-- Every event of the payload can be read. -/
def Clean (payload : List UInt8) : Prop := ∀ item ∈ decodeEvents payload, ∃ e, item = .ok e

/-- What can be read to its end is nothing, or an event in front of what can be. -/
theorem Clean.induction {motive : List UInt8 → Prop} (nil : motive [])
    (event : ∀ {used e rest}, Reads scanEvent used e → motive rest → motive (used ++ rest))
    {payload : List UInt8} (h : Clean payload) : motive payload := by
  induction hn : payload.length using Nat.strongRecOn generalizing payload with
  | ind n ih =>
    by_cases hnil : payload = []
    · exact hnil ▸ nil
    rcases hdecode : decodeEvent payload with e | ⟨e, used⟩
    · have hitem : .error e ∈ decodeEvents payload := by
        rw [decodeEvents_of_error hnil hdecode]
        exact List.mem_singleton_self _
      obtain ⟨e', he⟩ := h _ hitem
      cases he
    · obtain ⟨used, rest, rfl, -, hreads⟩ := decodeEvent_eq_ok hdecode
      have hpos := List.length_pos_iff.2 hreads.ne_nil
      have hrest : Clean rest := fun item hitem => h item (by
        rw [hreads.decodeEvents_append]
        exact List.mem_cons_of_mem _ hitem)
      rw [List.length_append] at hn
      exact event hreads (ih rest.length (by omega) hrest rfl)

theorem decodeEvents_append {p : List UInt8} (hp : Clean p) (q : List UInt8) :
    decodeEvents (p ++ q) = decodeEvents p ++ decodeEvents q := by
  refine hp.induction (motive := fun p => decodeEvents (p ++ q) = decodeEvents p ++ decodeEvents q)
    ?_ fun {used e rest} hreads ih => ?_
  · rw [List.nil_append, decodeEvents, List.nil_append]
  · rw [List.append_assoc, hreads.decodeEvents_append, hreads.decodeEvents_append, ih,
      List.cons_append]

theorem decodeEvents_toBytes {r : Record} {e : Event} (h : r.event? = some e) :
    decodeEvents r.toBytes = [.ok e] := by
  have hd := (reads_scanEvent h).decodeEvents_append []
  rwa [List.append_nil, decodeEvents] at hd

end ThreadTrace.Wire
