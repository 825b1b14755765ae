import ThreadTrace.Capture.Destination
import Mathlib.Data.List.Basic

/-!
# ThreadTrace.Proofs.Capture.Spool — small writes on a disk of limited room

What is written to a spool file is on the disk or held, in order.  A file on a disk with limited
room goes the same way as one without a limit (`within`) for as long as there is room for what is
put onto the disk; the write that first needs more is refused, and then the disk is full.  `Brings`
says so of one request, and is kept when requests follow one another (`Brings.trans`).  From it
`text_of_write` and `text_of_settle` have what a request did that was not refused, whatever the
room, and `exists_text_write` what a write did in any case.
-/

namespace ThreadTrace

/-! ### The disk -/

namespace Disk

/-- A disk that had this room before these bytes were put onto it. -/
def within (room : Room) (contents : List UInt8) : Disk :=
  ⟨contents, some { room with bytes := room.bytes - contents.length }⟩

/-- A disk that took the first of these bytes and has no room for another one. -/
def full (room : Room) (text : List UInt8) : Disk :=
  ⟨text.take room.bytes, some { room with bytes := 0 }⟩

variable {room : Room} {contents bs : List UInt8}

theorem append_within (h : (contents ++ bs).length ≤ room.bytes) :
    (within room contents).append bs = ([], .ok (), within room (contents ++ bs)) := by
  rw [List.length_append] at h
  have hfit : bs.length ≤ room.bytes - contents.length := by omega
  simp only [append, within, hfit, if_true, List.drop_of_length_le hfit,
    List.take_of_length_le hfit, List.length_append, Nat.sub_sub]

theorem append_beyond (hle : contents.length ≤ room.bytes)
    (hlt : room.bytes < (contents ++ bs).length) :
    ∃ left, (within room contents).append bs =
      (left, .error room.refusal, full room (contents ++ bs)) := by
  rw [List.length_append] at hlt
  have hfit : ¬ bs.length ≤ room.bytes - contents.length := by omega
  have hnone : room.bytes - contents.length - bs.length = 0 := by omega
  refine ⟨bs.drop (room.bytes - contents.length), ?_⟩
  simp only [append, within, full, hfit, if_false, hnone, List.take_append,
    List.take_of_length_le hle]

end Disk

namespace SpoolFile

/-- The number of bytes that were put onto the disk. -/
def sent (f : SpoolFile) : Nat := f.disk.contents.length

/-- All that was written. -/
def text (f : SpoolFile) : List UInt8 := f.disk.contents ++ f.held

/-- The file on a disk that had this room before anything was written. -/
def within (room : Room) (f : SpoolFile) : SpoolFile := ⟨.within room f.disk.contents, f.held⟩

theorem sent_le (f : SpoolFile) : f.sent ≤ f.text.length := by
  rw [sent, text, List.length_append]
  exact Nat.le_add_right _ _

/-! ### Requests -/

/-- Asked for `op`, the file goes from `f` to `f'` and has these bytes more.  On a disk that has no
room for what is put onto it, the request is refused and the disk is full. -/
structure Brings (op : SpoolFile → Outcome × SpoolFile) (f : SpoolFile) (bs : List UInt8)
    (f' : SpoolFile) : Prop where
  room_eq : f'.disk.room = none
  text_eq : f'.text = f.text ++ bs
  sent_mono : f.sent ≤ f'.sent
  held_le : f.held.length ≤ capacity → f'.held.length ≤ capacity
  unlimited : op f = (.ok (), f')
  accepted {room} (h : f'.sent ≤ room.bytes) : op (f.within room) = (.ok (), f'.within room)
  refused {room} (hle : f.sent ≤ room.bytes) (hlt : room.bytes < f'.sent) :
    ∃ g, op (f.within room) = (.error room.refusal, g) ∧ g.disk = .full room f'.text

variable {f f' f'' : SpoolFile} {a b bs : List UInt8}
variable {op op' : SpoolFile → Outcome × SpoolFile}

/-- Go on with the file, if the request was not refused. -/
def andThen (op op' : SpoolFile → Outcome × SpoolFile) (f : SpoolFile) : Outcome × SpoolFile :=
  match op f with
  | (.ok (), f) => op' f
  | (.error failure, f) => (.error failure, f)

theorem andThen_of_ok (h : op f = (.ok (), f')) : andThen op op' f = op' f' := by
  simp only [andThen, h]

theorem andThen_of_error {failure : IoFailure} (h : op f = (.error failure, f')) :
    andThen op op' f = (.error failure, f') := by
  simp only [andThen, h]

theorem Brings.trans (h : Brings op f a f') (h' : Brings op' f' b f'') :
    Brings (andThen op op') f (a ++ b) f'' where
  room_eq := h'.room_eq
  text_eq := by rw [h'.text_eq, h.text_eq, List.append_assoc]
  sent_mono := Nat.le_trans h.sent_mono h'.sent_mono
  held_le hheld := h'.held_le (h.held_le hheld)
  unlimited := by rw [andThen_of_ok h.unlimited, h'.unlimited]
  accepted {room} hle := by
    rw [andThen_of_ok (h.accepted (Nat.le_trans h'.sent_mono hle)), h'.accepted hle]
  refused {room} hle hlt := by
    by_cases hfirst : f'.sent ≤ room.bytes
    · obtain ⟨g, hop, hdisk⟩ := h'.refused hfirst hlt
      exact ⟨g, by rw [andThen_of_ok (h.accepted hfirst), hop], hdisk⟩
    · obtain ⟨g, hop, hdisk⟩ := h.refused hle (Nat.lt_of_not_le hfirst)
      refine ⟨g, andThen_of_error hop, ?_⟩
      -- what comes later does not get onto the disk
      have hshort : room.bytes ≤ f'.text.length :=
        Nat.le_trans (Nat.le_of_not_le hfirst) f'.sent_le
      rw [hdisk, h'.text_eq, Disk.full, Disk.full, List.take_append_of_le_length hshort]

theorem Brings.refl (h : f.disk.room = none) : Brings (fun f => (.ok (), f)) f [] f where
  room_eq := h
  text_eq := (List.append_nil _).symm
  sent_mono := Nat.le_refl _
  held_le := id
  unlimited := rfl
  accepted _ := rfl
  refused hle hlt := absurd hlt (Nat.not_lt_of_le hle)

theorem Brings.congr (h : Brings op f bs f') (heq : op' f = op f)
    (heq' : ∀ room, op' (f.within room) = op (f.within room)) : Brings op' f bs f' where
  room_eq := h.room_eq
  text_eq := h.text_eq
  sent_mono := h.sent_mono
  held_le := h.held_le
  unlimited := heq.trans h.unlimited
  accepted hle := (heq' _).trans (h.accepted hle)
  refused {room} hle hlt := by
    rw [heq' room]
    exact h.refused hle hlt

theorem settle_brings (h : f.disk.room = none) :
    Brings settle f [] ⟨⟨f.disk.contents ++ f.held, none⟩, []⟩ where
  room_eq := rfl
  text_eq := by simp [text]
  sent_mono := by simp [sent]
  held_le _ := Nat.zero_le _
  unlimited := by
    obtain ⟨⟨contents, room⟩, held⟩ := f
    obtain rfl : room = none := h
    rfl
  accepted {room} hle := by
    rw [settle, within, Disk.append_within hle]
    rfl
  refused {room} hle hlt := by
    obtain ⟨left, happend⟩ := Disk.append_beyond hle hlt
    rw [settle, within, happend]
    exact ⟨_, rfl, by simp [text]⟩

/-- Bytes that are too many to be held, when nothing else is held. -/
theorem pass_brings (h : f.disk.room = none) (hheld : f.held = []) (bs : List UInt8) :
    Brings (pass · bs) f bs ⟨⟨f.disk.contents ++ bs, none⟩, []⟩ where
  room_eq := rfl
  text_eq := by simp [text, hheld]
  sent_mono := by simp [sent]
  held_le _ := Nat.zero_le _
  unlimited := by
    obtain ⟨⟨contents, room⟩, held⟩ := f
    obtain rfl : room = none := h
    obtain rfl : held = [] := hheld
    rfl
  accepted {room} hle := by
    rw [pass, within, Disk.append_within hle, hheld]
    rfl
  refused {room} hle hlt := by
    obtain ⟨left, happend⟩ := Disk.append_beyond hle hlt
    rw [pass, within, happend]
    exact ⟨_, rfl, by simp [text]⟩

theorem hold_brings (h : f.disk.room = none) (hle : f.held.length + bs.length ≤ capacity) :
    Brings (fun f => (.ok (), { f with held := f.held ++ bs })) f bs
      { f with held := f.held ++ bs } where
  room_eq := h
  text_eq := by simp [text]
  sent_mono := Nat.le_refl _
  held_le _ := by simpa using hle
  unlimited := rfl
  accepted _ := rfl
  refused hle hlt := absurd hlt (Nat.not_lt_of_le hle)

theorem accept_brings (h : f.disk.room = none)
    (hle : f.held.length + bs.length ≤ capacity ∨ f.held = []) :
    ∃ f', Brings (accept · bs) f bs f' := by
  by_cases hlong : capacity ≤ bs.length
  · have hheld : f.held = [] := by
      obtain hle | hheld := hle
      · exact List.eq_nil_of_length_eq_zero (by omega)
      · exact hheld
    refine ⟨_, (pass_brings h hheld bs).congr ?_ fun room => ?_⟩ <;>
      exact if_pos hlong
  · have hfit : f.held.length + bs.length ≤ capacity := by
      obtain hle | hheld := hle
      · exact hle
      · rw [hheld, List.length_nil]
        omega
    refine ⟨_, (hold_brings h hfit).congr ?_ fun room => ?_⟩ <;>
      exact if_neg hlong

theorem write_brings (h : f.disk.room = none) (bs : List UInt8) :
    ∃ f', Brings (write · bs) f bs f' := by
  by_cases hfit : f.held.length + bs.length ≤ capacity
  · obtain ⟨f', hf'⟩ := accept_brings h (.inl hfit)
    refine ⟨f', hf'.congr ?_ fun room => ?_⟩ <;>
      exact if_pos hfit
  · have hsettle := settle_brings h
    obtain ⟨f', hf'⟩ : ∃ f', Brings (accept · bs) _ bs f' :=
      accept_brings hsettle.room_eq (.inr rfl)
    refine ⟨f', (hsettle.trans hf').congr ?_ fun room => ?_⟩ <;>
      exact if_neg hfit

/-! ### What was not refused -/

/-- The file on a disk without a limit. -/
def unbounded (f : SpoolFile) : SpoolFile := ⟨⟨f.disk.contents, none⟩, f.held⟩

/-- A disk that has room for some more bytes had room for them and for what it holds. -/
theorem eq_unbounded_or_within (f : SpoolFile) :
    f = f.unbounded ∨ ∃ room, f = f.unbounded.within room ∧ f.sent ≤ room.bytes := by
  obtain ⟨⟨contents, room⟩, held⟩ := f
  cases room with
  | none => exact .inl rfl
  | some room =>
    refine .inr ⟨{ room with bytes := contents.length + room.bytes }, ?_, Nat.le_add_right _ _⟩
    simp only [within, Disk.within, unbounded, Nat.add_sub_cancel_left]

/-- A request that was not refused went as it does without a limit. -/
theorem Brings.of_ok {g : SpoolFile} (h : Brings op f.unbounded bs g) (hop : op f = (.ok (), f')) :
    f'.text = f.text ++ bs ∧ f'.held = g.held := by
  obtain hf | ⟨room, hf, hroom⟩ := f.eq_unbounded_or_within
  · rw [hf, h.unlimited] at hop
    obtain ⟨-, rfl⟩ := Prod.mk.inj hop
    exact ⟨h.text_eq, rfl⟩
  · rw [hf] at hop
    by_cases hle : g.sent ≤ room.bytes
    · rw [h.accepted hle] at hop
      obtain ⟨-, rfl⟩ := Prod.mk.inj hop
      exact ⟨h.text_eq, rfl⟩
    · obtain ⟨g', hrefused, -⟩ := h.refused hroom (Nat.lt_of_not_le hle)
      rw [hrefused] at hop
      cases hop

theorem text_of_write (h : f.write bs = (.ok (), f')) : f'.text = f.text ++ bs := by
  obtain ⟨g, hg⟩ := write_brings (f := f.unbounded) rfl bs
  exact (hg.of_ok h).1

theorem text_of_settle (h : f.settle = (.ok (), f')) : f'.text = f.text ∧ f'.held = [] := by
  have hg := settle_brings (f := f.unbounded) rfl
  obtain ⟨htext, hheld⟩ := hg.of_ok h
  exact ⟨htext.trans (List.append_nil _), hheld⟩

/-! ### Whatever came of it -/

/-- What finds no room stays held. -/
theorem text_settle (f : SpoolFile) : f.settle.2.text = f.text := by
  obtain ⟨⟨contents, room⟩, held⟩ := f
  cases room with
  | none => simp [settle, Disk.append, text]
  | some room => simp [settle, Disk.append, text]

theorem exists_text_pass (hheld : f.held = []) (bs : List UInt8) :
    ∃ part, part <+: bs ∧ (f.pass bs).2.text = f.text ++ part := by
  obtain ⟨⟨contents, room⟩, held⟩ := f
  obtain rfl : held = [] := hheld
  cases room with
  | none => exact ⟨bs, List.prefix_rfl, by simp [pass, Disk.append, text]⟩
  | some room => exact ⟨bs.take room.bytes, List.take_prefix _ _, by simp [pass, Disk.append, text]⟩

theorem exists_text_accept (h : f.held.length + bs.length ≤ capacity ∨ f.held = []) :
    ∃ part, part <+: bs ∧ (f.accept bs).2.text = f.text ++ part := by
  by_cases hlong : capacity ≤ bs.length
  · have hheld : f.held = [] := by
      obtain hle | hheld := h
      · exact List.eq_nil_of_length_eq_zero (by omega)
      · exact hheld
    rw [accept, if_pos hlong]
    exact exists_text_pass hheld bs
  · rw [accept, if_neg hlong]
    exact ⟨bs, List.prefix_rfl, (List.append_assoc ..).symm⟩

/-- A write never leaves more behind than the first of its bytes. -/
theorem exists_text_write (f : SpoolFile) (bs : List UInt8) :
    ∃ part, part <+: bs ∧ (f.write bs).2.text = f.text ++ part := by
  by_cases hfit : f.held.length + bs.length ≤ capacity
  · rw [write, if_pos hfit]
    exact exists_text_accept (.inl hfit)
  · have htext := f.text_settle
    rw [write, if_neg hfit]
    rcases hsettle : f.settle with ⟨failure | ⟨⟨⟩⟩, f'⟩
    · rw [hsettle] at htext
      exact ⟨[], List.nil_prefix, htext.trans (List.append_nil _).symm⟩
    · obtain ⟨htext', hheld⟩ := text_of_settle hsettle
      rw [← htext']
      exact exists_text_accept (.inr hheld)

/-! ### Letting go -/

theorem release_of_held (h : f.held = []) : f.release = f := by
  obtain ⟨⟨contents, room⟩, held⟩ := f
  obtain rfl : held = [] := h
  cases room <;> simp [release, settle, Disk.append]

/-- What is held goes onto the disk as far as there is room. -/
theorem contents_release_within {room : Room} (hle : f.sent ≤ room.bytes) :
    (f.within room).release.disk.contents = f.text.take room.bytes := by
  by_cases hall : f.text.length ≤ room.bytes
  · rw [release, settle, within, Disk.append_within hall, List.take_of_length_le hall]
    rfl
  · obtain ⟨left, happend⟩ := Disk.append_beyond hle (Nat.lt_of_not_le hall)
    rw [release, settle, within, happend]
    rfl

theorem contents_release_full {room : Room} {text : List UInt8} (h : f.disk = .full room text) :
    f.release.disk.contents = text.take room.bytes := by
  have hrelease : f.release.disk = (f.disk.append f.held).2.2 := rfl
  rw [hrelease, h]
  simp [Disk.append, Disk.full]

end SpoolFile

end ThreadTrace
