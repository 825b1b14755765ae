import ThreadTrace.Proofs.Wire.Scan
import ThreadTrace.Wire.Event
import Mathlib.Tactic.IntervalCases

/-!
# ThreadTrace.Proofs.Wire.Layout — the bytes of an event

`Event.LaidOut` is the format of an event, kind by kind, without a reader.  The reader of events
takes bytes that are laid out so as that event (`LaidOut.reads`), and it takes no others
(`scanEvent_eq_ok`).
-/

namespace ThreadTrace.Wire

open LittleEndian

/-- How an event is laid out: its tag, what has a fixed width, the lengths of the rest, and the rest.
Padding skips any bytes. -/
inductive Event.LaidOut : Event → List UInt8 → Prop
  | custom {size : UInt32} {data : List UInt8} (h : data.length = size.toNat) :
    LaidOut (.custom data) (1 :: (ofUInt32 size ++ data))
  | streamOver : LaidOut .streamOver [2]
  | spanBegin (ticks : UInt64) {nameLength argsLength : UInt8} {name args : List UInt8}
    (hname : name.length = nameLength.toNat) (hargs : args.length = argsLength.toNat) :
    LaidOut (.spanBegin ticks name args)
      (3 :: (ofUInt64 ticks ++ nameLength :: argsLength :: (name ++ args)))
  | spanEnd (ticks : UInt64) : LaidOut (.spanEnd ticks) (4 :: ofUInt64 ticks)
  | instant (ticks : UInt64) {length : UInt8} {name : List UInt8} (h : name.length = length.toNat) :
    LaidOut (.instant ticks name) (5 :: (ofUInt64 ticks ++ length :: name))
  | unitChange (unit : Binary64) : LaidOut (.unitChange unit) (6 :: ofUInt64 unit.bits)
  | padding {size : UInt32} {skipped : List UInt8} (h : skipped.length = size.toNat) :
    LaidOut (.padding size) (7 :: (ofUInt32 size ++ skipped))
  | processName {length : UInt8} {name : List UInt8} (h : name.length = length.toNat) :
    LaidOut (.processName name) (8 :: length :: name)
  | threadName {length : UInt8} {name : List UInt8} (h : name.length = length.toNat) :
    LaidOut (.threadName name) (9 :: length :: name)

/-! ### From the layout to the event -/

theorem reads_field {length : UInt8} {bs : List UInt8} (h : bs.length = length.toNat) :
    Reads (field length) bs bs := reads_take h

/-- A tag is followed by what it announces. -/
theorem reads_scanEvent_of_body (tag : Tag) {body : List UInt8} {e : Event}
    (h : Reads (scanBody tag) body e) : Reads scanEvent (tag.code :: body) e := by
  refine (reads_byte tag.code).bind ?_
  rwa [Tag.ofCode?_code]

theorem Event.LaidOut.reads {e : Event} {bytes : List UInt8} (h : e.LaidOut bytes) :
    Reads scanEvent bytes e := by
  cases h with
  | custom h =>
    exact reads_scanEvent_of_body .custom
      ((reads_word32 _).bind ((reads_take h).bind_pure Event.custom))
  | streamOver => exact reads_scanEvent_of_body .streamOver (.pure _)
  | spanBegin ticks hname hargs =>
    refine reads_scanEvent_of_body .spanBegin ((reads_word64 ticks).bind ?_)
    refine (reads_byte _).bind ((reads_byte _).bind ?_)
    exact (reads_field hname).bind ((reads_field hargs).bind_pure _)
  | spanEnd ticks => exact reads_scanEvent_of_body .spanEnd ((reads_word64 ticks).bind_pure _)
  | instant ticks h =>
    exact reads_scanEvent_of_body .instant
      ((reads_word64 ticks).bind ((reads_byte _).bind ((reads_field h).bind_pure _)))
  | unitChange unit =>
    exact reads_scanEvent_of_body .unitChange ((reads_word64 unit.bits).bind_pure _)
  | padding h =>
    exact reads_scanEvent_of_body .padding
      ((reads_word32 _).bind ((reads_take h).bind_pure fun _ => Event.padding _))
  | processName h =>
    exact reads_scanEvent_of_body .processName
      ((reads_byte _).bind ((reads_field h).bind_pure _))
  | threadName h =>
    exact reads_scanEvent_of_body .threadName ((reads_byte _).bind ((reads_field h).bind_pure _))

/-! ### From the event to the layout -/

section Fields

variable {α : Type} {c c' : Cursor} {a : α}

/-- What ends in one field. -/
theorem field_eq_ok {f : List UInt8 → α}
    (h : (byte >>= fun length => field length >>= fun bs => pure (f bs)) c = .ok (a, c')) :
    ∃ length bs, f bs = a ∧ c.rest = length :: bs ++ c'.rest ∧ bs.length = length.toNat := by
  obtain ⟨length, c₁, h1, h⟩ := bind_eq_ok_iff.1 h
  obtain ⟨bs, c₂, h2, h⟩ := bind_eq_ok_iff.1 h
  obtain ⟨rfl, rfl⟩ := pure_eq_ok_iff.1 h
  obtain ⟨hlength, hrest⟩ := take_eq_ok h2
  exact ⟨length, bs, rfl, by rw [byte_eq_ok h1, hrest, List.cons_append], hlength⟩

/-- What is a size and that many bytes. -/
theorem sized_eq_ok {f : UInt32 → List UInt8 → α}
    (h : (word32 >>= fun size => take size.toNat >>= fun bs => pure (f size bs)) c = .ok (a, c')) :
    ∃ size bs, f size bs = a ∧ c.rest = ofUInt32 size ++ bs ++ c'.rest ∧
      bs.length = size.toNat := by
  obtain ⟨size, c₁, h1, h⟩ := bind_eq_ok_iff.1 h
  obtain ⟨bs, c₂, h2, h⟩ := bind_eq_ok_iff.1 h
  obtain ⟨rfl, rfl⟩ := pure_eq_ok_iff.1 h
  obtain ⟨hlength, hrest⟩ := take_eq_ok h2
  exact ⟨size, bs, rfl, by rw [word32_eq_ok h1, hrest, List.append_assoc], hlength⟩

end Fields

theorem scanBody_eq_ok {tag : Tag} {c c' : Cursor} {e : Event}
    (h : scanBody tag c = .ok (e, c')) :
    ∃ body, c.rest = body ++ c'.rest ∧ e.LaidOut (tag.code :: body) := by
  cases tag with
  | invalid => cases h
  | spanBegin =>
    obtain ⟨ticks, c₁, h1, h⟩ := bind_eq_ok_iff.1 h
    obtain ⟨nameLength, c₂, h2, h⟩ := bind_eq_ok_iff.1 h
    obtain ⟨argsLength, c₃, h3, h⟩ := bind_eq_ok_iff.1 h
    obtain ⟨name, c₄, h4, h⟩ := bind_eq_ok_iff.1 h
    obtain ⟨args, c₅, h5, h⟩ := bind_eq_ok_iff.1 h
    obtain ⟨rfl, rfl⟩ := pure_eq_ok_iff.1 h
    obtain ⟨hname, hrest⟩ := take_eq_ok h4
    obtain ⟨hargs, hrest'⟩ := take_eq_ok h5
    refine ⟨_, ?_, .spanBegin ticks hname hargs⟩
    rw [word64_eq_ok h1, byte_eq_ok h2, byte_eq_ok h3, hrest, hrest']
    simp
  | spanEnd =>
    obtain ⟨ticks, c₁, h1, h⟩ := bind_eq_ok_iff.1 h
    obtain ⟨rfl, rfl⟩ := pure_eq_ok_iff.1 h
    exact ⟨_, word64_eq_ok h1, .spanEnd ticks⟩
  | instant =>
    obtain ⟨ticks, c₁, h1, h⟩ := bind_eq_ok_iff.1 h
    obtain ⟨length, name, rfl, hrest, hname⟩ := field_eq_ok h
    exact ⟨_, by rw [word64_eq_ok h1, hrest, List.append_assoc], .instant ticks hname⟩
  | threadName =>
    obtain ⟨length, name, rfl, hrest, hname⟩ := field_eq_ok h
    exact ⟨_, hrest, .threadName hname⟩
  | processName =>
    obtain ⟨length, name, rfl, hrest, hname⟩ := field_eq_ok h
    exact ⟨_, hrest, .processName hname⟩
  | unitChange =>
    obtain ⟨bits, c₁, h1, h⟩ := bind_eq_ok_iff.1 h
    obtain ⟨rfl, rfl⟩ := pure_eq_ok_iff.1 h
    exact ⟨_, word64_eq_ok h1, .unitChange ⟨bits⟩⟩
  | padding =>
    obtain ⟨size, skipped, rfl, hrest, hskipped⟩ := sized_eq_ok h
    exact ⟨_, hrest, .padding hskipped⟩
  | custom =>
    obtain ⟨size, data, rfl, hrest, hdata⟩ := sized_eq_ok h
    exact ⟨_, hrest, .custom hdata⟩
  | streamOver =>
    obtain ⟨rfl, rfl⟩ := pure_eq_ok_iff.1 h
    exact ⟨[], rfl, .streamOver⟩

theorem Tag.code_of_ofCode? {code : UInt8} {tag : Tag} (h : ofCode? code = some tag) :
    tag.code = code := by
  have hlt : code.toNat < 10 := (List.getElem?_eq_some_iff.1 h).1
  apply UInt8.toNat_inj.1
  rw [ofCode?] at h
  generalize code.toNat = n at h hlt ⊢
  interval_cases n <;> (obtain rfl := Option.some.inj h; rfl)

/-- An event was read from bytes that are laid out as this event. -/
theorem scanEvent_eq_ok {c c' : Cursor} {e : Event} (h : scanEvent c = .ok (e, c')) :
    ∃ used, c.rest = used ++ c'.rest ∧ e.LaidOut used := by
  obtain ⟨code, c₁, hbyte, hbody⟩ := bind_eq_ok_iff.1 h
  cases htag : Tag.ofCode? code with
  | none =>
    rw [htag] at hbody
    cases hbody
  | some tag =>
    rw [htag] at hbody
    obtain rfl := Tag.code_of_ofCode? htag
    obtain ⟨body, hrest, hlaid⟩ := scanBody_eq_ok hbody
    exact ⟨tag.code :: body, by rw [byte_eq_ok hbyte, hrest, List.cons_append], hlaid⟩

theorem Reads.laidOut {used : List UInt8} {e : Event} (h : Reads scanEvent used e) :
    e.LaidOut used := by
  obtain ⟨used', hused, hlaid⟩ := scanEvent_eq_ok (h.whole [] 0)
  have hused : used ++ [] = used' ++ [] := hused
  rw [List.append_nil, List.append_nil] at hused
  rwa [hused]

end ThreadTrace.Wire
