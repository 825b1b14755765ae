import ThreadTrace.Proofs.Wire.Event

/-!
# ThreadTrace.Proofs.Wire.Prefix — the beginning of an event is no event

Bytes begin with an event, are the beginning of one, or begin with a byte that is no event's tag.
The decoder tells the three apart (`decoded`): it gives the event, says that it was cut short, or
refuses the tag.  `decodeEvent_prefix` says so without mentioning how events are laid out.

Behind a tag nothing can be wrong with the bytes, there can only be too few: every reader of a body
is `Willing`.
-/

namespace ThreadTrace.Wire

/-! ### Readers that refuse nothing -/

/-- Any bytes begin with what `p` reads, or are the beginning of it. -/
def Willing {α : Type} (p : Scan α) : Prop :=
  ∀ bs, ∃ used a, Reads p used a ∧ (used <+: bs ∨ bs <+: used)

namespace Willing

variable {α β : Type}

theorem pure (a : α) : Willing (pure a) := fun _ => ⟨[], a, .pure a, .inl List.nil_prefix⟩

theorem bind {p : Scan α} {f : α → Scan β} (hp : Willing p) (hf : ∀ a, Willing (f a)) :
    Willing (p >>= f) := by
  intro bs
  obtain ⟨u, a, hu, hprefix⟩ := hp bs
  rcases hprefix with ⟨rest, rfl⟩ | hshort
  · -- `f a` goes on with what is left
    obtain ⟨v, b, hv, hprefix⟩ := hf a rest
    refine ⟨u ++ v, b, hu.bind hv, ?_⟩
    simpa only [List.prefix_append_right_inj] using hprefix
  · obtain ⟨v, b, hv, -⟩ := hf a []
    exact ⟨u ++ v, b, hu.bind hv, .inr (hshort.trans (List.prefix_append u v))⟩

theorem take (n : Nat) : Willing (Wire.take n) := by
  intro bs
  by_cases hn : n ≤ bs.length
  · have hlen : (bs.take n).length = n := by
      rw [List.length_take]
      exact Nat.min_eq_left hn
    exact ⟨_, _, reads_take hlen, .inl (List.take_prefix n bs)⟩
  · have hlen : (bs ++ List.replicate (n - bs.length) 0).length = n := by
      rw [List.length_append, List.length_replicate]
      omega
    exact ⟨_, _, reads_take hlen, .inr (List.prefix_append bs _)⟩

theorem byte : Willing Wire.byte := (take 1).bind fun _ => .pure _

theorem word32 : Willing Wire.word32 := (take 4).bind fun _ => .pure _

theorem word64 : Willing Wire.word64 := (take 8).bind fun _ => .pure _

theorem field (length : UInt8) : Willing (Wire.field length) := take _

/-- A tag that is one can be followed by anything. -/
theorem scanBody {tag : Tag} (htag : tag ≠ .invalid) : Willing (Wire.scanBody tag) := by
  cases tag with
  | invalid => exact absurd rfl htag
  | spanBegin =>
    exact word64.bind fun _ => byte.bind fun _ => byte.bind fun _ => (field _).bind fun _ =>
      (field _).bind fun _ => .pure _
  | spanEnd => exact word64.bind fun _ => .pure _
  | instant => exact word64.bind fun _ => byte.bind fun _ => (field _).bind fun _ => .pure _
  | threadName => exact byte.bind fun _ => (field _).bind fun _ => .pure _
  | processName => exact byte.bind fun _ => (field _).bind fun _ => .pure _
  | unitChange => exact word64.bind fun _ => .pure _
  | padding => exact word32.bind fun _ => (take _).bind fun _ => .pure _
  | custom => exact word32.bind fun _ => (take _).bind fun _ => .pure _
  | streamOver => exact .pure _

end Willing

/-! ### Tags -/

namespace Tag

/-- The bytes that announce an event. -/
def Announces (code : UInt8) : Prop := 1 ≤ code ∧ code ≤ 9

instance (code : UInt8) : Decidable (Announces code) := inferInstanceAs (Decidable (_ ∧ _))

theorem announces_code {tag : Tag} (htag : tag ≠ .invalid) : Announces tag.code := by
  cases tag with
  | invalid => exact absurd rfl htag
  | _ => decide

/-- A byte that announces nothing is the invalid tag or no tag. -/
theorem ofCode?_of_not_announces {code : UInt8} (h : ¬ Announces code) :
    ofCode? code = none ∨ code = invalid.code ∧ ofCode? code = some invalid := by
  cases hcode : ofCode? code with
  | none => exact .inl rfl
  | some tag =>
    obtain rfl := code_of_ofCode? hcode
    have htag : tag = .invalid := by
      by_contra hne
      exact h (announces_code hne)
    subst htag
    exact .inr ⟨rfl, rfl⟩

theorem exists_of_announces {code : UInt8} (h : Announces code) :
    ∃ tag ≠ invalid, tag.code = code := by
  cases hcode : ofCode? code with
  | none =>
    have hge : 10 ≤ code.toNat := List.getElem?_eq_none_iff.1 hcode
    have hle : code.toNat ≤ 9 := UInt8.le_iff_toNat_le.1 h.2
    omega
  | some tag =>
    obtain rfl := code_of_ofCode? hcode
    refine ⟨tag, ?_, rfl⟩
    rintro rfl
    revert h
    decide

end Tag

/-! ### One event -/

theorem decodeEvent_of_not_announces {code : UInt8} (h : ¬ Tag.Announces code)
    (rest : List UInt8) : decodeEvent (code :: rest) = .error (.invalidTag code) := by
  have hbyte : byte ⟨code :: rest, 0⟩ = .ok (code, ⟨rest, 0 + 1⟩) := (reads_byte code).whole rest 0
  have hscan : scanEvent ⟨code :: rest, 0⟩ = .error (.invalidTag code) := by
    rw [scanEvent, bind_of_ok hbyte]
    rcases Tag.ofCode?_of_not_announces h with hnone | ⟨hcode, hsome⟩
    · rw [hnone]
      rfl
    · rw [hsome, hcode]
      rfl
  rw [decodeEvent, hscan]

/-- Fewer bytes than an event has. -/
theorem Reads.decodeEvent_take {used : List UInt8} {e : Event} (h : Reads scanEvent used e)
    {k : Nat} (hk : k < used.length) :
    ∃ needed, decodeEvent (used.take k) = .error (.truncated needed k) ∧ k < needed ∧
      needed ≤ used.length := by
  obtain ⟨needed, hscan, hlt, hle⟩ := h.short hk 0
  rw [Nat.zero_add] at hscan hlt hle
  refine ⟨needed, ?_, hlt, hle⟩
  rw [decodeEvent, hscan]

/-- What the decoder answers: the bytes begin with an event, are too few for one, or begin with
something else. -/
inductive Decoded (src : List UInt8) : Except DecodeError (Event × Nat) → Prop
  | event {used rest e} (src_eq : src = used ++ rest) (reads : Reads scanEvent used e) :
    Decoded src (.ok (e, used.length))
  | short {used e k needed} (src_eq : src = used.take k) (lt : k < used.length)
    (reads : Reads scanEvent used e) (lt_needed : k < needed) :
    Decoded src (.error (.truncated needed k))
  | other {code rest} (src_eq : src = code :: rest) (not_announces : ¬ Tag.Announces code) :
    Decoded src (.error (.invalidTag code))

theorem Decoded.of_reads {used : List UInt8} {e : Event} (h : Reads scanEvent used e)
    (rest : List UInt8) : Decoded (used ++ rest) (decodeEvent (used ++ rest)) := by
  rw [h.decodeEvent_append]
  exact .event rfl h

theorem Decoded.of_take {used : List UInt8} {e : Event} (h : Reads scanEvent used e) {k : Nat}
    (hk : k < used.length) : Decoded (used.take k) (decodeEvent (used.take k)) := by
  obtain ⟨needed, hdecode, hlt, -⟩ := h.decodeEvent_take hk
  rw [hdecode]
  exact .short rfl hk h hlt

theorem decoded (src : List UInt8) : Decoded src (decodeEvent src) := by
  cases src with
  | nil =>
    have hover : Reads scanEvent [Tag.streamOver.code] .streamOver :=
      Event.LaidOut.streamOver.reads
    exact .of_take hover (k := 0) (by decide)
  | cons code rest =>
    by_cases hcode : Tag.Announces code
    · obtain ⟨tag, htag, rfl⟩ := Tag.exists_of_announces hcode
      obtain ⟨body, e, hbody, hprefix⟩ := Willing.scanBody htag rest
      have hreads := reads_scanEvent_of_body tag hbody
      rcases hprefix with ⟨behind, rfl⟩ | hshort
      · exact .of_reads hreads behind
      · by_cases hlt : rest.length < body.length
        · have htake : tag.code :: rest = (tag.code :: body).take (rest.length + 1) := by
            rw [List.take_succ_cons, ← List.prefix_iff_eq_take.1 hshort]
          rw [htake]
          exact .of_take hreads (Nat.succ_lt_succ hlt)
        · -- the bytes are all of the body
          obtain rfl := hshort.eq_of_length_le (Nat.le_of_not_lt hlt)
          have hall := Decoded.of_reads hreads []
          rwa [List.append_nil] at hall
    · rw [decodeEvent_of_not_announces hcode]
      exact .other rfl hcode

/-- More bytes do not change what an event is, and fewer are none. -/
theorem prefix_of_decodeEvent {src : List UInt8} {e : Event} {n : Nat}
    (h : decodeEvent src = .ok (e, n)) :
    1 ≤ n ∧ n ≤ src.length ∧ (∀ t, decodeEvent (src.take n ++ t) = .ok (e, n)) ∧
      ∀ k < n, ∃ needed, decodeEvent (src.take k) = .error (.truncated needed k) ∧ k < needed ∧
        needed ≤ n := by
  obtain ⟨used, rest, rfl, rfl, hreads⟩ := decodeEvent_eq_ok h
  have hpos : 1 ≤ used.length := List.length_pos_iff.2 hreads.ne_nil
  have hle : used.length ≤ (used ++ rest).length := by
    rw [List.length_append]
    exact Nat.le_add_right _ _
  refine ⟨hpos, hle, fun t => ?_, fun k hk => ?_⟩
  · rw [List.take_left]
    exact hreads.decodeEvent_append t
  · rw [List.take_append_of_le_length (Nat.le_of_lt hk)]
    exact hreads.decodeEvent_take hk

theorem decodeEvent_eq_invalidTag_iff {src : List UInt8} {code : UInt8} :
    decodeEvent src = .error (.invalidTag code) ↔
      ∃ rest, src = code :: rest ∧ ¬ Tag.Announces code := by
  constructor
  · intro h
    have hdecoded := decoded src
    rw [h] at hdecoded
    cases hdecoded with
    | other hsrc hcode => exact ⟨_, hsrc, hcode⟩
  · rintro ⟨rest, rfl, hcode⟩
    exact decodeEvent_of_not_announces hcode rest

/-- What is cut short is the beginning of an event. -/
theorem extends_of_decodeEvent {src : List UInt8} {needed available : Nat}
    (h : decodeEvent src = .error (.truncated needed available)) :
    available = src.length ∧ src.length < needed ∧ ∃ t r, decodeEvent (src ++ t) = .ok r := by
  have hdecoded := decoded src
  rw [h] at hdecoded
  cases hdecoded with
  | @short used e _ _ hsrc hlt hreads hneeded =>
    have hlen : src.length = available := by
      rw [hsrc, List.length_take]
      exact Nat.min_eq_left (Nat.le_of_lt hlt)
    have hwhole : src ++ used.drop available = used ++ [] := by
      rw [hsrc, List.take_append_drop, List.append_nil]
    refine ⟨hlen.symm, by rwa [hlen], used.drop available, (e, used.length), ?_⟩
    rw [hwhole]
    exact hreads.decodeEvent_append []

/-- Bytes that are no event yet, and can be gone on with to one, are reported as cut short. -/
theorem decodeEvent_of_extends {src t : List UInt8} {r : Event × Nat}
    (hnone : ∀ r, decodeEvent src ≠ .ok r) (hext : decodeEvent (src ++ t) = .ok r) :
    ∃ needed available, decodeEvent src = .error (.truncated needed available) := by
  have hdecoded := decoded src
  rcases hanswer : decodeEvent src with e | r'
  · rw [hanswer] at hdecoded
    cases hdecoded with
    | short => exact ⟨_, _, rfl⟩
    | other hsrc hcode =>
      -- a wrong tag stays wrong
      rw [hsrc, List.cons_append, decodeEvent_of_not_announces hcode] at hext
      cases hext
  · exact absurd hanswer (hnone r')

/-- **The decoder tells an event, the beginning of one, and other bytes apart.**  An event is found
by its own bytes, whatever follows them, and every shorter part of them is reported as cut short.
Bytes are refused for their tag if they begin with one that announces nothing; they are reported as
cut short if they are no event, but go on to one. -/
theorem decodeEvent_prefix (src : List UInt8) :
    (∀ e n, decodeEvent src = .ok (e, n) →
      1 ≤ n ∧ n ≤ src.length ∧ (∀ t, decodeEvent (src.take n ++ t) = .ok (e, n)) ∧
        ∀ k < n, ∃ needed, decodeEvent (src.take k) = .error (.truncated needed k) ∧ k < needed ∧
          needed ≤ n) ∧
    (∀ code, decodeEvent src = .error (.invalidTag code) ↔
      ∃ rest, src = code :: rest ∧ ¬ Tag.Announces code) ∧
    ((∃ needed available, decodeEvent src = .error (.truncated needed available)) ↔
      (∀ r, decodeEvent src ≠ .ok r) ∧ ∃ t r, decodeEvent (src ++ t) = .ok r) ∧
    ∀ needed available, decodeEvent src = .error (.truncated needed available) →
      available = src.length ∧ src.length < needed := by
  refine ⟨fun e n => prefix_of_decodeEvent, fun code => decodeEvent_eq_invalidTag_iff,
    ⟨?_, ?_⟩, ?_⟩
  · rintro ⟨needed, available, h⟩
    obtain ⟨-, -, hext⟩ := extends_of_decodeEvent h
    refine ⟨fun r hok => ?_, hext⟩
    rw [h] at hok
    cases hok
  · rintro ⟨hnone, t, r, hext⟩
    exact decodeEvent_of_extends hnone hext
  · intro needed available h
    obtain ⟨havailable, hneeded, -⟩ := extends_of_decodeEvent h
    exact ⟨havailable, hneeded⟩

/-- A begin event whose second field is not all there. -/
def cutSpan : List UInt8 := [3, 5, 0, 0, 0, 0, 0, 0, 0, 1, 3, 65, 66, 67]

/-- It is one byte short of an event, and not the shorter event that its first field would end. -/
theorem decodeEvent_prefix_cutSpan :
    decodeEvent cutSpan = .error (.truncated 15 14) ∧
      (∃ t r, decodeEvent (cutSpan ++ t) = .ok r) ∧
      decodeEvent (cutSpan ++ [68]) = .ok (.spanBegin 5 [65] [66, 67, 68], 15) ∧
      (∀ t, decodeEvent (cutSpan ++ [68] ++ t) = .ok (.spanBegin 5 [65] [66, 67, 68], 15)) ∧
      ∀ k < 15, ∃ needed, decodeEvent ((cutSpan ++ [68]).take k) = .error (.truncated needed k) ∧
        k < needed ∧ needed ≤ 15 := by
  have hcut : decodeEvent cutSpan = .error (.truncated 15 14) := by decide
  have hwhole : decodeEvent (cutSpan ++ [68]) = .ok (.spanBegin 5 [65] [66, 67, 68], 15) := by
    decide
  obtain ⟨-, -, hiff, -⟩ := decodeEvent_prefix cutSpan
  obtain ⟨-, hext⟩ := hiff.1 ⟨15, 14, hcut⟩
  obtain ⟨hevent, -⟩ := decodeEvent_prefix (cutSpan ++ [68])
  obtain ⟨-, -, happend, hshort⟩ := hevent _ _ hwhole
  exact ⟨hcut, hext, hwhole, happend, hshort⟩

end ThreadTrace.Wire
