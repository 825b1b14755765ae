import ThreadTrace.Proofs.Wire.Prefix

/-!
# ThreadTrace.Proofs.Wire.Grammar — a payload is events behind one another

A `Walk` reads a payload one event at a time and ends where one cannot be read; `Walk.next_after`
says that it meets the items of `decodeEvents` in order, and then nothing any more.  There is no error
among them exactly when the payload is the bytes of some events, one behind another, and only one
list of events has these bytes (`join_injective`).  `decodeEvents_grammar` has this together with
what becomes of a payload that is continued or cut.
-/

namespace ThreadTrace.Wire

/-! ### One event at a time -/

/-- What is left of a payload, and whether an event of it could not be read. -/
structure Walk where
  rest : List UInt8
  failed : Bool

namespace Walk

def start (payload : List UInt8) : Walk := ⟨payload, false⟩

/-- The next item.  Behind an error there is none. -/
def next (w : Walk) : Option (Except DecodeError Event) × Walk :=
  if w.failed || w.rest.isEmpty then (none, w)
  else
    match decodeEvent w.rest with
    | .ok (event, used) => (some (.ok event), { w with rest := w.rest.drop used })
    | .error e => (some (.error e), { w with failed := true })

/-- The walk after it was asked `n` times. -/
def after (w : Walk) : Nat → Walk
  | 0 => w
  | n + 1 => w.next.2.after n

/-- What is still to come. -/
def items (w : Walk) : List (Except DecodeError Event) :=
  if w.failed then [] else decodeEvents w.rest

theorem next_eq (w : Walk) : w.next.1 = w.items.head? ∧ w.next.2.items = w.items.tail := by
  obtain ⟨rest, failed⟩ := w
  cases failed with
  | true => exact ⟨rfl, rfl⟩
  | false =>
    cases hrest : rest with
    | nil => simp [next, items, decodeEvents]
    | cons b bs =>
      rcases hdecode : decodeEvent (b :: bs) with e | ⟨event, used⟩
      · have hitems := decodeEvents_of_error (List.cons_ne_nil b bs) hdecode
        simp [next, items, hdecode, hitems]
      · have hitems := decodeEvents_of_ok hdecode
        simp [next, items, hdecode, hitems]

/-- Asked again and again, a walk gives what was still to come, and then nothing for ever. -/
theorem next_after (w : Walk) (n : Nat) : (w.after n).next.1 = w.items[n]? := by
  induction n generalizing w with
  | zero => rw [after, w.next_eq.1, List.head?_eq_getElem?]
  | succ n ih => rw [after, ih, w.next_eq.2, List.getElem?_tail]

end Walk

/-! ### Events behind one another -/

/-- An event and the bytes it is laid out in. -/
@[ext]
structure Encoded where
  event : Event
  bytes : List UInt8
  laidOut : event.LaidOut bytes

namespace Encoded

/-- The bytes of events behind one another. -/
def join (es : List Encoded) : List UInt8 := es.flatMap bytes

/-- Where the `n`-th event ends. -/
def boundary (es : List Encoded) (n : Nat) : Nat := (join (es.take n)).length

/-- The events as a reader gives them. -/
def items (es : List Encoded) : List (Except DecodeError Event) := es.map fun e => .ok e.event

theorem bytes_ne_nil (e : Encoded) : e.bytes ≠ [] := e.laidOut.reads.ne_nil

theorem decodeEvents_join (es : List Encoded) : decodeEvents (join es) = items es := by
  induction es with
  | nil => rw [join, List.flatMap_nil, decodeEvents, items, List.map_nil]
  | cons e es ih =>
    have hbytes : join (e :: es) = e.bytes ++ join es := List.flatMap_cons
    rw [hbytes, e.laidOut.reads.decodeEvents_append, ih]
    rfl

theorem clean_join (es : List Encoded) : Clean (join es) := by
  intro item hitem
  rw [decodeEvents_join] at hitem
  obtain ⟨e, -, rfl⟩ := List.mem_map.1 hitem
  exact ⟨e.event, rfl⟩

/-- What can be read to its end is events behind one another. -/
theorem exists_join {payload : List UInt8} (h : Clean payload) : ∃ es, payload = join es := by
  refine h.induction (motive := fun payload => ∃ es, payload = join es) ⟨[], rfl⟩ ?_
  rintro used e _ hreads ⟨es, rfl⟩
  exact ⟨⟨e, used, hreads.laidOut⟩ :: es, rfl⟩

/-- Nothing else than the first event can be read from its bytes, whatever is behind them. -/
theorem eq_of_append_eq {e e' : Encoded} {u v : List UInt8}
    (h : e.bytes ++ u = e'.bytes ++ v) : e = e' ∧ u = v := by
  have hdecode := e.laidOut.reads.decodeEvent_append u
  rw [h, e'.laidOut.reads.decodeEvent_append v] at hdecode
  obtain ⟨hevent, hlength⟩ := Prod.mk.inj (Except.ok.inj hdecode)
  obtain ⟨hbytes, hrest⟩ := List.append_inj h hlength.symm
  exact ⟨Encoded.ext hevent.symm hbytes, hrest⟩

theorem join_injective {es es' : List Encoded} (h : join es = join es') : es = es' := by
  induction es generalizing es' with
  | nil =>
    cases es' with
    | nil => rfl
    | cons e' es' => exact absurd (List.append_eq_nil_iff.1 h.symm).1 e'.bytes_ne_nil
  | cons e es ih =>
    cases es' with
    | nil => exact absurd (List.append_eq_nil_iff.1 h).1 e.bytes_ne_nil
    | cons e' es' =>
      obtain ⟨rfl, hrest⟩ := eq_of_append_eq h
      rw [ih hrest]

/-! ### Cuts -/

theorem boundary_cons_succ (e : Encoded) (es : List Encoded) (n : Nat) :
    boundary (e :: es) (n + 1) = e.bytes.length + boundary es n :=
  List.length_append

theorem boundary_mono (es : List Encoded) {m n : Nat} (h : m ≤ n) :
    boundary es m ≤ boundary es n := by
  obtain ⟨rest, hrest⟩ : es.take m <+: es.take n := List.take_prefix_take_left h
  rw [boundary, boundary, ← hrest, join, join, List.flatMap_append, List.length_append]
  exact Nat.le_add_right _ _

/-- A cut leaves the events that end in front of it.  If the last of them does not end at the cut,
bytes of another event are behind it, too few of them. -/
theorem decodeEvents_take (es : List Encoded) {k : Nat} (hk : k ≤ (join es).length) :
    ∃ n ≤ es.length, (∀ i < es.length, i < n ↔ boundary es (i + 1) ≤ k) ∧
      (boundary es n = k ∧ decodeEvents ((join es).take k) = items (es.take n) ∨
        boundary es n < k ∧ ∃ needed, decodeEvents ((join es).take k) =
          items (es.take n) ++ [.error (.truncated needed (k - boundary es n))]) := by
  induction es generalizing k with
  | nil =>
    obtain rfl : k = 0 := Nat.le_zero.1 hk
    exact ⟨0, Nat.le_refl _, by simp, .inl ⟨rfl, by rw [List.take_zero, decodeEvents]; rfl⟩⟩
  | cons e es ih =>
    have hbytes : join (e :: es) = e.bytes ++ join es := List.flatMap_cons
    rw [hbytes, List.length_append] at hk
    rw [hbytes]
    by_cases hle : e.bytes.length ≤ k
    · -- the first event is in front of the cut
      obtain ⟨n, hn, hwithin, hcut⟩ := ih (k := k - e.bytes.length) (by omega)
      have htake : (e.bytes ++ join es).take k =
          e.bytes ++ (join es).take (k - e.bytes.length) := by
        rw [List.take_append, List.take_of_length_le hle]
      have hitems : items ((e :: es).take (n + 1)) = .ok e.event :: items (es.take n) := rfl
      refine ⟨n + 1, Nat.succ_le_succ hn, fun i hi => ?_, ?_⟩
      · rw [boundary_cons_succ]
        cases i with
        | zero =>
          have hzero : boundary es 0 = 0 := rfl
          omega
        | succ i =>
          have hwithin := hwithin i (by simpa using hi)
          omega
      · rw [htake, e.laidOut.reads.decodeEvents_append, boundary_cons_succ, hitems]
        obtain ⟨hend, hread⟩ | ⟨hend, needed, hread⟩ := hcut
        · exact .inl ⟨by omega, by rw [hread]⟩
        · refine .inr ⟨by omega, needed, ?_⟩
          rw [hread, Nat.sub_sub]
          rfl
    · have hlt : k < e.bytes.length := Nat.lt_of_not_le hle
      refine ⟨0, Nat.zero_le _, fun i _ => ?_, ?_⟩
      · rw [boundary_cons_succ]
        omega
      · rw [List.take_append_of_le_length (Nat.le_of_lt hlt)]
        by_cases hzero : k = 0
        · subst hzero
          exact .inl ⟨rfl, by rw [List.take_zero, decodeEvents]; rfl⟩
        · obtain ⟨needed, hdecode, -⟩ := e.laidOut.reads.decodeEvent_take hlt
          have hne : e.bytes.take k ≠ [] := by
            rw [Ne, List.take_eq_nil_iff, not_or]
            exact ⟨hzero, e.bytes_ne_nil⟩
          exact .inr ⟨Nat.pos_of_ne_zero hzero, needed, decodeEvents_of_error hne hdecode⟩

/-- An event ends at the cut, or none does. -/
theorem not_boundary {es : List Encoded} {n k : Nat}
    (hwithin : ∀ i < es.length, i < n ↔ boundary es (i + 1) ≤ k) (hend : boundary es n < k) :
    ¬ ∃ m ≤ es.length, boundary es m = k := by
  rintro ⟨m, hm, rfl⟩
  cases m with
  | zero => exact Nat.not_lt_zero _ hend
  | succ i =>
    have hle := boundary_mono es ((hwithin i hm).2 (Nat.le_refl _))
    exact Nat.not_lt_of_le hle hend

end Encoded

open Encoded

/-- **A payload is events behind one another, up to the first that cannot be read.**  It has no more
items than bytes, at most the last of them is an error, and a walk meets them one by one and then
nothing for ever.  None is an error exactly if the payload is the bytes of events behind one another.
Then the items are these events, and no other events have these bytes; what is behind the payload is
read as if it stood alone; and in front of a cut the events that end there are read, with one error
behind them exactly if the cut is in the middle of an event. -/
theorem decodeEvents_grammar (payload : List UInt8) :
    (decodeEvents payload).length ≤ payload.length ∧
    (∃ (es : List Event) (last : Option DecodeError),
      decodeEvents payload = es.map .ok ++ (last.map .error).toList) ∧
    (∀ n, ((Walk.start payload).after n).next.1 = (decodeEvents payload)[n]?) ∧
    ((∀ item ∈ decodeEvents payload, ∃ e, item = .ok e) ↔ ∃ es, payload = join es) ∧
    ∀ es, payload = join es →
      decodeEvents payload = items es ∧ (∀ es', payload = join es' → es' = es) ∧
      (∀ q, decodeEvents (payload ++ q) = decodeEvents payload ++ decodeEvents q) ∧
      ∀ k ≤ payload.length, ∃ n ≤ es.length,
        (∀ i < es.length, i < n ↔ boundary es (i + 1) ≤ k) ∧
        ((∃ m ≤ es.length, boundary es m = k) ∧
            decodeEvents (payload.take k) = items (es.take n) ∨
          (¬ ∃ m ≤ es.length, boundary es m = k) ∧ ∃ needed available,
            decodeEvents (payload.take k) =
              items (es.take n) ++ [.error (.truncated needed available)]) := by
  refine ⟨length_decodeEvents_le payload, exists_decodeEvents_eq payload,
    (Walk.start payload).next_after, ⟨exists_join, ?_⟩, ?_⟩
  · rintro ⟨es, rfl⟩
    exact clean_join es
  · rintro es rfl
    refine ⟨decodeEvents_join es, fun es' h => (join_injective h).symm,
      decodeEvents_append (clean_join es), fun k hk => ?_⟩
    obtain ⟨n, hn, hwithin, ⟨hend, hread⟩ | ⟨hend, needed, hread⟩⟩ := decodeEvents_take es hk
    · exact ⟨n, hn, hwithin, .inl ⟨⟨n, hn, hend⟩, hread⟩⟩
    · exact ⟨n, hn, hwithin, .inr ⟨not_boundary hwithin hend, needed, _, hread⟩⟩

/-- Padding over a byte that would be a tag, and the end of a span. -/
def paddedSpan : List Encoded :=
  [⟨.padding 1, [7, 1, 0, 0, 0, 4], @Event.LaidOut.padding 1 [4] rfl⟩,
    ⟨.spanEnd 5, [4, 5, 0, 0, 0, 0, 0, 0, 0], .spanEnd 5⟩]

/-- Behind the padding the cut leaves two bytes of the span's end. -/
theorem decodeEvents_grammar_paddedSpan :
    join paddedSpan = [7, 1, 0, 0, 0, 4, 4, 5, 0, 0, 0, 0, 0, 0, 0] ∧
      (∀ item ∈ decodeEvents (join paddedSpan), ∃ e, item = .ok e) ∧
      decodeEvents (join paddedSpan) = [.ok (.padding 1), .ok (.spanEnd 5)] ∧
      (∀ es', join paddedSpan = join es' → es' = paddedSpan) ∧
      8 ≤ (join paddedSpan).length ∧
      ∃ needed available, decodeEvents ((join paddedSpan).take 8) =
        [.ok (.padding 1), .error (.truncated needed available)] := by
  have hle : 8 ≤ (join paddedSpan).length := by decide
  obtain ⟨-, -, -, hclean, hjoin⟩ := decodeEvents_grammar (join paddedSpan)
  obtain ⟨hitems, hunique, -, hcut⟩ := hjoin paddedSpan rfl
  obtain ⟨n, -, hwithin, hread⟩ := hcut 8 hle
  obtain rfl : n = 1 := by
    have h0 : 0 < n := (hwithin 0 (by decide)).2 (by decide)
    have h1 : ¬ 1 < n := fun h => absurd ((hwithin 1 (by decide)).1 h) (by decide)
    omega
  obtain ⟨hend, -⟩ | ⟨-, hread⟩ := hread
  · exact absurd hend (by decide)
  · exact ⟨rfl, hclean.2 ⟨paddedSpan, rfl⟩, hitems, hunique, hle, hread⟩

end ThreadTrace.Wire
