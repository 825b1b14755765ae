import ThreadTrace.Stream.Source
import Mathlib.Data.List.Basic

/-!
# ThreadTrace.Proofs.Stream.Source — a source gives its next bytes or fails

However it is paced, a source fills a request with its next bytes and keeps the others, unless its
fault comes first (`Source.fill_filled`).  `Source.fill_of_sound` is the case of a source that does
not fail.
-/

namespace ThreadTrace.Source

/-- No request fails. -/
def Sound (s : Source) : Prop := s.fault = none

instance (s : Source) : Decidable s.Sound := inferInstanceAs (Decidable (_ = _))

theorem ofBytes_sound (bs : List UInt8) : (ofBytes bs).Sound := rfl

/-- A second request asks for what the first left wanted. -/
theorem take_append_take_drop {α : Type} (l : List α) {a n : Nat} (h : a ≤ n) :
    l.take a ++ (l.drop a).take (n - (l.take a).length) = l.take n := by
  by_cases ha : a ≤ l.length
  · have hlen : (l.take a).length = a := by simp [ha]
    rw [hlen, ← List.take_add, Nat.add_sub_cancel' h]
  · rw [List.drop_of_length_le (by omega), List.take_of_length_le (by omega),
      List.take_of_length_le (i := n) (by omega)]
    simp

theorem drop_drop_take {α : Type} (l : List α) {a n : Nat} (h : a ≤ n) :
    (l.drop a).drop (n - (l.take a).length) = l.drop n := by
  rw [List.drop_drop, List.length_take]
  by_cases ha : a ≤ l.length
  · congr 1
    omega
  · rw [List.drop_of_length_le (by omega), List.drop_of_length_le (by omega)]

theorem eq_nil_of_take_isEmpty {α : Type} {l : List α} {m : Nat} (hm : 0 < m)
    (h : (l.take m).isEmpty) : l = [] :=
  (List.take_eq_nil_iff.1 (List.isEmpty_iff.1 h)).resolve_left (Nat.ne_of_gt hm)

/-- The answer to a request for `n` bytes: the next `n`, or the source's failure, which it then has
behind it. -/
inductive Filled (s : Source) (n : Nat) : Except IoFailure (List UInt8) × Source → Prop
  | bytes {s'} (rest_eq : s'.rest = s.rest.drop n) (fault_eq : s'.fault = s.fault) :
    Filled s n (.ok (s.rest.take n), s')
  | failed {position failure s'} (fault_eq : s.fault = some (position, failure))
    (gone : s'.fault = none) : Filled s n (.error failure, s')

/-- At the end there is nothing to get. -/
theorem Filled.nil {s s' : Source} {n : Nat} (hend : s.rest = []) (hrest : s'.rest = [])
    (hfault : s'.fault = s.fault) : Filled s n (.ok [], s') := by
  have h : Filled s n (.ok (s.rest.take n), s') :=
    .bytes (by rw [hrest, hend, List.drop_nil]) hfault
  rwa [hend, List.take_nil] at h

/-- One request gets some of the next bytes, or the fault is here.  When it gets less than it wants
though there are more bytes, the fault comes next. -/
theorem request_cases (s : Source) {n : Nat} (hn : 0 < n) :
    (∃ failure s', s.request n = (.error failure, s') ∧ s.fault = some (s.position, failure) ∧
      s'.fault = none) ∨
    ∃ m s', s.request n = (.ok (s.rest.take m), s') ∧ 0 < m ∧ m ≤ n ∧
      s'.rest = s.rest.drop m ∧ s'.fault = s.fault ∧
      (n = m ∨ s.rest.length < m ∨ ∃ failure, s'.fault = some (s'.position, failure)) := by
  cases hfault : s.fault with
  | none =>
    refine .inr ⟨n, (s.deliver n).2, ?_, hn, Nat.le_refl n, rfl, hfault, .inl rfl⟩
    simp [request, hfault, deliver]
  | some fault =>
    obtain ⟨position, failure⟩ := fault
    by_cases hhere : s.position = position
    · refine .inl ⟨failure, { s with fault := none }, ?_, by rw [hhere], rfl⟩
      simp [request, hfault, hhere]
    by_cases hnear : s.position < position ∧ position - s.position < n
    · -- no piece runs past the fault
      have hlimit : min n (position - s.position) = position - s.position := by omega
      refine .inr ⟨position - s.position, (s.deliver (position - s.position)).2, ?_, by omega,
        by omega, rfl, hfault, ?_⟩
      · simp only [request, hfault, hhere, if_false, hnear.1, if_true, hlimit]
        rfl
      · by_cases hend : s.rest.length < position - s.position
        · exact .inr (.inl hend)
        · have hposition : (s.deliver (position - s.position)).2.position = position := by
            simp only [deliver, List.length_take]
            omega
          rw [hposition]
          exact .inr (.inr ⟨failure, hfault⟩)
    · have hlimit : (if s.position < position then min n (position - s.position) else n) = n := by
        split <;> omega
      refine .inr ⟨n, (s.deliver n).2, ?_, hn, Nat.le_refl n, rfl, hfault, .inl rfl⟩
      simp only [request, hfault, hhere, if_false, hlimit]
      rfl

/-- A request made at the fault or at the end. -/
theorem request_filled {s : Source} {n : Nat} (hn : 0 < n)
    (h : s.rest = [] ∨ ∃ failure, s.fault = some (s.position, failure)) :
    Filled s n (s.request n) := by
  obtain hend | ⟨failure, hfault⟩ := h
  · obtain ⟨failure, s', hrequest, hfault, hgone⟩ | ⟨m, s', hrequest, -, -, hrest, hfault, -⟩ :=
      s.request_cases hn
    · rw [hrequest]
      exact .failed hfault hgone
    · rw [hend, List.drop_nil] at hrest
      rw [hrequest, hend, List.take_nil]
      exact .nil hend hrest hfault
  · have hrequest : s.request n = (.error failure, { s with fault := none }) := by
      simp [request, hfault]
    rw [hrequest]
    exact .failed hfault rfl

/-- What was got is followed by what the requests behind it get. -/
theorem resume_filled {s s' : Source} {m n : Nat} {more : Except IoFailure (List UInt8) × Source}
    (hle : m ≤ n) (hrest : s'.rest = s.rest.drop m) (hfault : s'.fault = s.fault)
    (h : Filled s' (n - (s.rest.take m).length) more) :
    Filled s n (resume (s.rest.take m) more) := by
  cases h with
  | bytes hrest' hfault' =>
    rw [hrest, drop_drop_take s.rest hle] at hrest'
    rw [hrest, resume, take_append_take_drop s.rest hle]
    exact .bytes hrest' (hfault'.trans hfault)
  | failed hfault' hgone => exact .failed (hfault.symm.trans hfault') hgone

theorem fillUnpaced_filled (s : Source) {n : Nat} (hn : 0 < n) : Filled s n (fillUnpaced n s) := by
  unfold fillUnpaced
  obtain ⟨failure, s₁, hrequest, hfault, hgone⟩ |
    ⟨m, s₁, hrequest, hm, hle, hrest, hfault, hshort⟩ := s.request_cases hn
  · rw [hrequest]
    exact .failed hfault hgone
  rw [hrequest]
  have hlength : (s.rest.take m).length = min m s.rest.length := List.length_take
  by_cases hdone : (s.rest.take m).isEmpty || (s.rest.take m).length == n
  · -- all that was wanted, or the end
    have hall : s.rest.take m = s.rest.take n ∧ s.rest.drop m = s.rest.drop n := by
      simp only [Bool.or_eq_true, beq_iff_eq, hlength] at hdone
      obtain hempty | hfull := hdone
      · simp [eq_nil_of_take_isEmpty hm hempty]
      · obtain rfl : m = n := by omega
        exact ⟨rfl, rfl⟩
    simp only [hdone, if_true]
    rw [hall.1]
    exact .bytes (hrest.trans hall.2) hfault
  · simp only [hdone, Bool.false_eq_true, if_false]
    simp only [Bool.or_eq_true, List.isEmpty_iff, beq_iff_eq, hlength, not_or] at hdone
    refine resume_filled hle hrest hfault (request_filled (by omega) ?_)
    obtain hall | hend | hhere := hshort
    · left
      rw [hrest]
      exact List.drop_of_length_le (by omega)
    · left
      rw [hrest]
      exact List.drop_of_length_le (by omega)
    · exact .inr hhere

/-- The pace of a source does not matter to what a request gets. -/
theorem Filled.of_pace {s : Source} {n : Nat} {pace : List Delivery}
    {out : Except IoFailure (List UInt8) × Source} (h : Filled { s with pace := pace } n out) :
    Filled s n out := by
  cases h with
  | bytes hrest hfault => exact .bytes hrest hfault
  | failed hfault hgone => exact .failed hfault hgone

theorem fillPaced_filled (pace : List Delivery) (s : Source) (n : Nat) :
    Filled s n (fillPaced pace n s) := by
  induction pace generalizing s n with
  | nil =>
    cases n with
    | zero => exact .bytes rfl rfl
    | succ n => exact fillUnpaced_filled s (Nat.succ_pos n)
  | cons d pace ih =>
    cases n with
    | zero => exact .bytes rfl rfl
    | succ n =>
      cases d with
      | interrupted => exact (ih { s with pace := pace } (n + 1)).of_pace
      | piece k =>
        unfold fillPaced
        obtain ⟨failure, s₁, hrequest, hfault, hgone⟩ |
          ⟨m, s₁, hrequest, hm, hle, hrest, hfault, -⟩ :=
            request_cases { s with pace := pace } (n := min (k + 1) (n + 1)) (by omega)
        · simp only [hrequest]
          exact .failed hfault hgone
        · simp only [hrequest]
          by_cases hempty : (s.rest.take m).isEmpty
          · have hend : s.rest = [] := eq_nil_of_take_isEmpty hm hempty
            simp only [hend, List.drop_nil] at hrest
            simp only [hempty, if_true]
            exact .nil hend hrest hfault
          · simp only [hempty, Bool.false_eq_true, if_false]
            exact resume_filled (by omega) hrest hfault (ih s₁ _)

/-- The next bytes come, or all that are left, or the source fails. -/
theorem fill_filled (s : Source) (n : Nat) : Filled s n (s.fill n) := fillPaced_filled s.pace s n

theorem fill_of_sound {s : Source} (h : s.Sound) (n : Nat) :
    ∃ s', s.fill n = (.ok (s.rest.take n), s') ∧ s'.rest = s.rest.drop n ∧ s'.Sound := by
  have hfilled := s.fill_filled n
  generalize s.fill n = out at hfilled
  cases hfilled with
  | bytes hrest hfault => exact ⟨_, rfl, hrest, hfault.trans h⟩
  | failed hfault =>
    rw [h] at hfault
    cases hfault

end ThreadTrace.Source
