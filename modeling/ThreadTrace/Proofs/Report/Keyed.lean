import ThreadTrace.Report.Keyed
import Mathlib.Algebra.GroupWithZero.Nat
import Mathlib.Data.List.Basic

/-!
# ThreadTrace.Proofs.Report.Keyed — entries are what can be looked up

Every change keeps the entries `Sorted`, with one entry for a key.  Sorted entries are determined
by what a look-up gives for each key (`Sorted.ext`), so that the order of changes does not show in
them.  What is counted over all entries grows with each change (`total_update`).
-/

namespace ThreadTrace.Keyed

variable {α β γ : Type} {rank : α → Nat} {k j : α} {v : β} {m m' : Keyed α β}

/-- The entries stand in the order of their ranks, one for each rank. -/
def Sorted (rank : α → Nat) (m : Keyed α β) : Prop := m.Pairwise fun a b => rank a.1 < rank b.1

theorem sorted_nil (rank : α → Nat) : Sorted rank ([] : Keyed α β) := .nil

/-! ### Changes -/

/-- A change adds no other key. -/
theorem rank_of_mem_update {f : Option β → β} {entry : α × β} (h : entry ∈ update rank k f m) :
    rank entry.1 = rank k ∨ ∃ old ∈ m, rank entry.1 = rank old.1 := by
  induction m with
  | nil =>
    rw [List.mem_singleton.1 h]
    exact .inl rfl
  | cons head rest ih =>
    obtain ⟨k', v⟩ := head
    unfold update at h
    split at h
    · obtain rfl | h := List.mem_cons.1 h
      · exact .inl rfl
      · exact .inr ⟨entry, h, rfl⟩
    · split at h
      · obtain rfl | h := List.mem_cons.1 h
        · exact .inr ⟨(k', v), List.mem_cons_self, rfl⟩
        · obtain hrank | ⟨old, hold, hrank⟩ := ih h
          · exact .inl hrank
          · exact .inr ⟨old, List.mem_cons_of_mem _ hold, hrank⟩
      · obtain rfl | h := List.mem_cons.1 h
        · exact .inr ⟨(k', v), List.mem_cons_self, rfl⟩
        · exact .inr ⟨entry, List.mem_cons_of_mem _ h, rfl⟩

theorem Sorted.update (h : Sorted rank m) (k : α) (f : Option β → β) :
    Sorted rank (Keyed.update rank k f m) := by
  induction m with
  | nil => exact List.pairwise_singleton _ _
  | cons head rest ih =>
    obtain ⟨k', v⟩ := head
    obtain ⟨hhead, hrest⟩ := List.pairwise_cons.1 h
    unfold Keyed.update
    by_cases hlt : rank k < rank k'
    · rw [if_pos hlt]
      refine List.pairwise_cons.2 ⟨fun entry hentry => ?_, h⟩
      obtain rfl | hentry := List.mem_cons.1 hentry
      · exact hlt
      · exact Nat.lt_trans hlt (hhead entry hentry)
    · rw [if_neg hlt]
      by_cases hgt : rank k' < rank k
      · rw [if_pos hgt]
        refine List.pairwise_cons.2 ⟨fun entry hentry => ?_, ih hrest⟩
        obtain hrank | ⟨old, hold, hrank⟩ := rank_of_mem_update hentry
        · rwa [hrank]
        · rw [hrank]
          exact hhead old hold
      · rw [if_neg hgt]
        exact List.pairwise_cons.2 ⟨hhead, hrest⟩

/-- Two changes of one value are one. -/
theorem update_update (rank : α → Nat) (k : α) (f g : Option β → β) (m : Keyed α β) :
    update rank k g (update rank k f m) = update rank k (fun old => g (some (f old))) m := by
  induction m with
  | nil => simp [update]
  | cons head rest ih =>
    obtain ⟨k', v⟩ := head
    by_cases hlt : rank k < rank k'
    · simp [update, hlt]
    · by_cases hgt : rank k' < rank k
      · simp [update, hlt, hgt, ih]
      · simp [update, hlt, hgt]

/-! ### Look-up -/

@[simp] theorem get?_nil (rank : α → Nat) (k : α) : get? rank k ([] : Keyed α β) = none := rfl

theorem get?_cons_self (rank : α → Nat) (k : α) (v : β) (m : Keyed α β) :
    get? rank k ((k, v) :: m) = some v := by
  simp [get?]

theorem get?_cons_of_ne (h : rank j ≠ rank k) : get? rank k ((j, v) :: m) = get? rank k m := by
  have hne : (rank j == rank k) = false := by simpa using h
  simp [get?, hne]

/-- Behind the place of a key there is no value of it. -/
theorem get?_eq_none_of_lt (h : ∀ entry ∈ m, rank k < rank entry.1) : get? rank k m = none := by
  rw [get?, Option.map_eq_none_iff, List.find?_eq_none]
  intro entry hentry
  have hlt := h entry hentry
  simp
  omega

theorem get?_map (rank : α → Nat) (k : α) (f : β → γ) (m : Keyed α β) :
    get? rank k (m.map fun entry => (entry.1, f entry.2)) = (get? rank k m).map f := by
  simp only [get?, List.find?_map, Option.map_map]
  rfl

theorem Sorted.map (h : Sorted rank m) (f : β → γ) :
    Sorted rank (m.map fun entry => (entry.1, f entry.2)) :=
  List.pairwise_map.2 h

/-- Sorted entries with the same values are the same. -/
theorem Sorted.ext (hrank : Function.Injective rank) (h : Sorted rank m) (h' : Sorted rank m')
    (hget : ∀ k, get? rank k m = get? rank k m') : m = m' := by
  induction m generalizing m' with
  | nil =>
    cases m' with
    | nil => rfl
    | cons head' rest' =>
      have hnone := hget head'.1
      rw [get?_nil, get?_cons_self] at hnone
      cases hnone
  | cons head rest ih =>
    obtain ⟨k, v⟩ := head
    obtain ⟨hhead, hrest⟩ := List.pairwise_cons.1 h
    cases m' with
    | nil =>
      have hnone := hget k
      rw [get?_nil, get?_cons_self] at hnone
      cases hnone
    | cons head' rest' =>
      obtain ⟨k', v'⟩ := head'
      obtain ⟨hhead', hrest'⟩ := List.pairwise_cons.1 h'
      -- a first key that is the lesser one would be missing on the other side
      obtain hlt | heq | hgt := Nat.lt_trichotomy (rank k) (rank k')
      · have hmissing := hget k
        rw [get?_cons_self, get?_cons_of_ne (Nat.ne_of_gt hlt),
          get?_eq_none_of_lt fun entry he => Nat.lt_trans hlt (hhead' entry he)] at hmissing
        cases hmissing
      · obtain rfl : k = k' := hrank heq
        have hvalue := hget k
        rw [get?_cons_self, get?_cons_self] at hvalue
        obtain rfl := Option.some.inj hvalue
        rw [ih hrest hrest' fun j => ?_]
        by_cases hj : rank k = rank j
        · rw [get?_eq_none_of_lt fun entry he => hj ▸ hhead entry he,
            get?_eq_none_of_lt fun entry he => hj ▸ hhead' entry he]
        · have hothers := hget j
          rwa [get?_cons_of_ne hj, get?_cons_of_ne hj] at hothers
      · have hmissing := hget k'
        rw [get?_cons_self, get?_cons_of_ne (Nat.ne_of_gt hgt),
          get?_eq_none_of_lt fun entry he => Nat.lt_trans hgt (hhead entry he)] at hmissing
        cases hmissing

/-- An entry is what a look-up of its key gives. -/
theorem Sorted.mem_iff (h : Sorted rank m) (hrank : Function.Injective rank) :
    (k, v) ∈ m ↔ get? rank k m = some v := by
  induction m with
  | nil => simp
  | cons head rest ih =>
    obtain ⟨k', v'⟩ := head
    obtain ⟨hhead, hrest⟩ := List.pairwise_cons.1 h
    rw [List.mem_cons, Prod.mk.injEq]
    by_cases hk : rank k' = rank k
    · obtain rfl := hrank hk
      have hnone : (k', v) ∉ rest := fun hmem => Nat.lt_irrefl _ (hhead (k', v) hmem)
      rw [get?_cons_self, Option.some.injEq]
      simp [hnone, eq_comm]
    · have hne : k ≠ k' := fun heq => hk (congrArg rank heq.symm)
      rw [get?_cons_of_ne hk, ih hrest]
      simp [hne]

theorem Sorted.mem_keys_iff (h : Sorted rank m) (hrank : Function.Injective rank) :
    k ∈ m.map Prod.fst ↔ (get? rank k m).isSome := by
  simp only [List.mem_map, Prod.exists, exists_and_right, exists_eq_right, h.mem_iff hrank,
    Option.isSome_iff_exists]

/-! ### Totals -/

/-- What all values count together. -/
def total (count : β → Nat) (m : Keyed α β) : Nat := (m.map fun entry => count entry.2).sum

/-- A change that makes one value count so much more, whatever it was, does so for all together. -/
theorem total_update {count : β → Nat} {f : Option β → β} {n : Nat}
    (h : ∀ old, count (f old) = old.elim 0 count + n) (rank : α → Nat) (k : α) (m : Keyed α β) :
    (update rank k f m).total count = m.total count + n := by
  induction m with
  | nil =>
    have hnone := h none
    simpa [update, total] using hnone
  | cons head rest ih =>
    obtain ⟨k', v⟩ := head
    have hnone : count (f none) = n := by simpa using h none
    have hsome : count (f (some v)) = count v + n := h (some v)
    have hcons : ∀ (entry : α × β) (m : Keyed α β),
        total count (entry :: m) = count entry.2 + total count m := fun _ _ => List.sum_cons
    unfold update
    by_cases hlt : rank k < rank k'
    · rw [if_pos hlt, hcons, hnone, Nat.add_comm]
    · rw [if_neg hlt]
      by_cases hgt : rank k' < rank k
      · rw [if_pos hgt, hcons, ih, hcons, Nat.add_assoc]
      · rw [if_neg hgt, hcons, hcons, hsome, Nat.add_right_comm]

end ThreadTrace.Keyed
