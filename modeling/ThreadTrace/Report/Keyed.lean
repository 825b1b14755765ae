/-!
# ThreadTrace.Report.Keyed — entries in the order of their keys

A list of keys and values in ascending order of a rank; `update` changes or adds one entry and keeps
the order.
-/

namespace ThreadTrace

abbrev Keyed (α β : Type) := List (α × β)

namespace Keyed

variable {α β : Type}

/-- The value of a key, by the key's rank. -/
def get? (rank : α → Nat) (k : α) (m : Keyed α β) : Option β :=
  (m.find? fun entry => rank entry.1 == rank k).map (·.2)

/-- The entries after a change of one value, which `f` gets to see if there is one. -/
def update (rank : α → Nat) (k : α) (f : Option β → β) : Keyed α β → Keyed α β
  | [] => [(k, f none)]
  | (k', v) :: rest =>
    if rank k < rank k' then (k, f none) :: (k', v) :: rest
    else if rank k' < rank k then (k', v) :: update rank k f rest
    else (k', f (some v)) :: rest

theorem get?_update_self (rank : α → Nat) (k : α) (f : Option β → β) (m : Keyed α β)
    (sorted : m.Pairwise fun a b => rank a.1 < rank b.1) :
    get? rank k (update rank k f m) = some (f (get? rank k m)) := by
  induction m with
  | nil => simp [update, get?]
  | cons entry rest ih =>
    obtain ⟨k', v⟩ := entry
    obtain ⟨hhead, htail⟩ := List.pairwise_cons.1 sorted
    by_cases hlt : rank k < rank k'
    · have hne : (rank k' == rank k) = false := by simp; omega
      have hnone : rest.find? (fun entry => rank entry.1 == rank k) = none := by
        rw [List.find?_eq_none]
        intro e he
        have hbelow : rank k' < rank e.1 := hhead e he
        simp
        omega
      simp [update, get?, hlt, hne, hnone]
    · by_cases hgt : rank k' < rank k
      · have hne : (rank k' == rank k) = false := by simp; omega
        have := ih htail
        simpa [update, get?, hlt, hgt, hne] using this
      · have heq : rank k' = rank k := by omega
        simp [update, get?, heq]

theorem get?_update_of_ne (rank : α → Nat) {k j : α} (h : rank j ≠ rank k) (f : Option β → β)
    (m : Keyed α β) : get? rank j (update rank k f m) = get? rank j m := by
  have hne : (rank k == rank j) = false := by simp; omega
  induction m with
  | nil => simp [update, get?, hne]
  | cons entry rest ih =>
    obtain ⟨k', v⟩ := entry
    by_cases hlt : rank k < rank k'
    · simp [update, get?, hlt, hne]
    · by_cases hgt : rank k' < rank k
      · by_cases hj : rank k' = rank j
        · have hj' : (rank k' == rank j) = true := by simp [hj]
          simp [update, get?, hlt, hgt, hj']
        · have hj' : (rank k' == rank j) = false := by simp [hj]
          simpa [update, get?, hlt, hgt, hj'] using ih
      · have hj : (rank k' == rank j) = false := by simp; omega
        simp [update, get?, hlt, hgt, hj]

end Keyed

end ThreadTrace
