import ThreadTrace.Proofs.Symbol.Probe
import Mathlib.Data.Nat.ModEq

/-!
# ThreadTrace.Proofs.Symbol.Index — the index of a cache after any requests

`Reachable` are the caches that come of a new one by requests.  All of them are lawful, and so have
an index that is `WellIndexed`: a search walks through every slot once, every entry lies in one slot
of its walk, and what a search answers can be read off the slots (`Reachable.wellIndexed`).
-/

namespace ThreadTrace.Cache

variable {c : Cache} {address : UInt64} {slot : Nat}

/-! ### Requests -/

/-- One request leaves the cache as it is, or stores a name in the slot where the search ended. -/
theorem resolve_cases {ρ : Type} [Resolver ρ] (c : Cache) (address : UInt64) (r : ρ) :
    (c.resolve address r).2.1 = c ∨
      ∃ slot name, c.probe address = .vacant slot ∧ c.entries.size < c.capacity ∧
        (c.resolve address r).2.1 = c.insert slot address name := by
  unfold resolve
  cases hprobe : c.probe address with
  | hit entry => exact .inl rfl
  | exhausted => exact .inl rfl
  | vacant slot =>
    simp only
    split_ifs with hfull
    · exact .inl rfl
    · rcases Resolver.resolve r address with ⟨_ | name, r'⟩
      · exact .inl rfl
      · exact .inr ⟨slot, name, rfl, Nat.lt_of_not_le hfull, rfl⟩

theorem Lawful.resolve {ρ : Type} [Resolver ρ] (hc : c.Lawful) (address : UInt64) (r : ρ) :
    (c.resolve address r).2.1.Lawful := by
  obtain hsame | ⟨slot, name, hprobe, hroom, hnext⟩ := c.resolve_cases address r
  · rwa [hsame]
  · rw [hnext]
    exact hc.insert hprobe hroom

theorem capacity_resolve {ρ : Type} [Resolver ρ] (c : Cache) (address : UInt64) (r : ρ) :
    (c.resolve address r).2.1.capacity = c.capacity := by
  obtain hsame | ⟨slot, name, -, -, hnext⟩ := c.resolve_cases address r
  · rw [hsame]
  · rw [hnext]
    rfl

/-- The caches for `capacity` names after any requests, each of them with any resolver. -/
inductive Reachable (capacity : Nat) : Cache → Prop where
  | new : Reachable capacity (Cache.new capacity)
  | resolve {ρ : Type} [Resolver ρ] {c : Cache} (before : Reachable capacity c)
      (address : UInt64) (r : ρ) : Reachable capacity (c.resolve address r).2.1

namespace Reachable

variable {capacity : Nat}

theorem lawful (h : Reachable capacity c) : c.Lawful := by
  induction h with
  | new => exact lawful_new capacity
  | resolve _ address r ih => exact ih.resolve address r

theorem capacity_eq (h : Reachable capacity c) : c.capacity = capacity := by
  induction h with
  | new => rfl
  | resolve _ address r ih => rw [capacity_resolve, ih]

end Reachable

/-! ### The walk of a search -/

/-- The slot that a search for an address comes to after so many steps: the low bits of the sum. -/
def walk (c : Cache) (address : UInt64) (i : Nat) : Nat :=
  (c.home address + i) &&& (c.slots.size - 1)

namespace Lawful

theorem walk_eq (hc : c.Lawful) (address : UInt64) (i : Nat) :
    c.walk address i = c.slotAt (c.home address) i := by
  rw [walk, slotAt, hc.slots_size, Nat.and_two_pow_sub_one_eq_mod]

theorem walk_lt (hc : c.Lawful) (address : UInt64) (i : Nat) :
    c.walk address i < c.slots.size := by
  rw [hc.walk_eq]
  exact Nat.mod_lt _ hc.slots_pos

/-- No slot is walked through twice. -/
theorem walk_inj (hc : c.Lawful) {i j : Nat} (hi : i < c.slots.size) (hj : j < c.slots.size)
    (h : c.walk address i = c.walk address j) : i = j := by
  rw [hc.walk_eq, hc.walk_eq] at h
  exact (Nat.ModEq.add_left_cancel' _ h).eq_of_lt_of_lt hi hj

/-- Every slot is walked through once. -/
theorem existsUnique_walk (hc : c.Lawful) (address : UInt64)
    (hslot : slot < c.slots.size) :
    ∃! i, i < c.slots.size ∧ c.walk address i = slot := by
  obtain ⟨i, hi, rfl⟩ := exists_slotAt (hc.home_lt address) hslot
  rw [← hc.walk_eq]
  exact ⟨i, ⟨hi, rfl⟩, fun j ⟨hj, heq⟩ => hc.walk_inj hj hi heq⟩

/-- In front of an entry only occupied slots are walked through. -/
theorem occupied_walk (hc : c.Lawful) {entry i k : Nat}
    (haddress : c.addressOf? entry = some address) (hi : i < c.slots.size)
    (hslot : c.slots[c.walk address i]? = some (some entry)) (hk : k < i) :
    c.Occupied (c.walk address k) := by
  obtain ⟨d, hd, hplace, hchain⟩ := hc.reached haddress
  rw [← hc.walk_eq] at hplace
  obtain rfl : d = i := hc.walk_inj hd hi (hc.once hplace hslot)
  rw [hc.walk_eq]
  exact hchain k hk

/-! ### What a search answers -/

/-- A search for a new address ends at the first vacant slot, or finds none. -/
theorem probe_of_new (hc : c.Lawful) (hnew : ∀ entry, c.addressOf? entry ≠ some address) :
    (∃ i < c.slots.size, c.probe address = .vacant (c.walk address i) ∧
        c.slots[c.walk address i]? = some none ∧ ∀ k < i, c.Occupied (c.walk address k)) ∨
      (c.probe address = .exhausted ∧ ∀ slot < c.slots.size, c.Occupied slot) := by
  cases hprobe : c.probe address with
  | hit entry => exact absurd (hc.probe_eq_hit_iff.1 hprobe) (hnew entry)
  | vacant slot =>
    obtain ⟨hvacant, d, hd, rfl, hchain⟩ := hc.vacant_spec hprobe
    simp only [← hc.walk_eq] at hvacant hchain ⊢
    exact .inl ⟨d, hd, rfl, hvacant, hchain⟩
  | exhausted => exact .inr ⟨rfl, fun slot => hc.occupied_of_exhausted hprobe⟩

theorem probe_eq_vacant_iff (hc : c.Lawful) :
    c.probe address = .vacant slot ↔
      (∀ entry, c.addressOf? entry ≠ some address) ∧ ∃ i < c.slots.size,
        c.walk address i = slot ∧ c.slots[slot]? = some none ∧
          ∀ k < i, c.Occupied (c.walk address k) := by
  constructor
  · intro h
    have hnew : ∀ entry, c.addressOf? entry ≠ some address := hc.addressOf?_ne (by simp [h])
    obtain ⟨hvacant, d, hd, hslot, hchain⟩ := hc.vacant_spec h
    simp only [← hc.walk_eq] at hslot hchain
    exact ⟨hnew, d, hd, hslot, hvacant, hchain⟩
  · rintro ⟨hnew, i, hi, rfl, hvacant, hchain⟩
    obtain ⟨j, -, hprobe, hvacant', hchain'⟩ | ⟨-, hfull⟩ := hc.probe_of_new hnew
    -- there is one first vacant slot
    · obtain hlt | rfl | hlt := Nat.lt_trichotomy i j
      · exact absurd (hchain' i hlt) (not_occupied hvacant)
      · exact hprobe
      · exact absurd (hchain j hlt) (not_occupied hvacant')
    · exact absurd (hfull _ (hc.walk_lt address i)) (not_occupied hvacant)

theorem probe_eq_exhausted_iff (hc : c.Lawful) :
    c.probe address = .exhausted ↔
      (∀ entry, c.addressOf? entry ≠ some address) ∧ ∀ slot < c.slots.size, c.Occupied slot := by
  constructor
  · intro h
    have hnew : ∀ entry, c.addressOf? entry ≠ some address := hc.addressOf?_ne (by simp [h])
    exact ⟨hnew, fun slot => hc.occupied_of_exhausted h⟩
  · rintro ⟨hnew, hfull⟩
    obtain ⟨i, -, -, hvacant, -⟩ | ⟨hprobe, -⟩ := hc.probe_of_new hnew
    · exact absurd (hfull _ (hc.walk_lt address i)) (not_occupied hvacant)
    · exact hprobe

end Lawful

/-! ### The index -/

/-- A cache for `capacity` names in which searches find what is stored. -/
structure WellIndexed (capacity : Nat) (c : Cache) : Prop where
  slots_size : c.slots.size = 2 ^ c.bits
  max_capacity_le : max capacity 1 ≤ c.slots.size
  home_lt : ∀ address, c.home address < c.slots.size
  /-- A search comes to every slot, and to none twice. -/
  walked : ∀ address, ∀ slot < c.slots.size, ∃! i, i < c.slots.size ∧ c.walk address i = slot
  addresses_nodup : (c.entries.toList.map (·.1)).Nodup
  size_le : c.entries.size ≤ capacity
  /-- Every entry lies in one slot. -/
  placed : ∀ entry < c.entries.size, ∃! slot : Nat, c.slots[slot]? = some (some entry)
  stored : ∀ {slot entry : Nat}, c.slots[slot]? = some (some entry) → entry < c.entries.size
  /-- Between its home and its slot an entry has occupied slots only. -/
  chained : ∀ {entry i : Nat} {address : UInt64}, c.addressOf? entry = some address →
    i < c.slots.size → c.slots[c.walk address i]? = some (some entry) →
      ∀ k < i, c.Occupied (c.walk address k)
  hit_iff : ∀ {address : UInt64} {entry : Nat},
    c.probe address = .hit entry ↔ c.addressOf? entry = some address
  vacant_iff : ∀ {address : UInt64} {slot : Nat}, c.probe address = .vacant slot ↔
    (∀ entry, c.addressOf? entry ≠ some address) ∧ ∃ i < c.slots.size,
      c.walk address i = slot ∧ c.slots[slot]? = some none ∧
        ∀ k < i, c.Occupied (c.walk address k)
  exhausted_iff : ∀ {address : UInt64}, c.probe address = .exhausted ↔
    (∀ entry, c.addressOf? entry ≠ some address) ∧ ∀ slot < c.slots.size, c.Occupied slot

namespace Lawful

theorem addresses_nodup (hc : c.Lawful) : (c.entries.toList.map (·.1)).Nodup := by
  refine List.pairwise_iff_getElem.2 fun i j hi hj hlt heq => Nat.ne_of_lt hlt ?_
  have haddress : ∀ {k : Nat} (hk : k < (c.entries.toList.map (·.1)).length),
      c.addressOf? k = some (c.entries.toList.map (·.1))[k] := by
    intro k hk
    rw [← List.getElem?_eq_getElem hk, List.getElem?_map, Array.getElem?_toList, addressOf?]
  exact hc.distinct (haddress hi) (heq ▸ haddress hj)

theorem existsUnique_slot (hc : c.Lawful) {entry : Nat} (h : entry < c.entries.size) :
    ∃! slot : Nat, c.slots[slot]? = some (some entry) := by
  have haddress : c.addressOf? entry = some c.entries[entry].1 := by
    rw [addressOf?, Array.getElem?_eq_getElem h, Option.map_some]
  obtain ⟨d, -, hslot, -⟩ := hc.reached haddress
  exact ⟨_, hslot, fun slot hslot' => hc.once hslot' hslot⟩

end Lawful

/-- **In every cache a search finds what is stored, and only that.**  Whatever was asked for and
whoever was asked, a search goes once through all slots, every entry lies in one slot, and between
the home of its address and this slot all slots are occupied.  So a search hits exactly the stored
addresses, stops at the first vacant slot for any other, and has been everywhere only if no slot is
vacant. -/
theorem Reachable.wellIndexed {capacity : Nat} (h : Reachable capacity c) :
    c.WellIndexed capacity where
  slots_size := h.lawful.slots_size
  max_capacity_le := by
    rw [← h.capacity_eq]
    exact Nat.max_le.2 ⟨h.lawful.capacity_le, h.lawful.slots_pos⟩
  home_lt := h.lawful.home_lt
  walked address _ := h.lawful.existsUnique_walk address
  addresses_nodup := h.lawful.addresses_nodup
  size_le := by
    rw [← h.capacity_eq]
    exact h.lawful.size_le
  placed _ := h.lawful.existsUnique_slot
  stored := h.lawful.stored
  chained haddress hi hslot _ := h.lawful.occupied_walk haddress hi hslot
  hit_iff := h.lawful.probe_eq_hit_iff
  vacant_iff := h.lawful.probe_eq_vacant_iff
  exhausted_iff := h.lawful.probe_eq_exhausted_iff

/-- A resolver with one name for all addresses. -/
structure SameName where
  name : String

instance : Resolver SameName where
  resolve r _ := (some r.name, r)

/-- Four slots and three addresses whose home is the last slot. -/
def wrapped : Cache :=
  [0x3, 0x100000003, 0x200000003].foldl (fun c address => (c.resolve address (SameName.mk "f")).2.1)
    (Cache.new 3)

/-- The search for the third goes round the end of the index, through the slots of the others. -/
theorem wellIndexed_wrapped :
    Reachable 3 wrapped ∧ wrapped.slots = #[some 1, some 2, none, some 0] ∧
      wrapped.addressOf? 2 = some 0x200000003 ∧ wrapped.walk 0x200000003 2 = 1 ∧
      (∀ k < 2, wrapped.Occupied (wrapped.walk 0x200000003 k)) ∧
      wrapped.probe 0x200000003 = .hit 2 ∧ wrapped.probe 0x300000003 ≠ .exhausted := by
  have hreachable : Reachable 3 wrapped := ((Reachable.new.resolve _ _).resolve _ _).resolve _ _
  have hindexed := hreachable.wellIndexed
  have hslots : wrapped.slots = #[some 1, some 2, none, some 0] := by decide +kernel
  have haddress : wrapped.addressOf? 2 = some 0x200000003 := by decide +kernel
  have hwalk : wrapped.walk 0x200000003 2 = 1 := by decide +kernel
  refine ⟨hreachable, hslots, haddress, hwalk, ?_, hindexed.hit_iff.2 haddress, fun h => ?_⟩
  · refine hindexed.chained haddress ?_ ?_
    · rw [hslots]
      decide
    · rw [hwalk, hslots]
      rfl
  · have hvacant : wrapped.slots[2]? = some none := by rw [hslots]; rfl
    exact not_occupied hvacant ((hindexed.exhausted_iff.1 h).2 2 (by rw [hslots]; decide))

end ThreadTrace.Cache
