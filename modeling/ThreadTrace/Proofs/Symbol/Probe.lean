import ThreadTrace.Symbol.Cache
import Mathlib.Algebra.Group.Nat.Defs
import Mathlib.Data.Fintype.Card

/-!
# ThreadTrace.Proofs.Symbol.Probe — the search for an address ends where it should

A search passes the slots of other addresses until it finds its own, a vacant slot, or has been
everywhere (`probe_ends`).  `Cache.Lawful` is what every cache keeps: each entry lies in one slot,
and the slots from its home to there are occupied (`reached`), so that a search cannot stop in front
of it.  In a lawful cache a search hits exactly the stored addresses (`probe_eq_hit_iff`), and has
been everywhere only when the cache is full (`capacity_le_of_exhausted`).
-/

namespace ThreadTrace.Cache

variable {c : Cache} {address : UInt64}

/-- The slot that a search looks at in its `d`-th step. -/
def slotAt (c : Cache) (start d : Nat) : Nat := (start + d) % c.slots.size

/-- The address of an entry. -/
def addressOf? (c : Cache) (entry : Nat) : Option UInt64 := c.entries[entry]?.map (·.1)

/-- The slot holds an entry. -/
def Occupied (c : Cache) (slot : Nat) : Prop := ∃ entry, c.slots[slot]? = some (some entry)

/-- The slot holds an entry of another address. -/
def Passes (c : Cache) (address : UInt64) (slot : Nat) : Prop :=
  ∃ entry, c.slots[slot]? = some (some entry) ∧ c.addressOf? entry ≠ some address

theorem Passes.occupied {slot : Nat} (h : c.Passes address slot) : c.Occupied slot :=
  ⟨h.choose, h.choose_spec.1⟩

theorem not_occupied {slot : Nat} (h : c.slots[slot]? = some none) : ¬ c.Occupied slot := by
  rintro ⟨entry, hentry⟩
  rw [h] at hentry
  cases hentry

/-! ### How a search ends -/

/-- What the answer of a search says of the slots it looked at. -/
inductive Ends (c : Cache) (address : UInt64) (start steps : Nat) : Probe → Prop where
  | hit {d entry : Nat} (hd : d < steps) (hpass : ∀ k < d, c.Passes address (c.slotAt start k))
      (hslot : c.slots[c.slotAt start d]? = some (some entry))
      (haddress : c.addressOf? entry = some address) : Ends c address start steps (.hit entry)
  | vacant {d : Nat} (hd : d < steps) (hpass : ∀ k < d, c.Passes address (c.slotAt start k))
      (hslot : c.slots[c.slotAt start d]? = some none) :
      Ends c address start steps (.vacant (c.slotAt start d))
  | exhausted (hpass : ∀ k < steps, c.Passes address (c.slotAt start k)) :
      Ends c address start steps .exhausted

theorem slotAt_zero {start : Nat} (h : start < c.slots.size) : c.slotAt start 0 = start :=
  Nat.mod_eq_of_lt h

theorem slotAt_succ (start d : Nat) :
    c.slotAt ((start + 1) % c.slots.size) d = c.slotAt start (d + 1) := by
  rw [slotAt, slotAt, Nat.mod_add_mod, Nat.add_assoc, Nat.add_comm 1 d]

/-- A slot that is passed lengthens the search by one step. -/
theorem Ends.succ {start steps : Nat} {p : Probe} (h0 : c.Passes address (c.slotAt start 0))
    (h : c.Ends address ((start + 1) % c.slots.size) steps p) :
    c.Ends address start (steps + 1) p := by
  have hshift : ∀ d, (∀ k < d, c.Passes address (c.slotAt ((start + 1) % c.slots.size) k)) →
      ∀ k < d + 1, c.Passes address (c.slotAt start k) := by
    intro d hpass k hk
    cases k with
    | zero => exact h0
    | succ k =>
      rw [← slotAt_succ]
      exact hpass k (Nat.lt_of_succ_lt_succ hk)
  cases h with
  | hit hd hpass hslot haddress =>
    rw [slotAt_succ] at hslot
    exact .hit (Nat.succ_lt_succ hd) (hshift _ hpass) hslot haddress
  | vacant hd hpass hslot =>
    rw [slotAt_succ] at hslot ⊢
    exact .vacant (Nat.succ_lt_succ hd) (hshift _ hpass) hslot
  | exhausted hpass => exact .exhausted (hshift _ hpass)

theorem probeFrom_ends (address : UInt64) (steps : Nat) {start : Nat} (h : start < c.slots.size) :
    c.Ends address start steps (c.probeFrom address steps start) := by
  induction steps generalizing start with
  | zero => exact .exhausted fun _ hk => absurd hk (Nat.not_lt_zero _)
  | succ steps ih =>
    have h0 := slotAt_zero h
    unfold probeFrom
    cases hslot : c.slots[start]? with
    | none => exact absurd (Array.getElem?_eq_none_iff.1 hslot) (by omega)
    | some content =>
      cases content with
      | none =>
        rw [← h0] at hslot
        have hends : c.Ends address start (steps + 1) (.vacant (c.slotAt start 0)) :=
          .vacant (Nat.succ_pos _) (fun _ hk => absurd hk (Nat.not_lt_zero _)) hslot
        rwa [h0] at hends
      | some entry =>
        simp only
        rw [← h0] at hslot
        by_cases haddress : (c.entries[entry]?.map (·.1)) = some address
        · rw [if_pos haddress]
          exact .hit (Nat.succ_pos _) (fun _ hk => absurd hk (Nat.not_lt_zero _)) hslot haddress
        · rw [if_neg haddress]
          exact (ih (Nat.mod_lt _ (by omega))).succ ⟨entry, hslot, haddress⟩

/-! ### What every cache keeps -/

structure Lawful (c : Cache) : Prop where
  slots_size : c.slots.size = 2 ^ c.bits
  capacity_le : c.capacity ≤ c.slots.size
  size_le : c.entries.size ≤ c.capacity
  /-- No two entries have one address. -/
  distinct : ∀ {i j : Nat} {a : UInt64}, c.addressOf? i = some a → c.addressOf? j = some a → i = j
  stored : ∀ {slot entry : Nat}, c.slots[slot]? = some (some entry) → entry < c.entries.size
  /-- No entry lies in two slots. -/
  once : ∀ {slot slot' entry : Nat}, c.slots[slot]? = some (some entry) →
    c.slots[slot']? = some (some entry) → slot = slot'
  /-- Every entry lies in a slot, and a search for it meets only occupied slots before. -/
  reached : ∀ {entry : Nat} {a : UInt64}, c.addressOf? entry = some a → ∃ d < c.slots.size,
    c.slots[c.slotAt (c.home a) d]? = some (some entry) ∧
      ∀ k < d, c.Occupied (c.slotAt (c.home a) k)

namespace Lawful

theorem slots_pos (hc : c.Lawful) : 0 < c.slots.size := by
  rw [hc.slots_size]
  exact Nat.two_pow_pos _

theorem home_lt (hc : c.Lawful) (address : UInt64) : c.home address < c.slots.size := by
  unfold home
  split
  · exact hc.slots_pos
  · exact Nat.mod_lt _ hc.slots_pos

theorem probe_ends (hc : c.Lawful) (address : UInt64) :
    c.Ends address (c.home address) c.slots.size (c.probe address) :=
  probeFrom_ends address _ (hc.home_lt address)

/-- A search hits its address if that is stored. -/
theorem probe_of_addressOf? (hc : c.Lawful) {entry : Nat}
    (h : c.addressOf? entry = some address) : c.probe address = .hit entry := by
  obtain ⟨d, hd, hslot, hchain⟩ := hc.reached h
  -- a search that is still going at step `d` cannot pass the entry there
  have hstop : ¬ c.Passes address (c.slotAt (c.home address) d) := by
    rintro ⟨other, hother, hne⟩
    rw [hslot, Option.some.injEq, Option.some.injEq] at hother
    exact hne (hother ▸ h)
  have hends := hc.probe_ends address
  generalize c.probe address = p at hends ⊢
  cases hends with
  | hit _ _ _ haddress => rw [hc.distinct haddress h]
  | @vacant d' _ hpass hvacant =>
    exfalso
    obtain hlt | rfl | hgt := Nat.lt_trichotomy d' d
    · obtain ⟨other, hother⟩ := hchain d' hlt
      rw [hvacant] at hother
      cases hother
    · rw [hvacant] at hslot
      cases hslot
    · exact hstop (hpass d hgt)
  | exhausted hpass => exact absurd (hpass d hd) hstop

theorem probe_eq_hit_iff (hc : c.Lawful) {entry : Nat} :
    c.probe address = .hit entry ↔ c.addressOf? entry = some address := by
  constructor
  · intro h
    have hends := hc.probe_ends address
    rw [h] at hends
    cases hends with
    | hit _ _ _ haddress => exact haddress
  · exact hc.probe_of_addressOf?

/-- A search that hits nothing was for an address that is not stored. -/
theorem addressOf?_ne (hc : c.Lawful) (h : ∀ entry, c.probe address ≠ .hit entry) (entry : Nat) :
    c.addressOf? entry ≠ some address := by
  intro haddress
  exact h entry (hc.probe_of_addressOf? haddress)

/-! ### A full index -/

/-- Every slot is looked at in some step. -/
theorem exists_slotAt {start slot : Nat} (hstart : start < c.slots.size)
    (hslot : slot < c.slots.size) : ∃ d < c.slots.size, c.slotAt start d = slot := by
  by_cases h : start ≤ slot
  · refine ⟨slot - start, by omega, ?_⟩
    rw [slotAt, Nat.add_sub_cancel' h, Nat.mod_eq_of_lt hslot]
  · refine ⟨slot + c.slots.size - start, by omega, ?_⟩
    have hsum : start + (slot + c.slots.size - start) = slot + c.slots.size := by omega
    rw [slotAt, hsum, Nat.add_mod_right, Nat.mod_eq_of_lt hslot]

/-- As many entries as slots, since no entry lies in two. -/
theorem slots_le_of_occupied (hc : c.Lawful) (h : ∀ slot < c.slots.size, c.Occupied slot) :
    c.slots.size ≤ c.entries.size := by
  choose entryIn hentryIn using fun slot : Fin c.slots.size => h slot slot.isLt
  let place : Fin c.slots.size → Fin c.entries.size :=
    fun slot => ⟨entryIn slot, hc.stored (hentryIn slot)⟩
  have hinj : Function.Injective place := by
    intro slot slot' heq
    have hentry : entryIn slot = entryIn slot' := congrArg Fin.val heq
    exact Fin.ext (hc.once (hentryIn slot) (hentry ▸ hentryIn slot'))
  simpa using Fintype.card_le_of_injective place hinj

/-- A search that has been everywhere has found every slot occupied. -/
theorem occupied_of_exhausted (hc : c.Lawful) (h : c.probe address = .exhausted) {slot : Nat}
    (hslot : slot < c.slots.size) : c.Occupied slot := by
  have hends := hc.probe_ends address
  rw [h] at hends
  cases hends with
  | exhausted hpass =>
    obtain ⟨d, hd, rfl⟩ := exists_slotAt (hc.home_lt address) hslot
    exact (hpass d hd).occupied

theorem capacity_le_of_exhausted (hc : c.Lawful) (h : c.probe address = .exhausted) :
    c.capacity ≤ c.entries.size :=
  Nat.le_trans hc.capacity_le (hc.slots_le_of_occupied fun _ => hc.occupied_of_exhausted h)

end Lawful

/-! ### Insertion keeps the laws -/

/-- A vacant slot that was found is the first behind the occupied slots from the home on. -/
theorem Lawful.vacant_spec (hc : c.Lawful) {slot : Nat} (h : c.probe address = .vacant slot) :
    c.slots[slot]? = some none ∧ ∃ d < c.slots.size, c.slotAt (c.home address) d = slot ∧
      ∀ k < d, c.Occupied (c.slotAt (c.home address) k) := by
  have hends := hc.probe_ends address
  rw [h] at hends
  cases hends with
  | vacant hd hpass hslot => exact ⟨hslot, _, hd, rfl, fun k hk => (hpass k hk).occupied⟩

section Insert

variable {slot : Nat} {name : String}

theorem addressOf?_insert (entry : Nat) :
    (c.insert slot address name).addressOf? entry =
      if entry = c.entries.size then some address else c.addressOf? entry := by
  simp only [addressOf?, insert, Array.getElem?_push]
  split <;> rfl

@[simp] theorem entries_size_insert :
    (c.insert slot address name).entries.size = c.entries.size + 1 := by
  simp [insert]

@[simp] theorem slots_size_insert : (c.insert slot address name).slots.size = c.slots.size := by
  simp [insert]

@[simp] theorem slotAt_insert (start d : Nat) :
    (c.insert slot address name).slotAt start d = c.slotAt start d := by
  simp [slotAt]

@[simp] theorem home_insert (a : UInt64) : (c.insert slot address name).home a = c.home a := by
  simp [home, insert]

theorem slots_insert_self (h : c.slots[slot]? = some none) :
    (c.insert slot address name).slots[slot]? = some (some c.entries.size) := by
  obtain ⟨hlt, -⟩ := Array.getElem?_eq_some_iff.1 h
  simp [insert, hlt]

theorem slots_insert_of_ne {s : Nat} (h : s ≠ slot) :
    (c.insert slot address name).slots[s]? = c.slots[s]? := by
  simp [insert, h.symm]

/-- Occupied slots stay occupied, and by the same entry. -/
theorem slots_insert_of_some (h : c.slots[slot]? = some none) {s entry : Nat}
    (hs : c.slots[s]? = some (some entry)) :
    (c.insert slot address name).slots[s]? = some (some entry) := by
  rw [slots_insert_of_ne, hs]
  rintro rfl
  exact not_occupied h ⟨entry, hs⟩

theorem Occupied.insert (h : c.slots[slot]? = some none) {s : Nat} (hs : c.Occupied s) :
    (c.insert slot address name).Occupied s :=
  ⟨hs.choose, slots_insert_of_some h hs.choose_spec⟩

theorem slots_insert_cases (h : c.slots[slot]? = some none) {s entry : Nat}
    (hs : (c.insert slot address name).slots[s]? = some (some entry)) :
    (s = slot ∧ entry = c.entries.size) ∨ c.slots[s]? = some (some entry) := by
  by_cases hslot : s = slot
  · subst hslot
    rw [slots_insert_self h, Option.some.injEq, Option.some.injEq] at hs
    exact .inl ⟨rfl, hs.symm⟩
  · rw [slots_insert_of_ne hslot] at hs
    exact .inr hs

theorem Lawful.insert (hc : c.Lawful) (hprobe : c.probe address = .vacant slot)
    (hroom : c.entries.size < c.capacity) : (c.insert slot address name).Lawful := by
  have hnew : ∀ entry, c.addressOf? entry ≠ some address :=
    hc.addressOf?_ne fun entry h => by rw [hprobe] at h; cases h
  obtain ⟨hvacant, d, hd, hslot, hchain⟩ := hc.vacant_spec hprobe
  constructor
  case slots_size => simpa [Cache.insert] using hc.slots_size
  case capacity_le => simpa [Cache.insert] using hc.capacity_le
  case size_le => simpa [Cache.insert] using Nat.succ_le_of_lt hroom
  case distinct =>
    intro i j a hi hj
    rw [addressOf?_insert] at hi hj
    split at hi <;> split at hj
    · omega
    · exact absurd (hj.trans hi.symm) (hnew j)
    · exact absurd (hi.trans hj.symm) (hnew i)
    · exact hc.distinct hi hj
  case stored =>
    intro s entry hs
    rw [entries_size_insert]
    rcases slots_insert_cases hvacant hs with ⟨-, rfl⟩ | hs
    · exact Nat.lt_succ_self _
    · exact Nat.lt_succ_of_lt (hc.stored hs)
  case once =>
    intro s s' entry hs hs'
    rcases slots_insert_cases hvacant hs with ⟨hnew, rfl⟩ | hold <;>
      rcases slots_insert_cases hvacant hs' with ⟨hnew', h⟩ | hold'
    · exact hnew.trans hnew'.symm
    · exact absurd (hc.stored hold') (Nat.lt_irrefl _)
    · exact absurd (h ▸ hc.stored hold) (Nat.lt_irrefl _)
    · exact hc.once hold hold'
  case reached =>
    intro entry a h
    simp only [home_insert, slotAt_insert, slots_size_insert]
    rw [addressOf?_insert] at h
    split at h
    · -- the new entry: the search that found its slot has passed the others
      rename_i hentry
      rw [Option.some.injEq] at h
      subst h hentry
      refine ⟨d, hd, ?_, fun k hk => (hchain k hk).insert hvacant⟩
      rw [hslot, slots_insert_self hvacant]
    · obtain ⟨d', hd', hslot', hchain'⟩ := hc.reached h
      exact ⟨d', hd', slots_insert_of_some hvacant hslot',
        fun k hk => (hchain' k hk).insert hvacant⟩

end Insert

/-! ### An empty cache is lawful -/

theorem le_two_pow_bitsFor (n : Nat) : n ≤ 2 ^ bitsFor n := by
  unfold bitsFor
  split
  · simpa
  · have := Nat.lt_log2_self (n := n - 1)
    omega

theorem slots_size_new (capacity : Nat) :
    (new capacity).slots.size = 2 ^ (new capacity).bits := by
  simp only [new, Array.size_replicate]
  exact Nat.one_shiftLeft _

theorem lawful_new (capacity : Nat) : (new capacity).Lawful := by
  have hvacant : ∀ {slot entry : Nat}, (new capacity).slots[slot]? ≠ some (some entry) := by
    intro slot entry h
    simp only [new, Array.getElem?_replicate] at h
    split at h <;> cases h
  have hnone : ∀ {entry : Nat} {a : UInt64}, (new capacity).addressOf? entry ≠ some a := by
    intro entry a h
    simp [addressOf?, new] at h
  constructor
  case slots_size => exact slots_size_new capacity
  case capacity_le =>
    rw [slots_size_new]
    exact le_two_pow_bitsFor capacity
  case size_le => simp [new]
  case distinct =>
    intro i j a hi
    exact absurd hi hnone
  case stored =>
    intro slot entry h
    exact absurd h hvacant
  case once =>
    intro slot slot' entry h
    exact absurd h hvacant
  case reached =>
    intro entry a h
    exact absurd h hnone

end ThreadTrace.Cache
