import ThreadTrace.Proofs.Symbol.Probe
import Mathlib.Data.Finmap

/-!
# ThreadTrace.Proofs.Symbol.NameMap — the cache is a finite map that takes so many names and no more

`NameMap` is what a cache is for: a finite map from addresses to names with a bound on its size, and
no hashing.  `NameStore.run` asks either of them one thing after another, and `Logged` writes down
what their resolver was asked and what it answered.  `run_cache_eq_run_nameMap` says that the two
cannot be told apart.
-/

namespace ThreadTrace

/-! ### Names with a bound -/

/-- A finite map of at most `capacity` names. -/
structure NameMap where
  names : Finmap fun _ : UInt64 => String
  capacity : Nat

namespace NameMap

def empty (capacity : Nat) : NameMap := ⟨∅, capacity⟩

def get? (m : NameMap) (address : UInt64) : Option String := m.names.lookup address

def size (m : NameMap) : Nat := m.names.keys.card

def insert (m : NameMap) (address : UInt64) (name : String) : NameMap :=
  { m with names := m.names.insert address name }

variable {ρ : Type} [Resolver ρ]

/-- A name that is there is given; a new one is asked for if there is room for it. -/
def resolve (m : NameMap) (address : UInt64) (r : ρ) : Except CacheError String × NameMap × ρ :=
  match m.get? address with
  | some name => (.ok name, m, r)
  | none =>
    if m.capacity ≤ m.size then (.error (.full m.capacity), m, r)
    else
      match Resolver.resolve r address with
      | (none, r) => (.error (.unresolved address), m, r)
      | (some name, r) => (.ok name, m.insert address name, r)

@[simp] theorem get?_insert_self (m : NameMap) (address : UInt64) (name : String) :
    (m.insert address name).get? address = some name := Finmap.lookup_insert _

theorem get?_insert_of_ne {m : NameMap} {address a : UInt64} (h : a ≠ address) (name : String) :
    (m.insert address name).get? a = m.get? a := Finmap.lookup_insert_of_ne _ h

theorem size_insert {m : NameMap} {address : UInt64} (h : m.get? address = none) (name : String) :
    (m.insert address name).size = m.size + 1 := by
  have hkeys : (m.names.insert address name).keys = Insert.insert address m.names.keys := by
    ext a
    simp [Finmap.mem_keys]
  have hnot : address ∉ m.names.keys := by
    rw [Finmap.mem_keys, ← Finmap.lookup_eq_none]
    exact h
  show (m.names.insert address name).keys.card = m.names.keys.card + 1
  rw [hkeys, Finset.card_insert_of_notMem hnot]

end NameMap

/-! ### Asking one thing after another -/

/-- What keeps names for addresses. -/
class NameStore (σ : Type) where
  resolve {ρ : Type} [Resolver ρ] : σ → UInt64 → ρ → Except CacheError String × σ × ρ
  get? : σ → UInt64 → Option String
  size : σ → Nat

instance : NameStore Cache := ⟨Cache.resolve, Cache.get?, Cache.size⟩

instance : NameStore NameMap := ⟨NameMap.resolve, NameMap.get?, NameMap.size⟩

namespace NameStore

inductive Op where
  | resolve (address : UInt64)
  | get (address : UInt64)
  | size
  deriving DecidableEq

inductive Answer where
  | resolved (result : Except CacheError String)
  | found (name : Option String)
  | counted (n : Nat)

variable {σ ρ : Type} [NameStore σ] [Resolver ρ]

def perform (store : σ) (r : ρ) : Op → Answer × σ × ρ
  | .resolve address =>
    let (result, store, r) := resolve store address r
    (.resolved result, store, r)
  | .get address => (.found (get? store address), store, r)
  | .size => (.counted (size store), store, r)

/-- The answers in order, and what became of the store and the resolver. -/
def run (store : σ) (r : ρ) : List Op → List Answer × σ × ρ
  | [] => ([], store, r)
  | op :: ops =>
    let (answer, store, r) := perform store r op
    let (answers, store, r) := run store r ops
    (answer :: answers, store, r)

end NameStore

/-- A resolver together with what it was asked and what it answered. -/
structure Logged (ρ : Type) where
  resolver : ρ
  calls : List (UInt64 × Option String)

instance {ρ : Type} [Resolver ρ] : Resolver (Logged ρ) where
  resolve l address :=
    let (name, r) := Resolver.resolve l.resolver address
    (name, ⟨r, l.calls ++ [(address, name)]⟩)

/-! ### The cache stands for the map -/

/-- The entries of the cache are the names of the map. -/
structure Represents (c : Cache) (m : NameMap) : Prop where
  lawful : c.Lawful
  capacity_eq : c.capacity = m.capacity
  size_eq : c.size = m.size
  get?_iff : ∀ address name, m.get? address = some name ↔ (address, name) ∈ c.entries

theorem represents_empty (capacity : Nat) :
    Represents (Cache.new capacity) (NameMap.empty capacity) where
  lawful := Cache.lawful_new capacity
  capacity_eq := rfl
  size_eq := rfl
  get?_iff := by simp [NameMap.get?, NameMap.empty, Cache.new]

namespace Represents

variable {c : Cache} {m : NameMap} {address : UInt64}

theorem get?_eq_of_hit (h : Represents c m) {entry : Nat} (hprobe : c.probe address = .hit entry) :
    m.get? address = some (c.nameOf entry) := by
  have haddress := h.lawful.probe_eq_hit_iff.1 hprobe
  obtain ⟨⟨a, name⟩, hentry, rfl⟩ := Option.map_eq_some_iff.1 haddress
  rw [h.get?_iff, Cache.nameOf, hentry]
  exact Array.mem_of_getElem? hentry

theorem get?_eq_none (h : Represents c m) (hprobe : ∀ entry, c.probe address ≠ .hit entry) :
    m.get? address = none := by
  cases hget : m.get? address with
  | none => rfl
  | some name =>
    obtain ⟨i, hi⟩ := Array.getElem?_of_mem ((h.get?_iff address name).1 hget)
    exact absurd (by simp [Cache.addressOf?, hi]) (h.lawful.addressOf?_ne hprobe i)

theorem get?_eq (h : Represents c m) (address : UInt64) : c.get? address = m.get? address := by
  unfold Cache.get?
  cases hprobe : c.probe address with
  | hit entry => rw [h.get?_eq_of_hit hprobe]
  | vacant slot => rw [h.get?_eq_none (by simp [hprobe])]
  | exhausted => rw [h.get?_eq_none (by simp [hprobe])]

theorem insert (h : Represents c m) {slot : Nat} (hprobe : c.probe address = .vacant slot)
    (hroom : c.entries.size < c.capacity) (name : String) :
    Represents (c.insert slot address name) (m.insert address name) where
  lawful := h.lawful.insert hprobe hroom
  capacity_eq := h.capacity_eq
  size_eq := by
    rw [NameMap.size_insert (h.get?_eq_none (by simp [hprobe])), ← h.size_eq]
    exact Cache.entries_size_insert
  get?_iff a n := by
    have hnone : m.get? address = none := h.get?_eq_none (by simp [hprobe])
    simp only [Cache.insert, Array.mem_push, Prod.mk.injEq]
    by_cases ha : a = address
    · subst ha
      rw [NameMap.get?_insert_self, ← h.get?_iff, hnone]
      simp [eq_comm]
    · rw [NameMap.get?_insert_of_ne ha, h.get?_iff]
      simp [ha]

/-- One request, whether the address is stored, refused or new. -/
theorem resolve {ρ : Type} [Resolver ρ] (h : Represents c m) (address : UInt64) (r : ρ) :
    (c.resolve address r).1 = (m.resolve address r).1 ∧
      (c.resolve address r).2.2 = (m.resolve address r).2.2 ∧
      Represents (c.resolve address r).2.1 (m.resolve address r).2.1 := by
  unfold Cache.resolve NameMap.resolve
  cases hprobe : c.probe address with
  | hit entry =>
    simp only [h.get?_eq_of_hit hprobe, true_and]
    exact h
  | exhausted =>
    have hnone : m.get? address = none := h.get?_eq_none (by simp [hprobe])
    have hfull : m.capacity ≤ m.size := by
      rw [← h.capacity_eq, ← h.size_eq]
      exact h.lawful.capacity_le_of_exhausted hprobe
    simp only [hnone, hfull, if_true, h.capacity_eq, true_and]
    exact h
  | vacant slot =>
    have hnone : m.get? address = none := h.get?_eq_none (by simp [hprobe])
    simp only [hnone, ← h.capacity_eq, ← h.size_eq]
    by_cases hfull : c.capacity ≤ c.entries.size
    · rw [if_pos hfull, if_pos (show c.capacity ≤ c.size from hfull)]
      exact ⟨rfl, rfl, h⟩
    · rw [if_neg hfull, if_neg (show ¬ c.capacity ≤ c.size from hfull)]
      rcases Resolver.resolve r address with ⟨_ | name, r'⟩
      · exact ⟨rfl, rfl, h⟩
      · exact ⟨rfl, rfl, h.insert hprobe (Nat.lt_of_not_le hfull) name⟩

end Represents

/-! ### Runs -/

open NameStore

section Runs

variable {ρ : Type} [Resolver ρ] {c : Cache} {m : NameMap}

theorem Represents.perform (h : Represents c m) (r : ρ) (op : Op) :
    (NameStore.perform c r op).1 = (NameStore.perform m r op).1 ∧
      (NameStore.perform c r op).2.2 = (NameStore.perform m r op).2.2 ∧
      Represents (NameStore.perform c r op).2.1 (NameStore.perform m r op).2.1 := by
  cases op with
  | resolve address =>
    obtain ⟨hanswer, hresolver, hnext⟩ := h.resolve address r
    exact ⟨congrArg Answer.resolved hanswer, hresolver, hnext⟩
  | get address => exact ⟨congrArg Answer.found (h.get?_eq address), rfl, h⟩
  | size => exact ⟨congrArg Answer.counted h.size_eq, rfl, h⟩

theorem Represents.run (h : Represents c m) (r : ρ) (ops : List Op) :
    (NameStore.run c r ops).1 = (NameStore.run m r ops).1 ∧
      (NameStore.run c r ops).2.2 = (NameStore.run m r ops).2.2 ∧
      Represents (NameStore.run c r ops).2.1 (NameStore.run m r ops).2.1 := by
  induction ops generalizing c m r with
  | nil => exact ⟨rfl, rfl, h⟩
  | cons op ops ih =>
    obtain ⟨hanswer, hresolver, hnext⟩ := h.perform r op
    obtain ⟨hanswers, hresolver', hlast⟩ := ih hnext (NameStore.perform c r op).2.2
    rw [hresolver] at hanswers hresolver' hlast
    simp only [NameStore.run, hanswer, hresolver, hanswers, true_and]
    exact ⟨hresolver', hlast⟩

end Runs

namespace NameMap

variable {ρ : Type} [Resolver ρ] {m : NameMap}

/-- One request stores a new name, the resolver's for this address, or changes nothing. -/
theorem perform_cases (m : NameMap) (l : Logged ρ) (op : Op) :
    ((perform m l op).2.1 = m ∧ ∃ calls, (perform m l op).2.2.calls = l.calls ++ calls) ∨
      ∃ address name, m.get? address = none ∧ m.size < m.capacity ∧
        (perform m l op).2.1 = m.insert address name ∧
        (perform m l op).2.2.calls = l.calls ++ [(address, some name)] := by
  cases op with
  | resolve address =>
    simp only [perform, NameStore.resolve, resolve]
    cases hget : m.get? address with
    | some name => exact .inl ⟨rfl, [], by simp⟩
    | none =>
      by_cases hfull : m.capacity ≤ m.size
      · simp only [hfull, if_true, true_and]
        exact .inl ⟨[], by simp⟩
      · simp only [hfull, if_false]
        rcases hcall : Resolver.resolve l.resolver address with ⟨_ | name, r'⟩
        · simp only [Resolver.resolve, hcall, true_and]
          exact .inl ⟨_, rfl⟩
        · simp only [Resolver.resolve, hcall]
          exact .inr ⟨address, name, hget, Nat.lt_of_not_le hfull, rfl, rfl⟩
  | get address => exact .inl ⟨rfl, [], by simp [perform]⟩
  | size => exact .inl ⟨rfl, [], by simp [perform]⟩

/-- There are no more names than may be kept, and each is an answer of the resolver. -/
structure Honest (capacity : Nat) (m : NameMap) (l : Logged ρ) : Prop where
  capacity_eq : m.capacity = capacity
  size_le : m.size ≤ capacity
  called : ∀ {address name}, m.get? address = some name → (address, some name) ∈ l.calls

omit [Resolver ρ] in
theorem honest_empty (capacity : Nat) (r : ρ) : Honest capacity (empty capacity) ⟨r, []⟩ where
  capacity_eq := rfl
  size_le := Nat.zero_le _
  called := by simp [get?, empty]

variable {capacity : Nat}

theorem Honest.perform {l : Logged ρ} (h : Honest capacity m l) (op : Op) :
    Honest capacity (NameStore.perform m l op).2.1 (NameStore.perform m l op).2.2 := by
  obtain ⟨hm, calls, hcalls⟩ | ⟨address, name, hnone, hroom, hm, hcalls⟩ := perform_cases m l op
  · rw [hm]
    refine ⟨h.capacity_eq, h.size_le, fun hget => ?_⟩
    rw [hcalls]
    exact List.mem_append_left _ (h.called hget)
  · rw [hm]
    refine ⟨h.capacity_eq, ?_, fun {a n} hget => ?_⟩
    · rw [size_insert hnone, ← h.capacity_eq]
      exact hroom
    · rw [hcalls]
      by_cases ha : a = address
      · subst ha
        rw [get?_insert_self, Option.some.injEq] at hget
        subst hget
        exact List.mem_append_right _ (List.mem_singleton.2 rfl)
      · rw [get?_insert_of_ne ha] at hget
        exact List.mem_append_left _ (h.called hget)

theorem Honest.run {l : Logged ρ} (h : Honest capacity m l) (ops : List Op) :
    Honest capacity (NameStore.run m l ops).2.1 (NameStore.run m l ops).2.2 := by
  induction ops generalizing m l with
  | nil => exact h
  | cons op ops ih => exact ih (h.perform op)

theorem get?_perform {l : Logged ρ} {op : Op} {address : UInt64} {name : String}
    (h : m.get? address = some name) : (perform m l op).2.1.get? address = some name := by
  obtain ⟨hm, -⟩ | ⟨a, n, hnone, -, hm, -⟩ := perform_cases m l op
  · rw [hm, h]
  · have hne : address ≠ a := by
      rintro rfl
      rw [h] at hnone
      cases hnone
    rw [hm, get?_insert_of_ne hne, h]

/-- A stored name is never changed. -/
theorem get?_run {l : Logged ρ} (ops : List Op) {address : UInt64} {name : String}
    (h : m.get? address = some name) : (run m l ops).2.1.get? address = some name := by
  induction ops generalizing m l with
  | nil => exact h
  | cons op ops ih => exact ih (get?_perform h)

end NameMap

/-- **A cache is a finite map that takes `capacity` names and no more.**  All answers and all calls
of the resolver are those of the map.  So a name is given for the address that the resolver gave it
for, and a name once stored stays. -/
theorem run_cache_eq_run_nameMap {ρ : Type} [Resolver ρ] (capacity : Nat) (r : ρ)
    (ops : List Op) :
    let cached := run (Cache.new capacity) (⟨r, []⟩ : Logged ρ) ops
    let mapped := run (NameMap.empty capacity) (⟨r, []⟩ : Logged ρ) ops
    cached.1 = mapped.1 ∧ cached.2.2 = mapped.2.2 ∧ cached.2.1.size = mapped.2.1.size ∧
      cached.2.1.size ≤ capacity ∧ (∀ address, cached.2.1.get? address = mapped.2.1.get? address) ∧
      (∀ address name, cached.2.1.get? address = some name →
        (address, some name) ∈ cached.2.2.calls) ∧
      ∀ more address name, cached.2.1.get? address = some name →
        (run cached.2.1 cached.2.2 more).2.1.get? address = some name := by
  intro cached mapped
  obtain ⟨hanswers, hresolver, hrep⟩ := (represents_empty capacity).run (⟨r, []⟩ : Logged ρ) ops
  have hhonest := (NameMap.honest_empty capacity r).run ops
  refine ⟨hanswers, hresolver, hrep.size_eq, ?_, hrep.get?_eq, ?_, ?_⟩
  · show cached.2.1.size ≤ capacity
    rw [hrep.size_eq]
    exact hhonest.size_le
  · intro address name hget
    rw [hrep.get?_eq] at hget
    show _ ∈ cached.2.2.calls
    rw [hresolver]
    exact hhonest.called hget
  · intro more address name hget
    rw [hrep.get?_eq] at hget
    have hmore := (hrep.run cached.2.2 more).2.2
    rw [hmore.get?_eq]
    exact NameMap.get?_run more hget

end ThreadTrace
