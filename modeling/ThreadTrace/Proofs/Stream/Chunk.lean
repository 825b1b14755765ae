import ThreadTrace.Proofs.Wire.Event
import ThreadTrace.Stream.Chunk

/-!
# ThreadTrace.Proofs.Stream.Chunk — chunks whose events can all be read

A chunk is `Clean` when its payload is.  Its events are then `cleanEvents`, and whatever goes through
them goes on to the end; otherwise there is one error behind them, `firstError?` (`events_eq`).
-/

namespace ThreadTrace

open Wire

namespace Chunk

/-- Every event of the chunk can be read. -/
def Clean (c : Chunk) : Prop := ∀ item ∈ c.events, ∃ e, item = .ok e

/-- The events that can be read. -/
def cleanEvents (c : Chunk) : List Event := c.events.filterMap Except.toOption

instance (c : Chunk) : Decidable c.Clean :=
  decidable_of_iff (∀ item ∈ c.events, item.toBool) <| by
    refine forall₂_congr fun item _ => ?_
    cases item <;> simp [Except.toBool]

theorem filterMap_toOption_map_ok {ε α : Type} (as : List α) :
    (as.map .ok : List (Except ε α)).filterMap Except.toOption = as := by
  induction as with
  | nil => rfl
  | cons a as ih => exact congrArg (a :: ·) ih

/-- The error in place of a result. -/
def errorOf? {ε α : Type} : Except ε α → Option ε
  | .ok _ => none
  | .error e => some e

theorem findSome?_errorOf?_map_ok {ε α : Type} (as : List α) :
    (as.map .ok : List (Except ε α)).findSome? errorOf? = none := by
  rw [List.findSome?_eq_none_iff]
  intro item hitem
  obtain ⟨a, -, rfl⟩ := List.mem_map.1 hitem
  rfl

/-- Why the first event that cannot be read cannot. -/
def firstError? (c : Chunk) : Option DecodeError := c.events.findSome? errorOf?

variable {c : Chunk}

theorem firstError?_eq_none_iff : c.firstError? = none ↔ c.Clean := by
  rw [firstError?, List.findSome?_eq_none_iff]
  refine forall₂_congr fun item _ => ?_
  cases item <;> simp [errorOf?]

theorem findSome?_firstError?_eq_none_iff {cs : List Chunk} :
    cs.findSome? firstError? = none ↔ ∀ c ∈ cs, c.Clean := by
  rw [List.findSome?_eq_none_iff]
  exact forall₂_congr fun _ _ => firstError?_eq_none_iff

/-- Nothing is behind the first error. -/
theorem events_eq (c : Chunk) :
    c.events = c.cleanEvents.map .ok ++ (c.firstError?.map .error).toList := by
  obtain ⟨es, last, hevents⟩ := exists_decodeEvents_eq c.payload
  have hevents : c.events = es.map .ok ++ (last.map .error).toList := hevents
  have hclean : c.cleanEvents = es := by
    rw [cleanEvents, hevents, List.filterMap_append, filterMap_toOption_map_ok]
    cases last with
    | none => exact List.append_nil es
    | some e => exact List.append_nil es
  have herror : c.firstError? = last := by
    rw [firstError?, hevents, List.findSome?_append, findSome?_errorOf?_map_ok]
    cases last <;> rfl
  rw [hclean, herror, hevents]

/-- A chunk is clean, or its events are those up to its first error and then this error. -/
theorem events_cases (c : Chunk) :
    (c.Clean ∧ c.firstError? = none ∧ c.events = c.cleanEvents.map .ok) ∨
      (¬ c.Clean ∧ ∃ e, c.firstError? = some e ∧
        c.events = c.cleanEvents.map .ok ++ [.error e]) := by
  have hevents := c.events_eq
  rw [← firstError?_eq_none_iff]
  cases hfirst : c.firstError? with
  | none =>
    rw [hfirst, Option.map_none, Option.toList_none, List.append_nil] at hevents
    exact .inl ⟨rfl, rfl, hevents⟩
  | some e =>
    rw [hfirst] at hevents
    exact .inr ⟨Option.some_ne_none e, e, rfl, hevents⟩

theorem Clean.events_eq (h : c.Clean) : c.events = c.cleanEvents.map .ok := by
  obtain ⟨-, -, hevents⟩ | ⟨hnot, -⟩ := c.events_cases
  · exact hevents
  · exact absurd h hnot

theorem cleanEvents_ne_nil (h : c.Clean) (hne : c.payload ≠ []) : c.cleanEvents ≠ [] := by
  obtain ⟨b, bs, hpayload⟩ := List.exists_cons_of_ne_nil hne
  have hevents : c.events ≠ [] := by
    rw [events, hpayload, decodeEvents]
    split <;> exact List.cons_ne_nil _ _
  intro hnil
  rw [h.events_eq, hnil] at hevents
  exact hevents rfl

/-- Chunks without an error among their events. -/
theorem clean_of_flatMap {cs : List Chunk} {es : List Event}
    (h : cs.flatMap events = es.map .ok) :
    (∀ c ∈ cs, c.Clean) ∧ cs.flatMap cleanEvents = es := by
  constructor
  · intro c hc item hitem
    have hmem : item ∈ es.map .ok := by
      rw [← h]
      exact List.mem_flatMap.2 ⟨c, hc, hitem⟩
    obtain ⟨e, -, rfl⟩ := List.mem_map.1 hmem
    exact ⟨e, rfl⟩
  · have hfilter := congrArg (List.filterMap Except.toOption) h
    rwa [filterMap_toOption_map_ok, List.filterMap_flatMap] at hfilter

end Chunk

end ThreadTrace
