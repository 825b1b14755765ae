import ThreadTrace.Capture.Tracer
import ThreadTrace.Proofs.Symbol.NameMap

/-!
# ThreadTrace.Proofs.Capture.Tracer — a tracer is a buffer that is told names

What a tracer records can be worked out in two parts.  `NameMap.nameFor` names the entered functions
one after another, without a buffer or a sink; `named` puts these names into what a buffer is asked.
`run_tracer_eq_run_buffer` says that the tracer is that buffer, whatever happens to the sink, and
that its cache has learnt what it would have learnt without one.
-/

namespace ThreadTrace

open Wire

/-! ### Recorders and their runs -/

/-- What records events into a sink until its region is handed back. -/
class Recorder (κ : Type) where
  Op : Type
  perform {δ : Type} [Destination δ] : κ → Sink δ → Op → Except CaptureError Unit × κ × Sink δ
  quit {δ : Type} [Destination δ] : κ → Sink δ → Except CaptureError Region × κ × Sink δ

instance : Recorder Buffer := ⟨Buffer.Op, Buffer.perform, Buffer.quit⟩

instance {ρ : Type} [Resolver ρ] : Recorder (Tracer ρ) := ⟨Tracer.Op, Tracer.perform, Tracer.quit⟩

namespace Recorder

/-- One step of a recorder's life. -/
inductive Step (Op δ : Type) where
  | perform (op : Op)
  /-- If this succeeds, it is the last step. -/
  | quit
  /-- Something happens to the sink. -/
  | outside (change : Sink δ → Sink δ)

inductive Answer where
  | done (result : Except CaptureError Unit)
  | handed (result : Except CaptureError Region)

def Answer.error? : Answer → Option CaptureError
  | done (.error e) | handed (.error e) => some e
  | _ => none

variable {κ δ : Type} [Recorder κ] [Destination δ]

theorem perform_buffer (b : Buffer) (s : Sink δ) (op : Buffer.Op) :
    perform b s op = b.perform s op := rfl

theorem perform_tracer {ρ : Type} [Resolver ρ] (t : Tracer ρ) (s : Sink δ) (op : Tracer.Op) :
    perform t s op = t.perform s op := rfl

/-- The answers in order, and what became of the recorder and the sink. -/
def run (k : κ) (s : Sink δ) : List (Step (Op κ) δ) → List Answer × κ × Sink δ
  | [] => ([], k, s)
  | .perform op :: steps =>
    let (result, k, s) := perform k s op
    let (answers, k, s) := run k s steps
    (.done result :: answers, k, s)
  | .quit :: steps =>
    let (result, k, s) := quit k s
    let (answers, k, s) := run k s steps
    (.handed result :: answers, k, s)
  | .outside change :: steps => run k (change s) steps

theorem run_perform (k : κ) (s : Sink δ) (op : Op κ) (steps : List (Step (Op κ) δ)) :
    let asked := perform k s op
    run k s (.perform op :: steps) =
      (.done asked.1 :: (run asked.2.1 asked.2.2 steps).1, (run asked.2.1 asked.2.2 steps).2) := rfl

theorem run_cons (k : κ) (s : Sink δ) (step : Step (Op κ) δ) (steps : List (Step (Op κ) δ)) :
    let first := run k s [step]
    run k s (step :: steps) =
      (first.1 ++ (run first.2.1 first.2.2 steps).1, (run first.2.1 first.2.2 steps).2) := by
  cases step <;> rfl

theorem run_append (k : κ) (s : Sink δ) (steps steps' : List (Step (Op κ) δ)) :
    let first := run k s steps
    run k s (steps ++ steps') =
      (first.1 ++ (run first.2.1 first.2.2 steps').1, (run first.2.1 first.2.2 steps').2) := by
  induction steps generalizing k s with
  | nil => rfl
  | cons step steps ih =>
    simp only [List.cons_append]
    rw [run_cons, run_cons k s step steps, ih]
    simp only [List.append_assoc]

end Recorder

/-! ### Names -/

namespace NameMap

variable {ρ : Type} [Resolver ρ]

/-- The name to record for an address: the one that is stored, or the resolver's if there is room to
store it. -/
def nameFor (m : NameMap) (r : ρ) (address : UInt64) : String × NameMap × ρ :=
  match m.get? address with
  | some name => (name, m, r)
  | none =>
    if m.size < m.capacity then
      match Resolver.resolve r address with
      | (some name, r) => (name, m.insert address name, r)
      | (none, r) => (unknownName, m, r)
    else (unknownName, m, r)

/-- What is stored after these addresses were named, and what became of the resolver. -/
def learn (m : NameMap) (r : ρ) : List UInt64 → NameMap × ρ
  | [] => (m, r)
  | address :: addresses =>
    let (_, m, r) := m.nameFor r address
    m.learn r addresses

theorem nameFor_eq (m : NameMap) (r : ρ) (address : UInt64) :
    m.nameFor r address =
      ((m.resolve address r).1.toOption.getD unknownName, (m.resolve address r).2) := by
  unfold nameFor resolve
  cases m.get? address with
  | some name => rfl
  | none =>
    by_cases hroom : m.size < m.capacity
    · simp only [hroom, Nat.not_le_of_lt hroom, if_true, if_false]
      rcases Resolver.resolve r address with ⟨_ | name, r'⟩ <;> rfl
    · simp only [hroom, Nat.le_of_not_lt hroom, if_true, if_false]
      rfl

/-- Naming an address asks nobody, is told nothing, or stores a new name. -/
theorem nameFor_cases (m : NameMap) (l : Logged ρ) (address : UInt64) :
    (∃ name, m.nameFor l address = (name, m, l)) ∨
      (∃ r, m.nameFor l address = (unknownName, m, ⟨r, l.calls ++ [(address, none)]⟩)) ∨
      ∃ name r, m.get? address = none ∧ m.nameFor l address =
        (name, m.insert address name, ⟨r, l.calls ++ [(address, some name)]⟩) := by
  unfold nameFor
  cases hget : m.get? address with
  | some name => exact .inl ⟨name, rfl⟩
  | none =>
    by_cases hroom : m.size < m.capacity
    · simp only [hroom, if_true, Resolver.resolve]
      rcases Resolver.resolve l.resolver address with ⟨_ | name, r⟩
      · exact .inr (.inl ⟨r, rfl⟩)
      · exact .inr (.inr ⟨name, r, trivial, rfl⟩)
    · simp only [hroom, if_false]
      exact .inl ⟨unknownName, rfl⟩

/-- Every name that the resolver gave is there. -/
def Keeps (m : NameMap) (l : Logged ρ) : Prop :=
  ∀ address name, (address, some name) ∈ l.calls → m.get? address = some name

theorem Keeps.nameFor {m : NameMap} {l : Logged ρ} (h : m.Keeps l) (address : UInt64) :
    (m.nameFor l address).2.1.Keeps (m.nameFor l address).2.2 := by
  obtain ⟨name, hname⟩ | ⟨r, hname⟩ | ⟨name, r, hnone, hname⟩ := m.nameFor_cases l address
  · rw [hname]
    exact h
  · rw [hname]
    intro a n hcall
    exact h a n (by simpa using hcall)
  · rw [hname]
    intro a n hcall
    obtain hold | hnew := List.mem_append.1 hcall
    · -- nobody asks again for an address that has a name
      have hne : a ≠ address := by
        rintro rfl
        rw [h a n hold] at hnone
        cases hnone
      rw [get?_insert_of_ne hne, h a n hold]
    · obtain ⟨rfl, rfl⟩ : a = address ∧ n = name := by simpa using hnew
      exact get?_insert_self m a n

theorem Keeps.learn {m : NameMap} {l : Logged ρ} (h : m.Keeps l) (addresses : List UInt64) :
    (m.learn l addresses).1.Keeps (m.learn l addresses).2 := by
  induction addresses generalizing m l with
  | nil => exact h
  | cons address addresses ih => exact ih (h.nameFor address)

end NameMap

open Recorder

/-- The steps of a buffer that is told the names, in place of a tracer that finds them. -/
def named {δ ρ : Type} [Resolver ρ] (m : NameMap) (r : ρ) :
    List (Step Tracer.Op δ) → List (Step Buffer.Op δ)
  | [] => []
  | .perform (.enter address ticks) :: steps =>
    let (name, m, r) := m.nameFor r address
    .perform (.spanBegin (Text.bytes name) [] ticks) :: named m r steps
  | .perform (.leave ticks) :: steps => .perform (.spanEnd ticks) :: named m r steps
  | .perform (.nameThread name) :: steps => .perform (.name .thread name) :: named m r steps
  | .perform .flush :: steps => .perform .flush :: named m r steps
  | .quit :: steps => .quit :: named m r steps
  | .outside change :: steps => .outside change :: named m r steps

/-- The addresses of the functions entered, in order. -/
def entered {δ : Type} (steps : List (Step Tracer.Op δ)) : List UInt64 :=
  steps.filterMap fun
    | .perform (.enter address _) => some address
    | _ => none

namespace Tracer

variable {δ ρ : Type} [Destination δ] [Resolver ρ] {t : Tracer ρ} {m : NameMap}

/-- Naming leaves the buffer alone. -/
theorem nameFor_of_represents (h : Represents t.cache m) (address : UInt64) :
    ∃ c, t.nameFor address =
        ((m.nameFor t.resolver address).1, ⟨t.buffer, c, (m.nameFor t.resolver address).2.2⟩) ∧
      Represents c (m.nameFor t.resolver address).2.1 := by
  obtain ⟨hanswer, hresolver, hnext⟩ := h.resolve address t.resolver
  refine ⟨(t.cache.resolve address t.resolver).2.1, ?_, ?_⟩
  · rw [NameMap.nameFor_eq, ← hanswer, ← hresolver]
    unfold nameFor
    rcases t.cache.resolve address t.resolver with ⟨_ | _, c, r⟩ <;> rfl
  · rw [NameMap.nameFor_eq]
    exact hnext

/-- One request to a tracer is one to its buffer; what it learns is settled without the buffer. -/
theorem perform_of_represents (h : Represents t.cache m) (s : Sink δ) (op : Op) :
    ∃ (plain : Buffer.Op) (c : Cache) (m' : NameMap) (r : ρ), Represents c m' ∧
      (∀ steps : List (Step Op δ),
        named m t.resolver (.perform op :: steps) = .perform plain :: named m' r steps) ∧
      (∀ steps : List (Step Op δ),
        m.learn t.resolver (entered (.perform op :: steps)) = m'.learn r (entered steps)) ∧
      let asked := t.buffer.perform s plain
      t.perform s op = (asked.1, ⟨asked.2.1, c, r⟩, asked.2.2) := by
  cases op with
  | enter address ticks =>
    obtain ⟨c, hname, hc⟩ := nameFor_of_represents h address
    rcases hm : m.nameFor t.resolver address with ⟨name, m', r⟩
    rw [hm] at hname hc
    refine ⟨.spanBegin (Text.bytes name) [] ticks, c, m', r, hc, fun steps => ?_, fun steps => ?_,
      ?_⟩
    · rw [named, hm]
    · show m.learn t.resolver (address :: entered steps) = _
      rw [NameMap.learn, hm]
    · simp only [perform, enter, hname, Buffer.perform]
      rcases t.buffer.spanBegin s (Text.bytes name) [] ticks with ⟨result, buffer, s'⟩
      rfl
  | leave ticks =>
    exact ⟨.spanEnd ticks, t.cache, m, t.resolver, h, fun _ => rfl, fun _ => rfl, rfl⟩
  | nameThread name =>
    exact ⟨.name .thread name, t.cache, m, t.resolver, h, fun _ => rfl, fun _ => rfl, rfl⟩
  | flush => exact ⟨.flush, t.cache, m, t.resolver, h, fun _ => rfl, fun _ => rfl, rfl⟩

/-- A tracer ran as a buffer did, and has learnt these names. -/
structure Mirrors (traced : List Answer × Tracer ρ × Sink δ) (plain : List Answer × Buffer × Sink δ)
    (learnt : NameMap × ρ) : Prop where
  answers_eq : traced.1 = plain.1
  buffer_eq : traced.2.1.buffer = plain.2.1
  sink_eq : traced.2.2 = plain.2.2
  resolver_eq : traced.2.1.resolver = learnt.2
  represents : Represents traced.2.1.cache learnt.1

omit [Destination δ] [Resolver ρ] in
/-- Both gave the same answer before. -/
theorem Mirrors.cons {traced : List Answer × Tracer ρ × Sink δ}
    {plain : List Answer × Buffer × Sink δ} {learnt : NameMap × ρ}
    (h : Mirrors traced plain learnt) (answer : Answer) :
    Mirrors (answer :: traced.1, traced.2) (answer :: plain.1, plain.2) learnt where
  answers_eq := congrArg (answer :: ·) h.answers_eq
  buffer_eq := h.buffer_eq
  sink_eq := h.sink_eq
  resolver_eq := h.resolver_eq
  represents := h.represents

theorem run_of_represents (h : Represents t.cache m) (s : Sink δ)
    (steps : List (Step Tracer.Op δ)) :
    Mirrors (run t s steps) (run t.buffer s (named m t.resolver steps))
      (m.learn t.resolver (entered steps)) := by
  induction steps generalizing t m s with
  | nil => exact ⟨rfl, rfl, rfl, rfl, h⟩
  | cons step steps ih =>
    cases step with
    | outside change => exact ih h (change s)
    | quit =>
      have hnext := ih (t := { t with buffer := (t.buffer.quit s).2.1 }) h (t.buffer.quit s).2.2
      exact hnext.cons (.handed (t.buffer.quit s).1)
    | perform op =>
      obtain ⟨plain, c, m', r, hc, hnamed, hlearn, hperform⟩ := perform_of_represents h s op
      rw [hnamed, hlearn, run_perform, run_perform, perform_tracer, perform_buffer, hperform]
      generalize t.buffer.perform s plain = asked
      exact (ih (t := ⟨asked.2.1, c, r⟩) hc asked.2.2).cons (.done asked.1)

/-- **A tracer is a buffer that is told names.**  Its answers, its buffer and all that happens to
the sink are those of a buffer that is asked to record the names, and these come from the entered
addresses and the resolver alone: so do the calls of the resolver and the names that are kept, also
those of functions whose events were lost. -/
theorem run_tracer_eq_run_buffer {region : Region} {process thread : UInt32} {b : Buffer}
    (hnew : Buffer.new region process thread = .ok b) (capacity : Nat) (r : ρ) (s : Sink δ)
    (steps : List (Step Op δ)) :
    ∃ t : Tracer (Logged ρ), new region process thread capacity ⟨r, []⟩ = .ok t ∧
      let traced := run t s steps
      let plain := run b s (named (.empty capacity) (⟨r, []⟩ : Logged ρ) steps)
      let learnt := (NameMap.empty capacity).learn (⟨r, []⟩ : Logged ρ) (entered steps)
      traced.1 = plain.1 ∧ traced.2.1.buffer = plain.2.1 ∧ traced.2.2 = plain.2.2 ∧
        traced.2.1.resolver = learnt.2 ∧ traced.2.1.cache.size = learnt.1.size ∧
        (∀ address, traced.2.1.cache.get? address = learnt.1.get? address) ∧
        ∀ address name, (address, some name) ∈ traced.2.1.resolver.calls →
          traced.2.1.cache.get? address = some name := by
  refine ⟨⟨b, Cache.new capacity, ⟨r, []⟩⟩, ?_, ?_⟩
  · rw [new, hnew]
    rfl
  · have h := run_of_represents (t := ⟨b, Cache.new capacity, (⟨r, []⟩ : Logged ρ)⟩)
      (represents_empty capacity) s steps
    have hnone : (NameMap.empty capacity).Keeps (⟨r, []⟩ : Logged ρ) :=
      fun _ _ hcall => absurd hcall List.not_mem_nil
    refine ⟨h.answers_eq, h.buffer_eq, h.sink_eq, h.resolver_eq, h.represents.size_eq,
      h.represents.get?_eq, fun address name hcall => ?_⟩
    rw [h.resolver_eq] at hcall
    rw [h.represents.get?_eq]
    exact hnone.learn (entered steps) address name hcall

/-- A resolver that has some names and gives one to whoever asks. -/
structure NameList where
  names : List String

instance : Resolver NameList where
  resolve l _ := (l.names.head?, ⟨l.names.tail⟩)

/-- A region of the least size is all but full when a function is entered, and cannot be written
just then.  The function's name is known when it is entered again; there is no room for another one. -/
def lostEntry : List (Step Op Memory) :=
  [.perform (.nameThread (List.replicate 255 65)), .perform (.nameThread (List.replicate 252 66)),
    .outside fun s => { s with destination.failing := true }, .perform (.enter 7 1),
    .outside fun s => { s with destination.failing := false }, .perform (.enter 7 2),
    .perform (.enter 8 3), .quit]

theorem run_lostEntry :
    ∃ b, Buffer.new (.filled minRegionSize 0) 1 2 = .ok b ∧
      ∃ t : Tracer (Logged NameList),
        new (.filled minRegionSize 0) 1 2 1 ⟨⟨["main", "exit"]⟩, []⟩ = .ok t ∧
        let traced := run t ⟨.one, .empty, true⟩ lostEntry
        traced.1.map Answer.error? =
            [none, none, some (.io (.custom "injected write failure")), none, none, none] ∧
          traced.2.1.resolver.calls = [(7, some "main")] ∧
          traced.2.1.cache.get? 7 = some "main" ∧
          traced.1 = (run b ⟨.one, .empty, true⟩
            (named (.empty 1) (⟨⟨["main", "exit"]⟩, []⟩ : Logged NameList) lostEntry)).1 := by
  have hnew : Buffer.new (.filled minRegionSize 0) 1 2 =
      .ok ⟨.filled minRegionSize 0, chunkHeaderSize, 1, 2, 0, false⟩ := rfl
  obtain ⟨t, htracer, hanswers, -, -, -, -, -, hkept⟩ := run_tracer_eq_run_buffer hnew 1
    (NameList.mk ["main", "exit"]) ⟨.one, .empty, true⟩ lostEntry
  have hcalls : (run t ⟨.one, .empty, true⟩ lostEntry).2.1.resolver.calls = [(7, some "main")] := by
    obtain rfl := Except.ok.inj htracer
    decide +kernel
  refine ⟨_, hnew, t, htracer, ?_, hcalls, hkept 7 "main" ?_, hanswers⟩
  · obtain rfl := Except.ok.inj htracer
    decide +kernel
  · rw [hcalls]
    exact List.mem_singleton.2 rfl

end Tracer

end ThreadTrace
