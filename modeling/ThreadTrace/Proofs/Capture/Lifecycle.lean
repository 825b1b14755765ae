import ThreadTrace.Capture.Sink
import Mathlib.Data.List.TakeWhile

/-!
# ThreadTrace.Proofs.Capture.Lifecycle — what a destination is called for

A `Watched` destination writes down its calls and what it answered.  As long as a sink is open it
passes every request on, whatever came of the ones before (`perform_of_isOpen`); the first `quit`
closes it, and from then on it answers by itself (`run_of_not_isOpen`).  `start_watched` puts this
together for the whole life of a sink, from the stream header to the time when it is let go, and
`lifetime_closes_once` counts how often the destination is closed in it.
-/

namespace ThreadTrace

open Wire

/-- What a destination can be called for. -/
inductive Call where
  | write (bs : List UInt8)
  | flush
  | close
  /-- Nobody holds the destination any more; nothing is asked of it. -/
  | release
  deriving DecidableEq

/-- A destination together with its calls and its answers to them, the oldest first. -/
structure Watched (δ : Type) where
  destination : δ
  calls : List Call
  /-- Nothing is answered when the destination is let go. -/
  answers : List Outcome

namespace Watched

variable {δ : Type}

/-- Nobody has called the destination yet. -/
def ofDestination (d : δ) : Watched δ := ⟨d, [], []⟩

/-- Write down a call and its answer. -/
def note (w : Watched δ) (call : Call) : Outcome × δ → Outcome × Watched δ
  | (answer, d) => (answer, ⟨d, w.calls ++ [call], w.answers ++ [answer]⟩)

variable [Destination δ]

instance : Destination (Watched δ) where
  write w bs := w.note (.write bs) (Destination.write w.destination bs)
  flush w := w.note .flush (Destination.flush w.destination)
  close w := w.note .close (Destination.close w.destination)
  release w := { w with
    destination := Destination.release w.destination
    calls := w.calls ++ [.release] }

theorem write_ofDestination (d : δ) (bs : List UInt8) :
    Destination.write (ofDestination d) bs =
      ((Destination.write d bs).1,
        ⟨(Destination.write d bs).2, [.write bs], [(Destination.write d bs).1]⟩) := rfl

end Watched

/-- How a sink passes on the answer of its destination. -/
def Outcome.reply : Outcome → Except CaptureError Unit
  | .ok () => .ok ()
  | .error failure => .error (.io failure)

namespace Sink

/-- What can be asked of a sink. -/
inductive Op where
  | write (bs : List UInt8)
  | flush
  | quit
  deriving DecidableEq

namespace Op

/-- What an open sink asks of its destination. -/
def call : Op → Call
  | write bs => .write bs
  | flush => .flush
  | quit => .close

/-- What a closed sink answers. -/
def closedReply : Op → Except CaptureError Unit
  | write _ | flush => .error .sinkClosed
  | quit => .ok ()

end Op

variable {δ : Type}

section Runs

variable [Destination δ]

def perform (s : Sink δ) : Op → Except CaptureError Unit × Sink δ
  | .write bs => s.write bs
  | .flush => s.flush
  | .quit => s.quit

/-- The answers in order, and what became of the sink. -/
def run (s : Sink δ) : List Op → List (Except CaptureError Unit) × Sink δ
  | [] => ([], s)
  | op :: ops =>
    let (reply, s) := s.perform op
    let (replies, s) := s.run ops
    (reply :: replies, s)

/-! ### A closed sink -/

variable {s : Sink δ}

theorem perform_of_not_isOpen (h : s.isOpen = false) (op : Op) :
    s.perform op = (op.closedReply, s) := by
  cases op <;> simp [perform, write, flush, quit, ask, h, Op.closedReply]

/-- Once closed, a sink never changes. -/
theorem run_of_not_isOpen (h : s.isOpen = false) (ops : List Op) :
    s.run ops = (ops.map Op.closedReply, s) := by
  induction ops with
  | nil => rfl
  | cons op ops ih => simp only [run, perform_of_not_isOpen h, ih, List.map_cons]

/-! ### An open sink -/

omit [Destination δ] in
theorem ask_of_isOpen (h : s.isOpen = true) (call : δ → Outcome × δ) :
    s.ask call =
      ((call s.destination).1.reply, ⟨s.unit, (call s.destination).2, true⟩) := by
  obtain ⟨unit, d, isOpen⟩ := s
  obtain rfl : isOpen = true := h
  simp only [ask, if_true]
  rcases call d with ⟨_ | _, d'⟩ <;> rfl

theorem quit_of_isOpen (h : s.isOpen = true) :
    s.quit =
      ((Destination.close s.destination).1.reply,
        ⟨s.unit, Destination.release (Destination.close s.destination).2, false⟩) := by
  simp only [quit, h, if_true]
  rcases Destination.close s.destination with ⟨_ | _, d'⟩ <;> rfl

end Runs

section Watching

variable [Destination δ] {s : Sink (Watched δ)}

/-- An open sink passes a request on and stays open, whatever comes of it. -/
theorem perform_of_isOpen (h : s.isOpen = true) {op : Op} (hop : op ≠ .quit) :
    ∃ answer w, s.perform op = (answer.reply, ⟨s.unit, w, true⟩) ∧
      w.calls = s.destination.calls ++ [op.call] ∧
      w.answers = s.destination.answers ++ [answer] := by
  cases op with
  | write bs =>
    have hask := ask_of_isOpen h (Destination.write · bs)
    exact ⟨_, _, hask, rfl, rfl⟩
  | flush =>
    have hask := ask_of_isOpen h Destination.flush
    exact ⟨_, _, hask, rfl, rfl⟩
  | quit => exact absurd rfl hop

/-- The first `quit` closes the destination, even if that fails, and lets it go. -/
theorem perform_quit_of_isOpen (h : s.isOpen = true) :
    ∃ answer w, s.perform .quit = (answer.reply, ⟨s.unit, w, false⟩) ∧
      w.calls = s.destination.calls ++ [.close, .release] ∧
      w.answers = s.destination.answers ++ [answer] :=
  ⟨_, _, quit_of_isOpen h, List.append_assoc .., rfl⟩

/-- What is asked before the first `quit` reaches the destination, and what is asked behind it does
not. -/
theorem run_of_isOpen (h : s.isOpen = true) (ops : List Op) :
    let opened := ops.takeWhile (· ≠ .quit)
    let (replies, s') := s.run ops
    s'.isOpen = decide (.quit ∉ ops) ∧
      s'.destination.calls = s.destination.calls ++
        (opened.map Op.call ++ if .quit ∈ ops then [.close, .release] else []) ∧
      s'.destination.answers.map Outcome.reply =
        s.destination.answers.map Outcome.reply ++ replies.take (opened.length + 1) ∧
      replies.drop (opened.length + 1) = (ops.drop (opened.length + 1)).map Op.closedReply := by
  induction ops generalizing s with
  | nil => simp [run, h]
  | cons op ops ih =>
    by_cases hop : op = .quit
    · subst hop
      obtain ⟨answer, w, hquit, hcalls, hanswers⟩ := perform_quit_of_isOpen h
      have hclosed : (⟨s.unit, w, false⟩ : Sink (Watched δ)).isOpen = false := rfl
      simp [run, hquit, run_of_not_isOpen hclosed, hcalls, hanswers]
    · obtain ⟨answer, w, hperform, hcalls, hanswers⟩ := perform_of_isOpen h hop
      have hnext := ih (s := ⟨s.unit, w, true⟩) rfl
      have hmem : .quit ∈ op :: ops ↔ .quit ∈ ops := by simp [Ne.symm hop]
      simp only [run, hperform, hmem, hcalls, hanswers] at hnext ⊢
      simpa [hop] using hnext

variable {unit : Binary64} {d : δ}

/-- The destination of a sink that has just started has one call behind it. -/
theorem start_of_ok (hunit : Unit.isAccepted unit)
    (h : (Destination.write d (StreamHeader.mk unit).toBytes).1 = .ok ()) :
    ∃ w, start unit (Watched.ofDestination d) = .ok ⟨unit, w, true⟩ ∧
      w.calls = [.write (StreamHeader.mk unit).toBytes] ∧ w.answers = [.ok ()] := by
  rw [start, if_pos hunit, Watched.write_ofDestination, h]
  exact ⟨_, rfl, rfl, rfl⟩

/-- A destination that does not take the header is closed and let go. -/
theorem start_of_error (hunit : Unit.isAccepted unit) {failure : IoFailure}
    (h : (Destination.write d (StreamHeader.mk unit).toBytes).1 = .error failure) :
    ∃ w, start unit (Watched.ofDestination d) = .error (.io failure, w) ∧
      w.calls = [.write (StreamHeader.mk unit).toBytes, .close, .release] := by
  rw [start, if_pos hunit, Watched.write_ofDestination, h]
  exact ⟨_, rfl, rfl⟩

/-- A sink that is let go closes its destination, unless it has been told to before. -/
theorem calls_drop (s : Sink (Watched δ)) :
    s.drop.calls = s.destination.calls ++ if s.isOpen then [.close, .release] else [] := by
  cases h : s.isOpen with
  | false => simp [drop, quit, h]
  | true =>
    obtain ⟨answer, w, hquit, hcalls, -⟩ := perform_quit_of_isOpen h
    show (s.perform .quit).2.destination.calls = _
    rw [hquit, if_pos rfl]
    exact hcalls

/-- A sink that is asked, and then let go, closes its destination and lets it go, and calls it for
neither before. -/
theorem calls_drop_run (h : s.isOpen = true) (ops : List Op) :
    (s.run ops).2.drop.calls = s.destination.calls ++
      ((ops.takeWhile (· ≠ .quit)).map Op.call ++ [.close, .release]) := by
  obtain ⟨hopen, hcalls, -, -⟩ := run_of_isOpen h ops
  rw [calls_drop, hopen, hcalls]
  by_cases hquit : .quit ∈ ops <;> simp [hquit]

/-! ### A whole life -/

/-- **A sink writes its header, passes requests on until the first `quit`, and closes once.**  The
answers before that are the destination's; a request that fails closes nothing.  If the header is
not taken there is no sink, and the destination has been closed. -/
theorem start_watched {unit : Binary64} (hunit : Unit.isAccepted unit) (d : δ) :
    let header := (StreamHeader.mk unit).toBytes
    header.length = streamHeaderSize ∧
    (∀ failure, (Destination.write d header).1 = .error failure →
      ∃ w, start unit (Watched.ofDestination d) = .error (.io failure, w) ∧
        w.calls = [.write header, .close, .release]) ∧
    ((Destination.write d header).1 = .ok () →
      ∃ s, start unit (Watched.ofDestination d) = .ok s ∧ s.unit = unit ∧ ∀ ops,
        let opened := ops.takeWhile (· ≠ .quit)
        let (replies, s') := s.run ops
        s'.isOpen = decide (.quit ∉ ops) ∧
        s'.destination.calls = .write header ::
          (opened.map Op.call ++ if .quit ∈ ops then [.close, .release] else []) ∧
        s'.drop.calls = .write header :: (opened.map Op.call ++ [.close, .release]) ∧
        s'.destination.answers.map Outcome.reply =
          .ok () :: replies.take (opened.length + 1) ∧
        replies.drop (opened.length + 1) =
          (ops.drop (opened.length + 1)).map Op.closedReply) := by
  intro header
  refine ⟨StreamHeader.length_toBytes _, fun failure => start_of_error hunit, fun htaken => ?_⟩
  obtain ⟨w, hstart, hcalls, hanswers⟩ := start_of_ok hunit htaken
  refine ⟨_, hstart, rfl, fun ops => ?_⟩
  obtain ⟨hopen, hcalls', hanswers', hclosed⟩ := run_of_isOpen (s := ⟨unit, w, true⟩) rfl ops
  rw [hcalls] at hcalls'
  rw [hanswers] at hanswers'
  refine ⟨hopen, hcalls', ?_, hanswers', hclosed⟩
  -- closing is left to the end unless it has been asked for
  rw [calls_drop, hopen, hcalls']
  by_cases hquit : .quit ∈ ops <;> simp [hquit, header]

end Watching

/-- A disk that takes the header and eight bytes more. -/
def narrowDisk : Disk := ⟨[], some ⟨40, .custom "no room"⟩⟩

theorem start_narrowDisk :
    Unit.isAccepted .one ∧ ∃ s, start .one (Watched.ofDestination narrowDisk) = .ok s ∧
      let ops := [.write [1, 2, 3], .write (List.replicate 9 4), .flush, .quit, .write [5], .quit]
      (s.run ops).2.isOpen = false ∧
      (s.run ops).2.destination.answers.map Outcome.reply = .ok () :: (s.run ops).1.take 4 ∧
      (s.run ops).1.drop 4 = [.error .sinkClosed, .ok ()] ∧
      (s.run ops).2.drop.calls = [.write (StreamHeader.mk .one).toBytes, .write [1, 2, 3],
        .write (List.replicate 9 4), .flush, .close, .release] := by
  have hunit : Unit.isAccepted .one := by decide
  obtain ⟨-, -, hlife⟩ := start_watched hunit narrowDisk
  obtain ⟨s, hstart, -, hrun⟩ := hlife (by decide)
  obtain ⟨hopen, -, hdrop, hanswers, hclosed⟩ := hrun
    [.write [1, 2, 3], .write (List.replicate 9 4), .flush, .quit, .write [5], .quit]
  exact ⟨hunit, s, hstart, hopen, hanswers, hclosed, hdrop⟩

/-! ### Closing -/

section Closing

variable {δ : Type} [Destination δ]

/-- All calls of a destination from the time when a sink is to be started on it: the sink is asked
and in the end let go. -/
def lifetime (unit : Binary64) (d : δ) (ops : List Op) : List Call :=
  match start unit (Watched.ofDestination d) with
  | .ok s => (s.run ops).2.drop.calls
  | .error (_, w) => w.calls

theorem lifetime_of_not_accepted {unit : Binary64} (hunit : ¬ Unit.isAccepted unit) (d : δ)
    (ops : List Op) : lifetime unit d ops = [.release] := by
  rw [lifetime, start, if_neg hunit]
  rfl

/-- What an open sink asks before the first `quit` closes nothing and lets nothing go. -/
theorem not_mem_map_call {call : Call} (hcall : call = .close ∨ call = .release) (ops : List Op) :
    call ∉ (ops.takeWhile (· ≠ .quit)).map Op.call := by
  intro hmem
  obtain ⟨op, hop, rfl⟩ := List.mem_map.1 hmem
  have hquit : op ≠ .quit := by simpa using List.mem_takeWhile_imp hop
  cases op with
  | quit => exact hquit rfl
  | write bs => simp [Op.call] at hcall
  | flush => simp [Op.call] at hcall

theorem lifetime_of_accepted {unit : Binary64} (hunit : Unit.isAccepted unit) (d : δ)
    (ops : List Op) :
    ∃ calls, lifetime unit d ops = calls ++ [.close, .release] ∧ .close ∉ calls ∧
      .release ∉ calls := by
  cases htaken : (Destination.write d (StreamHeader.mk unit).toBytes).1 with
  | error failure =>
    obtain ⟨w, hstart, hcalls⟩ := start_of_error hunit htaken
    refine ⟨[.write (StreamHeader.mk unit).toBytes], ?_, by simp, by simp⟩
    rw [lifetime, hstart]
    exact hcalls
  | ok =>
    obtain ⟨w, hstart, hcalls, -⟩ := start_of_ok hunit htaken
    refine ⟨.write (StreamHeader.mk unit).toBytes :: (ops.takeWhile (· ≠ .quit)).map Op.call, ?_,
      ?_, ?_⟩
    · have hdrop := calls_drop_run (s := ⟨unit, w, true⟩) rfl ops
      rw [lifetime, hstart]
      rw [hcalls] at hdrop
      exact hdrop
    · simpa using not_mem_map_call (.inl rfl) ops
    · simpa using not_mem_map_call (.inr rfl) ops

/-- **A destination is closed once, just before it is let go** — if its unit was accepted.  A
destination whose unit is not accepted is let go without having been called. -/
theorem lifetime_closes_once (unit : Binary64) (d : δ) (ops : List Op) :
    (lifetime unit d ops).count .close = (if Unit.isAccepted unit then 1 else 0) ∧
      ∃ calls, .close ∉ calls ∧ .release ∉ calls ∧
        lifetime unit d ops =
          calls ++ if Unit.isAccepted unit then [.close, .release] else [.release] := by
  by_cases hunit : Unit.isAccepted unit
  · obtain ⟨calls, hlifetime, hclose, hrelease⟩ := lifetime_of_accepted hunit d ops
    rw [if_pos hunit, if_pos hunit, hlifetime]
    refine ⟨?_, calls, hclose, hrelease, rfl⟩
    rw [List.count_append, List.count_eq_zero_of_not_mem hclose]
    rfl
  · rw [if_neg hunit, if_neg hunit, lifetime_of_not_accepted hunit]
    exact ⟨rfl, [], List.not_mem_nil, List.not_mem_nil, rfl⟩

end Closing

end Sink

end ThreadTrace
