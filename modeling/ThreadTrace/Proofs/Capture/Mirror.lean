import ThreadTrace.CommandLine.Directory
import ThreadTrace.Proofs.Capture.Shared
import ThreadTrace.Proofs.Capture.Spool

/-!
# ThreadTrace.Proofs.Capture.Mirror — a file and a memory hold the same stream

A sink in a file answers as one in memory does, as long as the file takes what it is given.
`Mirrors` says what the two have in common; a request keeps it (`Sink.Mirrors.perform`), and so
does a run of requests to the sink and to its buffers (`Shared.Mirrors.run`).  What the file holds
back is on the disk whenever the sink was flushed, told to quit or let go.
`startFile_mirrors_memory` begins with the directory in which the file is made.
-/

namespace ThreadTrace

open Wire

theorem Outcome.failed_reply {outcome : Outcome} :
    Recorder.Answer.failed (.done outcome.reply) = false ↔ outcome = .ok () := by
  rcases outcome with failure | ⟨⟨⟩⟩ <;>
    simp [Recorder.Answer.failed, Recorder.Answer.error?, reply, CaptureError.isIo]

/-! ### The same stream -/

namespace Sink

section Open

variable {δ : Type} [Destination δ]

/-- What a destination does for an open sink. -/
def Op.reach : Op → δ → Outcome × δ
  | write bs, d => Destination.write d bs
  | flush, d => Destination.flush d
  | quit, d => ((Destination.close d).1, Destination.release (Destination.close d).2)

/-- Nothing is held back behind these. -/
def Op.isSettling : Op → Bool
  | write _ => false
  | flush | quit => true

theorem perform_eq_reach {s : Sink δ} (h : s.isOpen = true) (op : Op) :
    s.perform op =
      ((op.reach s.destination).1.reply, ⟨s.unit, (op.reach s.destination).2, op ≠ .quit⟩) := by
  cases op with
  | write bs => exact ask_of_isOpen h (Destination.write · bs)
  | flush => exact ask_of_isOpen h Destination.flush
  | quit => exact quit_of_isOpen h

end Open

end Sink

/-- A file has on disk, or holds, what a memory has that takes everything. -/
structure SpoolFile.Mirrors (f : SpoolFile) (m : Memory) : Prop where
  text_eq : f.text = m.contents
  not_failing : m.failing = false
  not_closeFails : m.closeFails = false

namespace SpoolFile.Mirrors

variable {f : SpoolFile} {m : Memory}

/-- A file that holds nothing back has it all on disk. -/
theorem contents_eq (h : f.Mirrors m) (hheld : f.held = []) : f.disk.contents = m.contents := by
  rw [← h.text_eq, text, hheld, List.append_nil]

theorem settle (h : f.Mirrors m) (hok : f.settle.1 = .ok ()) :
    f.settle.2.text = m.contents ∧ f.settle.2.held = [] := by
  obtain ⟨htext, hheld⟩ : f.settle.2.text = f.text ∧ f.settle.2.held = [] :=
    text_of_settle (Prod.ext hok rfl)
  exact ⟨htext.trans h.text_eq, hheld⟩

/-- The memory does what the file did. -/
theorem reach (h : f.Mirrors m) {op : Sink.Op} (hok : (op.reach f).1 = .ok ()) :
    (op.reach m).1 = .ok () ∧ (op.reach f).2.Mirrors (op.reach m).2 ∧
      (op.reach m).2.writes = m.writes ++ op.taken (.ok ()) ∧
      (op.isSettling → (op.reach f).2.held = []) := by
  obtain ⟨writes, flushes, closes, failing, closeFails⟩ := m
  obtain rfl : failing = false := h.not_failing
  obtain rfl : closeFails = false := h.not_closeFails
  cases op with
  | write bs =>
    have htext : (f.write bs).2.text = f.text ++ bs := text_of_write (Prod.ext hok rfl)
    refine ⟨rfl, ⟨?_, rfl, rfl⟩, rfl, nofun⟩
    show (f.write bs).2.text = _
    rw [htext, h.text_eq]
    simp [Memory.contents, Sink.Op.reach, Destination.write, Memory.write]
  | flush =>
    obtain ⟨htext, hheld⟩ := h.settle hok
    exact ⟨rfl, ⟨htext, rfl, rfl⟩, (List.append_nil _).symm, fun _ => hheld⟩
  | quit =>
    obtain ⟨htext, hheld⟩ := h.settle hok
    have hreach : (Sink.Op.quit.reach f).2 = f.settle.2 := release_of_held hheld
    rw [hreach]
    exact ⟨rfl, ⟨htext, rfl, rfl⟩, (List.append_nil _).symm, fun _ => hheld⟩

end SpoolFile.Mirrors

namespace Sink

/-- Two sinks of one stream, in a file and in memory.  Once closed, the file holds nothing back. -/
structure Mirrors (s : Sink SpoolFile) (s' : Sink Memory) : Prop where
  unit_eq : s'.unit = s.unit
  isOpen_eq : s'.isOpen = s.isOpen
  destination : s.destination.Mirrors s'.destination
  held_eq : s.isOpen = false → s.destination.held = []

namespace Mirrors

variable {s : Sink SpoolFile} {s' : Sink Memory}

/-- **A sink in memory answers as one in a file that does not fail.** -/
theorem perform (h : s.Mirrors s') {op : Op}
    (hok : Recorder.Answer.failed (.done (s.perform op).1) = false) :
    (s'.perform op).1 = (s.perform op).1 ∧ (s.perform op).2.Mirrors (s'.perform op).2 ∧
      (s'.perform op).2.destination.writes =
        s'.destination.writes ++ op.taken (s.perform op).1 ∧
      (op.isSettling → (s.perform op).2.destination.held = []) := by
  cases hopen : s.isOpen with
  | false =>
    have hopen' : s'.isOpen = false := h.isOpen_eq.trans hopen
    rw [perform_of_not_isOpen hopen, perform_of_not_isOpen hopen']
    refine ⟨rfl, h, ?_, fun _ => h.held_eq hopen⟩
    cases op <;> exact (List.append_nil _).symm
  | true =>
    have hopen' : s'.isOpen = true := h.isOpen_eq.trans hopen
    rw [perform_eq_reach hopen] at hok ⊢
    rw [perform_eq_reach hopen']
    have hreach := Outcome.failed_reply.1 hok
    obtain ⟨hanswer, hdestination, hwrites, hheld⟩ := h.destination.reach hreach
    rw [hreach, hanswer]
    refine ⟨rfl, ⟨h.unit_eq, rfl, hdestination, fun hclosed => hheld ?_⟩, hwrites, hheld⟩
    have hquit : op = .quit := by simpa using hclosed
    rw [hquit]
    rfl

/-- After these the file has on disk what is in memory. -/
theorem contents_eq (h : s.Mirrors s') {op : Op} (hop : op.isSettling)
    (hok : Recorder.Answer.failed (.done (s.perform op).1) = false) :
    (s.perform op).2.destination.disk.contents = (s'.perform op).2.destination.contents := by
  obtain ⟨-, hnext, -, hheld⟩ := h.perform hok
  exact hnext.destination.contents_eq (hheld hop)

theorem contents_drop (h : s.Mirrors s')
    (hok : Recorder.Answer.failed (.done s.quit.1) = false) :
    s.drop.disk.contents = s'.drop.contents ∧ s'.drop.writes = s'.destination.writes := by
  have hperform : Recorder.Answer.failed (.done (s.perform .quit).1) = false := hok
  obtain ⟨-, -, hwrites, -⟩ := h.perform hperform
  exact ⟨h.contents_eq rfl hperform, hwrites.trans (List.append_nil _)⟩

end Mirrors

end Sink

namespace Shared

variable {ι : Type} [DecidableEq ι]

/-- The same buffers on two sinks of one stream. -/
structure Mirrors (s : Shared ι SpoolFile) (s' : Shared ι Memory) : Prop where
  sound : AllSound s.buffers
  buffers_eq : s'.buffers = s.buffers
  sink : s.sink.Mirrors s'.sink

/-- No answer says that the destination failed. -/
def Unfailing (answers : List (Option Recorder.Answer)) : Prop :=
  ∀ answer ∈ answers, answer.any Recorder.Answer.failed = false

namespace Mirrors

variable {s : Shared ι SpoolFile} {s' : Shared ι Memory}

omit [DecidableEq ι] in
theorem demand_eq (h : s.Mirrors s') (request : Request ι) :
    s'.demand request = s.demand request := by
  cases request <;> simp only [demand, h.buffers_eq]

theorem step (h : s.Mirrors s') {request : Request ι}
    (hok : (s.step request).1.any Recorder.Answer.failed = false) :
    (s'.step request).1 = (s.step request).1 ∧ (s.step request).2.Mirrors (s'.step request).2 ∧
      (s'.step request).2.sink.destination.writes =
        s'.sink.destination.writes ++ s.taken request := by
  have hs' : AllSound s'.buffers := by
    rw [h.buffers_eq]
    exact h.sound
  have hsound := h.sound.after request
  rw [failed_step h.sound] at hok
  rw [step_eq h.sound, step_eq hs', h.buffers_eq, h.demand_eq, taken]
  cases hop : s.demand request with
  | none => exact ⟨rfl, ⟨hsound _, rfl, h.sink⟩, (List.append_nil _).symm⟩
  | some op =>
    rw [hop] at hok
    obtain ⟨hanswer, hsink, hwrites, -⟩ := h.sink.perform hok
    simp only [Sink.attempt, hanswer]
    exact ⟨trivial, ⟨hsound _, rfl, hsink⟩, hwrites⟩

theorem run (h : s.Mirrors s') {requests : List (Request ι)} (hok : Unfailing (s.run requests).1) :
    (s'.run requests).1 = (s.run requests).1 ∧ (s.run requests).2.Mirrors (s'.run requests).2 ∧
      (s'.run requests).2.sink.destination.writes =
        s'.sink.destination.writes ++ s.accepted requests := by
  induction requests generalizing s s' with
  | nil => exact ⟨rfl, h, (List.append_nil _).symm⟩
  | cons request requests ih =>
    obtain ⟨hfirst, hrest⟩ := List.forall_mem_cons.1 hok
    obtain ⟨hanswer, hnext, hwrites⟩ := h.step hfirst
    obtain ⟨hanswers, hlast, hwrites'⟩ := ih hnext hrest
    refine ⟨?_, hlast, ?_⟩
    · simp only [Shared.run, hanswer, hanswers]
    · show ((s'.step request).2.run requests).2.sink.destination.writes = _
      rw [hwrites', hwrites, accepted, List.append_assoc]

/-- When the sink was last asked to flush or to quit, the file has all on disk. -/
theorem contents_eq (h : s.Mirrors s') {requests : List (Request ι)}
    (hok : Unfailing (s.run requests).1) {op : Sink.Op} (hop : op.isSettling)
    (hlast : requests.getLast? = some (.sink op)) :
    (s.run requests).2.sink.destination.disk.contents =
      (s'.run requests).2.sink.destination.contents := by
  obtain ⟨earlier, rfl⟩ := List.getLast?_eq_some_iff.1 hlast
  rw [run_concat] at hok ⊢
  rw [run_concat]
  have hearlier : Unfailing (s.run earlier).1 := fun answer hanswer =>
    hok answer (List.mem_append_left _ hanswer)
  have hstep := hok _ (List.mem_append_right _ (List.mem_singleton_self _))
  obtain ⟨-, hmirrors, -⟩ := h.run hearlier
  exact hmirrors.sink.contents_eq hop hstep

end Mirrors

end Shared

/-! ### A disk without a limit -/

theorem SpoolFile.reach_of_unlimited {f : SpoolFile} (h : f.disk.room = none) (op : Sink.Op) :
    (op.reach f).1 = .ok () ∧ (op.reach f).2.disk.room = none := by
  have hsettle := settle_brings h
  cases op with
  | write bs =>
    obtain ⟨f', hwrite⟩ := write_brings h bs
    have hreach : (Sink.Op.write bs).reach f = (.ok (), f') := hwrite.unlimited
    rw [hreach]
    exact ⟨rfl, hwrite.room_eq⟩
  | flush =>
    have hreach : Sink.Op.flush.reach f = _ := hsettle.unlimited
    rw [hreach]
    exact ⟨rfl, hsettle.room_eq⟩
  | quit =>
    have hclose : Destination.close f = _ := hsettle.unlimited
    have hrelease := release_of_held (f := ⟨⟨f.disk.contents ++ f.held, none⟩, []⟩) rfl
    rw [Sink.Op.reach, hclose]
    exact ⟨rfl, congrArg (·.disk.room) hrelease⟩

theorem Sink.perform_of_unlimited {s : Sink SpoolFile} (h : s.destination.disk.room = none)
    (op : Op) :
    Recorder.Answer.failed (.done (s.perform op).1) = false ∧
      (s.perform op).2.destination.disk.room = none := by
  cases hopen : s.isOpen with
  | false =>
    rw [perform_of_not_isOpen hopen]
    refine ⟨?_, h⟩
    cases op <;> rfl
  | true =>
    obtain ⟨hok, hroom⟩ := SpoolFile.reach_of_unlimited h op
    rw [perform_eq_reach hopen]
    exact ⟨Outcome.failed_reply.2 hok, hroom⟩

theorem Shared.step_of_unlimited {ι : Type} [DecidableEq ι] {s : Shared ι SpoolFile}
    (hs : AllSound s.buffers) (h : s.sink.destination.disk.room = none) (request : Request ι) :
    (s.step request).1.any Recorder.Answer.failed = false ∧ AllSound (s.step request).2.buffers ∧
      (s.step request).2.sink.destination.disk.room = none := by
  rw [failed_step hs, step_eq hs]
  cases s.demand request with
  | none => exact ⟨rfl, hs.after request _, h⟩
  | some op =>
    obtain ⟨hok, hroom⟩ := Sink.perform_of_unlimited h op
    exact ⟨hok, hs.after request _, hroom⟩

/-- Nothing fails in a run, and nothing would if the sink were then told to quit. -/
theorem Shared.run_of_unlimited {ι : Type} [DecidableEq ι] {s : Shared ι SpoolFile}
    (hs : AllSound s.buffers) (h : s.sink.destination.disk.room = none)
    (requests : List (Request ι)) :
    Unfailing (s.run requests).1 ∧
      Recorder.Answer.failed (.done (s.run requests).2.sink.quit.1) = false := by
  induction requests generalizing s with
  | nil => exact ⟨nofun, (Sink.perform_of_unlimited h .quit).1⟩
  | cons request requests ih =>
    obtain ⟨hok, hsound, hroom⟩ := step_of_unlimited hs h request
    obtain ⟨hrest, hquit⟩ := ih hsound hroom
    exact ⟨List.forall_mem_cons.2 ⟨hok, hrest⟩, hquit⟩

/-! ### From the directory on -/

namespace CommandLine.Directory

theorem lookup_put (d : Directory) (name : String) (bs : List UInt8) :
    (d.put name bs).files.lookup name = some bs := List.lookup_cons_self

/-- Nothing of what was there before is left. -/
theorem reopened_of_file {d : Directory} {path name : String}
    (h : d.locate path = .file name false) (room : Option Room) :
    d.reopened room path = (.ok ⟨⟨[], room⟩, []⟩, d.put name []) := by
  have hcreated : d.created path = .ok (some name, .create none) := by
    simp only [created, h, Bool.false_eq_true, if_false]
  simp only [reopened, hcreated, appending, SpoolFile.create, lookup_put]

end CommandLine.Directory

open CommandLine

namespace Sink

variable {unit : Binary64}

theorem startFile_of_not_accepted (h : ¬ Unit.isAccepted unit) {φ : Type}
    (create : φ → Except IoFailure SpoolFile × φ) (files : φ) :
    startFile unit create files = (.error (.invalidUnit unit), files) := if_neg h

/-- A sink that has just started in a file, which holds the header back. -/
def inFile (unit : Binary64) (room : Option Room) : Sink SpoolFile :=
  ⟨unit, ⟨⟨[], room⟩, (StreamHeader.mk unit).toBytes⟩, true⟩

/-- A sink that has just started in memory. -/
def inMemory (unit : Binary64) : Sink Memory :=
  ⟨unit, ⟨[(StreamHeader.mk unit).toBytes], 0, 0, false, false⟩, true⟩

theorem start_spoolFile (h : Unit.isAccepted unit) (room : Option Room) :
    start unit (SpoolFile.mk ⟨[], room⟩ []) = .ok (inFile unit room) := by
  have hlength : (StreamHeader.mk unit).toBytes.length = 32 := StreamHeader.length_toBytes _
  have hwrite : Destination.write (SpoolFile.mk ⟨[], room⟩ []) (StreamHeader.mk unit).toBytes =
      (.ok (), ⟨⟨[], room⟩, (StreamHeader.mk unit).toBytes⟩) := by
    simp [Destination.write, SpoolFile.write, SpoolFile.accept, SpoolFile.capacity, hlength]
  rw [start, if_pos h, hwrite]
  rfl

theorem start_memory (h : Unit.isAccepted unit) :
    start unit Memory.empty = .ok (inMemory unit) := if_pos h

theorem startFile_of_file (h : Unit.isAccepted unit) {d : Directory} {path name : String}
    (hpath : d.locate path = .file name false) (room : Option Room) :
    startFile unit (Directory.reopened room path) d = (.ok (inFile unit room), d.put name []) := by
  rw [startFile, if_pos h, Directory.reopened_of_file hpath]
  simp only [start_spoolFile h]

theorem inFile_mirrors_inMemory (unit : Binary64) (room : Option Room) :
    (inFile unit room).Mirrors (inMemory unit) where
  unit_eq := rfl
  isOpen_eq := rfl
  destination := ⟨by simp [inFile, inMemory, SpoolFile.text, Memory.contents], rfl, rfl⟩
  held_eq := nofun

end Sink

namespace Shared

/-- **A file and a memory hold the same stream.**  A unit that is not accepted leaves the directory
as it was.  Otherwise the file is emptied, and for as long as it does not fail, every request is
answered as it is when the sink is in memory.  When the sink was flushed, told to quit or let go,
the file has what the memory has: the header and what the sink took since, in order.  A file on a
disk without a limit does not fail. -/
theorem startFile_mirrors_memory {ι : Type} [DecidableEq ι] (unit : Binary64)
    (room : Option Room) (path : String) (d : Directory) :
    (¬ Unit.isAccepted unit →
      Sink.startFile unit (Directory.reopened room path) d = (.error (.invalidUnit unit), d)) ∧
    ∀ name, Unit.isAccepted unit → d.locate path = .file name false →
      ∃ file memory,
        Sink.startFile unit (Directory.reopened room path) d = (.ok file, d.put name []) ∧
        Sink.start unit Memory.empty = .ok memory ∧
        ∀ (regions : ι → Region) (owner : ι → UInt32 × UInt32) (buffers : ι → Buffer),
          (∀ i, Buffer.new (regions i) (owner i).1 (owner i).2 = .ok (buffers i)) →
          ∀ requests,
            let s : Shared ι SpoolFile := ⟨file, fun i => some (buffers i)⟩
            let onFile := s.run requests
            let onMemory := run ⟨memory, s.buffers⟩ requests
            let stream := (StreamHeader.mk unit).toBytes :: s.accepted requests
            let quitFails := Recorder.Answer.failed (.done onFile.2.sink.quit.1)
            (room = none → Unfailing onFile.1 ∧ quitFails = false) ∧
              (Unfailing onFile.1 →
                onMemory.1 = onFile.1 ∧ onMemory.2.buffers = onFile.2.buffers ∧
                onMemory.2.sink.isOpen = onFile.2.sink.isOpen ∧
                onMemory.2.sink.destination.writes = stream ∧
                (requests.getLast? = some (.sink .flush) ∨
                    requests.getLast? = some (.sink .quit) →
                  onFile.2.sink.destination.disk.contents =
                    onMemory.2.sink.destination.contents) ∧
                (quitFails = false →
                  onFile.2.sink.drop.disk.contents = onMemory.2.sink.drop.contents ∧
                  onMemory.2.sink.drop.writes = stream)) := by
  refine ⟨fun hunit => Sink.startFile_of_not_accepted hunit _ d, fun name hunit hpath => ?_⟩
  refine ⟨_, _, Sink.startFile_of_file hunit hpath room, Sink.start_memory hunit, ?_⟩
  intro regions owner buffers hnew requests s onFile onMemory stream quitFails
  have hsound : AllSound s.buffers := by
    intro i b hb
    obtain rfl := Option.some.inj hb
    exact (Buffer.new_eq_ok (hnew i)).2
  have hstart : s.Mirrors ⟨Sink.inMemory unit, s.buffers⟩ :=
    ⟨hsound, rfl, Sink.inFile_mirrors_inMemory unit room⟩
  refine ⟨fun hroom => run_of_unlimited hsound hroom requests, fun hok => ?_⟩
  obtain ⟨hanswers, hmirrors, hwrites⟩ := hstart.run hok
  refine ⟨hanswers, hmirrors.buffers_eq, hmirrors.sink.isOpen_eq, hwrites, fun hlast => ?_,
    fun hquit => ?_⟩
  · obtain hflush | hquit := hlast
    · exact hstart.contents_eq hok rfl hflush
    · exact hstart.contents_eq hok rfl hquit
  · obtain ⟨hcontents, hdropped⟩ := hmirrors.sink.contents_drop hquit
    exact ⟨hcontents, hdropped.trans hwrites⟩

/-- A directory in which the file is already. -/
def usedDirectory : Directory := ⟨[("t", [1, 2, 3])]⟩

theorem locate_usedDirectory : usedDirectory.locate "./t" = .file "t" false := by decide +kernel

/-- Two buffers with room for one long event. -/
def smallBuffer (i : Bool) : Buffer :=
  ⟨.filled minRegionSize 0, chunkHeaderSize, 7, cond i 2 1, 0, false⟩

/-- A write that is too long to be held back comes before a chunk, and the sink is asked for more
after it was told to quit. -/
def traffic : List (Request Bool) :=
  [.perform false (.spanBegin (List.replicate 255 65) (List.replicate 255 66) 5),
    .sink (.write (List.replicate 8192 7)), .perform false (.spanEnd 6), .sink .flush,
    .perform true (.name .thread [67]), .quit true, .sink .quit, .sink (.write [9]), .quit false,
    .sink .quit]

theorem startFile_traffic :
    Unit.isAccepted .one ∧ usedDirectory.locate "./t" = .file "t" false ∧
      (∀ i, Buffer.new (.filled minRegionSize 0) 7 (cond i 2 1) = .ok (smallBuffer i)) ∧
      ∃ file memory,
        Sink.startFile .one (Directory.reopened (some ⟨9000, .noSpace⟩) "./t") usedDirectory =
          (.ok file, ⟨[("t", [])]⟩) ∧
        Sink.start .one Memory.empty = .ok memory ∧
        let s : Shared Bool SpoolFile := ⟨file, fun i => some (smallBuffer i)⟩
        let onFile := s.run traffic
        let onMemory := run ⟨memory, s.buffers⟩ traffic
        Unfailing onFile.1 ∧ onMemory.1 = onFile.1 ∧
          onFile.2.sink.destination.disk.contents = onMemory.2.sink.destination.contents ∧
          onMemory.2.sink.destination.writes =
            (StreamHeader.mk .one).toBytes :: s.accepted traffic ∧
          (s.accepted traffic).map List.length = [8192, 541, 23] := by
  have hunit : Unit.isAccepted .one := by decide
  have hnew : ∀ i, Buffer.new (.filled minRegionSize 0) 7 (cond i 2 1) = .ok (smallBuffer i) :=
    fun _ => rfl
  obtain ⟨-, hstarts⟩ :=
    startFile_mirrors_memory (ι := Bool) .one (some ⟨9000, .noSpace⟩) "./t" usedDirectory
  obtain ⟨file, memory, hfile, hmemory, hruns⟩ := hstarts "t" hunit locate_usedDirectory
  have hinFile := Sink.startFile_of_file hunit locate_usedDirectory (some ⟨9000, .noSpace⟩)
  obtain rfl := Except.ok.inj (Prod.mk.inj (hinFile.symm.trans hfile)).1
  have hok : Unfailing (run ⟨Sink.inFile .one (some ⟨9000, .noSpace⟩),
      fun i => some (smallBuffer i)⟩ traffic).1 := by
    unfold Unfailing
    decide +kernel
  obtain ⟨-, hrun⟩ :=
    hruns (fun _ => .filled minRegionSize 0) (fun i => (7, cond i 2 1)) smallBuffer hnew traffic
  obtain ⟨hanswers, -, -, hwrites, hcontents, -⟩ := hrun hok
  refine ⟨hunit, locate_usedDirectory, hnew, _, memory, hfile, hmemory, hok, hanswers,
    hcontents (.inr rfl), hwrites, ?_⟩
  decide +kernel

end Shared

end ThreadTrace
