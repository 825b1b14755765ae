import ThreadTrace.Proofs.CommandLine.Exit
import ThreadTrace.Wire.Record

/-!
# ThreadTrace.Proofs.CommandLine.Export — which failures to write a timeline are seen

The program hears of a disk that is full while it still writes.  What the file holds back is written
when the file is let go, and a failure then is not heard of: `run_export` says when the program ends
with success, and that the file may have less than the whole text then.
-/

namespace ThreadTrace.CommandLine

variable {o : Options} {t : Trace} {s : Source}

theorem quiet_draft (o : Options) (opened : Except IoFailure Source) :
    (draft o opened).quiet = o.quiet := by
  unfold draft
  cases readTrace o.trace opened with
  | error e => rfl
  | ok t =>
    simp only
    cases (page o t).trouble <;> rfl

/-- Nothing keeps a clean trace from being exported. -/
theorem next_draft_of_clean (h : readTrace o.trace (.ok s) = .ok t)
    (hclean : ∀ c ∈ t.chunks, c.Clean) {target : String} (htarget : o.target = some target) :
    ∃ timeline, Timeline.ofTrace t = .ok timeline ∧
      (draft o (.ok s)).next = .ok (some (target, timeline)) := by
  have htimeline := Timeline.ofTrace_eq_ok_iff.2 ⟨hclean, rfl⟩
  refine ⟨_, htimeline, ?_⟩
  rw [next_draft h, trouble_page_of_clean o hclean]
  simp only [wantedTimeline, htarget, htimeline]

/-- **When the program tells of a disk that is full.**  The file gets as much of the text as there
is room for.  But the program fails only if that is not enough for what is put onto the disk before
the file is let go; what is left for the end is less than the file can hold back, or all of a short
text. -/
theorem run_export {args : List String} (hparse : Options.parse args = .ok o)
    {openTrace : String → Except IoFailure Source} (hopen : openTrace o.trace = .ok s)
    (hs : s.Sound) (ht : t.Framed) {tail : List UInt8} (htail : CutShort tail)
    (hbytes : s.rest = t.toBytes ++ tail) (hclean : ∀ c ∈ t.chunks, c.Clean) {target : String}
    (htarget : o.target = some target) {create : String → Except IoFailure SpoolFile} {room : Room}
    (hcreate : create target = .ok (.create (some room))) :
    ∃ timeline, Timeline.ofTrace t = .ok timeline ∧
      ∃ ending file, run args openTrace create = .ok ending ∧
        ending.written = some (target, file) ∧
        file.disk.contents = (Text.bytes timeline.json).take room.bytes ∧
        (timeline.sent ≤ room.bytes → ending.exitCode = 0 ∧ ending.stderr = "" ∧
          ∃ front, ending.stdout =
            front ++ if o.quiet then "" else savedLine target timeline) ∧
        (room.bytes < timeline.sent → ending.exitCode = 1 ∧
          ending.stderr = (Trouble.mk [room.refusal.message] false).message) ∧
        timeline.sent ≤ (Text.bytes timeline.json).length ∧
        (Text.bytes timeline.json).length ≤ timeline.sent + SpoolFile.capacity ∧
        ((Text.bytes timeline.json).length < SpoolFile.capacity → timeline.sent = 0) := by
  have hread : readTrace o.trace (.ok s) = .ok t := readTrace_of_toBytes hs ht htail hbytes
  obtain ⟨timeline, htimeline, hnext⟩ := next_draft_of_clean hread hclean htarget
  obtain ⟨hresult, hcontents⟩ := timeline.exportTo_create room
  have hquiet := quiet_draft o (.ok s)
  have hfinish := finish_of_timeline hnext hcreate
  rcases hexport : timeline.exportTo (SpoolFile.create (some room)) with ⟨result, file⟩
  rw [hexport] at hresult hcontents hfinish
  rw [run_of_opened hparse hopen, hfinish]
  refine ⟨timeline, htimeline, ?_⟩
  by_cases hle : timeline.sent ≤ room.bytes
  · rw [if_pos hle] at hresult
    obtain rfl : result = .ok () := hresult
    rw [hquiet]
    exact ⟨_, file, rfl, rfl, hcontents, fun _ => ⟨rfl, rfl, (draft o (.ok s)).text, rfl⟩,
      fun hlt => absurd hle (Nat.not_le_of_lt hlt), timeline.sent_le, timeline.length_le_sent,
      Timeline.sent_eq_zero⟩
  · rw [if_neg hle] at hresult
    obtain rfl : result = .error room.refusal := hresult
    exact ⟨_, file, rfl, rfl, hcontents, fun h => absurd h hle, fun _ => ⟨rfl, rfl⟩,
      timeline.sent_le, timeline.length_le_sent, Timeline.sent_eq_zero⟩

/-- One event. -/
def lastEnd : Trace := ⟨⟨.one⟩, [⟨⟨9, 1, 1, 1⟩, (Wire.Record.spanEnd 1).toBytes⟩]⟩

/-- Nothing can be written, and the program ends with success. -/
theorem run_export_lastEnd :
    Options.parse ["t", "-q", "--export", "o"] = .ok ⟨"t", false, some "o", true⟩ ∧
      (Source.ofBytes lastEnd.toBytes).Sound ∧ lastEnd.Framed ∧ CutShort [] ∧
      (∀ c ∈ lastEnd.chunks, c.Clean) ∧
      ∃ timeline, Timeline.ofTrace lastEnd = .ok timeline ∧
        ∃ ending file, run ["t", "-q", "--export", "o"] (fun _ => .ok (.ofBytes lastEnd.toBytes))
            (fun _ => .ok (SpoolFile.create (some ⟨0, .noSpace⟩))) = .ok ending ∧
          ending.written = some ("o", file) ∧ ending.exitCode = 0 ∧ ending.stderr = "" ∧
          file.disk.contents = [] ∧ (Text.bytes timeline.json).length = 173 := by
  have hparse : Options.parse ["t", "-q", "--export", "o"] =
      .ok ⟨"t", false, some "o", true⟩ := rfl
  have hs : (Source.ofBytes lastEnd.toBytes).Sound := rfl
  have ht : lastEnd.Framed := by decide
  have hclean : ∀ c ∈ lastEnd.chunks, c.Clean := by decide +kernel
  let openTrace : String → Except IoFailure Source := fun _ => .ok (.ofBytes lastEnd.toBytes)
  let create : String → Except IoFailure SpoolFile := fun _ => .ok (.create (some ⟨0, .noSpace⟩))
  have hopen : openTrace "t" = .ok (.ofBytes lastEnd.toBytes) := rfl
  have hcreate : create "o" = .ok (.create (some ⟨0, .noSpace⟩)) := rfl
  obtain ⟨timeline, htimeline, ending, file, hrun, hwritten, hcontents, hsuccess, -, -, -,
    hshort⟩ := run_export hparse hopen hs ht cutShort_nil (List.append_nil _).symm hclean rfl hcreate
  have hlength : (Text.bytes timeline.json).length = 173 := by
    obtain ⟨-, rfl⟩ := Timeline.ofTrace_eq_ok_iff.1 htimeline
    rw [Timeline.bytes_json]
    decide +kernel
  have hsent : timeline.sent = 0 := hshort (by rw [hlength]; decide)
  obtain ⟨hexit, hstderr, -⟩ := hsuccess (Nat.le_of_eq hsent)
  exact ⟨hparse, hs, ht, cutShort_nil, hclean, timeline, htimeline, ending, file, hrun, hwritten,
    hexit, hstderr, hcontents, hlength⟩

end ThreadTrace.CommandLine
