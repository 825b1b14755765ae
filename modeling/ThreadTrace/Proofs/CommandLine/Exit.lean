import ThreadTrace.Proofs.Report.Listing
import ThreadTrace.Proofs.Report.Summary
import ThreadTrace.Proofs.Stream.Whole
import ThreadTrace.Proofs.Timeline.Event
import ThreadTrace.Proofs.Timeline.Json

/-!
# ThreadTrace.Proofs.CommandLine.Exit — how the program ends

A file that is foreign is the caller's mistake.  One that is too short for a header cannot be read,
and a chunk that is not clean shows as soon as anybody looks at its events: the summary, the listing
or the timeline.  `draft_cases` puts these together; all of it is settled before a file is made
(`run_cases`), and what the exit code says of the input is `run_exitCode`.
-/

namespace ThreadTrace.CommandLine

open Wire

/-- There is trouble exactly when a chunk is not clean, and it does not make the file foreign. -/
inductive Tells (cs : List Chunk) : Option Trouble → Prop
  | clean (h : ∀ c ∈ cs, c.Clean) : Tells cs none
  | trouble {trouble : Trouble} (h : ¬ ∀ c ∈ cs, c.Clean) (foreign_eq : trouble.foreign = false) :
    Tells cs (some trouble)

namespace Tells

variable {cs : List Chunk} {trouble : Option Trouble}

theorem eq_none (h : Tells cs trouble) (hclean : ∀ c ∈ cs, c.Clean) : trouble = none := by
  cases h with
  | clean => rfl
  | trouble hnot => exact absurd hclean hnot

theorem exists_trouble (h : Tells cs trouble) (hnot : ¬ ∀ c ∈ cs, c.Clean) :
    ∃ e, trouble = some e ∧ e.foreign = false := by
  cases h with
  | clean hclean => exact absurd hclean hnot
  | trouble _ hforeign => exact ⟨_, rfl, hforeign⟩

theorem or {other : Option Trouble} (h : Tells cs trouble) (h' : Tells cs other) :
    Tells cs (trouble.or other) := by
  cases h with
  | clean => exact h'
  | trouble hnot hforeign => exact .trouble hnot hforeign

end Tells

variable {o : Options} {t : Trace} {s : Source}

theorem tells_summaryPage (path : String) (t : Trace) :
    Tells t.chunks (summaryPage path t).trouble := by
  unfold summaryPage
  cases hsummary : Summary.ofTrace t with
  | ok summary => exact .clean (Summary.ofTrace_eq_ok_iff.1 hsummary).1
  | error e =>
    refine .trouble (fun hclean => ?_) rfl
    rw [Summary.ofTrace_eq_ok_iff.2 ⟨hclean, rfl⟩] at hsummary
    cases hsummary

theorem tells_listingPage (t : Trace) : Tells t.chunks (listingPage t).trouble := by
  have htrouble : (listingPage t).trouble =
      (Listing.chunkLines t.chunks).2.map fun e => .ofRead malformed (.decode e) := rfl
  rw [htrouble]
  obtain ⟨hclean, hnone⟩ | ⟨c, hc, hnot, e, he, hsome⟩ := Listing.chunkLines_cases t.chunks
  · rw [hnone]
    exact .clean hclean
  · rw [hsome]
    exact .trouble (fun hclean => hnot (hclean c hc)) (isForeign_of_mem_decodeEvents he)

theorem wantedTimeline_cases (o : Options) (t : Trace) :
    (o.target = none ∧ wantedTimeline o t = .ok none) ∨
    ∃ target, o.target = some target ∧
      (((∀ c ∈ t.chunks, c.Clean) ∧
          ∃ timeline, wantedTimeline o t = .ok (some (target, timeline))) ∨
        ((¬ ∀ c ∈ t.chunks, c.Clean) ∧
          ∃ e, wantedTimeline o t = .error e ∧ e.foreign = false)) := by
  unfold wantedTimeline
  cases htarget : o.target with
  | none => exact .inl ⟨rfl, rfl⟩
  | some target =>
    refine .inr ⟨target, rfl, ?_⟩
    cases htimeline : Timeline.ofTrace t with
    | ok timeline => exact .inl ⟨(Timeline.ofTrace_eq_ok_iff.1 htimeline).1, timeline, rfl⟩
    | error e =>
      refine .inr ⟨fun hclean => ?_, _, rfl, rfl⟩
      rw [Timeline.ofTrace_eq_ok_iff.2 ⟨hclean, rfl⟩] at htimeline
      cases htimeline

theorem trouble_append (p next : Page) :
    (p.append next).trouble = p.trouble.or next.trouble := by
  unfold Page.append
  cases hp : p.trouble with
  | none => rfl
  | some trouble => exact hp

/-- Somebody looks at the events: the summary, the listing or the timeline. -/
def Options.Looks (o : Options) : Prop := o.quiet = false ∨ o.events = true ∨ o.target.isSome

theorem trouble_page (o : Options) (t : Trace) :
    (page o t).trouble =
      (if o.quiet then none else (summaryPage o.trace t).trouble).or
        (if o.events then (listingPage t).trouble else none) := by
  rw [page, trouble_append]
  cases o.quiet <;> cases o.events <;> rfl

theorem tells_page (t : Trace) (h : o.quiet = false ∨ o.events = true) :
    Tells t.chunks (page o t).trouble := by
  have hsummary := tells_summaryPage o.trace t
  have hlisting := tells_listingPage t
  rw [trouble_page]
  cases hquiet : o.quiet with
  | false =>
    cases o.events with
    | false => exact Option.or_none ▸ hsummary
    | true => exact hsummary.or hlisting
  | true =>
    obtain hnot | hevents := h
    · rw [hquiet] at hnot
      cases hnot
    · rw [hevents]
      exact hlisting

theorem trouble_page_of_quiet (t : Trace) (h : ¬ (o.quiet = false ∨ o.events = true)) :
    (page o t).trouble = none := by
  simp only [not_or, Bool.not_eq_false, Bool.not_eq_true] at h
  rw [trouble_page, h.1, h.2]
  rfl

theorem trouble_page_of_clean (o : Options) (hclean : ∀ c ∈ t.chunks, c.Clean) :
    (page o t).trouble = none := by
  by_cases h : o.quiet = false ∨ o.events = true
  · exact (tells_page t h).eq_none hclean
  · exact trouble_page_of_quiet t h

theorem next_draft (h : readTrace o.trace (.ok s) = .ok t) :
    (draft o (.ok s)).next =
      match (page o t).trouble with
      | some e => .error e
      | none => wantedTimeline o t := by
  simp only [draft, h]
  cases (page o t).trouble <;> rfl

/-- An event that cannot be read is trouble for whoever looks. -/
theorem draft_of_read (h : readTrace o.trace (.ok s) = .ok t) :
    ((¬ ∀ c ∈ t.chunks, c.Clean) ∧ o.Looks ∧
      ∃ e, (draft o (.ok s)).next = .error e ∧ e.foreign = false) ∨
    (((∀ c ∈ t.chunks, c.Clean) ∨ ¬ o.Looks) ∧
      ∃ wanted, (draft o (.ok s)).next = .ok wanted ∧ wanted.map (·.1) = o.target) := by
  rw [next_draft h]
  by_cases hclean : ∀ c ∈ t.chunks, c.Clean
  · -- nothing is wrong with the events
    rw [trouble_page_of_clean o hclean]
    refine .inr ⟨.inl hclean, ?_⟩
    obtain ⟨hnone, hwanted⟩ | ⟨target, htarget, ⟨-, timeline, hwanted⟩ | ⟨hnot, -⟩⟩ :=
      wantedTimeline_cases o t
    · exact ⟨none, hwanted, hnone.symm⟩
    · exact ⟨some (target, timeline), hwanted, htarget.symm⟩
    · exact absurd hclean hnot
  · by_cases hprints : o.quiet = false ∨ o.events = true
    · obtain ⟨e, he, hforeign⟩ := (tells_page t hprints).exists_trouble hclean
      rw [he]
      exact .inl ⟨hclean, hprints.imp_right .inl, e, rfl, hforeign⟩
    · -- the timeline is all that is left
      rw [trouble_page_of_quiet t hprints]
      obtain ⟨hnone, hwanted⟩ | ⟨target, htarget, ⟨hall, -⟩ | ⟨-, e, hwanted, hforeign⟩⟩ :=
        wantedTimeline_cases o t
      · refine .inr ⟨.inr ?_, none, hwanted, hnone.symm⟩
        rintro (hquiet | hevents | htarget)
        · exact hprints (.inl hquiet)
        · exact hprints (.inr hevents)
        · rw [hnone] at htarget
          cases htarget
      · exact absurd hall hclean
      · exact .inl ⟨hclean, .inr (.inr (by rw [htarget]; rfl)), e, hwanted, hforeign⟩

/-- What is settled before a file is made. -/
theorem draft_cases (o : Options) (hs : s.Sound) :
    (Foreign s.rest ∧ ∃ e, (draft o (.ok s)).next = .error e ∧ e.foreign) ∨
    (¬ Foreign s.rest ∧
      (s.rest.length < streamHeaderSize ∨ (∃ c, Contains s.rest c ∧ ¬ c.Clean) ∧ o.Looks) ∧
      ∃ e, (draft o (.ok s)).next = .error e ∧ e.foreign = false) ∨
    (¬ Foreign s.rest ∧
      ¬ (s.rest.length < streamHeaderSize ∨ (∃ c, Contains s.rest c ∧ ¬ c.Clean) ∧ o.Looks) ∧
      ∃ wanted, (draft o (.ok s)).next = .ok wanted ∧ wanted.map (·.1) = o.target) := by
  have hunread : ∀ {e}, readTrace o.trace (.ok s) = .error e →
      (draft o (.ok s)).next = .error e := by
    intro e he
    rw [draft, he]
  obtain ⟨hforeign, e, he, hkind⟩ | ⟨hforeign, hlt, e, he, hkind⟩ |
    ⟨hforeign, hle, t, tail, -, -, -, hread⟩ := readTrace_cases o.trace hs
  · exact .inl ⟨hforeign, e, hunread he, hkind⟩
  · exact .inr (.inl ⟨hforeign, .inl hlt, e, hunread he, hkind⟩)
  · have hclean : (∃ c, Contains s.rest c ∧ ¬ c.Clean) ↔ ¬ ∀ c ∈ t.chunks, c.Clean := by
      simp only [← mem_chunks_iff hs hread, not_forall, exists_prop]
    obtain ⟨hnot, hlooks, he⟩ | ⟨hfine, hwanted⟩ := draft_of_read hread
    · exact .inr (.inl ⟨hforeign, .inr ⟨hclean.2 hnot, hlooks⟩, he⟩)
    · refine .inr (.inr ⟨hforeign, ?_, hwanted⟩)
      rintro (hlt | ⟨hbad, hlooks⟩)
      · exact absurd hlt (Nat.not_lt_of_le hle)
      · exact hfine.elim (hclean.1 hbad) fun hnot => hnot hlooks

/-! ### Endings -/

/-- The destination takes whatever is written to it. -/
def Accepts {δ : Type} [Destination δ] (d : δ) : Prop :=
  ∀ fragments, (Timeline.writeFragments fragments d).1 = .ok ()

section Endings

variable {δ : Type} [Destination δ]

/-- Trouble ends the program before a file is made. -/
theorem finish_of_error {d : Draft} {e : Trouble} (h : d.next = .error e)
    (create : String → Except IoFailure δ) :
    d.finish create = ⟨e.exitCode, d.text, e.message, none⟩ := by
  rw [Draft.finish, h]
  rfl

theorem finish_of_timeline {d : Draft} {target : String} {timeline : Timeline}
    (h : d.next = .ok (some (target, timeline))) {create : String → Except IoFailure δ} {file : δ}
    (hcreate : create target = .ok file) :
    d.finish create =
      match timeline.exportTo file with
      | (.error failure, file) =>
        .failed d.text ⟨(TimelineError.write failure).chain, false⟩ (some (target, file))
      | (.ok (), file) =>
        ⟨0, d.text ++ (if d.quiet then "" else savedLine target timeline), "",
          some (target, file)⟩ := by
  rcases hexport : timeline.exportTo file with ⟨_ | _, written⟩ <;>
    simp [Draft.finish, h, hcreate, hexport]

theorem exitCode_finish {d : Draft} {wanted : Option (String × Timeline)} (h : d.next = .ok wanted)
    {create : String → Except IoFailure δ}
    (hcreate : ∀ target, wanted.map (·.1) = some target →
      ∃ file, create target = .ok file ∧ Accepts file) : (d.finish create).exitCode = 0 := by
  cases wanted with
  | none =>
    rw [Draft.finish, h]
  | some pair =>
    obtain ⟨target, timeline⟩ := pair
    obtain ⟨file, hfile, haccepts⟩ := hcreate target rfl
    have hwritten : (timeline.exportTo file).1 = .ok () := haccepts timeline.fragments
    rcases hexport : timeline.exportTo file with ⟨result, file'⟩
    rw [hexport] at hwritten
    obtain rfl : result = .ok () := hwritten
    rw [finish_of_timeline h hfile, hexport]

theorem run_of_opened {args : List String} (hparse : Options.parse args = .ok o)
    {openTrace : String → Except IoFailure Source} {opened : Except IoFailure Source}
    (hopen : openTrace o.trace = opened) (create : String → Except IoFailure δ) :
    run args openTrace create = .ok ((draft o opened).finish create) := by
  simp only [run, hparse, Except.map, hopen]

/-- **What the exit code says of the input.**  It is 2 for a file that is foreign; otherwise 1 for
one that is too short for a header or has a chunk that is not clean and is looked at; otherwise 0.
A tail that is cut short changes nothing, and in a failure the place of the timeline is not
touched. -/
theorem run_exitCode {args : List String} {o : Options} (hparse : Options.parse args = .ok o)
    {openTrace : String → Except IoFailure Source} (hopen : openTrace o.trace = .ok s)
    (hs : s.Sound) {create : String → Except IoFailure δ}
    (hcreate : ∀ target, o.target = some target →
      ∃ file, create target = .ok file ∧ Accepts file) :
    ∃ ending, run args openTrace create = .ok ending ∧
      (ending.exitCode = 2 ↔ Foreign s.rest) ∧
      (¬ Foreign s.rest → (ending.exitCode = 1 ↔
        s.rest.length < streamHeaderSize ∨ (∃ c, Contains s.rest c ∧ ¬ c.Clean) ∧
          (o.quiet = false ∨ o.events = true ∨ o.target.isSome))) ∧
      (ending.exitCode = 0 ∨ ending.exitCode = 1 ∨ ending.exitCode = 2) ∧
      (∀ t tail, s.rest = Trace.toBytes t ++ tail → t.Framed → CutShort tail →
        ∀ s', s'.Sound → s'.rest = t.toBytes →
          run args (fun _ => .ok s') create = .ok ending) ∧
      (ending.exitCode ≠ 0 → ending.written = none ∧
        ∀ {γ : Type} [Destination γ] (create' : String → Except IoFailure γ),
          run args openTrace create' =
            .ok ⟨ending.exitCode, ending.stdout, ending.stderr, none⟩) := by
  have hrun : ∀ {γ : Type} [Destination γ] (create' : String → Except IoFailure γ),
      run args openTrace create' = .ok ((draft o (.ok s)).finish create') :=
    run_of_opened hparse hopen
  have htail : ∀ t tail, s.rest = Trace.toBytes t ++ tail → t.Framed → CutShort tail →
      ∀ s', s'.Sound → s'.rest = t.toBytes →
        run args (fun _ => .ok s') create = .ok ((draft o (.ok s)).finish create) := by
    intro t tail hbytes ht htail s' hs' hbytes'
    have hread : readTrace o.trace (.ok s) = .ok t := readTrace_of_toBytes hs ht htail hbytes
    have hread' : readTrace o.trace (.ok s') = .ok t :=
      readTrace_of_toBytes hs' ht cutShort_nil (by rw [hbytes', List.append_nil])
    rw [run_of_opened hparse rfl, draft, draft, hread, hread']
  have huntouched : ∀ {e}, (draft o (.ok s)).next = .error e →
      ((draft o (.ok s)).finish create).written = none ∧
        ∀ {γ : Type} [Destination γ] (create' : String → Except IoFailure γ),
          run args openTrace create' = .ok ⟨((draft o (.ok s)).finish create).exitCode,
            ((draft o (.ok s)).finish create).stdout,
            ((draft o (.ok s)).finish create).stderr, none⟩ := by
    intro e he
    rw [finish_of_error he]
    refine ⟨rfl, fun create' => ?_⟩
    rw [hrun create', finish_of_error he]
  refine ⟨_, hrun create, ?_⟩
  obtain ⟨hforeign, e, he, hkind⟩ | ⟨hforeign, hbad, e, he, hkind⟩ |
    ⟨hforeign, hfine, wanted, hwanted, htarget⟩ := draft_cases o hs
  · have hexit : ((draft o (.ok s)).finish create).exitCode = 2 := by
      rw [finish_of_error he]
      exact if_pos hkind
    refine ⟨iff_of_true hexit hforeign, fun hnot => absurd hforeign hnot, .inr (.inr hexit), htail,
      fun _ => huntouched he⟩
  · have hexit : ((draft o (.ok s)).finish create).exitCode = 1 := by
      rw [finish_of_error he]
      simp [Trouble.exitCode, hkind]
    refine ⟨iff_of_false (by simp [hexit]) hforeign, fun _ => iff_of_true hexit hbad,
      .inr (.inl hexit), htail, fun _ => huntouched he⟩
  · have hexit : ((draft o (.ok s)).finish create).exitCode = 0 :=
      exitCode_finish hwanted fun target h => hcreate target (htarget.symm.trans h)
    refine ⟨iff_of_false (by simp [hexit]) hforeign, fun _ => iff_of_false (by simp [hexit]) hfine,
      .inl hexit, htail, fun hne => absurd hexit hne⟩

end Endings

theorem accepts_create_none : Accepts (SpoolFile.create none) := by
  intro fragments
  have hcreate : (SpoolFile.create none).disk.room = none := rfl
  obtain ⟨f, hf⟩ := Timeline.writeFragments_brings hcreate fragments
  rw [hf.unlimited]

/-- One chunk, whose only event has no valid tag. -/
def untagged : Trace := ⟨⟨.one⟩, [⟨⟨1, 1, 7, 0⟩, [0]⟩]⟩

/-- Its stream and the beginning of another chunk. -/
def untaggedFile : Source := .ofBytes (untagged.toBytes ++ [1, 0])

theorem exitCode_untaggedFile :
    Options.parse ["t", "-q", "--export", "o"] = .ok ⟨"t", false, some "o", true⟩ ∧
      untaggedFile.Sound ∧ Accepts (SpoolFile.create none) ∧ ¬ Foreign untaggedFile.rest ∧
      (∃ c, Contains untaggedFile.rest c ∧ ¬ c.Clean) ∧
      ∃ ending, run ["t", "-q", "--export", "o"] (fun _ => .ok untaggedFile)
          (fun _ => .ok (SpoolFile.create none)) = .ok ending ∧
        ending.exitCode = 1 ∧ ending.written = none := by
  have hparse : Options.parse ["t", "-q", "--export", "o"] =
      .ok ⟨"t", false, some "o", true⟩ := rfl
  have hs : untaggedFile.Sound := rfl
  have hforeign : ¬ Foreign untaggedFile.rest := by decide
  have hclean : ∃ c, Contains untaggedFile.rest c ∧ ¬ c.Clean :=
    ⟨⟨⟨1, 1, 7, 0⟩, [0]⟩, ⟨untagged, [1, 0], rfl, by decide, List.mem_singleton.2 rfl⟩,
      by decide +kernel⟩
  let openTrace : String → Except IoFailure Source := fun _ => .ok untaggedFile
  let create : String → Except IoFailure SpoolFile := fun _ => .ok (.create none)
  have hopen : openTrace "t" = .ok untaggedFile := rfl
  have hcreate : ∀ target, some "o" = some target →
      ∃ file, create target = .ok file ∧ Accepts file := fun _ _ => ⟨_, rfl, accepts_create_none⟩
  obtain ⟨ending, hrun, -, hone, -, -, hfailed⟩ := run_exitCode hparse hopen hs hcreate
  have hexit : ending.exitCode = 1 := (hone hforeign).2 (.inr ⟨hclean, .inr (.inr rfl)⟩)
  refine ⟨hparse, hs, accepts_create_none, hforeign, hclean, ending, hrun, hexit, ?_⟩
  exact (hfailed (by rw [hexit]; decide)).1

end ThreadTrace.CommandLine
