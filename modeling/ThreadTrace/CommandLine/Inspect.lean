import ThreadTrace.CommandLine.Options
import ThreadTrace.Report.Listing
import ThreadTrace.Report.Summary
import ThreadTrace.Timeline.Json

/-!
# ThreadTrace.CommandLine.Inspect — the program's work

A trace is read as far as it was written, then summarised, listed and exported, as the options say.
`draft` does what needs no file but the trace; `Draft.finish` writes the timeline if one is wanted.
What was printed before an error stays printed.
-/

namespace ThreadTrace.CommandLine

open Wire

/-- An error as the user sees it: what was tried, and the causes one after another. -/
structure Trouble where
  chain : List String
  /-- The input is not a trace at all. -/
  foreign : Bool
  deriving DecidableEq

namespace Trouble

def ofRead (attempt : String) (e : ReadError) : Trouble := ⟨attempt :: e.chain, e.isForeign⟩

/-- An input that is not a trace is the caller's mistake. -/
def exitCode (t : Trouble) : Nat := if t.foreign then 2 else 1

def message (t : Trouble) : String := "error: " ++ ": ".intercalate t.chain ++ "\n"

end Trouble

/-- Every whole chunk of a trace; what is cut short at the end is left out. -/
def readTrace (path : String) (opened : Except IoFailure Source) : Except Trouble Trace :=
  match opened with
  | .error failure => .error (.ofRead s!"Failed to open {path}" (.io failure))
  | .ok source =>
    match (Reader.ofSource source).readHeader with
    | (.error e, _) => .error (.ofRead s!"Failed to read header of {path}" e)
    | (.ok header, r) =>
      match r.chunks ReadError.isCutShort with
      | .error e => .error (.ofRead "Failed to read trace chunk" e)
      | .ok chunks => .ok ⟨header, chunks⟩

/-- What is printed, and the error that ended the printing. -/
structure Page where
  text : String
  trouble : Option Trouble
  deriving DecidableEq

namespace Page

def blank : Page := ⟨"", none⟩

/-- A page goes on behind another one, unless an error ended that. -/
def append (p : Page) (next : Page) : Page :=
  match p.trouble with
  | some _ => p
  | none => ⟨p.text ++ next.text, next.trouble⟩

end Page

def malformed : String := "Malformed event in trace"

def summaryPage (path : String) (t : Trace) : Page :=
  match Summary.ofTrace t with
  | .ok s => ⟨s!"trace: {path}\n" ++ s.text, none⟩
  | .error e => ⟨s!"trace: {path}\n", some ⟨[malformed, e.message], false⟩⟩

def listingPage (t : Trace) : Page :=
  let (lines, error) := Listing.chunkLines t.chunks
  ⟨String.join (lines.map (· ++ "\n")), error.map fun e => .ofRead malformed (.decode e)⟩

def page (o : Options) (t : Trace) : Page :=
  (if o.quiet then .blank else summaryPage o.trace t).append
    (if o.events then listingPage t else .blank)

/-- The timeline to be written, if one is wanted. -/
def wantedTimeline (o : Options) (t : Trace) : Except Trouble (Option (String × Timeline)) :=
  match o.target with
  | none => .ok none
  | some target =>
    match Timeline.ofTrace t with
    | .ok timeline => .ok (some (target, timeline))
    | .error e => .error ⟨(TimelineError.ofDecode e).chain, false⟩

/-- What was printed so far, and what is left to be done. -/
structure Draft where
  quiet : Bool
  text : String
  next : Except Trouble (Option (String × Timeline))

def draft (o : Options) (opened : Except IoFailure Source) : Draft :=
  match readTrace o.trace opened with
  | .error trouble => ⟨o.quiet, "", .error trouble⟩
  | .ok t =>
    let p := page o t
    match p.trouble with
    | some trouble => ⟨o.quiet, p.text, .error trouble⟩
    | none => ⟨o.quiet, p.text, wantedTimeline o t⟩

/-- How the program ended, and what became of the file it wrote. -/
structure Ending (δ : Type) where
  exitCode : Nat
  stdout : String
  stderr : String
  written : Option (String × δ)
  deriving DecidableEq

def Ending.failed {δ : Type} (text : String) (trouble : Trouble)
    (written : Option (String × δ)) : Ending δ :=
  ⟨trouble.exitCode, text, trouble.message, written⟩

/-- The line that tells of a written timeline. -/
def savedLine (target : String) (timeline : Timeline) : String :=
  s!"saved: {target} ({timeline.events.length} events)\n"

/-- Write the timeline to a new file, if one is wanted, and end. -/
def Draft.finish {δ : Type} [Destination δ] (d : Draft) (create : String → Except IoFailure δ) :
    Ending δ :=
  match d.next with
  | .error trouble => .failed d.text trouble none
  | .ok none => ⟨0, d.text, "", none⟩
  | .ok (some (target, timeline)) =>
    match create target with
    | .error failure =>
      .failed d.text ⟨[s!"Failed to create {target}", failure.message], false⟩ none
    | .ok file =>
      match timeline.exportTo file with
      | (.error failure, file) =>
        .failed d.text ⟨(TimelineError.write failure).chain, false⟩ (some (target, file))
      | (.ok (), file) =>
        ⟨0, d.text ++ (if d.quiet then "" else savedLine target timeline), "",
          some (target, file)⟩

/-- The whole program, given how files are opened and made. -/
def run {δ : Type} [Destination δ] (args : List String)
    (openTrace : String → Except IoFailure Source) (create : String → Except IoFailure δ) :
    Except UsageError (Ending δ) :=
  (Options.parse args).map fun o => (draft o (openTrace o.trace)).finish create

end ThreadTrace.CommandLine
