import ThreadTrace.Capture.Destination
import ThreadTrace.Capture.Error
import ThreadTrace.Wire.Header

/-!
# ThreadTrace.Capture.Sink — the stream that all buffers write to

A sink owns a destination.  It writes the stream header when it starts, passes every later write on
as one piece, and closes the destination when it is told to quit; after that nothing reaches the
destination any more.
-/

namespace ThreadTrace

open Wire

structure Sink (δ : Type) where
  unit : Binary64
  destination : δ
  isOpen : Bool
  deriving DecidableEq

namespace Sink

variable {δ : Type} [Destination δ]

/-- Start a stream with its header.  A destination that does not take the header is closed; one that
meets a unit that is not accepted is let go.  An error comes with what became of the destination. -/
def start (unit : Binary64) (d : δ) : Except (CaptureError × δ) (Sink δ) :=
  if Unit.isAccepted unit then
    match Destination.write d (StreamHeader.mk unit).toBytes with
    | (.ok (), d) => .ok ⟨unit, d, true⟩
    | (.error failure, d) =>
      .error (.io failure, Destination.release (Destination.close d).2)
  else .error (.invalidUnit unit, Destination.release d)

/-- Ask the destination for something, unless it is closed. -/
def ask (s : Sink δ) (call : δ → Outcome × δ) : Except CaptureError Unit × Sink δ :=
  if s.isOpen then
    match call s.destination with
    | (.ok (), d) => (.ok (), { s with destination := d })
    | (.error failure, d) => (.error (.io failure), { s with destination := d })
  else (.error .sinkClosed, s)

/-- Write bytes as one piece of the stream. -/
def write (s : Sink δ) (bs : List UInt8) : Except CaptureError Unit × Sink δ :=
  s.ask (Destination.write · bs)

def flush (s : Sink δ) : Except CaptureError Unit × Sink δ := s.ask Destination.flush

/-- Close the destination and let it go, whether closing succeeds or not.  A second time nothing
happens. -/
def quit (s : Sink δ) : Except CaptureError Unit × Sink δ :=
  if s.isOpen then
    match Destination.close s.destination with
    | (.ok (), d) => (.ok (), ⟨s.unit, Destination.release d, false⟩)
    | (.error failure, d) => (.error (.io failure), ⟨s.unit, Destination.release d, false⟩)
  else (.ok (), s)

/-- What is left of the destination when the sink is let go. -/
def drop (s : Sink δ) : δ := s.quit.2.destination

/-- Start a stream in a file.  Nothing is done to the files for a unit that is not accepted. -/
def startFile {φ : Type} (unit : Binary64) (create : φ → Except IoFailure SpoolFile × φ)
    (files : φ) : Except CaptureError (Sink SpoolFile) × φ :=
  if Unit.isAccepted unit then
    match create files with
    | (.error failure, files) => (.error (.io failure), files)
    | (.ok file, files) =>
      match start unit file with
      | .ok s => (.ok s, files)
      | .error (e, _) => (.error e, files)
  else (.error (.invalidUnit unit), files)

/-- The sink's state in words. -/
def description {δ : Type} (s : Sink δ) : String :=
  s!"ProfileSink \x7b timestamp_unit: {Unit.diagnosticText s.unit}, closed: {!s.isOpen} \x7d"

end Sink

end ThreadTrace
