import ThreadTrace.IoFailure
import ThreadTrace.Unit

/-!
# ThreadTrace.Capture.Error — why something could not be recorded
-/

namespace ThreadTrace

inductive CaptureError where
  | bufferTooSmall (length required : Nat)
  | bufferTooLarge (length : Nat)
  | invalidUnit (unit : Binary64)
  | sinkClosed
  | io (failure : IoFailure)
  deriving DecidableEq

namespace CaptureError

def message : CaptureError → String
  | bufferTooSmall length required =>
    s!"Buffer of {length} bytes is too small, at least {required} bytes required"
  | bufferTooLarge length =>
    s!"Buffer of {length} bytes cannot be described by a 32-bit chunk size"
  | invalidUnit unit => s!"Invalid timestamp unit: {Unit.text unit}"
  | sinkClosed => "Profile sink has already been closed"
  | io failure => failure.message

/-- The error with all its parts named. -/
def detail : CaptureError → String
  | bufferTooSmall length required =>
    s!"BufferTooSmall \x7b length: {length}, required: {required} \x7d"
  | bufferTooLarge length => s!"BufferTooLarge \x7b length: {length} \x7d"
  | invalidUnit unit => s!"InvalidTimestampUnit({Unit.diagnosticText unit})"
  | sinkClosed => "SinkClosed"
  | io failure => s!"Io({failure.detail})"

/-- The message of an error that kept a buffer from being handed back. -/
def quitMessage (e : CaptureError) : String := s!"Final flush failed: {e.message}"

def quitDetail (e : CaptureError) : String := s!"QuitError \x7b error: {e.detail}, .. \x7d"

end CaptureError

end ThreadTrace
