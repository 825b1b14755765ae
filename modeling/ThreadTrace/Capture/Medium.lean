import ThreadTrace.Capture.Sink

/-!
# ThreadTrace.Capture.Medium — a destination of either kind

A program that writes to memory or to a file, as it is told, holds a medium.  Every call goes to the
destination inside.
-/

namespace ThreadTrace

inductive Medium where
  | memory (m : Memory)
  | file (f : SpoolFile)
  deriving DecidableEq

namespace Medium

/-- Pass a call on and put the destination back. -/
def call (onMemory : Memory → Outcome × Memory) (onFile : SpoolFile → Outcome × SpoolFile) :
    Medium → Outcome × Medium
  | memory m => let (result, m) := onMemory m; (result, memory m)
  | file f => let (result, f) := onFile f; (result, file f)

def release : Medium → Medium
  | memory m => memory (Destination.release m)
  | file f => file (Destination.release f)

instance : Destination Medium where
  write m bs := m.call (Destination.write · bs) (Destination.write · bs)
  flush := call Destination.flush Destination.flush
  close := call Destination.close Destination.close
  release := release

end Medium

end ThreadTrace
