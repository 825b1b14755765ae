import ThreadTrace.Capture.Buffer

/-!
# ThreadTrace.Capture.Config — what a program sets up before it records
-/

namespace ThreadTrace

structure Config where
  /-- The size of a thread's region, chunk header included. -/
  regionSize : Nat
  /-- The number of names that a thread's cache holds. -/
  cacheCapacity : Nat
  /-- Microseconds per tick. -/
  unit : Binary64
  deriving DecidableEq

namespace Config

def standard : Config := ⟨1024 * 1024, 1000, .one⟩

/-- Whether buffers and the sink will take these settings. -/
def validate (c : Config) : Except CaptureError Unit :=
  if c.regionSize < minRegionSize then .error (.bufferTooSmall c.regionSize minRegionSize)
  else if Unit.isAccepted c.unit then .ok ()
  else .error (.invalidUnit c.unit)

/-- A zeroed region of the configured size. -/
def region (c : Config) : Region := .filled c.regionSize 0

end Config

end ThreadTrace
