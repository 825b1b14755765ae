import ThreadTrace.CommandLine.Inspect

/-!
# ThreadTrace.Main — the program

Opens and makes the files that the program's work is about, and passes on what it prints.
Everything that is decided is decided in `CommandLine`.
-/

namespace ThreadTrace.Program

open CommandLine

def usage : String := "usage: threadtrace [--events] [--export FILE] [-q|--quiet] TRACE"

/-- A failure of the system, with its number where that is known. -/
def failureOf : IO.Error → IoFailure
  | .noFileOrDirectory .. => .noSuchFile
  | .inappropriateType _ code text => .system code.toNat "InappropriateType" text
  | .permissionDenied _ code text => .system code.toNat "PermissionDenied" text
  | .resourceExhausted _ code text => .system code.toNat "StorageFull" text
  | .otherError code text => .system code.toNat "Other" text
  | e => .custom (toString e)

/-- The source of a trace.  A file that cannot be read fails when it is asked for bytes. -/
def openTrace (path : String) : BaseIO (Except IoFailure Source) := do
  match ← (IO.FS.Handle.mk path .read).toBaseIO with
  | .error e => return .error (failureOf e)
  | .ok file =>
    match ← file.readBinToEnd.toBaseIO with
    | .ok bytes => return .ok (.ofBytes bytes.toList)
    | .error e => return .ok { Source.ofBytes [] with fault := some (0, failureOf e) }

def writeAll (file : IO.FS.Handle) (bytes : List UInt8) : IO Unit := do
  file.write ⟨bytes.toArray⟩
  file.flush

/-- Write one part behind another.  When that fails, the disk has had room for the parts before. -/
def writeParts (file : IO.FS.Handle) (taken : Nat) : List (List UInt8) → BaseIO (Option Room)
  | [] => return none
  | part :: rest => do
    match ← (writeAll file part).toBaseIO with
    | .error e => return some ⟨taken, failureOf e⟩
    | .ok () => writeParts file (taken + part.length) rest

/-- Make the file that is wanted and write it: first what goes onto the disk while the timeline is
written, then what is held back until the file is let go.  How the program ends depends on the room
that there was. -/
def finish (d : Draft) : BaseIO (Ending SpoolFile) := do
  match d.next with
  | .ok (some (target, timeline)) =>
    match ← (IO.FS.Handle.mk target .write).toBaseIO with
    | .error e => return d.finish fun _ => .error (failureOf e)
    | .ok file =>
      let (_, spool) := Timeline.writeFragments timeline.fragments (SpoolFile.create none)
      let room ← writeParts file 0 [spool.disk.contents, spool.held]
      return d.finish fun _ => .ok (SpoolFile.create room)
  | _ => return d.finish fun _ => .ok (SpoolFile.create none)

end ThreadTrace.Program

open ThreadTrace CommandLine Program in
/-- Inspect the trace that the arguments name. -/
def main (args : List String) : IO UInt32 := do
  match Options.parse args with
  | .error e =>
    if e = .help then IO.println usage else IO.eprintln usage
    return UInt32.ofNat e.exitCode
  | .ok options =>
    let ending ← finish (draft options (← openTrace options.trace))
    IO.print ending.stdout
    IO.eprint ending.stderr
    return UInt32.ofNat ending.exitCode
