import ThreadTrace.Capture.Destination
import ThreadTrace.Stream.Source
import ThreadTrace.Text.Utf8
import ThreadTrace.Wire.Layout

/-!
# ThreadTrace.CommandLine.Directory — the files that a program finds

A working directory that holds files and no further directories.  `opened` and `created` say what a
path leads to when it is read and when it is made anew, and `reopened` what becomes of the directory
when a file is made anew for a stream.  Of what lies outside only the device that is always full can
be reached.
-/

namespace ThreadTrace.CommandLine

structure Directory where
  files : List (String × List UInt8)

/-- What a path names, seen from the directory. -/
inductive Place where
  /-- The directory itself, or one around it. -/
  | directory
  | file (name : String) (trailingSlash : Bool)
  /-- The device that has no room for anything. -/
  | fullDevice (trailingSlash : Bool)
  | unreachable (failure : IoFailure)
  deriving DecidableEq

namespace Directory

/-- The most bytes that a name has. -/
def maxNameBytes : Nat := 255

def has (d : Directory) (name : String) : Bool := d.files.any (·.1 == name)

/-- The parts of a path that move somewhere. -/
def steps (path : String) : List String :=
  ((path.toList.splitOn '/').filter fun part => part ≠ [] ∧ part ≠ ['.']).map String.ofList

def hasTrailingSlash (path : String) : Bool :=
  ['/'].isSuffixOf path.toList || ['/', '.'].isSuffixOf path.toList

def locate (d : Directory) (path : String) : Place :=
  match steps path with
  | [] => .directory
  | name :: rest =>
    if name == ".." then
      if rest.all (· == "..") then .directory else .unreachable .noSuchFile
    else if ['/'].isPrefixOf path.toList then
      if name == "dev" && rest == ["full"] then .fullDevice (hasTrailingSlash path)
      else .unreachable .noSuchFile
    else if maxNameBytes < (Text.bytes name).length then .unreachable .nameTooLong
    else if rest.isEmpty then .file name (hasTrailingSlash path)
    else .unreachable (if d.has name then .notDirectory else .noSuchFile)

/-- A source of the file that a path names.  A directory can be opened but not read.  The device
gives zeros without end, of which nobody asks for more than a header's. -/
def opened (d : Directory) (path : String) : Except IoFailure Source :=
  match d.locate path with
  | .directory => .ok ⟨[], 0, [], some (0, .isDirectory)⟩
  | .unreachable failure => .error failure
  | .fullDevice slash =>
    if slash then .error .notDirectory
    else .ok (.ofBytes (List.replicate Wire.streamHeaderSize 0))
  | .file name slash =>
    match d.files.lookup name with
    | none => .error .noSuchFile
    | some bs => if slash then .error .notDirectory else .ok (.ofBytes bs)

/-- What is written to at a path: a file that is made, or emptied, and has this name, or the
device. -/
def created (d : Directory) (path : String) : Except IoFailure (Option String × SpoolFile) :=
  match d.locate path with
  | .directory => .error .isDirectory
  | .unreachable failure => .error failure
  | .fullDevice slash =>
    if slash then .error .isDirectory else .ok (none, .create (some ⟨0, .noSpace⟩))
  | .file name slash => if slash then .error .isDirectory else .ok (some name, .create none)

/-- The directory with this content in a file, whatever was there before. -/
def put (d : Directory) (name : String) (bs : List UInt8) : Directory :=
  ⟨(name, bs) :: d.files.filter (·.1 != name)⟩

/-- A file that is there, to be written to at its end. -/
def appending (d : Directory) (room : Option Room) (name : String) : Except IoFailure SpoolFile :=
  match d.files.lookup name with
  | none => .error .noSuchFile
  | some bs => .ok ⟨⟨bs, room⟩, []⟩

/-- A file is made, or emptied, and then opened again to be written to at its end.  The directory is
on a disk that has this room. -/
def reopened (room : Option Room) (path : String) (d : Directory) :
    Except IoFailure SpoolFile × Directory :=
  match d.created path with
  | .error failure => (.error failure, d)
  | .ok (none, device) => (.ok device, d)
  | .ok (some name, file) =>
    let d := d.put name file.disk.contents
    (d.appending room name, d)

end Directory

end ThreadTrace.CommandLine
