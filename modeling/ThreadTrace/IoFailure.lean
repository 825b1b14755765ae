import ThreadTrace.Text.Quoted

/-!
# ThreadTrace.IoFailure — why reading or writing failed

A failure comes from the system, with its number, or from whoever stands in for the system.
-/

namespace ThreadTrace

inductive IoFailure where
  | system (code : Nat) (kind text : String)
  | custom (text : String)
  deriving DecidableEq

namespace IoFailure

def noSuchFile : IoFailure := .system 2 "NotFound" "No such file or directory"

def notDirectory : IoFailure := .system 20 "NotADirectory" "Not a directory"

def isDirectory : IoFailure := .system 21 "IsADirectory" "Is a directory"

def noSpace : IoFailure := .system 28 "StorageFull" "No space left on device"

def nameTooLong : IoFailure := .system 36 "InvalidFilename" "File name too long"

def message : IoFailure → String
  | system code _ text => s!"{text} (os error {code})"
  | custom text => text

/-- The failure with all its parts named. -/
def detail : IoFailure → String
  | system code kind text =>
    s!"Os \x7b code: {code}, kind: {kind}, message: {Text.quoted text} \x7d"
  | custom text => s!"Custom \x7b kind: Other, error: {Text.quoted text} \x7d"

end IoFailure

end ThreadTrace
