import ThreadTrace.Wire.Header

/-!
# ThreadTrace.Wire.Event — the events of a payload

`decodeEvent` reads one event from the front of some bytes and says how many it took;
`decodeEvents` does so until the bytes end or one cannot be read.
-/

namespace ThreadTrace.Wire

/-- What happened.  Names and arguments are bytes: a cut may have split a character. -/
inductive Event where
  | spanBegin (ticks : UInt64) (name args : List UInt8)
  | spanEnd (ticks : UInt64)
  | instant (ticks : UInt64) (name : List UInt8)
  | threadName (name : List UInt8)
  | processName (name : List UInt8)
  | unitChange (unit : Binary64)
  | padding (size : UInt32)
  | custom (data : List UInt8)
  | streamOver
  deriving DecidableEq

namespace Event

def tag : Event → Tag
  | spanBegin .. => .spanBegin
  | spanEnd .. => .spanEnd
  | instant .. => .instant
  | threadName .. => .threadName
  | processName .. => .processName
  | unitChange .. => .unitChange
  | padding .. => .padding
  | custom .. => .custom
  | streamOver => .streamOver

/-- When the event happened, if it says so. -/
def ticks? : Event → Option UInt64
  | spanBegin ticks _ _ | spanEnd ticks | instant ticks _ => some ticks
  | _ => none

end Event

/-- A field of the length that its length byte gave. -/
def field (length : UInt8) : Scan (List UInt8) := take length.toNat

def scanBody : Tag → Scan Event
  | .invalid => throw (.invalidTag Tag.invalid.code)
  | .spanBegin => do
    let ticks ← word64
    let nameLength ← byte
    let argsLength ← byte
    let name ← field nameLength
    let args ← field argsLength
    return .spanBegin ticks name args
  | .spanEnd => return .spanEnd (← word64)
  | .instant => do
    let ticks ← word64
    let nameLength ← byte
    return .instant ticks (← field nameLength)
  | .threadName => do
    let nameLength ← byte
    return .threadName (← field nameLength)
  | .processName => do
    let nameLength ← byte
    return .processName (← field nameLength)
  | .unitChange => return .unitChange ⟨← word64⟩
  | .padding => do
    let size ← word32
    let _ ← take size.toNat
    return .padding size
  | .custom => do
    let size ← word32
    return .custom (← take size.toNat)
  | .streamOver => return .streamOver

/-- A tag, known and not the invalid one, and what it announces. -/
def scanEvent : Scan Event := do
  let code ← byte
  match Tag.ofCode? code with
  | some tag => scanBody tag
  | none => throw (.invalidTag code)

/-- The event at the front of some bytes and the number of bytes it takes. -/
def decodeEvent (src : List UInt8) : Except DecodeError (Event × Nat) :=
  match scanEvent ⟨src, 0⟩ with
  | .ok (event, c) => .ok (event, c.taken)
  | .error e => .error e

/-- The events of a payload in order, up to and with the first that cannot be read.  An event takes
its tag byte at least. -/
def decodeEvents : List UInt8 → List (Except DecodeError Event)
  | [] => []
  | b :: bs =>
    match decodeEvent (b :: bs) with
    | .error e => [.error e]
    | .ok (event, used) => .ok event :: decodeEvents (bs.drop (used - 1))
  termination_by src => src.length
  decreasing_by
    simp only [List.length_drop, List.length_cons]
    omega

end ThreadTrace.Wire
