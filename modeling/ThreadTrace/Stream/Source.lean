import ThreadTrace.IoFailure

/-!
# ThreadTrace.Stream.Source — where a stream is read from

A source delivers its bytes at its own pace: in pieces of any size, with interruptions in between,
and possibly with one failure.  `Source.fill` keeps asking until it has what it wants, the bytes end
or the source fails.
-/

namespace ThreadTrace

/-- How a source answers one request. -/
inductive Delivery where
  /-- With `n + 1` bytes at most. -/
  | piece (n : Nat)
  /-- Not at all; the request has to be made again. -/
  | interrupted
  deriving DecidableEq

structure Source where
  /-- The bytes not yet delivered. -/
  rest : List UInt8
  /-- The number of bytes delivered. -/
  position : Nat
  /-- How the next requests are answered; those behind them get all they ask for. -/
  pace : List Delivery
  /-- The first request made at this position fails, and no piece runs past it. -/
  fault : Option (Nat × IoFailure)
  deriving DecidableEq

namespace Source

/-- A source that delivers whatever it is asked for. -/
def ofBytes (bs : List UInt8) : Source := ⟨bs, 0, [], none⟩

/-- The next `n` bytes, or fewer at the end. -/
def deliver (s : Source) (n : Nat) : List UInt8 × Source :=
  let got := s.rest.take n
  (got, { s with rest := s.rest.drop n, position := s.position + got.length })

/-- One request for up to `n` bytes. -/
def request (s : Source) (n : Nat) : Except IoFailure (List UInt8) × Source :=
  match s.fault with
  | none => let (got, s) := s.deliver n; (.ok got, s)
  | some (position, failure) =>
    if s.position = position then (.error failure, { s with fault := none })
    else
      let limit := if s.position < position then min n (position - s.position) else n
      let (got, s) := s.deliver limit
      (.ok got, s)

/-- Requests go on after a piece that leaves something wanted. -/
def resume (got : List UInt8) :
    Except IoFailure (List UInt8) × Source → Except IoFailure (List UInt8) × Source
  | (.ok more, s) => (.ok (got ++ more), s)
  | (.error failure, s) => (.error failure, s)

/-- Without a pace only the fault can make a second request necessary. -/
def fillUnpaced (want : Nat) (s : Source) : Except IoFailure (List UInt8) × Source :=
  match s.request want with
  | (.error failure, s) => (.error failure, s)
  | (.ok got, s) =>
    if got.isEmpty || got.length == want then (.ok got, s)
    else resume got (s.request (want - got.length))

def fillPaced : List Delivery → Nat → Source → Except IoFailure (List UInt8) × Source
  | _, 0, s => (.ok [], s)
  | [], want, s => fillUnpaced want s
  | .interrupted :: pace, want, s => fillPaced pace want { s with pace := pace }
  | .piece n :: pace, want, s =>
    match { s with pace := pace : Source }.request (min (n + 1) want) with
    | (.error failure, s) => (.error failure, s)
    | (.ok got, s) =>
      if got.isEmpty then (.ok [], s) else resume got (fillPaced pace (want - got.length) s)

/-- The next `want` bytes, or fewer at the end; no request is made for nothing. -/
def fill (want : Nat) (s : Source) : Except IoFailure (List UInt8) × Source :=
  fillPaced s.pace want s

end Source

end ThreadTrace
