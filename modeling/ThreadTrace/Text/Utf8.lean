/-!
# ThreadTrace.Text.Utf8 — text from bytes

Names in a trace are bytes and need not be text: a cut may fall inside a character.  An automaton
reads them a byte at a time; a sequence that breaks off is replaced as a whole by one U+FFFD, and
the byte that broke it starts afresh.  `decode?` accepts what needs no replacement, and `bytes` is
the way back.
-/

namespace ThreadTrace.Text

/-- A character that is not complete: the bits read so far, the number of bytes to come, and the
range that the next one has to be in. -/
structure Unfinished where
  code : Nat
  missing : Nat
  low : Nat
  high : Nat
  deriving DecidableEq

/-- What the automaton has read since the last whole character. -/
inductive Utf8State where
  | between
  | inside (p : Unfinished)
  deriving DecidableEq

/-- The automaton's output: a character, or the mark of a broken sequence. -/
inductive Utf8Item where
  | char (c : Char)
  | broken
  deriving DecidableEq

/-- The first byte of a character.  The ranges leave no room for a longer form than needed, for
surrogates, or for codes above U+10FFFF. -/
def Utf8State.start (b : UInt8) : List Utf8Item × Utf8State :=
  let n := b.toNat
  if n < 0x80 then ([.char (Char.ofNat n)], .between)
  else if n < 0xC2 then ([.broken], .between)
  else if n < 0xE0 then ([], .inside ⟨n - 0xC0, 1, 0x80, 0xBF⟩)
  else if n = 0xE0 then ([], .inside ⟨0, 2, 0xA0, 0xBF⟩)
  else if n = 0xED then ([], .inside ⟨0xD, 2, 0x80, 0x9F⟩)
  else if n < 0xF0 then ([], .inside ⟨n - 0xE0, 2, 0x80, 0xBF⟩)
  else if n = 0xF0 then ([], .inside ⟨0, 3, 0x90, 0xBF⟩)
  else if n < 0xF4 then ([], .inside ⟨n - 0xF0, 3, 0x80, 0xBF⟩)
  else if n = 0xF4 then ([], .inside ⟨4, 3, 0x80, 0x8F⟩)
  else ([.broken], .between)

def Utf8State.next : Utf8State → UInt8 → List Utf8Item × Utf8State
  | .between, b => start b
  | .inside p, b =>
    if p.low ≤ b.toNat ∧ b.toNat ≤ p.high then
      let code := p.code * 64 + (b.toNat - 0x80)
      if p.missing = 1 then ([.char (Char.ofNat code)], .between)
      else ([], .inside ⟨code, p.missing - 1, 0x80, 0xBF⟩)
    else
      let (items, state) := start b
      (.broken :: items, state)

def Utf8State.finish : Utf8State → List Utf8Item
  | .between => []
  | .inside _ => [.broken]

/-- The items of a byte string, from a state of the automaton on. -/
def Utf8State.items (state : Utf8State) : List UInt8 → List Utf8Item
  | [] => state.finish
  | b :: bs => (state.next b).1 ++ (state.next b).2.items bs

/-- U+FFFD stands for a broken sequence. -/
def Utf8Item.shown : Utf8Item → Char
  | .char c => c
  | .broken => '\uFFFD'

def Utf8Item.char? : Utf8Item → Option Char
  | .char c => some c
  | .broken => none

/-- The text of a byte string; what is not text becomes U+FFFD. -/
def lossy (bs : List UInt8) : String :=
  String.ofList ((Utf8State.between.items bs).map Utf8Item.shown)

/-- The text of a byte string that is text throughout. -/
def decode? (bs : List UInt8) : Option String :=
  ((Utf8State.between.items bs).mapM Utf8Item.char?).map String.ofList

/-- The bytes of a text. -/
def bytes (s : String) : List UInt8 := s.toList.flatMap String.utf8EncodeChar

end ThreadTrace.Text
