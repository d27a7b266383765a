import Fsp.Wire

/-!
# Parsing client paths

`server/path.c`: `parse_path` checks a path sent by a client and finds its parts in one pass over
the bytes.  The pass keeps pointers into the buffer; `PathScan` holds them as offsets.  A newline
ends the path and starts a password: the source overwrites it with a zero, so that afterwards
every pointer into the buffer denotes the C string that ends where the pass ended.
-/

namespace Fsp

open Bytes

/-- The parts of a path.  `dPtr` is the C string from the start of the directory part on; the
directory part is its first `dLen` bytes. -/
structure PPath where
  fullp : ByteString
  fPtr : ByteString
  fLen : ℕ
  dPtr : ByteString
  dLen : ℕ
  passwd : Option ByteString
  deriving DecidableEq, Repr

def slash : UInt8 := 0x2F
def dot : UInt8 := 0x2E
def backslash : UInt8 := 0x5C
def newline : UInt8 := 0x0A

/-- What the pass has read last: only front slashes, a byte of a component, or a slash after
one. -/
inductive ScanState where
  | frontSlashes | component | slashes
  deriving DecidableEq, Repr

/-- The variables of the pass; the pointers are offsets into the buffer. -/
structure PathScan where
  fullp : ℕ
  fPtr : ℕ
  dPtr : ℕ
  dLen : ℕ
  state : ScanState
  deriving DecidableEq, Repr

/-- The pass before its first byte. -/
def PathScan.start : PathScan := ⟨0, 0, 0, 0, .frontSlashes⟩

/-- What follows the last `b` of `l`, or `l` itself. -/
def afterLast (b : UInt8) (l : ByteString) : ByteString := (l.reverse.takeWhile (· != b)).reverse

/-- The `switch` of the pass, for the byte `c` at offset `s`. -/
def scanByte (c : UInt8) (s : ℕ) (v : PathScan) : Except ByteString PathScan :=
  if c = backslash ∨ c = dot then
    match v.state with
    | .frontSlashes => .error (text "Path can't begin with '.' or '\\'")
    | .slashes => .error (text "Files can't begin with '.'")
    | .component => .ok v
  else if c = slash then
    match v.state with
    | .frontSlashes => .ok { v with fPtr := s + 1, fullp := s + 1, dPtr := s + 1, dLen := 0 }
    | .component => .ok { v with fPtr := s + 1, dLen := s - v.fullp, state := .slashes }
    | .slashes => .ok { v with fPtr := s + 1 }
  else .ok { v with state := .component }

/-- The pass over the bytes from offset `s` on: its variables, where it ended, and the password
that follows the newline it ended at. -/
def scanPath : ByteString → ℕ → PathScan →
    Except ByteString (PathScan × ℕ × Option ByteString)
  | [], s, v => .ok (v, s, none)
  | c :: rest, s, v =>
      if c = 0 then .ok (v, s, none)
      else if c = newline then .ok (v, s, some (afterLast newline (cstr rest)))
      -- `char` is signed, so bytes from 0x80 on are below ' '
      else if c < 0x20 ∨ 0x80 ≤ c then .error (text "Path contains control chars")
      else if 0x7E ≤ c then .error (text "Path contains high chars")
      else
        match scanByte c s v with
        | .error e => .error e
        | .ok v' => scanPath rest (s + 1) v'

/-- The C string at offset `i` of a buffer whose string ends at `e`. -/
def strAt (fullp : ByteString) (i e : ℕ) : ByteString := (fullp.take e).drop i

/-- The three substitutions after the pass, which ended at `s`. -/
def finishPath (fullp : ByteString) (v : PathScan) (s : ℕ) (passwd : Option ByteString) : PPath :=
  let full := strAt fullp v.fullp s
  { fullp := if full = [] then [dot] else full
    fPtr := if s - v.fPtr = 0 then [dot] else strAt fullp v.fPtr s
    fLen := if s - v.fPtr = 0 then 1 else s - v.fPtr
    dPtr := if v.dLen = 0 then [dot] else strAt fullp v.dPtr s
    dLen := if v.dLen = 0 then 1 else v.dLen
    passwd := passwd }

/-- `parse_path`, on the `len` bytes of the path field. -/
def parsePath (fullp : ByteString) : Except ByteString PPath :=
  match fullp.getLast? with
  | none => .error (text "Path must have non-zero length")
  | some last =>
      if last ≠ 0 then .error (text "Path must be null terminated")
      else
        match scanPath fullp 0 .start with
        | .error e => .error e
        | .ok (v, s, passwd) => .ok (finishPath fullp v s passwd)

end Fsp
