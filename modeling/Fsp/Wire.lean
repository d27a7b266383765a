import Fsp.Lib.Bytes

/-!
# The FSP datagram

The message format shared by server and client (`include/common_def.h`): a twelve-byte header,
a data part whose length the header declares, and an extra part that fills the rest of the
datagram.  `Ubuf` is the header with what follows it; `Ubuf.encode` lays it out and
`Ubuf.decode` reads it back, failing exactly on datagrams too short for a header.

The checksum is the sum of all bytes, with the checksum field read as zero, folded into one
byte.  The client starts the sum at the datagram's size and the server at zero, so `Ubuf.checksum`
takes the start as an argument.
-/

namespace Fsp

open Bytes

/-- A file name, a path, a message or a file's content. -/
abbrev ByteString := List UInt8

instance lawfulBEq_byteString : LawfulBEq ByteString := inferInstance

/-! ## Sizes and codes -/

def ubufHsize : Nat := 12
def ubufSpace : Nat := 1024
def ubufMaxspace : Nat := 4380
def nbsize : Nat := ubufMaxspace + ubufSpace

def ccInfo : UInt8 := 0x11
def ccErr : UInt8 := 0x40
def ccGetDir : UInt8 := 0x41
def ccGetFile : UInt8 := 0x42
def ccUpLoad : UInt8 := 0x43
def ccBye : UInt8 := 0x4A
def ccGrabFile : UInt8 := 0x4B
def ccLimit : UInt8 := 0x80

/-- The commands the server knows; every other code is `other`. -/
inductive Command where
  | version | bye | getDir | getFile | delFile | delDir | upLoad | install | makeDir
  | getPro | setPro | grabFile | grabDone | stat | rename
  | other (code : UInt8)
  deriving DecidableEq, Repr

/-- The command a code stands for. -/
def Command.ofByte (code : UInt8) : Command :=
  match code with
  | 0x10 => .version
  | 0x41 => .getDir
  | 0x42 => .getFile
  | 0x43 => .upLoad
  | 0x44 => .install
  | 0x45 => .delFile
  | 0x46 => .delDir
  | 0x47 => .getPro
  | 0x48 => .setPro
  | 0x49 => .makeDir
  | 0x4A => .bye
  | 0x4B => .grabFile
  | 0x4C => .grabDone
  | 0x4D => .stat
  | 0x4E => .rename
  | code => .other code

/-- The code of a command. -/
def Command.code : Command → UInt8
  | .version => 0x10
  | .getDir => 0x41
  | .getFile => 0x42
  | .upLoad => 0x43
  | .install => 0x44
  | .delFile => 0x45
  | .delDir => 0x46
  | .getPro => 0x47
  | .setPro => 0x48
  | .makeDir => 0x49
  | .bye => 0x4A
  | .grabFile => 0x4B
  | .grabDone => 0x4C
  | .stat => 0x4D
  | .rename => 0x4E
  | .other code => code

@[simp] theorem Command.code_ofByte (code : UInt8) : (Command.ofByte code).code = code := by
  unfold Command.ofByte
  split <;> rfl

/-! ## Directory rights, version flags and entry types -/

def proBytes : Nat := 1
def dirOwner : UInt8 := 0x01
def dirDel : UInt8 := 0x02
def dirAdd : UInt8 := 0x04
def dirMkdir : UInt8 := 0x08
def dirGet : UInt8 := 0x10
def dirReadme : UInt8 := 0x20
def dirList : UInt8 := 0x40
def dirRename : UInt8 := 0x80

def verBytes : Nat := 1
def verLog : UInt8 := 0x01
def verReadonly : UInt8 := 0x02
def verRevname : UInt8 := 0x04
def verPrivmode : UInt8 := 0x08
def verThruput : UInt8 := 0x10
def verXtradata : UInt8 := 0x20

def rdhsize : Nat := 9
def rdtypeEnd : UInt8 := 0x00
def rdtypeFile : UInt8 := 0x01
def rdtypeDir : UInt8 := 0x02
def rdtypeSkip : UInt8 := 0x2A

/-! ## The message -/

/-- A message: the header fields, then data and extra data. -/
structure Ubuf where
  cmd : UInt8
  sum : UInt8
  bbKey : UInt16
  bbSeq0 : UInt8
  bbSeq1 : UInt8
  bbLen : UInt16
  bbPos : UInt32
  buf : ByteString
  deriving DecidableEq, Repr

namespace Ubuf

/-- The datagram that carries a message. -/
def encode (u : Ubuf) : ByteString :=
  [u.cmd, u.sum] ++ be16 u.bbKey ++ [u.bbSeq0, u.bbSeq1] ++ be16 u.bbLen ++ be32 u.bbPos ++ u.buf

/-- The message in a datagram, which must be long enough for a header. -/
def decode : ByteString → Option Ubuf
  | cmd :: sum :: k1 :: k0 :: s0 :: s1 :: l1 :: l0 :: p3 :: p2 :: p1 :: p0 :: buf =>
      some ⟨cmd, sum, ofBe16 k1 k0, s0, s1, ofBe16 l1 l0, ofBe32 p3 p2 p1 p0, buf⟩
  | _ => none

@[simp] theorem decode_encode (u : Ubuf) : decode u.encode = some u := by
  simp only [encode, be16, be32, List.cons_append, List.nil_append, decode, ofBe16_be16,
    ofBe32_be32]

theorem encode_of_decode {b : ByteString} {u : Ubuf} (h : decode b = some u) : u.encode = b := by
  unfold decode at h
  split at h
  · injection h with h
    subst h
    simp only [encode, be16_ofBe16, be32_ofBe32, List.cons_append, List.nil_append]
  · cases h

theorem length_encode (u : Ubuf) : u.encode.length = ubufHsize + u.buf.length := by
  simp [encode, ubufHsize]
  omega

theorem length_of_decode {b : ByteString} {u : Ubuf} (h : decode b = some u) :
    b.length = ubufHsize + u.buf.length := by
  rw [← encode_of_decode h, length_encode]

/-- A datagram is rejected for its size exactly when it has fewer bytes than a header. -/
theorem decode_eq_none {b : ByteString} : decode b = none ↔ b.length < ubufHsize := by
  constructor
  · intro h
    unfold decode at h
    split at h
    · cases h
    · rename_i hshort
      by_contra hlen
      match b, hlen with
      | cmd :: sum :: k1 :: k0 :: s0 :: s1 :: l1 :: l0 :: p3 :: p2 :: p1 :: p0 :: buf, _ =>
          exact hshort _ _ _ _ _ _ _ _ _ _ _ _ _ rfl
      | [], h | [_], h | [_, _], h | [_, _, _], h | [_, _, _, _], h | [_, _, _, _, _], h
      | [_, _, _, _, _, _], h | [_, _, _, _, _, _, _], h | [_, _, _, _, _, _, _, _], h
      | [_, _, _, _, _, _, _, _, _], h | [_, _, _, _, _, _, _, _, _, _], h
      | [_, _, _, _, _, _, _, _, _, _, _], h => simp [ubufHsize] at h
  · intro h
    cases hd : decode b with
    | none => rfl
    | some u =>
        have := length_of_decode hd
        omega

/-! ## Checksums -/

end Ubuf

/-- The sum of the bytes of a datagram. -/
def byteSum (b : ByteString) : Nat := (b.map UInt8.toNat).sum

/-- `(sum + (sum >> 8)) & 0xff` -/
def foldSum (sum : Nat) : UInt8 := UInt8.ofNat (sum + sum / 256)

namespace Ubuf

/-- The checksum of a message when the sum starts at `start`. -/
def checksum (start : Nat) (u : Ubuf) : UInt8 :=
  foldSum (start + byteSum { u with sum := 0 }.encode)

@[simp] theorem checksum_sum (start : Nat) (u : Ubuf) (sum : UInt8) :
    { u with sum := sum }.checksum start = u.checksum start := rfl

/-- The data part of a received message. -/
def data (u : Ubuf) : ByteString := u.buf.take u.bbLen.toNat

/-- The extra part of a received message. -/
def xtra (u : Ubuf) : ByteString := u.buf.drop u.bbLen.toNat

end Ubuf

end Fsp
