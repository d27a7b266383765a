import Fsp.Wire

/-!
# The client's side of an exchange

`client/lib.c`: `client_interact` sends one request until a reply passes all its checks.  `sbuf`
is the datagram it sends, again and again with a new number in the low bits of the sequence field,
and `acceptReply` are the checks, which return the reply that `client_interact` returns.

A file position is an `unsigned long` on the client; the message holds its low 32 bits.
-/

namespace Fsp

open Bytes

/-- The arguments of `client_interact`. -/
structure ClientRequest where
  cmd : UInt8
  pos : ℕ
  p1 : ByteString
  p2 : ByteString
  fits : p1.length + p2.length ≤ ubufMaxspace

/-- The next sequence number: its low three bits are left for the retry count, and it differs from
the last one. -/
def nextSeq (myseq random : UInt16) : UInt16 :=
  if random &&& 0xfff8 = myseq then myseq ^^^ 0x1080 else random &&& 0xfff8

/-- The first byte of the sequence field. -/
def seqByte0 (myseq : UInt16) : UInt8 := UInt8.ofNat (myseq.toNat / 256)

/-- The second byte of the sequence field, in the `retrySend`-th datagram. -/
def seqByte1 (myseq : UInt16) (retrySend : ℕ) : UInt8 :=
  UInt8.ofNat (myseq.toNat % 256 / 8 * 8 + retrySend % 8)

namespace ClientRequest

/-- The message for a request, without its checksum. -/
def message (q : ClientRequest) (key myseq : UInt16) (retrySend : ℕ) : Ubuf where
  cmd := q.cmd
  sum := 0
  bbKey := key
  bbSeq0 := seqByte0 myseq
  bbSeq1 := seqByte1 myseq retrySend
  bbLen := UInt16.ofNat q.p1.length
  bbPos := UInt32.ofNat q.pos
  buf := q.p1 ++ q.p2

/-- The message that is sent. -/
def ubuf (q : ClientRequest) (key myseq : UInt16) (retrySend : ℕ) : Ubuf :=
  let ub := q.message key myseq retrySend
  { ub with sum := ub.checksum ub.encode.length }

/-- The datagram that is sent. -/
def sbuf (q : ClientRequest) (key myseq : UInt16) (retrySend : ℕ) : ByteString :=
  (q.ubuf key myseq retrySend).encode

end ClientRequest

/-- The commands whose replies have to repeat the position of the request. -/
def checksPos (cmd : UInt8) : Bool :=
  cmd == ccGetDir || cmd == ccGetFile || cmd == ccUpLoad || cmd == ccInfo || cmd == ccGrabFile

/-- The checks of `client_interact` on a datagram that came in. -/
def acceptReply (cmd : UInt8) (pos : ℕ) (seq0 seq1 : UInt8) (datagram : ByteString) :
    Option Ubuf :=
  let bytes := datagram.take (ubufHsize + ubufMaxspace)
  match Ubuf.decode bytes with
  | none => none
  | some rbuf =>
      if bytes.length < rbuf.bbLen.toNat + ubufHsize then none
      else if rbuf.checksum 0 ≠ rbuf.sum then none
      else if rbuf.bbSeq0 ≠ seq0 ∨ rbuf.bbSeq1.toNat / 8 ≠ seq1.toNat / 8 then none
      else if cmd ≠ rbuf.cmd ∧ rbuf.cmd ≠ ccErr then none
      else if rbuf.bbPos.toNat ≠ pos ∧ checksPos cmd then none
      else some rbuf

namespace ClientRequest

/-! ## What the server gets to see -/

variable (q : ClientRequest) (key myseq : UInt16) (retrySend : ℕ)

theorem length_sbuf : (q.sbuf key myseq retrySend).length = ubufHsize + q.p1.length + q.p2.length := by
  rw [sbuf, Ubuf.length_encode, ubuf, message, List.length_append, Nat.add_assoc]

theorem length_p1_lt : q.p1.length < 65536 := by
  have := q.fits
  simp only [ubufMaxspace] at this
  omega

theorem take_sbuf : (q.sbuf key myseq retrySend).take (ubufHsize + ubufMaxspace) =
    q.sbuf key myseq retrySend := by
  have := q.fits
  refine List.take_of_length_le ?_
  rw [length_sbuf]
  omega

@[simp] theorem toNat_bbLen_ubuf : (q.ubuf key myseq retrySend).bbLen.toNat = q.p1.length := by
  have := q.length_p1_lt
  simp only [ubuf, message, UInt16.toNat_ofNat']
  omega

theorem data_ubuf : (q.ubuf key myseq retrySend).data = q.p1 := by
  rw [Ubuf.data, toNat_bbLen_ubuf]
  simp [ubuf, message]

theorem xtra_ubuf : (q.ubuf key myseq retrySend).xtra = q.p2 := by
  rw [Ubuf.xtra, toNat_bbLen_ubuf]
  simp [ubuf, message]

/-- The server's checksum agrees with the client's. -/
theorem checksum_ubuf :
    (q.ubuf key myseq retrySend).checksum (q.sbuf key myseq retrySend).length =
      (q.ubuf key myseq retrySend).sum := by
  have hlen : (q.sbuf key myseq retrySend).length =
      (q.message key myseq retrySend).encode.length := by
    rw [sbuf, Ubuf.length_encode, Ubuf.length_encode]
    rfl
  rw [hlen]
  simp only [ubuf, Ubuf.checksum_sum]

end ClientRequest

/-! ## What the client accepts -/

/-- What the checks say about a reply they let through. -/
structure Accepts (cmd : UInt8) (pos : ℕ) (seq0 seq1 : UInt8) (rbuf : Ubuf) : Prop where
  length_le : rbuf.bbLen.toNat ≤ rbuf.buf.length
  checksum : rbuf.checksum 0 = rbuf.sum
  bbSeq0 : rbuf.bbSeq0 = seq0
  bbSeq1 : rbuf.bbSeq1.toNat / 8 = seq1.toNat / 8
  code : rbuf.cmd = cmd ∨ rbuf.cmd = ccErr
  bbPos : checksPos cmd = true → rbuf.bbPos.toNat = pos

/-- A reply that fits into the client's buffer is returned exactly when it passes the checks. -/
theorem acceptReply_encode {cmd : UInt8} {pos : ℕ} {seq0 seq1 : UInt8} {rbuf rbuf' : Ubuf}
    (hfits : rbuf.buf.length ≤ ubufMaxspace) :
    acceptReply cmd pos seq0 seq1 rbuf.encode = some rbuf' ↔
      rbuf' = rbuf ∧ Accepts cmd pos seq0 seq1 rbuf := by
  have hlen := rbuf.length_encode
  have htake : rbuf.encode.take (ubufHsize + ubufMaxspace) = rbuf.encode :=
    List.take_of_length_le (by omega)
  unfold acceptReply
  simp only [htake, Ubuf.decode_encode]
  constructor
  · intro h
    split_ifs at h with hshort hsum hseq hcmd hpos
    injection h with h
    refine ⟨h.symm, by omega, by simpa using hsum, ?_, ?_, ?_, ?_⟩
    · exact Classical.not_not.mp fun hne => hseq (Or.inl hne)
    · exact Classical.not_not.mp fun hne => hseq (Or.inr hne)
    · by_contra hne
      rw [not_or] at hne
      exact hcmd ⟨fun heq => hne.1 heq.symm, hne.2⟩
    · intro hchecks
      exact Classical.not_not.mp fun hne => hpos ⟨hne, hchecks⟩
  · rintro ⟨rfl, haccepts⟩
    have hlen' := haccepts.length_le
    rw [if_neg (by omega), if_neg (by simp [haccepts.checksum]),
      if_neg (by simp [haccepts.bbSeq0, haccepts.bbSeq1]), if_neg, if_neg]
    · rintro ⟨hne, hchecks⟩
      exact hne (haccepts.bbPos hchecks)
    · rintro ⟨hne, herr⟩
      exact haccepts.code.elim (fun heq => hne heq.symm) herr

end Fsp
