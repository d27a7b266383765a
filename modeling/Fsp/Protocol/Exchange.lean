import Fsp.Client.Interact
import Fsp.Server.Rounds

/-!
# Requests of the client at the server

What `client_interact` sends is a datagram that the server can read, with a good checksum.
-/

namespace Fsp

variable {Fs : Type} {a : Arrival Fs} {q : ClientRequest} {key myseq : UInt16} {retrySend : ℕ}
  {ub : Ubuf}

theorem bytes_of_sbuf (h : a.datagram = q.sbuf key myseq retrySend) :
    a.bytes = q.sbuf key myseq retrySend := by
  rw [Arrival.bytes, h, ClientRequest.take_sbuf]

/-- The server reads the message that was sent. -/
theorem reads_sbuf_iff (h : a.datagram = q.sbuf key myseq retrySend) :
    Reads a ub ↔ ub = q.ubuf key myseq retrySend := by
  have hbytes := bytes_of_sbuf h
  constructor
  · intro hreads
    have hdecode := hreads.decode
    rw [hbytes, ClientRequest.sbuf, Ubuf.decode_encode] at hdecode
    injection hdecode with hdecode
    exact hdecode.symm
  · rintro rfl
    refine ⟨by rw [hbytes, ClientRequest.sbuf, Ubuf.decode_encode], ?_⟩
    rw [ClientRequest.toNat_bbLen_ubuf, hbytes, ClientRequest.length_sbuf]
    omega

/-- It gets to the key check, when its host is served. -/
theorem knocks_of_sbuf {Cwd : Type} {cfg : Config} {client : SockAddr}
    (hnormal : (hostType cfg client.addr).head? = some 0x4E) (hnamed : cfg.noUnnamed = false)
    (hclient : a.client = client) (h : a.datagram = q.sbuf key myseq retrySend)
    (s : Server Fs Cwd) : Knocks cfg a s (q.ubuf key myseq retrySend) :=
  ⟨(reads_sbuf_iff h).mpr rfl, Or.inl (by rw [hclient]; exact hnormal), by simp [hnamed]⟩

/-- Its checksum is good. -/
theorem checksum_of_sbuf (h : a.datagram = q.sbuf key myseq retrySend) :
    (q.ubuf key myseq retrySend).checksum a.bytes.length = (q.ubuf key myseq retrySend).sum := by
  rw [bytes_of_sbuf h, ClientRequest.checksum_ubuf]

/-- A reply of the server passes the client's checks if it repeats what they look at. -/
theorem accepts_replyTo {cmd : UInt8} {pos : ℕ} {seq0 seq1 : UInt8} {data : ByteString}
    (xtra : ByteString) (hlen : data.length < 65536) (hseq0 : ub.bbSeq0 = seq0)
    (hseq1 : ub.bbSeq1.toNat / 8 = seq1.toNat / 8) (hcode : ub.cmd = cmd ∨ ub.cmd = ccErr)
    (hpos : checksPos cmd = true → ub.bbPos.toNat = pos) :
    Accepts cmd pos seq0 seq1 (replyTo ub data xtra) where
  length_le := by
    simp only [replyTo, UInt16.toNat_ofNat', List.length_append]
    omega
  checksum := Ubuf.checksum_sum ..
  bbSeq0 := hseq0
  bbSeq1 := hseq1
  code := hcode
  bbPos := hpos

end Fsp
