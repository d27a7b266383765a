import Fsp.Client.Interact
import Fsp.Server.Rounds

/-!
# Damaged datagrams

A datagram that differs from one of the other side's in one byte is not taken for it: the sums of
their bytes differ by less than 256, and folding tells such sums apart unless they differ by 255.
The byte of the checksum itself does not count in the sum, but has to be equal to it.  The client
starts its sum at the length of the datagram and the server at zero, which makes no difference here.
-/

namespace Fsp

open Bytes Effect

/-- `b'` is `b` but for one byte, which did not go from `0x00` to `0xff` or back. -/
def OneByteOff (b b' : ByteString) : Prop :=
  ∃ (front : ByteString) (x y : UInt8) (back : ByteString),
    b = front ++ x :: back ∧ b' = front ++ y :: back ∧
      x ≠ y ∧ ¬ (x = 0 ∧ y = 0xff) ∧ ¬ (x = 0xff ∧ y = 0)

/-- The checksum test of a receiver that starts its sum at `start`. -/
def PassesChecksum (start : ℕ) (b : ByteString) : Prop :=
  ∃ ub, Ubuf.decode b = some ub ∧ ub.checksum start = ub.sum

/-! ## Sums -/

theorem byteSum_append (b b' : ByteString) : byteSum (b ++ b') = byteSum b + byteSum b' := by
  simp [byteSum]

theorem byteSum_cons (x : UInt8) (b : ByteString) : byteSum (x :: b) = x.toNat + byteSum b := by
  simp [byteSum]

/-- Folding tells two sums apart that differ in one byte. -/
theorem foldSum_ne {x y : UInt8} (hne : x ≠ y) (hup : ¬ (x = 0 ∧ y = 0xff))
    (hdown : ¬ (x = 0xff ∧ y = 0)) (n : ℕ) : foldSum (n + x.toNat) ≠ foldSum (n + y.toNat) := by
  intro heq
  have heq' : (n + x.toNat + (n + x.toNat) / 256) % 256 =
      (n + y.toNat + (n + y.toNat) / 256) % 256 := by
    have := congrArg UInt8.toNat heq
    simpa [foldSum] using this
  have hx := x.toNat_lt
  have hy := y.toNat_lt
  have hne' : x.toNat ≠ y.toNat := fun h => hne (UInt8.toNat_inj.mp h)
  have hup' : ¬ (x.toNat = 0 ∧ y.toNat = 255) := fun h =>
    hup ⟨UInt8.toNat_inj.mp h.1, UInt8.toNat_inj.mp h.2⟩
  have hdown' : ¬ (x.toNat = 255 ∧ y.toNat = 0) := fun h =>
    hdown ⟨UInt8.toNat_inj.mp h.1, UInt8.toNat_inj.mp h.2⟩
  -- at most one carry goes into the upper part
  have hcarry : (n + x.toNat) / 256 = (n + y.toNat) / 256 ∨
      (n + x.toNat) / 256 = (n + y.toNat) / 256 + 1 ∨
      (n + x.toNat) / 256 + 1 = (n + y.toNat) / 256 := by omega
  rcases hcarry with hcarry | hcarry | hcarry
  · rw [hcarry] at heq'
    omega
  · rw [hcarry] at heq'
    omega
  · rw [← hcarry] at heq'
    omega

namespace Ubuf

/-- The datagram of a message with the checksum field read as zero. -/
theorem encode_sum_zero {b : ByteString} {u : Ubuf} (h : decode b = some u) :
    { u with sum := 0 }.encode = b.set 1 0 := by
  rw [← encode_of_decode h]
  rfl

theorem getElem?_sum {b : ByteString} {u : Ubuf} (h : decode b = some u) : b[1]? = some u.sum := by
  rw [← encode_of_decode h]
  rfl

end Ubuf

/-- The test on the bytes of a datagram. -/
theorem passesChecksum_iff {start : ℕ} {b : ByteString} :
    PassesChecksum start b ↔
      ubufHsize ≤ b.length ∧ b[1]? = some (foldSum (start + byteSum (b.set 1 0))) := by
  constructor
  · rintro ⟨ub, hdecode, hsum⟩
    rw [Ubuf.checksum, Ubuf.encode_sum_zero hdecode] at hsum
    rw [hsum, Ubuf.getElem?_sum hdecode]
    refine ⟨?_, rfl⟩
    have := Ubuf.length_of_decode hdecode
    omega
  · rintro ⟨hlength, hsum⟩
    cases hdecode : Ubuf.decode b with
    | none =>
        have := Ubuf.decode_eq_none.mp hdecode
        omega
    | some ub =>
        refine ⟨ub, hdecode, ?_⟩
        rw [Ubuf.getElem?_sum hdecode] at hsum
        rw [Ubuf.checksum, Ubuf.encode_sum_zero hdecode, Option.some.inj hsum]

theorem OneByteOff.length_eq {b b' : ByteString} (h : OneByteOff b b') : b'.length = b.length := by
  obtain ⟨front, x, y, back, rfl, rfl, -⟩ := h
  simp

/-- A datagram does not pass the test that it passed before it was damaged. -/
theorem OneByteOff.not_passesChecksum {start : ℕ} {b b' : ByteString} (h : OneByteOff b b')
    (hpasses : PassesChecksum start b) : ¬ PassesChecksum start b' := by
  obtain ⟨front, x, y, back, rfl, rfl, hne, hup, hdown⟩ := h
  intro hpasses'
  have hsum := (passesChecksum_iff.mp hpasses).2
  have hsum' := (passesChecksum_iff.mp hpasses').2
  rcases front with _ | ⟨c, _ | ⟨u, front⟩⟩
  · -- the first byte
    rcases back with _ | ⟨u, back⟩
    · exact absurd (passesChecksum_iff.mp hpasses).1 (by simp [ubufHsize])
    · have heq := Option.some.inj (hsum.symm.trans hsum')
      refine foldSum_ne hne hup hdown (start + byteSum (0 :: back)) ?_
      simpa [byteSum_cons, Nat.add_assoc, Nat.add_comm, Nat.add_left_comm] using heq
  · -- the checksum: what it has to be equal to is the same
    have hx : some x = some (foldSum (start + byteSum (c :: 0 :: back))) := hsum
    have hy : some y = some (foldSum (start + byteSum (c :: 0 :: back))) := hsum'
    exact hne (Option.some.inj (hx.trans hy.symm))
  · have heq := Option.some.inj (hsum.symm.trans hsum')
    refine foldSum_ne hne hup hdown (start + byteSum (c :: 0 :: (front ++ back))) ?_
    simpa [byteSum_cons, byteSum_append, Nat.add_assoc, Nat.add_comm, Nat.add_left_comm] using heq

/-! ## From the client to the server -/

variable {Fs Cwd : Type}

/-- The server reads the whole datagram. -/
theorem bytes_of_length_le {a : Arrival Fs} (h : a.datagram.length ≤ ubufHsize + ubufMaxspace) :
    a.bytes = a.datagram := List.take_of_length_le h

theorem length_sbuf_le (q : ClientRequest) (key myseq : UInt16) (retrySend : ℕ) :
    (q.sbuf key myseq retrySend).length ≤ ubufHsize + ubufMaxspace := by
  have := q.fits
  rw [ClientRequest.length_sbuf]
  omega

/-- A request passes the test of the server. -/
theorem passesChecksum_sbuf (q : ClientRequest) (key myseq : UInt16) (retrySend : ℕ) :
    PassesChecksum (q.sbuf key myseq retrySend).length (q.sbuf key myseq retrySend) :=
  ⟨q.ubuf key myseq retrySend, Ubuf.decode_encode _, q.checksum_ubuf key myseq retrySend⟩

/-- A damaged request does not reach the dispatcher. -/
theorem not_dispatches_of_damaged {q : ClientRequest} {key myseq : UInt16} {retrySend : ℕ}
    {cfg : Config} {a : Arrival Fs} {s : Server Fs Cwd} {ub : Ubuf} {old : Bool} {h : HTab}
    (hdamaged : OneByteOff (q.sbuf key myseq retrySend) a.datagram) :
    ¬ Dispatches cfg a s ub old h := by
  intro hdisp
  have hlength := hdamaged.length_eq
  have hbytes : a.bytes = a.datagram :=
    bytes_of_length_le (hlength.trans_le (length_sbuf_le q key myseq retrySend))
  have hpasses := passesChecksum_sbuf q key myseq retrySend
  refine hdamaged.not_passesChecksum hpasses ⟨ub, ?_, ?_⟩
  · rw [← hbytes]
    exact hdisp.reads.decode
  · rw [← hlength, ← hbytes]
    exact hdisp.checksum

/-! ## From the server to the client -/

/-- What `server_reply` sends: both parts stand in the buffer of a message. -/
structure ServerReply where
  ub : Ubuf
  data : ByteString
  xtra : ByteString
  fits : data.length + xtra.length ≤ ubufMaxspace

/-- The datagram that is sent. -/
def ServerReply.datagram (r : ServerReply) : ByteString := (replyTo r.ub r.data r.xtra).encode

/-- The client reads the whole datagram. -/
theorem ServerReply.length_datagram_le (r : ServerReply) :
    r.datagram.length ≤ ubufHsize + ubufMaxspace := by
  have := r.fits
  rw [datagram, Ubuf.length_encode, replyTo]
  simp only [List.length_append]
  omega

/-- A reply passes the test of the client. -/
theorem ServerReply.passesChecksum (r : ServerReply) : PassesChecksum 0 r.datagram :=
  ⟨replyTo r.ub r.data r.xtra, Ubuf.decode_encode _, rfl⟩

theorem passesChecksum_of_acceptReply {cmd seq0 seq1 : UInt8} {pos : ℕ} {d : ByteString}
    {rbuf : Ubuf} (h : acceptReply cmd pos seq0 seq1 d = some rbuf) :
    PassesChecksum 0 (d.take (ubufHsize + ubufMaxspace)) := by
  unfold acceptReply at h
  simp only at h
  split at h
  · cases h
  · rename_i ub hdecode
    split_ifs at h with hlength hsum
    all_goals exact ⟨ub, hdecode, Classical.not_not.mp hsum⟩

/-- A damaged reply is not returned. -/
theorem ServerReply.acceptReply_of_damaged (r : ServerReply) {d : ByteString}
    (hdamaged : OneByteOff r.datagram d) (cmd : UInt8) (pos : ℕ) (seq0 seq1 : UInt8) :
    acceptReply cmd pos seq0 seq1 d = none := by
  cases haccept : acceptReply cmd pos seq0 seq1 d with
  | none => rfl
  | some rbuf =>
      have hpasses := passesChecksum_of_acceptReply haccept
      have hlength := hdamaged.length_eq
      have := r.length_datagram_le
      rw [List.take_of_length_le (by omega)] at hpasses
      exact absurd hpasses (hdamaged.not_passesChecksum r.passesChecksum)

/-! ## Both directions -/

/-- The datagrams of each side pass the checksum test of the other; with one byte damaged, a request
is not dispatched in any run and a reply is not returned. -/
theorem checksums_catch_damage [Posix Fs Cwd] :
    (∀ (q : ClientRequest) (key myseq : UInt16) (retrySend : ℕ) (a : Arrival Fs),
      a.datagram = q.sbuf key myseq retrySend → PassesChecksum a.bytes.length a.bytes) ∧
    (∀ (q : ClientRequest) (key myseq : UInt16) (retrySend : ℕ) (cfg : Config) (fs : Fs)
      (cwd : Cwd) (now : ℤ) (arrivals : List (Arrival Fs)),
      ∀ r ∈ history cfg (initServer cfg fs cwd now) arrivals,
        OneByteOff (q.sbuf key myseq retrySend) r.input.datagram →
          ∀ old, Event.dispatched old ∉ r.after.trace) ∧
    (∀ r : ServerReply, PassesChecksum 0 (r.datagram.take (ubufHsize + ubufMaxspace))) ∧
    (∀ (r : ServerReply) (d : ByteString), OneByteOff r.datagram d →
      ∀ (cmd : UInt8) (pos : ℕ) (seq0 seq1 : UInt8), acceptReply cmd pos seq0 seq1 d = none) := by
  refine ⟨?_, ?_, ?_, ?_⟩
  · intro q key myseq retrySend a hdatagram
    have hbytes : a.bytes = a.datagram :=
      bytes_of_length_le (hdatagram ▸ length_sbuf_le q key myseq retrySend)
    rw [hbytes, hdatagram]
    exact passesChecksum_sbuf q key myseq retrySend
  · intro q key myseq retrySend cfg fs cwd now arrivals r hr hdamaged old hmem
    obtain ⟨before, after, hrun⟩ := List.append_of_mem hr
    have hs := hostTable_history cfg fs cwd now hrun
    rw [after_of_mem_rounds hr] at hmem
    obtain ⟨ub, old, h, hdisp⟩ := exists_dispatches hs hmem
    exact not_dispatches_of_damaged hdamaged hdisp
  · intro r
    rw [List.take_of_length_le r.length_datagram_le]
    exact r.passesChecksum
  · intro r d hdamaged
    exact r.acceptReply_of_damaged hdamaged

end Fsp
