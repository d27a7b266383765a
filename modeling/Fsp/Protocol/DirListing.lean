import Fsp.Client.Dir
import Fsp.Protocol.Exchange
import Fsp.Scenario
import Fsp.Server.Listing
import Mathlib.Data.List.GetD

/-!
# Directory listings from the server to the client

The server packs a directory into blocks (`buildDirListing`), the client asks for them one at a
time and reads them back (`getDirBlk`).  What it reads back is the directory: `readsBack_of_length_lt`.

The server answers a request for position `pos` with what the listing holds there.  It computes
how much that is modulo `2 ^ 32`, and positions are sent as 32-bit words, so all this is about
listings below that size.

The proof goes from block to block, whatever their size is.

* `buildDirListing_blocks` has the blocks that the server builds, and what each of them holds.
* `readBlock_full` and `readBlock_last` are the client's pass over one of them, and `readDir_blocksOf`
  goes through all, by induction on the blocks.
* `FetchedOf` is the invariant of the loop that fetches them: the buffer holds the next `acc` bytes of
  the listing, and the position is behind them.  After each exchange there is more in the buffer, or
  the end was noticed (`fetchBlock_fetched`), so that the buffer is filled (`fillBuffer_fetched`).
* `wp_caseGetDir` is the server's side of an exchange.  It says what is sent in a round that gets as
  far as a listing, and `holds_of_answeredFrom` that this is what the client needs.

The directory that does not read back has 16777217 entries, and nothing of it can be evaluated.  Each
takes 256 bytes in its listing, so four fill a block (`Packed`), and the length of the listing is 265
modulo 2³² (`length_buildDirListing_replicate`): the first reply is taken for a short one, and the
client reads no more than there is in it (`getDirBlk_short`).
-/

namespace Fsp

open Bytes Effect

/-! ## Reading one block -/

/-- An entry as the client gets it. -/
def rdirent (e : Entry) : Rdirent where
  time := UInt32.ofNat (e.2.mtime % 4294967296).toNat
  size := UInt32.ofNat (min e.2.size 0xFFFFFFFF)
  type := if e.2.kind = .dir then rdtypeDir else rdtypeFile
  name := e.1

theorem getD_drop (buf : ByteString) (p i : ℕ) : buf.getD (p + i) 0 = (buf.drop p).getD i 0 := by
  rw [List.getD_eq_getElem?_getD, List.getD_eq_getElem?_getD, List.getElem?_drop]

/-- The first entry of a buffer that holds one at offset `p`. -/
theorem rdirent_at {buf rest : ByteString} {p : ℕ} {name : ByteString} {sb : Stat}
    (hbuf : buf.drop p = direntBytes name sb ++ rest) (hname : (0 : UInt8) ∉ name) :
    long buf p = (rdirent (name, sb)).time ∧ long buf (p + 4) = (rdirent (name, sb)).size ∧
    buf.getD (p + 8) 0 = (rdirent (name, sb)).type ∧ cstr (buf.drop (p + rdhsize)) = name := by
  have htail : buf.drop (p + rdhsize) = name ++ 0 :: rest := by
    rw [← List.drop_drop, hbuf]
    simp [direntBytes, rdhsize, be32]
  have hget : ∀ i, buf.getD (p + i) 0 = (direntBytes name sb ++ rest).getD i 0 := by
    intro i
    rw [getD_drop, hbuf]
  refine ⟨?_, ?_, ?_, ?_⟩
  · unfold long
    rw [show buf.getD p 0 = buf.getD (p + 0) 0 from rfl, hget, hget, hget, hget]
    exact ofBe32_be32 _
  · unfold long
    simp only [Nat.add_assoc, hget]
    exact ofBe32_be32 _
  · rw [hget]
    rfl
  · rw [htail, cstr_append_zero hname]

theorem rdirent_type_ne (e : Entry) :
    (rdirent e).type ≠ rdtypeSkip ∧ (rdirent e).type ≠ rdtypeEnd := by
  unfold rdirent
  simp only
  split <;> decide

/-- Reading over the entries of a block. -/
theorem readBlock_lays {es : List Entry} {bytes : ByteString} (h : Lays es bytes)
    (hnames : ∀ e ∈ es, (0 : UInt8) ∉ e.1) {buf tail : ByteString} {p : ℕ}
    (hbuf : buf.drop p = bytes ++ tail) (hp : p % 4 = 0) (fuel r : ℕ) :
    readBlock buf (es.length + fuel) p ((bytes.length + r : ℕ) : ℤ) =
      (es.map rdirent ++ (readBlock buf fuel (p + bytes.length) r).1,
        (readBlock buf fuel (p + bytes.length) r).2) := by
  induction h generalizing p with
  | nil => simp
  | cons hpad hlays ih =>
      rename_i name sb es pad bytes
      have hname := hnames (name, sb) List.mem_cons_self
      have hbuf' : buf.drop p = direntBytes name sb ++ (pad ++ bytes ++ tail) := by
        rw [hbuf, List.append_assoc, List.append_assoc, List.append_assoc]
      obtain ⟨htime, hsize, htype, hcstr⟩ := rdirent_at hbuf' hname
      have hne := rdirent_type_ne (name, sb)
      have hdlen := length_direntBytes name sb
      have hhsize : rdhsize = 9 := rfl
      -- the client rounds the position up, the server the length: entries begin at multiples of four
      have hskip : skipLen name = (4 - (p + (rdhsize + 1 + name.length)) % 4) % 4 := by
        simp only [skipLen]
        omega
      have hnext : buf.drop (p + (rdhsize + 1 + name.length) + skipLen name) = bytes ++ tail := by
        have heq : p + (rdhsize + 1 + name.length) + skipLen name =
            p + (direntBytes name sb ++ pad).length := by
          rw [List.length_append, hdlen, hpad]
          omega
        rw [heq, ← List.drop_drop, hbuf, List.append_assoc _ bytes, List.drop_left]
      have hih := ih (fun e he => hnames e (List.mem_cons_of_mem _ he)) hnext (by omega)
      have hlen : (direntBytes name sb ++ pad ++ bytes).length =
          rdhsize + 1 + name.length + skipLen name + bytes.length := by
        rw [List.length_append, List.length_append, hdlen, hpad]
        omega
      rw [List.length_cons, show es.length + 1 + fuel = es.length + fuel + 1 by omega, readBlock,
        if_neg (by rw [hlen]; omega), htype]
      simp only [if_neg hne.1, if_neg hne.2, hcstr, ← hskip]
      rw [show (((direntBytes name sb ++ pad ++ bytes).length + r : ℕ) : ℤ) -
          ((rdhsize + 1 + name.length : ℕ) : ℤ) - ((skipLen name : ℕ) : ℤ) =
          ((bytes.length + r : ℕ) : ℤ) by rw [hlen]; omega, hih, hlen, htime, hsize]
      rw [show p + (rdhsize + 1 + name.length) + skipLen name + bytes.length =
        p + (rdhsize + 1 + name.length + skipLen name + bytes.length) by omega]
      rfl

/-- Reading ends at filler. -/
theorem readBlock_skip {buf tail : ByteString} {p n : ℕ} (fuel : ℕ)
    (hbuf : buf.drop p = List.replicate n rdtypeSkip ++ tail) :
    readBlock buf fuel p n = ([], .skip) := by
  cases fuel with
  | zero => rfl
  | succ fuel =>
      rw [readBlock]
      split
      · rfl
      · rename_i hn
        have hhsize : rdhsize = 9 := rfl
        have htype : buf.getD (p + 8) 0 = rdtypeSkip := by
          rw [getD_drop, hbuf, List.getD_append _ _ _ _ (by rw [List.length_replicate]; omega),
            List.getD_replicate _ (by omega)]
        simp only [htype, if_true]

/-- Reading ends at the final entry. -/
theorem readBlock_done {buf stale tail : ByteString} {p : ℕ} (fuel : ℕ)
    (hbuf : buf.drop p = stale ++ [rdtypeEnd] ++ tail) (hstale : stale.length = rdhsize - 1) :
    readBlock buf (fuel + 1) p rdhsize = ([], .done) := by
  have htype : buf.getD (p + 8) 0 = rdtypeEnd := by
    rw [getD_drop, hbuf, List.append_assoc, List.getD_append_right _ _ _ _ (by rw [hstale]; decide),
      hstale]
    rfl
  rw [readBlock, if_neg (by omega), htype]
  rfl

/-- A full block at the start of the buffer. -/
theorem readBlock_full {size : ℕ} {es : List Entry} {block buf : ByteString}
    (h : FullBlockOf size es block) (hnames : ∀ e ∈ es, (0 : UInt8) ∉ e.1)
    (hbuf : buf.take size = block) :
    readBlock buf size 0 size = (es.map rdirent, .skip) := by
  obtain ⟨bytes, n, hblock, hlays, hlen⟩ := h
  have hsplit : buf.drop 0 = bytes ++ (List.replicate n rdtypeSkip ++ buf.drop size) := by
    rw [List.drop_zero, ← List.append_assoc, ← hblock, ← hbuf, List.take_append_drop]
  have hsum : bytes.length + n = size := by
    rw [← hlen, hblock, List.length_append, List.length_replicate]
  have hcount := hlays.length_le
  have hread := readBlock_lays hlays hnames hsplit rfl (size - es.length) n
  rw [Nat.add_sub_cancel' (by omega), hsum] at hread
  have hskip : buf.drop bytes.length = List.replicate n rdtypeSkip ++ buf.drop size := by
    rw [← Nat.zero_add bytes.length, ← List.drop_drop, hsplit, List.drop_left]
  rw [hread, Nat.zero_add, readBlock_skip _ hskip, List.append_nil]

/-- The last block at the start of the buffer. -/
theorem readBlock_last {size : ℕ} {es : List Entry} {block buf : ByteString}
    (h : LastBlockOf size es block) (hnames : ∀ e ∈ es, (0 : UInt8) ∉ e.1)
    (hbuf : buf.take block.length = block) :
    readBlock buf block.length 0 block.length = (es.map rdirent, .done) := by
  obtain ⟨bytes, stale, hblock, hlays, hstale, -⟩ := h
  have hsplit : buf.drop 0 = bytes ++ (stale ++ [rdtypeEnd] ++ buf.drop block.length) := by
    rw [List.drop_zero, ← List.append_assoc, ← List.append_assoc, ← hblock, ← hbuf,
      List.length_take, hbuf]
    conv_lhs => rw [← List.take_append_drop block.length buf]
    congr 2
    have := congrArg List.length hbuf
    rw [List.length_take] at this
    exact this.symm
  have hsum : bytes.length + rdhsize = block.length := by
    rw [hblock, List.length_append, List.length_append, hstale]
    rfl
  have hcount := hlays.length_le
  have hhsize : rdhsize = 9 := rfl
  have hread := readBlock_lays hlays hnames hsplit rfl (block.length - es.length - 1 + 1) rdhsize
  rw [show es.length + (block.length - es.length - 1 + 1) = block.length by omega, hsum] at hread
  have hdone : buf.drop bytes.length = stale ++ [rdtypeEnd] ++ buf.drop block.length := by
    rw [← Nat.zero_add bytes.length, ← List.drop_drop, hsplit, List.drop_left]
  rw [hread, Nat.zero_add, readBlock_done _ hdone hstale, List.append_nil]

/-! ## Fetching a listing

The invariant of `get_dir_blk`: the buffer holds the next `acc` bytes of the listing from the first
`consumed` bytes on, and the position is behind them. -/

/-- The positions `get_dir_blk` asks for, where the blocks have `size` bytes. -/
def AskedOf (size : ℕ) (listing : ByteString) (pos : ℕ) : Prop :=
  pos ≤ listing.length ∧ (pos % size = 0 ∨ pos = listing.length)

/-- The reply is what the listing holds at a position. -/
structure HoldsOf (size : ℕ) (listing : ByteString) (pos : ℕ) (ub : Ubuf) : Prop where
  cmd : ub.cmd ≠ ccErr
  bbLen : ub.bbLen.toNat = min size (listing.length - pos)
  buf : ub.buf.take ub.bbLen.toNat = (listing.drop pos).take size

/-- The client gets what the listing holds at each position it asks for. -/
def ServesBlocksOf (size : ℕ) (listing : ByteString) (interact : ℕ → Option Ubuf) : Prop :=
  ∀ pos, AskedOf size listing pos → ∃ ub, interact pos = some ub ∧ HoldsOf size listing pos ub

structure FetchedOf (size : ℕ) (listing : ByteString) (consumed : ℕ) (v : DirFetch) : Prop where
  pos : v.pos = consumed + v.acc
  pos_le : v.pos ≤ listing.length
  length : v.acc ≤ v.buf.length
  buf : v.buf.take v.acc = (listing.drop consumed).take v.acc
  eof : v.atEof = true → v.pos = listing.length
  aligned : v.pos % size = 0 ∨ v.pos = listing.length
  size : v.dirblocksize = min size listing.length ∨
    v.dirblocksize = 0 ∧ v.pos = 0 ∧ v.atEof = false

/-- The positions it asks for where the blocks are as large as those of this server. -/
abbrev Asked : ByteString → ℕ → Prop := AskedOf ubufSpace

/-- The replies for such blocks. -/
abbrev Holds : ByteString → ℕ → Ubuf → Prop := HoldsOf ubufSpace

/-- All of them. -/
abbrev ServesBlocks : ByteString → (ℕ → Option Ubuf) → Prop := ServesBlocksOf ubufSpace

/-- The invariant for them. -/
abbrev Fetched : ByteString → ℕ → DirFetch → Prop := FetchedOf ubufSpace

variable {size : ℕ} {listing : ByteString} {interact : ℕ → Option Ubuf} {consumed : ℕ}
  {v : DirFetch}

theorem fetchedOf_start (size : ℕ) (listing stack : ByteString) :
    FetchedOf size listing 0 ⟨0, false, 0, stack, 0, []⟩ where
  pos := rfl
  pos_le := Nat.zero_le _
  length := Nat.zero_le _
  buf := by rw [List.take_zero, List.take_zero]
  eof := by simp
  aligned := Or.inl (Nat.zero_mod size)
  size := Or.inr ⟨rfl, rfl, rfl⟩

/-- One exchange: either more of the listing is there, or its end was noticed. -/
theorem fetchBlock_fetched (hpositive : 0 < size) (h : ServesBlocksOf size listing interact)
    (hlisting : listing ≠ []) (hv : FetchedOf size listing consumed v) (heof : v.atEof = false) :
    ∃ v', fetchBlock interact v = some v' ∧ FetchedOf size listing consumed v' ∧ v'.dp = v.dp ∧
      v'.dirblocksize = min size listing.length ∧ (v.acc < v'.acc ∨ v'.atEof = true) := by
  obtain ⟨ub, hinteract, hcmd, hlen, hbuf⟩ := h v.pos ⟨hv.pos_le, hv.aligned⟩
  have hpos : 0 < listing.length := List.length_pos_iff.mpr hlisting
  have hle := hv.pos_le
  -- the reply holds the listing from this position on, so the buffer holds a longer piece of it
  have hnew : (ub.buf.take ub.bbLen.toNat).length = ub.bbLen.toNat := by
    rw [hbuf, List.length_take, List.length_drop, hlen]
  have hsize : (v.receive ub).dirblocksize = min size listing.length := by
    show (if v.dirblocksize = 0 then ub.bbLen.toNat else v.dirblocksize) = _
    rcases hv.size with hsize | ⟨hsize, hzero, _⟩
    · rw [hsize, if_neg (by omega)]
    · rw [hsize, if_pos rfl, hlen, hzero, Nat.sub_zero]
  have heof' : (v.receive ub).atEof = true ↔
      v.dirblocksize ≠ 0 ∧ ub.bbLen.toNat < v.dirblocksize := by
    simp [DirFetch.receive, heof]
  refine ⟨v.receive ub, by rw [fetchBlock, hinteract]; simp only [if_neg hcmd], ?_, rfl, hsize, ?_⟩
  · constructor
    · show v.pos + ub.bbLen.toNat = consumed + (v.acc + ub.bbLen.toNat)
      rw [hv.pos, Nat.add_assoc]
    · show v.pos + ub.bbLen.toNat ≤ listing.length
      omega
    · show v.acc + ub.bbLen.toNat ≤ (splice v.buf v.acc (ub.buf.take ub.bbLen.toNat)).length
      have := hv.length
      unfold splice
      simp only [List.length_append, List.length_drop, hnew, List.length_take]
      omega
    · show (splice v.buf v.acc (ub.buf.take ub.bbLen.toNat)).take (v.acc + ub.bbLen.toNat) =
        (listing.drop consumed).take (v.acc + ub.bbLen.toNat)
      have htake := take_splice (b := ub.buf.take ub.bbLen.toNat) hv.length
      rw [hnew] at htake
      rw [htake, hv.buf, hbuf, List.take_add, List.drop_drop, ← hv.pos, hlen, ← List.length_drop,
        ← List.take_take, List.take_length]
    · intro h
      obtain ⟨hne, hlt⟩ := heof'.mp h
      show v.pos + ub.bbLen.toNat = listing.length
      rcases hv.size with hsize | ⟨hsize, _⟩ <;> omega
    · show (v.pos + ub.bbLen.toNat) % size = 0 ∨ v.pos + ub.bbLen.toNat = listing.length
      by_cases hlast : listing.length - v.pos ≤ size
      · exact Or.inr (by omega)
      · have haligned := hv.aligned.resolve_right (by omega)
        rw [hlen, Nat.min_eq_left (by omega), Nat.add_mod_right]
        exact Or.inl haligned
    · exact Or.inl hsize
  · rw [heof']
    show v.acc < v.acc + ub.bbLen.toNat ∨ _
    rcases hv.size with hsize | ⟨hsize, _⟩ <;> omega

/-- The inner loop ends with a full buffer or at the end of the listing. -/
theorem fillBuffer_fetched (hpositive : 0 < size) (h : ServesBlocksOf size listing interact)
    (hlisting : listing ≠ []) (hv : FetchedOf size listing consumed v) (fuel : ℕ)
    (hfuel : ubufMaxspace < v.acc + fuel) :
    ∃ v', fillBuffer interact fuel v = some v' ∧ FetchedOf size listing consumed v' ∧
      v'.dp = v.dp ∧ v'.dirblocksize = min size listing.length ∧
      (ubufMaxspace ≤ v'.acc ∨ v'.atEof = true) := by
  have hpos := hv.pos
  have hmax : ubufMaxspace = 4380 := rfl
  induction fuel generalizing v with
  | zero =>
      refine ⟨v, by rw [fillBuffer, if_neg (by omega)], hv, rfl, ?_, Or.inl (by omega)⟩
      rcases hv.size with hsize | ⟨_, hzero, _⟩
      · exact hsize
      · omega
  | succ fuel ih =>
      by_cases hmore : v.acc < ubufMaxspace ∧ ¬ v.atEof
      · obtain ⟨v', hfetch, hv', hdp, hsize', hprogress⟩ :=
          fetchBlock_fetched hpositive h hlisting hv (by simpa using hmore.2)
        obtain ⟨v'', hfill, hv'', hdp', hrest⟩ : ∃ v'', fillBuffer interact fuel v' = some v'' ∧
            FetchedOf size listing consumed v'' ∧ v''.dp = v'.dp ∧
            v''.dirblocksize = min size listing.length ∧
            (ubufMaxspace ≤ v''.acc ∨ v''.atEof = true) := by
          rcases hprogress with hacc | heof
          · exact ih hv' (by omega) hv'.pos
          · refine ⟨v', ?_, hv', rfl, hsize', Or.inr heof⟩
            unfold fillBuffer
            rw [if_neg (by simp [heof])]
        refine ⟨v'', ?_, hv'', hdp'.trans hdp, hrest⟩
        rw [fillBuffer, if_pos hmore]
        simp only [hfetch, Option.bind_some, hfill]
      · refine ⟨v, by rw [fillBuffer, if_neg hmore], hv, rfl, ?_, ?_⟩
        · rcases hv.size with hsize | ⟨_, hzero, heof⟩
          · exact hsize
          · exact absurd ⟨by omega, by simp [heof]⟩ hmore
        · by_cases hacc : v.acc < ubufMaxspace
          · exact Or.inr (by simpa [hacc] using hmore)
          · exact Or.inl (by omega)

/-- The rest of the buffer moves to its start when a block was read. -/
theorem fetched_next (hv : FetchedOf size listing consumed v) (hacc : v.dirblocksize ≤ v.acc)
    (hsize : v.dirblocksize = min size listing.length) (dp : List Rdirent) :
    FetchedOf size listing (consumed + v.dirblocksize)
      { v with
        acc := v.acc - v.dirblocksize
        buf := splice v.buf 0 ((v.buf.take v.acc).drop v.dirblocksize)
        dp := dp } := by
  have hlength := hv.length
  have hrest : ((v.buf.take v.acc).drop v.dirblocksize).length = v.acc - v.dirblocksize := by
    rw [List.length_drop, List.length_take, Nat.min_eq_left hlength]
  have hsplice : (splice v.buf 0 ((v.buf.take v.acc).drop v.dirblocksize)).take
      (v.acc - v.dirblocksize) = (v.buf.take v.acc).drop v.dirblocksize := by
    have := take_splice (b := (v.buf.take v.acc).drop v.dirblocksize) (Nat.zero_le v.buf.length)
    rwa [Nat.zero_add, hrest, List.take_zero, List.nil_append] at this
  constructor
  · show v.pos = consumed + v.dirblocksize + (v.acc - v.dirblocksize)
    have := hv.pos
    omega
  · exact hv.pos_le
  · show v.acc - v.dirblocksize ≤ (splice v.buf 0 _).length
    rw [length_splice (by omega)]
    omega
  · show (splice v.buf 0 _).take (v.acc - v.dirblocksize) = _
    rw [hsplice, hv.buf, List.drop_take, List.drop_drop]
  · exact hv.eof
  · exact hv.aligned
  · exact Or.inl hsize

/-- The outer loop returns what the rest of the listing holds. -/
theorem readDir_blocksOf (hpositive : 0 < size) (hspace : size ≤ ubufSpace)
    (h : ServesBlocksOf size listing interact) {groups : List (List Entry)}
    {last : List Entry} {blocks : List ByteString} {lastBlock : ByteString}
    (hblocks : BlocksOf size groups last blocks lastBlock)
    (hnames : ∀ e ∈ groups.flatten ++ last, (0 : UInt8) ∉ e.1)
    (hv : FetchedOf size listing consumed v)
    (hrest : listing.drop consumed = blocks.flatten ++ lastBlock) :
    readDir interact (blocks.length + 1) v =
      some (v.dp ++ (groups.flatten ++ last).map rdirent) := by
  obtain ⟨hfull, hlast⟩ := hblocks
  have hkb : ubufSpace = 1024 := rfl
  have hmax : ubufMaxspace = 4380 := rfl
  have hlastle : 0 < lastBlock.length ∧ lastBlock.length ≤ size := by
    obtain ⟨bytes, stale, rfl, _, _, hle⟩ := hlast
    refine ⟨?_, hle⟩
    rw [List.length_append, List.length_singleton]
    omega
  have hlisting : listing ≠ [] := by
    rintro rfl
    have := congrArg List.length hrest
    simp at this
    omega
  -- over the full blocks; what has been read is a prefix of the listing that ends with a block
  induction hfull generalizing v consumed with
  | nil =>
      obtain ⟨v', hfill, hv', hdp, hsize, hend⟩ :=
        fillBuffer_fetched hpositive h hlisting hv (ubufMaxspace + 1) (by omega)
      rw [List.flatten_nil, List.nil_append] at hrest
      have hlen : lastBlock.length = listing.length - consumed := by
        rw [← hrest, List.length_drop]
      have hacc : v'.acc = lastBlock.length := by
        have hpos := hv'.pos
        have hle := hv'.pos_le
        rcases hend with hmax | heof
        · omega
        · have := hv'.eof heof
          omega
      have hbuf : v'.buf.take lastBlock.length = lastBlock := by
        rw [← hacc, hv'.buf, hrest, hacc, List.take_length]
      have hmin : min v'.acc v'.dirblocksize = lastBlock.length := by omega
      rw [readDir, hfill]
      simp only [hmin, readBlock_last hlast (by simpa using hnames) hbuf, true_or, if_true, hdp,
        List.flatten_nil, List.nil_append]
  | cons hblock hfull ih =>
      rename_i es block groups blocks
      obtain ⟨v', hfill, hv', hdp, hsize, hend⟩ :=
        fillBuffer_fetched hpositive h hlisting hv (ubufMaxspace + 1) (by omega)
      have hblen : block.length = size := by
        obtain ⟨_, _, _, _, hlen⟩ := hblock
        exact hlen
      have hlen : listing.length - consumed = size + (blocks.flatten ++ lastBlock).length := by
        rw [← List.length_drop, hrest, List.flatten_cons, List.append_assoc, List.length_append,
          hblen]
      have hsize' : v'.dirblocksize = size := by omega
      have hacc : v'.dirblocksize ≤ v'.acc := by
        have hpos := hv'.pos
        rcases hend with hmax | heof
        · omega
        · have := hv'.eof heof
          omega
      have hbuf : v'.buf.take size = block := by
        rw [hsize'] at hacc
        rw [← Nat.min_eq_left hacc, ← List.take_take, hv'.buf, List.take_take,
          Nat.min_eq_left hacc, hrest, List.flatten_cons, List.append_assoc,
          List.take_left' hblen]
      have hmin : min v'.acc v'.dirblocksize = size := by omega
      have hread := readBlock_full hblock (fun e he => hnames e (by simp [he])) hbuf
      -- the block is taken off the front of the buffer, what was fetched behind it stays
      have hnext := fetched_next hv' hacc hsize (v'.dp ++ es.map rdirent)
      have hrest' : listing.drop (consumed + v'.dirblocksize) = blocks.flatten ++ lastBlock := by
        rw [← List.drop_drop, hrest, hsize', List.flatten_cons, List.append_assoc,
          List.drop_left' hblen]
      have := ih (fun e he => hnames e (by
        rw [List.flatten_cons, List.append_assoc]
        exact List.mem_append_right _ he)) hnext hrest'
      rw [List.length_cons, readDir, hfill]
      simp only [hmin, hread]
      rw [if_neg (by simp; omega), this, hdp]
      simp

/-- The outer loop returns what the rest of the listing holds, in blocks of 1024 bytes. -/
theorem readDir_blocks (h : ServesBlocks listing interact) {groups : List (List Entry)}
    {last : List Entry} {blocks : List ByteString} {lastBlock : ByteString}
    (hblocks : Blocks groups last blocks lastBlock)
    (hnames : ∀ e ∈ groups.flatten ++ last, (0 : UInt8) ∉ e.1)
    (hv : Fetched listing consumed v)
    (hrest : listing.drop consumed = blocks.flatten ++ lastBlock) :
    readDir interact (blocks.length + 1) v =
      some (v.dp ++ (groups.flatten ++ last).map rdirent) :=
  readDir_blocksOf (by decide) le_rfl h hblocks hnames hv hrest

/-! ## Serving a listing

What a round of the server sends, when it serves a listing. -/

/-- The reply to a request for the directory block at `pos`. -/
def dirReply (cfg : Config) (ub : Ubuf) (listing : ByteString) (pos : ℕ) : Ubuf :=
  match dirBlock cfg listing pos with
  | .error pe => replyTo { ub with cmd := ccErr, bbPos := 0 } (pe ++ [0]) []
  | .ok block => replyTo ub block []

/-- An entry that is neither a listing nor a reply. -/
def Quiet : Event → Prop
  | .listed _ => False
  | .sent _ _ => False
  | _ => True

/-- An entry that is not a listing. -/
def Unlisted : Event → Prop
  | .listed _ => False
  | _ => True

variable {Fs Cwd : Type} [Posix Fs Cwd] {cfg : Config} {r : Request}

/-- What was sent is the reply from the listing that was served, if one was. -/
def ServedFrom (cfg : Config) (r : Request) (s : Server Fs Cwd) : Prop :=
  ∀ listing, .listed listing ∈ s.trace → ∀ client datagram, .sent client datagram ∈ s.trace →
    datagram = (dirReply cfg r.ub listing r.pos).encode

omit [Posix Fs Cwd] in
theorem servedFrom_of_unlisted {s : Server Fs Cwd} (h : ∀ e ∈ s.trace, Unlisted e) :
    ServedFrom cfg r s := fun _ hlisted => absurd (h _ hlisted) not_false

theorem Quiet.unlisted {e : Event} (h : Quiet e) : Unlisted e := by
  cases e <;> trivial

theorem wp_refuse_servedFrom {s : Server Fs Cwd} (hs : ∀ e ∈ s.trace, Quiet e) (msg : ByteString) :
    wp (refuse cfg r msg) (fun _ => ServedFrom cfg r) (ServedFrom cfg r) s := by
  have hdoes : Does (Acts Unlisted) (refuse cfg r msg : Srv Fs Cwd Unit) :=
    does_serverReply (primitives_acts _).toSteps trivial
  exact wp_mono (wp_acts hdoes fun e he => (hs e he).unlisted)
    (fun _ _ h => servedFrom_of_unlisted h) fun _ h => servedFrom_of_unlisted h

omit [Posix Fs Cwd] in
/-- A step that neither serves a listing nor replies. -/
theorem wp_quiet {α : Type} {m : Srv Fs Cwd α} {k : α → Srv Fs Cwd Unit}
    (hm : Does (Acts Quiet) m) {s : Server Fs Cwd} (hs : ∀ e ∈ s.trace, Quiet e)
    (hk : ∀ x s', (∀ e ∈ s'.trace, Quiet e) →
      wp (k x) (fun _ => ServedFrom cfg r) (ServedFrom cfg r) s') :
    wp (m >>= k) (fun _ => ServedFrom cfg r) (ServedFrom cfg r) s :=
  wp_seq (wp_mono (wp_acts hm hs) (fun _ _ h => h)
    fun _ h => servedFrom_of_unlisted fun e he => (h e he).unlisted) hk

/-- The end of `case CC_GET_DIR`: the listing is served, and the reply is from it. -/
theorem wp_replyListing (listing : ByteString) {s : Server Fs Cwd}
    (hs : ∀ e ∈ s.trace, Quiet e) :
    wp (do
        emit (.listed listing)
        match dirBlock cfg listing r.pos with
        | .error pe => refuse cfg r pe
        | .ok block => reply cfg r block [])
      (fun _ => ServedFrom cfg r) (ServedFrom cfg r) s := by
  let answer : Event := .sent r.client (dirReply cfg r.ub listing r.pos).encode
  let P : Event → Prop := fun e => Quiet e ∨ e = .listed listing ∨ e = answer
  have hdoes : Does (Acts P) (do
      emit (.listed listing)
      match dirBlock cfg listing r.pos with
      | .error pe => refuse cfg r pe
      | .ok block => reply cfg r block [] : Srv Fs Cwd Unit) := by
    refine does_bind ((primitives_acts P).emit _ (Or.inr (Or.inl rfl))) fun _ => ?_
    split
    · rename_i pe hblock
      refine does_serverReply (primitives_acts P).toSteps (Or.inr (Or.inr ?_))
      simp only [answer, dirReply, hblock]
    · rename_i block hblock
      refine does_serverReply (primitives_acts P).toSteps (Or.inr (Or.inr ?_))
      simp only [answer, dirReply, hblock]
  have hserved : ∀ s' : Server Fs Cwd, (∀ e ∈ s'.trace, P e) → ServedFrom cfg r s' := by
    intro s' hP listing' hlisted client datagram hsent
    rcases hP _ hlisted with hq | heq | heq
    · exact absurd hq not_false
    · injection heq with heq
      subst heq
      rcases hP _ hsent with hq | heq | heq
      · exact absurd hq not_false
      · cases heq
      · injection heq
    · exact absurd heq (by simp [answer])
  exact wp_mono (wp_acts hdoes fun e he => Or.inl (hs e he)) (fun _ => hserved) hserved

/-- `case CC_GET_DIR` serves at most one listing, and then replies from it. -/
theorem wp_caseGetDir (cfg : Config) (r : Request) {s : Server Fs Cwd}
    (hs : ∀ e ∈ s.trace, Quiet e) :
    wp (caseGetDir cfg r) (fun _ => ServedFrom cfg r) (ServedFrom cfg r) s := by
  have hprims : Primitives (Acts Quiet : Server Fs Cwd → Server Fs Cwd → Prop) Quiet _ :=
    primitives_acts Quiet
  refine wp_quiet (does_validatePath hprims.toSteps (fun _ _ => ⟨trivial, fun _ => trivial,
    fun _ _ _ => trivial, fun _ => trivial, fun _ => trivial⟩) (fun _ _ _ => trivial)
    returns_loadAccessRights) hs fun res s₁ hs₁ => ?_
  cases res with
  | error pe => exact wp_refuse_servedFrom hs₁ pe
  | ok res =>
      refine wp_quiet (does_requireAccess hprims.toSteps fun _ => trivial) hs₁ fun pe s₂ hs₂ => ?_
      refine wp_ite (fun _ => ?_) fun _ => wp_ite (fun _ => wp_refuse_servedFrom hs₂ _) fun _ => ?_
      · exact servedFrom_of_unlisted fun e he => (hs₂ e he).unlisted
      refine wp_quiet (does_serverGetDir hprims ⟨fun _ => trivial, fun _ _ _ => trivial,
        fun _ _ => trivial, fun _ _ _ => trivial⟩ (fun _ => ⟨fun _ => trivial, fun _ => trivial,
        fun _ => trivial⟩) _) hs₂ fun dl s₃ hs₃ => ?_
      cases dl with
      | error pe => exact wp_refuse_servedFrom hs₃ pe
      | ok dl =>
          refine wp_quiet (does_dirListing _) hs₃ fun dl s₄ hs₄ => ?_
          exact wp_replyListing dl.listing hs₄

/-! ## From the server to the client -/

/-- The client's exchange for the position `pos` ends with `ub`: the server, in some reachable
state, served the request from `listing`, and the client accepted what it sent. -/
def AnsweredFrom (Fs : Type) {Cwd : Type} [Posix Fs Cwd] (cfg : Config) (listing : ByteString)
    (pos : ℕ) (ub : Ubuf) : Prop :=
  ∃ (s : Server Fs Cwd) (a : Arrival Fs) (q : ClientRequest) (key myseq : UInt16) (retrySend : ℕ)
      (client : SockAddr) (datagram : ByteString),
    Reachable (serverRound cfg) (Starts cfg) s ∧ q.cmd = ccGetDir ∧ q.pos = pos ∧
    a.datagram = q.sbuf key myseq retrySend ∧
    .listed listing ∈ (final (serverRound cfg a s)).trace ∧
    .sent client datagram ∈ (final (serverRound cfg a s)).trace ∧
    acceptReply q.cmd q.pos (seqByte0 myseq) (seqByte1 myseq retrySend) datagram = some ub

/-- A round that serves a listing to a request of the client replies from it. -/
theorem sent_of_listed {s : Server Fs Cwd} (hs : HostTable s.htab) {a : Arrival Fs}
    {q : ClientRequest} {key myseq : UInt16} {retrySend : ℕ} (hcmd : q.cmd = ccGetDir)
    (hdatagram : a.datagram = q.sbuf key myseq retrySend) {listing : ByteString}
    (hlisted : .listed listing ∈ (final (serverRound cfg a s)).trace) {client : SockAddr}
    {datagram : ByteString} (hsent : .sent client datagram ∈ (final (serverRound cfg a s)).trace) :
    ∃ bbKey, datagram = (dirReply cfg { q.ubuf key myseq retrySend with bbKey } listing
      (UInt32.ofNat q.pos).toNat).encode := by
  have hsendError : ∀ {ub : Ubuf} {msg : ByteString} (s' : Server Fs Cwd), s'.trace = [] →
      .listed listing ∉ (final (sendError cfg a.client ub msg s')).trace := by
    intro ub msg s' hs' hmem
    have hdoes : Does (Acts Unlisted) (sendError cfg a.client ub msg : Srv Fs Cwd Unit) :=
      does_serverReply (primitives_acts _).toSteps trivial
    exact (hdoes s').1.forall_mem (by simp [hs']) _ hmem
  have hgoes := serverRound_goes cfg a hs
  generalize serverRound cfg a s = res at hgoes hlisted hsent
  cases hgoes with
  | unread => simp [Server.meets] at hlisted
  | exits => simp [Server.meets] at hlisted
  | denied => exact absurd hlisted (hsendError _ rfl)
  | unnamed => exact absurd hlisted (hsendError _ rfl)
  | ignored => simp [Server.meets] at hlisted
  | garbled => simp [heardState, Server.meets] at hlisted
  | dispatched hdisp =>
      rename_i ub old h
      obtain rfl := (reads_sbuf_iff hdatagram).mp hdisp.reads
      have hserve : serve cfg (requestOf a (q.ubuf key myseq retrySend) old h)
          (findClient cfg a s).1 =
          (caseGetDir cfg (requestOf a (q.ubuf key myseq retrySend) old h) : Srv Fs Cwd Unit) := by
        unfold serve
        rw [show (requestOf a (q.ubuf key myseq retrySend) old h).ub.cmd = ccGetDir from hcmd]
        rfl
      rw [hserve] at hlisted hsent
      have hserved := wp_final (wp_caseGetDir cfg
        (requestOf a (q.ubuf key myseq retrySend) old h) (s := dispatchState cfg a s old h)
        (by simp [dispatchState, Quiet]))
      exact ⟨_, hserved _ hlisted _ _ hsent⟩

/-- A block of a listing, and no request is refused at the start of the listing. -/
theorem dirBlock_eq_ok (h : 1024 ≤ cfg.packetsize.toNat) {listing : ByteString} {pos : ℕ}
    (hpos : pos % ubufSpace = 0 ∨ listing.length ≤ pos) :
    dirBlock cfg listing pos = .ok ((listing.drop pos).take
      (min ((listing.length - pos) % 4294967296) ubufSpace)) := by
  have hl2 : min cfg.packetsize.toNat ubufSpace = ubufSpace := Nat.min_eq_right h
  unfold dirBlock
  rw [hl2]
  by_cases hle : listing.length ≤ pos
  · rw [if_pos hle, Nat.sub_eq_zero_of_le hle]
    simp
  · rw [if_neg hle, if_neg]
    rintro ⟨_, hne⟩
    exact hne (hpos.resolve_right hle)

theorem length_dirReply_le (ub : Ubuf) (listing : ByteString) (pos : ℕ) :
    (dirReply cfg ub listing pos).buf.length ≤ ubufSpace := by
  unfold dirReply dirBlock
  by_cases hle : listing.length ≤ pos
  · simp [hle, replyTo, ubufSpace]
  · rw [if_neg hle]
    simp only
    split_ifs
    · simp only [replyTo]
      decide
    · simp only [replyTo, List.append_nil, List.length_take, ubufSpace]
      omega

/-- An accepted answer is the block at its position. -/
theorem block_of_answeredFrom (hsize : 1024 ≤ cfg.packetsize.toNat) {listing : ByteString}
    {pos : ℕ} {ub : Ubuf} (h : AnsweredFrom Fs cfg listing pos ub) :
    pos < 4294967296 ∧ ∃ block, dirBlock cfg listing pos = .ok block ∧ ub.cmd = ccGetDir ∧
      ub.bbLen = UInt16.ofNat block.length ∧ ub.buf = block := by
  obtain ⟨s, a, q, key, myseq, retrySend, client, datagram, hreach, hcmd, rfl, hdatagram, hlisted,
    hsent, haccept⟩ := h
  obtain ⟨bbKey, rfl⟩ := sent_of_listed (hostTable_reachable hreach) hcmd hdatagram hlisted hsent
  have hlen : ∀ (ub : Ubuf) (p : ℕ), (dirReply cfg ub listing p).buf.length ≤ ubufMaxspace :=
    fun ub p => (length_dirReply_le ub listing p).trans (by decide)
  obtain ⟨rfl, haccepts⟩ := (acceptReply_encode (hlen _ _)).mp haccept
  have hpos := haccepts.bbPos (by rw [hcmd]; rfl)
  unfold dirReply at hpos ⊢
  cases hblock : dirBlock cfg listing (UInt32.ofNat q.pos).toNat with
  | error pe =>
      -- the error reply has position 0, and there the server has no reason for an error
      rw [hblock] at hpos
      have hzero : q.pos = 0 := hpos.symm
      rw [hzero, dirBlock_eq_ok hsize (Or.inl rfl)] at hblock
      cases hblock
  | ok block =>
      rw [hblock] at hpos
      have hpos : (UInt32.ofNat q.pos).toNat = q.pos := hpos
      rw [hpos] at hblock
      refine ⟨by rw [← hpos]; exact UInt32.toNat_lt _, block, hblock, hcmd, rfl, ?_⟩
      simp [replyTo]

/-- Below `2 ^ 32` bytes, an accepted answer is what the listing holds. -/
theorem holds_of_answeredFrom (hsize : 1024 ≤ cfg.packetsize.toNat) {listing : ByteString}
    (hlt : listing.length < 4294967296) {pos : ℕ} (hasked : Asked listing pos) {ub : Ubuf}
    (h : AnsweredFrom Fs cfg listing pos ub) : Holds listing pos ub := by
  obtain ⟨hle, haligned⟩ := hasked
  obtain ⟨_, block, hblock, hcmd, hbbLen, hbuf⟩ := block_of_answeredFrom hsize h
  have hmod : (listing.length - pos) % 4294967296 = listing.length - pos :=
    Nat.mod_eq_of_lt (by omega)
  rw [dirBlock_eq_ok hsize (haligned.imp_right fun h => h.ge), hmod] at hblock
  injection hblock with hblock
  have hblen : block.length = min ubufSpace (listing.length - pos) := by
    rw [← hblock, List.length_take, List.length_drop, Nat.min_comm ubufSpace]
    omega
  have hlen : ub.bbLen.toNat = min ubufSpace (listing.length - pos) := by
    have hspace : ubufSpace = 1024 := rfl
    rw [hbbLen, UInt16.toNat_ofNat', hblen]
    omega
  refine ⟨by rw [hcmd]; decide, hlen, ?_⟩
  rw [hlen, hbuf, ← hblen, List.take_length, ← hblock, Nat.min_comm, ← List.take_take,
    ← List.length_drop, List.take_length]

/-- A reply with what the listing holds. -/
def blockOf (listing : ByteString) (pos : ℕ) : Ubuf :=
  ⟨ccGetDir, 0, 0, 0, 0, UInt16.ofNat (min ubufSpace (listing.length - pos)), 0,
    (listing.drop pos).take ubufSpace⟩

theorem holds_blockOf (listing : ByteString) (pos : ℕ) : Holds listing pos (blockOf listing pos) := by
  have hspace : ubufSpace = 1024 := rfl
  have hlen : (blockOf listing pos).bbLen.toNat = min ubufSpace (listing.length - pos) := by
    simp only [blockOf, UInt16.toNat_ofNat']
    omega
  refine ⟨by simp [blockOf, ccGetDir, ccErr], hlen, ?_⟩
  rw [hlen, ← List.length_drop, ← List.length_take]
  exact List.take_length

/-- What `get_dir_blk` returns for a directory that reads back. -/
def visibleDirents (entries : List (Dirent × Option Stat)) : List Rdirent :=
  (entries.filterMap visibleEntry).map rdirent

/-- The directory is listed, and `get_dir_blk` returns its visible entries if all its exchanges are
answered from that listing and all those it needs come to an end. -/
def ReadsBack (Fs : Type) {Cwd : Type} [Posix Fs Cwd] (cfg : Config)
    (entries : List (Dirent × Option Stat)) : Prop :=
  ∃ listing, buildDirListing cfg entries = some listing ∧
    ∀ (interact : ℕ → Option Ubuf) (stack : ByteString),
      (∀ pos ub, interact pos = some ub → AnsweredFrom Fs cfg listing pos ub) →
      (∀ fuel es, getDirBlk interact stack fuel = some es → es = visibleDirents entries) ∧
      ((∀ pos, Asked listing pos → interact pos ≠ none) →
        ∃ fuel, getDirBlk interact stack fuel = some (visibleDirents entries))

/-- The entries a listing holds, as the client reads them. -/
theorem getDirBlk_blocks {listing : ByteString} {interact : ℕ → Option Ubuf}
    (h : ServesBlocks listing interact) {groups : List (List Entry)} {last : List Entry}
    {blocks : List ByteString} {lastBlock : ByteString}
    (hblocks : Blocks groups last blocks lastBlock)
    (hnames : ∀ e ∈ groups.flatten ++ last, (0 : UInt8) ∉ e.1)
    (hlisting : listing = blocks.flatten ++ lastBlock) (stack : ByteString) :
    getDirBlk interact stack (blocks.length + 1) =
      some ((groups.flatten ++ last).map rdirent) := by
  have := readDir_blocks h hblocks hnames
    (fetchedOf_start ubufSpace listing stack)
    (by rw [List.drop_zero]; exact hlisting)
  rwa [List.nil_append] at this

/-- A directory whose listing has less than `2 ^ 32` bytes reads back. -/
theorem readsBack_of_length_lt (Fs : Type) {Cwd : Type} [Posix Fs Cwd] (cfg : Config)
    (entries : List (Dirent × Option Stat)) (hsize : 1024 ≤ cfg.packetsize.toNat)
    (hnames : ∀ e ∈ entries, ProperName e.1.name)
    (hlt : ∀ listing, buildDirListing cfg entries = some listing →
      listing.length < 4294967296) : ReadsBack Fs cfg entries := by
  obtain ⟨groups, last, blocks, lastBlock, hblocks, hbuild, hentries⟩ :=
    buildDirListing_blocks hsize hnames
  have hzero : ∀ e ∈ groups.flatten ++ last, (0 : UInt8) ∉ e.1 := by
    rw [hentries]
    exact fun e he => (properName_of_visible hnames e he).zero_notMem
  refine ⟨_, hbuild, fun interact stack hanswered => ?_⟩
  have hread : ∀ {interact : ℕ → Option Ubuf}, ServesBlocks (blocks.flatten ++ lastBlock) interact →
      getDirBlk interact stack (blocks.length + 1) = some (visibleDirents entries) := by
    intro interact h
    rw [visibleDirents, ← hentries]
    exact getDirBlk_blocks h hblocks hzero rfl stack
  have hholds : ∀ pos ub, interact pos = some ub → Asked (blocks.flatten ++ lastBlock) pos →
      Holds (blocks.flatten ++ lastBlock) pos ub := fun pos ub hub hasked =>
    holds_of_answeredFrom hsize (hlt _ hbuild) hasked (hanswered pos ub hub)
  constructor
  · intro fuel es hes
    -- the exchanges that did not end are given an answer of their own
    let interact' : ℕ → Option Ubuf := fun pos =>
      (interact pos).or (some (blockOf (blocks.flatten ++ lastBlock) pos))
    have hserves : ServesBlocks (blocks.flatten ++ lastBlock) interact' := by
      intro pos hasked
      cases hub : interact pos with
      | some ub => exact ⟨ub, by simp [interact', hub], hholds pos ub hub hasked⟩
      | none => exact ⟨_, by simp [interact', hub], holds_blockOf _ _⟩
    have hmono : ∀ pos ub, interact pos = some ub → interact' pos = some ub := by
      intro pos ub hub
      simp [interact', hub]
    have hes' := getDirBlk_mono hmono (Nat.le_max_left fuel (blocks.length + 1)) hes
    have hread' := getDirBlk_mono (fun _ _ h => h) (Nat.le_max_right fuel (blocks.length + 1))
      (hread hserves)
    rw [hes'] at hread'
    injection hread'
  · intro hends
    refine ⟨_, hread fun pos hasked => ?_⟩
    obtain ⟨ub, hub⟩ := Option.ne_none_iff_exists'.mp (hends pos hasked)
    exact ⟨ub, hub, hholds pos ub hub hasked⟩

/-- A directory with a file, a hidden name, a directory and a link that leads nowhere. -/
def smallDirectory : List (Dirent × Option Stat) :=
  [(⟨1, text "file"⟩, some ⟨.reg, 3, 7⟩), (⟨2, text ".hidden"⟩, some ⟨.reg, 0, 0⟩),
    (⟨3, text "dir"⟩, some ⟨.dir, 0, -1⟩), (⟨4, text "link"⟩, none)]

theorem readsBack_smallDirectory : ReadsBack Disk Scenario.config smallDirectory := by
  refine readsBack_of_length_lt Disk Scenario.config smallDirectory (by decide) ?_ ?_
  · intro e he
    simp only [smallDirectory, List.mem_cons, List.not_mem_nil, or_false] at he
    rcases he with rfl | rfl | rfl | rfl <;> exact ⟨by decide, by decide⟩
  · intro listing hlisting
    have hlength : (buildDirListing Scenario.config smallDirectory).map List.length = some 41 := by
      decide +kernel
    rw [hlisting, Option.map_some] at hlength
    injection hlength with hlength
    omega

/-! ## A directory that does not read back

With `2 ^ 24 + 1` entries of 256 bytes the listing is `2 ^ 32 + 265` bytes long.  The server
computes that 265 bytes are left at position 0 and none at position 265, so the client takes these
for the whole listing. -/

/-- An operating system with one directory, which holds empty files. -/
abbrev Shelf := List Dirent

instance : Posix Shelf Unit where
  stat _ _ path :=
    if path = [dot] then some ⟨.dir, 0, 0⟩
    else if path.head? = some slash then some ⟨.reg, 0, 0⟩
    else none
  lstat _ _ _ := none
  access _ _ _ := false
  chdir _ _ _ := some ()
  getcwd _ _ := some (text "/h")
  readFile _ _ _ := none
  readdir dirents _ _ := some dirents
  gethostbyname _ _ := none
  unlink dirents _ _ := (false, dirents)
  remove dirents _ _ := (false, dirents)
  rmdir dirents _ _ := (false, dirents)
  mkdir dirents _ _ := (false, dirents)
  rename dirents _ _ _ := (false, dirents)
  creat dirents _ _ := dirents
  writeFile dirents _ _ _ := dirents
  chmod dirents _ _ := dirents
  utime dirents _ _ _ _ := dirents
  fopen dirents _ _ _ := (none, dirents)
  fclose dirents _ := dirents
  fseeko dirents _ _ := (false, dirents)
  ftello _ _ := -1
  fread dirents _ _ := ([], dirents)
  fwrite dirents _ _ := (0, dirents)
  ferror _ _ := false
  sendto _ _ _ _ := true
  remaining _ _ := 0
  length_fread _ _ _ := Nat.zero_le _
  fwrite_le _ _ _ := Nat.zero_le _

namespace Shelf

variable (dirents : Shelf) (pos : ℕ)

/-- The directory, with the results of `stat`. -/
def entries : List (Dirent × Option Stat) := dirents.map fun dp => (dp, some ⟨.reg, 0, 0⟩)

def request : ClientRequest := ⟨ccGetDir, pos, [0], [], by decide⟩

def arrival : Arrival Shelf where
  client := Scenario.client
  datagram := (request pos).sbuf 5 8 0
  now := 100
  genNextKey := 7
  findHostname := none
  world := id
  behind := []
  junk := 0

/-- The record of the client when its first request has passed the key check. -/
def record : HTab := ⟨0x0100007F, none, 0, 5, 0, 0, false⟩

def dispatched : Request := requestOf (arrival pos) ((request pos).ubuf 5 8 0) false record

def initial : Server Shelf Unit := initServer Scenario.config dirents () 0

def home : DirInfo where
  realname := text "/h"
  owner := []
  protection := dirList ||| dirGet
  publicPassword := none
  ownerPassword := none
  readme := none
  mtime := 0
  lastcheck := 100

def parsed : PPath := ⟨[dot], [dot], 1, [dot], 3, none⟩

def answer : ByteString := text "NWelcome on board captain!"

/-- The server when the directory is validated. -/
def known : Server Shelf Unit :=
  { dispatchState Scenario.config (arrival pos) (initial dirents) false record with
    dirStatCache := ((FifoCache.fCacheNew 10 (by decide)).fCachePut [dot] home).2.2
    trace := [.dispatched false, .lookup [dot], .stat [dot] (some ⟨.dir, 0, 0⟩), .chdir [dot] true,
      .stat (text ".README") none, .stat fspPassword none, .chdir (text "/h") true,
      .validated parsed 0 (text "/h")] }

/-- The server when access is granted. -/
def granted : Server Shelf Unit :=
  { known dirents pos with
    trace := (known dirents pos).trace ++
      [.access 0 dirList (dispatched pos).inetNum none answer] }

/-- The server when the listing is in the cache. -/
def listed (listing : ByteString) : Server Shelf Unit :=
  { granted dirents pos with
    dirListCache :=
      ((FifoCache.fCacheNew 16 (by decide)).fCachePut (text "/h") ⟨listing, 100⟩).2.2 }

theorem dispatches : Dispatches Scenario.config (arrival pos) (initial dirents)
    ((request pos).ubuf 5 8 0) false record where
  reads := (reads_sbuf_iff rfl).mpr rfl
  admits := Or.inl rfl
  named := by simp [Scenario.config]
  key := by
    show checkKey Scenario.config (hostAt (findHost false initHtab 0x0100007F none).2
      (findHost false initHtab 0x0100007F none).1) 5 100 = _
    decide
  checksum := checksum_of_sbuf rfl

theorem validatePath_shelf : validatePath Scenario.config (dispatched pos).s1 true
    (dispatchState Scenario.config (arrival pos) (initial dirents) false record) =
      .ok (.ok (parsed, 0)) (known dirents pos) := by
  rw [show (dispatched pos).s1 = [0] from ClientRequest.data_ubuf (request pos) 5 8 0]
  rfl

theorem requireAccess_shelf :
    requireAccess Scenario.config (dispatched pos) 0 dirList none (known dirents pos) =
      .ok answer (granted dirents pos) := by
  have hanswer : requireAccessRights Scenario.config home dirList (dispatched pos).inetNum none =
      answer := by
    show requireAccessRights Scenario.config home dirList 0x0100007F none = answer
    decide
  unfold granted
  rw [← hanswer]
  rfl

/-- Nothing is cached, so the listing is made. -/
theorem serverGetDir_granted : serverGetDir Scenario.config 0 (granted dirents pos) =
    ((match buildDirListing Scenario.config (entries dirents) with
      | none => throw .undefined
      | some listing => do
          let s ← get
          let dl ← storeListing none home ⟨listing, s.curTime⟩
          pure (.ok dl) : Srv Shelf Unit (Except ByteString ℕ))) (granted dirents pos) := rfl

theorem serverGetDir_shelf {listing : ByteString}
    (h : buildDirListing Scenario.config (entries dirents) = some listing) :
    serverGetDir Scenario.config 0 (granted dirents pos) =
      .ok (.ok 0) (listed dirents pos listing) := by
  rw [serverGetDir_granted, h]
  rfl

/-- The whole round. -/
theorem serverRound_shelf {listing : ByteString}
    (h : buildDirListing Scenario.config (entries dirents) = some listing) :
    serverRound Scenario.config (arrival pos) (initial dirents) =
      (do
        emit (.listed listing)
        match dirBlock Scenario.config listing (dispatched pos).pos with
        | .error pe => refuse Scenario.config (dispatched pos) pe
        | .ok block => reply Scenario.config (dispatched pos) block [] : Srv Shelf Unit Unit)
      (listed dirents pos listing) := by
  rw [serverRound_of_dispatches hostTable_initHtab (dispatches dirents pos)]
  show (validated Scenario.config (dispatched pos) true _ : Srv Shelf Unit Unit) _ = _
  unfold validated
  refine (bind_of_ok (validatePath_shelf dirents pos)).trans ?_
  show (checkAccessRights Scenario.config (dispatched pos) 0 dirList none _ : Srv Shelf Unit Unit)
    _ = _
  unfold checkAccessRights
  refine (bind_of_ok (requireAccess_shelf dirents pos)).trans ?_
  rw [if_neg (by decide), if_neg (by decide)]
  exact bind_of_ok (serverGetDir_shelf dirents pos h)

/-- What the round leaves in the trace. -/
theorem trace_shelf {listing : ByteString}
    (h : buildDirListing Scenario.config (entries dirents) = some listing) :
    (final (serverRound Scenario.config (arrival pos) (initial dirents))).trace =
      (granted dirents pos).trace ++ [.listed listing] ++ [.sent Scenario.client
        (dirReply Scenario.config (dispatched pos).ub listing (dispatched pos).pos).encode] := by
  rw [serverRound_shelf dirents pos h]
  unfold dirReply
  cases dirBlock Scenario.config listing (dispatched pos).pos <;> rfl

/-- The reply for a block of at most 1024 bytes. -/
def blockReply (listing : ByteString) (len : ℕ) : Ubuf :=
  replyTo (dispatched pos).ub ((listing.drop pos).take len) []

theorem answeredFrom_blockReply {listing : ByteString}
    (h : buildDirListing Scenario.config (entries dirents) = some listing) {len : ℕ}
    (hpos : pos < 4294967296) (hlen : len ≤ ubufSpace)
    (hblock : dirBlock Scenario.config listing pos = .ok ((listing.drop pos).take len)) :
    AnsweredFrom Shelf Scenario.config listing pos (blockReply pos listing len) := by
  have hpos' : (dispatched pos).pos = pos :=
    show (UInt32.ofNat pos).toNat = pos by rw [UInt32.toNat_ofNat']; omega
  have hreply : dirReply Scenario.config (dispatched pos).ub listing (dispatched pos).pos =
      blockReply pos listing len := by
    rw [hpos', dirReply, hblock]
    rfl
  have htrace := trace_shelf dirents pos h
  rw [hreply] at htrace
  refine ⟨initial dirents, arrival pos, request pos, 5, 8, 0, Scenario.client,
    (blockReply pos listing len).encode, .start ⟨_, _, _, rfl⟩, rfl, rfl, rfl, by rw [htrace]; simp, by rw [htrace]; simp, ?_⟩
  have hspace : ubufSpace = 1024 := rfl
  refine (acceptReply_encode ?_).mpr ⟨rfl, accepts_replyTo [] ?_ rfl rfl (Or.inl rfl) fun _ => hpos'⟩
  · show ((listing.drop pos).take len ++ []).length ≤ ubufMaxspace
    rw [List.append_nil, List.length_take]
    have hmax : ubufMaxspace = 4380 := rfl
    omega
  · rw [List.length_take]
    omega

end Shelf

/-! ### The length of its listing -/

/-- A listing in the making that holds `k` records of 256 bytes. -/
structure Packed (k : ℕ) (v : ListingState) : Prop where
  total : v.listing.length + v.bufpos = 256 * k
  mod : v.bufpos % 256 = 0
  bufpos : v.bufpos ≤ ubufSpace
  rem : v.rem.toNat = ubufSpace - v.bufpos
  buffer : v.buffer.length = ubufSpace

variable {name : ByteString} {sb : Stat} {v : ListingState} {k : ℕ}

theorem packed_flushBlock (h : Packed k v) (hfull : v.bufpos = ubufSpace) :
    Packed k (flushBlock ubufSpace v) := by
  have hspace : ubufSpace = 1024 := rfl
  have hrem : v.rem.toNat = 0 := by rw [h.rem, hfull, Nat.sub_self]
  have hlen := length_splice (l := v.buffer) (i := v.bufpos)
    (b := List.replicate v.rem.toNat rdtypeSkip) (by simp [hrem, hfull, h.buffer])
  have htotal := h.total
  refine ⟨?_, rfl, Nat.zero_le _, rfl, by rw [← h.buffer, ← hlen]; rfl⟩
  show (v.listing ++ (splice v.buffer v.bufpos _).take ubufSpace).length + 0 = 256 * k
  rw [List.length_append, List.length_take, hlen, h.buffer]
  omega

theorem packed_addDirent (hname : name.length = 246) (h : Packed k v) :
    ∃ v', addDirent ubufSpace v name sb = some v' ∧ Packed (k + 1) v' := by
  have hspace : ubufSpace = 1024 := rfl
  have hhsize : rdhsize = 9 := rfl
  obtain ⟨v₁, hv₁, hroom, heq⟩ : ∃ v₁, Packed k v₁ ∧ v₁.bufpos + 256 ≤ ubufSpace ∧
      (if v.rem.toNat < rdhsize + (name.length + 1) then flushBlock ubufSpace v else v) = v₁ := by
    have hrem := h.rem
    have hmod := h.mod
    have hbufpos := h.bufpos
    by_cases hfull : v.bufpos = ubufSpace
    · exact ⟨_, packed_flushBlock h hfull, by show 0 + 256 ≤ ubufSpace; omega,
        if_pos (by omega)⟩
    · exact ⟨v, h, by omega, if_neg (by omega)⟩
  have hbuffer := length_splice (l := v₁.buffer) (i := v₁.bufpos) (b := direntBytes name sb)
    (by rw [length_direntBytes, hv₁.buffer]; omega)
  have htotal := hv₁.total
  have hmod := hv₁.mod
  have hrem := hv₁.rem
  unfold addDirent
  simp only [heq]
  rw [if_neg (by omega)]
  refine ⟨_, rfl, ?_⟩
  have hskip : (4 - (name.length + 1 + rdhsize) % 4) % 4 = 0 := by omega
  constructor
  · simp only [hskip]
    omega
  · simp only [hskip]
    omega
  · simp only [hskip]
    omega
  · simp only [hskip, UInt32.toNat_sub, UInt32.toNat_ofNat']
    omega
  · exact hbuffer.trans hv₁.buffer

theorem packed_addDirents (hname : name.length = 246) (h : Packed k v) (n : ℕ) :
    ∃ v', addDirents ubufSpace v (List.replicate n (name, sb)) = some v' ∧ Packed (k + n) v' := by
  induction n generalizing v k with
  | zero => exact ⟨v, rfl, h⟩
  | succ n ih =>
      obtain ⟨v₁, hadd, hv₁⟩ : ∃ v', addDirent ubufSpace v name sb = some v' ∧ Packed (k + 1) v' :=
        packed_addDirent hname h
      obtain ⟨v₂, hadd', hv₂⟩ := ih hv₁
      refine ⟨v₂, ?_, by rwa [Nat.add_assoc, Nat.add_comm 1] at hv₂⟩
      rw [List.replicate_succ, addDirents, hadd]
      exact hadd'

/-- The listing of a directory of `n` such entries. -/
theorem length_buildDirListing_replicate (hsize : 1024 ≤ cfg.packetsize.toNat)
    (hname : name.length = 246) {n : ℕ} {entries : List (Dirent × Option Stat)}
    (hentries : entries.filterMap visibleEntry = List.replicate n (name, sb)) :
    ∃ listing, buildDirListing cfg entries = some listing ∧ listing.length = 256 * n + 9 := by
  have hspace : ubufSpace = 1024 := rfl
  have hhsize : rdhsize = 9 := rfl
  have hblock : dirblocksize cfg = ubufSpace := Nat.min_eq_right hsize
  have hstart : Packed 0 ⟨[], List.replicate ubufSpace 0, 0, UInt32.ofNat ubufSpace⟩ :=
    ⟨rfl, rfl, Nat.zero_le _, rfl, List.length_replicate⟩
  obtain ⟨v, hadd, hv⟩ : ∃ v', addDirents ubufSpace _ (List.replicate n (name, sb)) = some v' ∧
      Packed (0 + n) v' := packed_addDirents hname hstart n
  obtain ⟨v₁, hv₁, hroom, heq⟩ : ∃ v₁, Packed (0 + n) v₁ ∧ v₁.bufpos + 9 ≤ ubufSpace ∧
      (if v.rem.toNat < rdhsize then flushBlock ubufSpace v else v) = v₁ := by
    have hrem := hv.rem
    have hmod := hv.mod
    have hbufpos := hv.bufpos
    by_cases hfull : v.bufpos = ubufSpace
    · exact ⟨_, packed_flushBlock hv hfull, by show 0 + 9 ≤ ubufSpace; omega, if_pos (by omega)⟩
    · exact ⟨v, hv, by omega, if_neg (by omega)⟩
  have htotal := hv₁.total
  have hbuffer := length_splice (l := v₁.buffer) (i := v₁.bufpos + 8) (b := [rdtypeEnd])
    (by rw [hv₁.buffer, List.length_singleton]; omega)
  have hbuild : buildDirListing cfg entries = some (v₁.listing ++
      (splice v₁.buffer (v₁.bufpos + 8) [rdtypeEnd]).take (v₁.bufpos + rdhsize)) := by
    unfold buildDirListing
    simp only [hblock, hentries, hadd, Option.bind_some, finishListing, heq]
    exact if_neg (by omega)
  refine ⟨_, hbuild, ?_⟩
  rw [List.length_append, List.length_take, hbuffer, hv₁.buffer]
  omega

/-! ### What the client makes of it -/

theorem length_readBlock_le (buf : ByteString) (fuel p2 : ℕ) (rem : ℤ) :
    (readBlock buf fuel p2 rem).1.length ≤ fuel := by
  induction fuel generalizing p2 rem with
  | zero => simp [readBlock]
  | succ fuel ih =>
      rw [readBlock]
      split_ifs
      · simp
      · simp only
        split_ifs
        · simp
        · simp
        · exact Nat.succ_le_succ (ih _ _)

/-- A short first reply and an empty second one are taken for a whole listing. -/
theorem getDirBlk_short {interact : ℕ → Option Ubuf} {ub ub' : Ubuf}
    (hub : interact 0 = some ub) (hub' : interact ub.bbLen.toNat = some ub') (hcmd : ub.cmd ≠ ccErr)
    (hcmd' : ub'.cmd ≠ ccErr) (hpos : 0 < ub.bbLen.toNat) (hlt : ub.bbLen.toNat < ubufMaxspace)
    (hzero : ub'.bbLen.toNat = 0) (stack : ByteString) :
    ∃ es, getDirBlk interact stack 2 = some es ∧ es.length ≤ ub.bbLen.toNat := by
  let v₁ := (⟨0, false, 0, stack, 0, []⟩ : DirFetch).receive ub
  let v₂ := v₁.receive ub'
  have hacc₁ : v₁.acc = ub.bbLen.toNat := Nat.zero_add _
  have hpos₁ : v₁.pos = ub.bbLen.toNat := Nat.zero_add _
  have hsize₁ : v₁.dirblocksize = ub.bbLen.toNat := rfl
  have hacc₂ : v₂.acc = ub.bbLen.toNat := by
    show v₁.acc + ub'.bbLen.toNat = _
    rw [hacc₁, hzero, Nat.add_zero]
  have hsize₂ : v₂.dirblocksize = ub.bbLen.toNat := if_neg (by omega)
  have hdp₂ : v₂.dp = [] := rfl
  have heof₂ : v₂.atEof = true := by
    show (v₁.atEof || (v₁.dirblocksize != 0 && decide (ub'.bbLen.toNat < v₁.dirblocksize))) = true
    simp [hsize₁, hzero]
    omega
  have hstop : ∀ (fuel : ℕ) (v : DirFetch), v.atEof = true →
      fillBuffer interact fuel v = some v := by
    intro fuel v heof
    unfold fillBuffer
    exact if_neg (by simp [heof])
  have hfill : ∀ fuel, fillBuffer interact (fuel + 2) ⟨0, false, 0, stack, 0, []⟩ = some v₂ := by
    intro fuel
    rw [fillBuffer, if_pos ⟨Nat.zero_lt_succ _, Bool.false_ne_true⟩]
    have hfetch : fetchBlock interact ⟨0, false, 0, stack, 0, []⟩ = some v₁ := by
      unfold fetchBlock
      rw [hub]
      exact if_neg hcmd
    have hfetch' : fetchBlock interact v₁ = some v₂ := by
      unfold fetchBlock
      rw [hpos₁, hub']
      exact if_neg hcmd'
    simp only [hfetch, Option.bind_some]
    rw [fillBuffer, if_pos ⟨by rw [hacc₁]; exact hlt, by simp [v₁, DirFetch.receive]⟩]
    simp only [hfetch', Option.bind_some]
    exact hstop _ _ heof₂
  have hlen := length_readBlock_le v₂.buf ub.bbLen.toNat 0 ub.bbLen.toNat
  unfold getDirBlk
  rw [readDir, show ubufMaxspace + 1 = 4379 + 2 from rfl, hfill]
  simp only [hacc₂, hsize₂, hdp₂, List.nil_append, Nat.min_self]
  split
  · exact ⟨_, rfl, by simpa using hlen⟩
  · rw [readDir, hstop]
    · simp only [Nat.sub_self, Nat.zero_min]
      rw [if_pos (Or.inr hpos)]
      exact ⟨_, rfl, by simpa [readBlock] using hlen⟩
    · exact heof₂

/-- A name of 246 bytes. -/
def bigName : ByteString := List.replicate 246 0x61

/-- A directory of `2 ^ 24 + 1` empty files, with the results of `stat`. -/
def bigDirectory : Shelf := List.replicate 16777217 ⟨1, bigName⟩

theorem entries_bigDirectory : bigDirectory.entries =
    List.replicate 16777217 (⟨1, bigName⟩, some ⟨.reg, 0, 0⟩) := by
  unfold Shelf.entries bigDirectory
  rw [List.map_replicate]

theorem visible_bigDirectory : bigDirectory.entries.filterMap visibleEntry =
    List.replicate 16777217 (bigName, ⟨.reg, 0, 0⟩) := by
  rw [entries_bigDirectory, List.filterMap_replicate_of_some]
  decide +kernel

theorem bigDirectory_not_readsBack :
    (∀ e ∈ bigDirectory.entries, ProperName e.1.name) ∧
    ¬ ReadsBack Shelf Scenario.config bigDirectory.entries := by
  have hsize : 1024 ≤ Scenario.config.packetsize.toNat := by decide
  refine ⟨?_, ?_⟩
  · intro e he
    rw [entries_bigDirectory] at he
    obtain rfl := List.eq_of_mem_replicate he
    exact ⟨by decide +kernel, by decide +kernel⟩
  · rintro ⟨listing, hbuild, hreads⟩
    obtain ⟨listing', hbuild', hlength⟩ :=
      length_buildDirListing_replicate hsize (by decide +kernel) visible_bigDirectory
    rw [hbuild] at hbuild'
    obtain rfl := Option.some.inj hbuild'
    -- the replies at positions 0 and 265
    let ub := Shelf.blockReply 0 listing 265
    let ub' := Shelf.blockReply 265 listing 0
    let interact : ℕ → Option Ubuf := fun pos =>
      if pos = 0 then some ub else if pos = 265 then some ub' else none
    have hub : AnsweredFrom Shelf Scenario.config listing 0 ub :=
      Shelf.answeredFrom_blockReply _ 0 hbuild (by decide) (by decide) (by
        rw [dirBlock_eq_ok hsize (Or.inl rfl), hlength]
        rfl)
    have hub' : AnsweredFrom Shelf Scenario.config listing 265 ub' :=
      Shelf.answeredFrom_blockReply _ 265 hbuild (by decide) (by decide) (by
        unfold dirBlock
        rw [if_neg (by omega), hlength]
        rfl)
    have hlen : ub.bbLen.toNat = 265 := by
      show (UInt16.ofNat ((listing.drop 0).take 265 ).length).toNat = 265
      rw [List.length_take, List.length_drop, hlength]
      rfl
    have hlen' : ub'.bbLen.toNat = 0 := by
      show (UInt16.ofNat ((listing.drop 265).take 0).length).toNat = 0
      rw [List.take_zero]
      rfl
    have hanswered : ∀ pos ub, interact pos = some ub →
        AnsweredFrom Shelf Scenario.config listing pos ub := by
      intro pos ub₀ hpos
      simp only [interact] at hpos
      split_ifs at hpos with hzero hnext
      · injection hpos with hpos
        rw [hzero, ← hpos]
        exact hub
      · injection hpos with hpos
        rw [hnext, ← hpos]
        exact hub'
    have hfirst : interact 0 = some ub := rfl
    have hsecond : interact ub.bbLen.toNat = some ub' := by
      rw [hlen]
      rfl
    have hcmd : ccGetDir ≠ ccErr := by decide
    obtain ⟨es, hes, hle⟩ := getDirBlk_short hfirst hsecond hcmd hcmd (by omega)
      (by rw [hlen]; decide) hlen' []
    have heq := (hreads interact [] hanswered).1 2 es hes
    rw [heq, visibleDirents, visible_bigDirectory, List.length_map, List.length_replicate,
      hlen] at hle
    omega

end Fsp
