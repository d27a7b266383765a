import Fsp.Client.Interact

/-!
# Reading a directory

`client/util.c`: `get_dir_blk` fetches a listing block by block into a buffer, takes the length of
the first reply for the size of a block, and returns the entries of the blocks one after the other.

`interact` is `client_interact (CC_GET_DIR, ..)` by the position asked for, with no result for an
exchange that never ends.  The source goes over each block twice, the first time only to find how
much memory the entries need; the model goes over it once.
-/

namespace Fsp

open Bytes

/-- A directory entry as the client keeps it. -/
structure Rdirent where
  time : UInt32
  size : UInt32
  type : UInt8
  name : ByteString
  deriving DecidableEq, Repr

/-- Why the pass over a block ends. -/
inductive BlockEnd where
  | skip | done
  deriving DecidableEq, Repr

/-- The long word at offset `i` of a buffer. -/
def long (buf : ByteString) (i : ℕ) : UInt32 :=
  ofBe32 (buf.getD i 0) (buf.getD (i + 1) 0) (buf.getD (i + 2) 0) (buf.getD (i + 3) 0)

/-- The pass over a block, from offset `p2` on with `rem` bytes left.  Each entry takes ten bytes
at least, so the size of the block is enough fuel. -/
def readBlock (buf : ByteString) : ℕ → ℕ → ℤ → List Rdirent × BlockEnd
  | 0, _, _ => ([], .skip)
  | fuel + 1, p2, rem =>
      if rem < rdhsize then ([], .skip)
      else
        let type := buf.getD (p2 + 8) 0
        if type = rdtypeSkip then ([], .skip)
        else if type = rdtypeEnd then ([], .done)
        else
          let name := cstr (buf.drop (p2 + rdhsize))
          let size := rdhsize + 1 + name.length
          let pad := (4 - (p2 + size) % 4) % 4
          let rest := readBlock buf fuel (p2 + size + pad) (rem - size - pad)
          (⟨long buf p2, long buf (p2 + 4), type, name⟩ :: rest.1, rest.2)

/-- The variables of `get_dir_blk`. -/
structure DirFetch where
  pos : ℕ
  atEof : Bool
  acc : ℕ
  buf : ByteString
  dirblocksize : ℕ
  dp : List Rdirent

/-- Append a reply to the buffer.  The length of the first one is the size of a block, and a
shorter one is the last. -/
def DirFetch.receive (v : DirFetch) (ub : Ubuf) : DirFetch :=
  let rlen := ub.bbLen.toNat
  { v with
    dirblocksize := if v.dirblocksize = 0 then rlen else v.dirblocksize
    atEof := v.atEof || (v.dirblocksize != 0 && rlen < v.dirblocksize)
    buf := splice v.buf v.acc (ub.buf.take rlen)
    acc := v.acc + rlen
    pos := v.pos + rlen }

/-- One round of the inner loop: ask for the block at `pos`. -/
def fetchBlock (interact : ℕ → Option Ubuf) (v : DirFetch) : Option DirFetch :=
  match interact v.pos with
  | none => none
  | some ub => if ub.cmd = ccErr then none else some (v.receive ub)

/-- The inner loop.  It goes round once for each byte at most, unless all replies are empty. -/
def fillBuffer (interact : ℕ → Option Ubuf) : ℕ → DirFetch → Option DirFetch
  | fuel, v =>
      if v.acc < ubufMaxspace ∧ ¬ v.atEof then
        match fuel with
        | 0 => none
        | fuel + 1 => (fetchBlock interact v).bind (fillBuffer interact fuel)
      else some v

/-- The outer loop of `get_dir_blk`, in at most `fuel` rounds. -/
def readDir (interact : ℕ → Option Ubuf) : ℕ → DirFetch → Option (List Rdirent)
  | 0, _ => none
  | fuel + 1, v =>
      match fillBuffer interact (ubufMaxspace + 1) v with
      | none => none
      | some v =>
          let len := min v.acc v.dirblocksize
          let block := readBlock v.buf len 0 len
          if block.2 = .done ∨ v.acc < v.dirblocksize then some (v.dp ++ block.1)
          else
            readDir interact fuel
              { v with
                acc := v.acc - v.dirblocksize
                buf := splice v.buf 0 ((v.buf.take v.acc).drop v.dirblocksize)
                dp := v.dp ++ block.1 }

/-- `get_dir_blk`, in at most `fuel` blocks; `stack` is what the buffer holds at first. -/
def getDirBlk (interact : ℕ → Option Ubuf) (stack : ByteString) (fuel : ℕ) :
    Option (List Rdirent) :=
  readDir interact fuel ⟨0, false, 0, stack, 0, []⟩

/-! ## More answers, the same result

An exchange that does not end keeps `get_dir_blk` from returning; with more answers, or more rounds,
it returns the same. -/

variable {interact interact' : ℕ → Option Ubuf}

theorem fillBuffer_mono (h : ∀ pos ub, interact pos = some ub → interact' pos = some ub)
    {fuel : ℕ} {v v' : DirFetch} (hv : fillBuffer interact fuel v = some v') :
    fillBuffer interact' fuel v = some v' := by
  induction fuel generalizing v with
  | zero =>
      unfold fillBuffer at hv ⊢
      exact hv
  | succ fuel ih =>
      rw [fillBuffer] at hv ⊢
      split at hv
      · rename_i hmore
        obtain ⟨v₁, hfetch, hfill⟩ := Option.bind_eq_some_iff.mp hv
        have hfetch' : fetchBlock interact' v = some v₁ := by
          unfold fetchBlock at hfetch ⊢
          cases hub : interact v.pos with
          | none =>
              rw [hub] at hfetch
              cases hfetch
          | some ub =>
              rw [hub] at hfetch
              rw [h _ _ hub]
              exact hfetch
        rw [if_pos hmore]
        simp only [hfetch', Option.bind_some, ih hfill]
      · rename_i hmore
        rw [if_neg hmore]
        exact hv

theorem readDir_mono (h : ∀ pos ub, interact pos = some ub → interact' pos = some ub)
    {fuel fuel' : ℕ} (hfuel : fuel ≤ fuel') {v : DirFetch} {es : List Rdirent}
    (hv : readDir interact fuel v = some es) : readDir interact' fuel' v = some es := by
  induction fuel generalizing v fuel' with
  | zero => cases hv
  | succ fuel ih =>
      obtain ⟨fuel', rfl⟩ : ∃ n, fuel' = n + 1 := ⟨fuel' - 1, by omega⟩
      rw [readDir] at hv ⊢
      cases hfill : fillBuffer interact (ubufMaxspace + 1) v with
      | none =>
          rw [hfill] at hv
          cases hv
      | some v' =>
          rw [hfill] at hv
          rw [fillBuffer_mono h hfill]
          simp only at hv ⊢
          split at hv
          · rename_i hend
            rw [if_pos hend]
            exact hv
          · rename_i hend
            rw [if_neg hend]
            exact ih (by omega) hv

theorem getDirBlk_mono (h : ∀ pos ub, interact pos = some ub → interact' pos = some ub)
    {fuel fuel' : ℕ} (hfuel : fuel ≤ fuel') {stack : ByteString} {es : List Rdirent}
    (hes : getDirBlk interact stack fuel = some es) :
    getDirBlk interact' stack fuel' = some es := readDir_mono h hfuel hes

end Fsp
