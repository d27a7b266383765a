import Fsp.Wire

/-!
# Memory

Blocks of memory, for the code that works on them through pointers.  A pointer is an offset into its
block.
-/

namespace Fsp

open Bytes

/-- The bytes from a pointer on. -/
abbrev Mem := ℕ → UInt8

/-- The `n` bytes at offset `off`. -/
def chunk (m : Mem) (off n : ℕ) : ByteString := (List.range n).map fun j => m (off + j)

/-- `memcpy` of `n` bytes to offset `off`. -/
def memcpy (m : Mem) (off : ℕ) (src : Mem) (n : ℕ) : Mem := fun j =>
  if off ≤ j ∧ j < off + n then src (j - off) else m j

/-- `memset` of `n` bytes at offset `off` to zero. -/
def memzero (m : Mem) (off n : ℕ) : Mem := fun j => if off ≤ j ∧ j < off + n then 0 else m j

theorem chunk_congr {m m' : Mem} {off off' n : ℕ} (h : ∀ j, j < n → m (off + j) = m' (off' + j)) :
    chunk m off n = chunk m' off' n :=
  List.map_congr_left fun j hj => h j (List.mem_range.mp hj)

theorem chunk_zero (off n : ℕ) : chunk (fun _ => 0) off n = List.replicate n 0 := by
  simp [chunk]

theorem chunk_memcpy_self (m : Mem) (off : ℕ) (src : Mem) (n : ℕ) :
    chunk (memcpy m off src n) off n = chunk src 0 n := by
  apply chunk_congr
  intro j hj
  rw [memcpy, if_pos ⟨by omega, by omega⟩]
  congr 1
  omega

theorem chunk_memzero_of_le (m : Mem) {off off' n n' : ℕ} (h : off' ≤ off)
    (h' : off + n ≤ off' + n') : chunk (memzero m off' n') off n = List.replicate n 0 := by
  rw [← chunk_zero off n]
  apply chunk_congr
  intro j hj
  rw [memzero, if_pos ⟨by omega, by omega⟩]

end Fsp
