import Mathlib.Algebra.GroupWithZero.Nat
import Mathlib.Data.List.Basic
import Mathlib.Data.List.TakeWhile

/-!
# Byte strings

Big-endian words, zero-terminated strings and splicing, over lists of bytes.

* `be16`/`ofBe16` and `be32`/`ofBe32` write and read words most significant byte first, and are
  inverse to each other;
* `cstr l` is the C string that starts at the head of `l`: what precedes the first zero;
* `splice l i new` is `l` after `new` was copied into it at offset `i`.
-/

namespace Bytes

/-! ## Big-endian words -/

/-- The two bytes of a word, high byte first. -/
def be16 (w : UInt16) : List UInt8 :=
  [UInt8.ofNat (w.toNat / 256), UInt8.ofNat w.toNat]

/-- The word whose high byte is `hi` and low byte is `lo`. -/
def ofBe16 (hi lo : UInt8) : UInt16 := UInt16.ofNat (hi.toNat * 256 + lo.toNat)

/-- The four bytes of a long word, high byte first. -/
def be32 (w : UInt32) : List UInt8 :=
  [UInt8.ofNat (w.toNat / 16777216), UInt8.ofNat (w.toNat / 65536),
    UInt8.ofNat (w.toNat / 256), UInt8.ofNat w.toNat]

/-- The long word with the given bytes, high byte first. -/
def ofBe32 (b₃ b₂ b₁ b₀ : UInt8) : UInt32 :=
  UInt32.ofNat (b₃.toNat * 16777216 + b₂.toNat * 65536 + b₁.toNat * 256 + b₀.toNat)

@[simp] theorem length_be16 (w : UInt16) : (be16 w).length = 2 := rfl

@[simp] theorem length_be32 (w : UInt32) : (be32 w).length = 4 := rfl

theorem ofBe16_be16 (w : UInt16) :
    ofBe16 (UInt8.ofNat (w.toNat / 256)) (UInt8.ofNat w.toNat) = w := by
  apply UInt16.toNat_inj.mp
  have hw := w.toNat_lt
  simp only [ofBe16, UInt8.toNat_ofNat', UInt16.toNat_ofNat']
  omega

theorem ofBe32_be32 (w : UInt32) :
    ofBe32 (UInt8.ofNat (w.toNat / 16777216)) (UInt8.ofNat (w.toNat / 65536))
      (UInt8.ofNat (w.toNat / 256)) (UInt8.ofNat w.toNat) = w := by
  apply UInt32.toNat_inj.mp
  have hw := w.toNat_lt
  simp only [ofBe32, UInt8.toNat_ofNat', UInt32.toNat_ofNat']
  omega

theorem be16_ofBe16 (hi lo : UInt8) : be16 (ofBe16 hi lo) = [hi, lo] := by
  have hhi := hi.toNat_lt
  have hlo := lo.toNat_lt
  simp only [be16, ofBe16, List.cons.injEq, and_true]
  refine ⟨UInt8.toNat_inj.mp ?_, UInt8.toNat_inj.mp ?_⟩ <;>
    simp only [UInt8.toNat_ofNat', UInt16.toNat_ofNat'] <;> omega

theorem be32_ofBe32 (b₃ b₂ b₁ b₀ : UInt8) : be32 (ofBe32 b₃ b₂ b₁ b₀) = [b₃, b₂, b₁, b₀] := by
  have h₃ := b₃.toNat_lt
  have h₂ := b₂.toNat_lt
  have h₁ := b₁.toNat_lt
  have h₀ := b₀.toNat_lt
  simp only [be32, ofBe32, List.cons.injEq, and_true]
  refine ⟨UInt8.toNat_inj.mp ?_, UInt8.toNat_inj.mp ?_, UInt8.toNat_inj.mp ?_,
    UInt8.toNat_inj.mp ?_⟩ <;> simp only [UInt8.toNat_ofNat', UInt32.toNat_ofNat'] <;> omega

/-- What holds of the 256 bytes holds of every byte. -/
theorem forall_byte {P : UInt8 → Prop} (h : ∀ n : Fin 256, P (UInt8.ofNat n.val)) (b : UInt8) : P b := by
  have hb := h ⟨b.toNat, b.toNat_lt⟩
  rwa [UInt8.ofNat_toNat] at hb

/-! ## Zero-terminated strings -/

/-- The C string that starts at the head of `l`. -/
def cstr (l : List UInt8) : List UInt8 := l.takeWhile (· != 0)

theorem zero_notMem_cstr (l : List UInt8) : (0 : UInt8) ∉ cstr l := by
  intro h
  have := List.mem_takeWhile_imp h
  simp at this

theorem cstr_eq_self {l : List UInt8} (h : (0 : UInt8) ∉ l) : cstr l = l := by
  refine List.takeWhile_eq_self_iff.mpr fun b hb => ?_
  simp only [bne_iff_ne, ne_eq]
  rintro rfl
  exact h hb

/-- What follows the end of a C string does not matter. -/
theorem cstr_append_of_mem {l : List UInt8} (h : (0 : UInt8) ∈ l) (rest : List UInt8) :
    cstr (l ++ rest) = cstr l := by
  induction l with
  | nil => simp at h
  | cons c l ih =>
      unfold cstr at ih ⊢
      by_cases hc : c = 0
      · simp [hc]
      · have hl : (0 : UInt8) ∈ l := by simpa [Ne.symm hc] using h
        simp [hc, ih hl]

/-- A zero ends a C string. -/
theorem length_cstr_le {l : List UInt8} {i : Nat} (hi : i < l.length) (h : l.getD i 0 = 0) :
    (cstr l).length ≤ i := by
  induction l generalizing i with
  | nil => simp at hi
  | cons c l ih =>
      unfold cstr at ih ⊢
      by_cases hc : c = 0
      · simp [hc]
      · cases i with
        | zero => exact absurd h (by simpa using hc)
        | succ i => simpa [hc] using ih (by simpa using hi) (by simpa using h)

theorem cstr_append_zero {l : List UInt8} (h : (0 : UInt8) ∉ l) (rest : List UInt8) :
    cstr (l ++ 0 :: rest) = l := by
  unfold cstr
  rw [List.takeWhile_append_of_pos]
  · simp
  · intro b hb
    simp only [bne_iff_ne, ne_eq]
    rintro rfl
    exact h hb

/-- The bytes of an ASCII text. -/
def text (s : String) : List UInt8 := s.toList.map fun c => UInt8.ofNat c.toNat

theorem length_text_ofList (l : List Char) : (text (String.ofList l)).length = l.length := by
  rw [text, List.length_map, String.length_toList, String.length_ofList]

/-- The length of a text of two parts, from the lengths of the parts. -/
theorem length_text_append {s t : String} {m n : ℕ} (hs : (text s).length = m)
    (ht : (text t).length = n) : (text (s ++ t)).length = m + n := by
  rw [← hs, ← ht, text, String.toList_append, List.map_append, List.length_append]
  rfl

/-! ## Splicing -/

/-- The array `l` after `new` was copied into it at offset `i`. -/
def splice (l : List UInt8) (i : Nat) (new : List UInt8) : List UInt8 :=
  l.take i ++ new ++ l.drop (i + new.length)

theorem length_splice {l : List UInt8} {i : Nat} {b : List UInt8}
    (h : i + b.length ≤ l.length) : (splice l i b).length = l.length := by
  simp only [splice, List.length_append, List.length_take, List.length_drop]
  omega

theorem take_splice {l : List UInt8} {i : Nat} {b : List UInt8} (h : i ≤ l.length) :
    (splice l i b).take (i + b.length) = l.take i ++ b := by
  unfold splice
  rw [List.take_left']
  simp only [List.length_append, List.length_take]
  omega

theorem drop_splice {l : List UInt8} {i : Nat} {b : List UInt8} (h : i ≤ l.length) :
    (splice l i b).drop (i + b.length) = l.drop (i + b.length) := by
  unfold splice
  rw [List.drop_left']
  simp only [List.length_append, List.length_take]
  omega

end Bytes
