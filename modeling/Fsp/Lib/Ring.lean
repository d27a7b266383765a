import Mathlib.Data.List.Basic

/-!
# Rings of slots

A fixed number of slots, and a cursor that goes round: what is put in goes into the slot under the
cursor, whatever is there, and the cursor moves on.  Slots can be emptied one by one, or all at
once, which also brings the cursor back to the start.

* A value stays in its slot until the slot is emptied or as many values were put in after it as
  there are slots (`slot_run_put`, `next_run_put`).
* What was put in is what was taken out and what is still there (`count_removals`), so that after a
  clear everything has been taken out as often as it was put in.
-/

namespace Effect

/-- The slots and the cursor. -/
structure SlotRing (α : Type) where
  slots : List (Option α)
  next : ℕ
  next_lt : next < slots.length

/-- What can be done to a ring. -/
inductive RingOp (α : Type) where
  | put (a : α)
  | erase (i : ℕ)
  | clear

namespace SlotRing

variable {α : Type}

/-- A ring of `n` empty slots. -/
def empty (n : ℕ) (h : 0 < n) : SlotRing α :=
  ⟨List.replicate n none, 0, by rw [List.length_replicate]; exact h⟩

/-- The value in slot `i`. -/
def slot (r : SlotRing α) (i : ℕ) : Option α := r.slots.getD i none

/-- The number of slots. -/
def size (r : SlotRing α) : ℕ := r.slots.length

theorem next_lt_size (r : SlotRing α) : r.next < r.size := r.next_lt

theorem size_pos (r : SlotRing α) : 0 < r.size := Nat.lt_of_le_of_lt (Nat.zero_le _) r.next_lt

/-- One operation. -/
def apply (r : SlotRing α) : RingOp α → SlotRing α
  | .put a => ⟨r.slots.set r.next (some a), (r.next + 1) % r.size, by
      rw [List.length_set]
      exact Nat.mod_lt _ r.size_pos⟩
  | .erase i => ⟨r.slots.set i none, r.next, by rw [List.length_set]; exact r.next_lt⟩
  | .clear => ⟨List.replicate r.size none, 0, by rw [List.length_replicate]; exact r.size_pos⟩

/-- What one operation takes out of its slots. -/
def removed (r : SlotRing α) : RingOp α → List (Option α)
  | .put _ => [r.slot r.next]
  | .erase i => [r.slot i]
  | .clear => r.slots

/-- A sequence of operations. -/
def run (r : SlotRing α) (ops : List (RingOp α)) : SlotRing α := ops.foldl apply r

/-- What a sequence of operations takes out. -/
def removals (r : SlotRing α) : List (RingOp α) → List (Option α)
  | [] => []
  | op :: ops => r.removed op ++ (r.apply op).removals ops

end SlotRing

/-- What a sequence of operations puts in. -/
def RingOp.puts {α : Type} : List (RingOp α) → List α
  | [] => []
  | .put a :: ops => a :: puts ops
  | .erase _ :: ops | .clear :: ops => puts ops

theorem RingOp.puts_append {α : Type} (ops ops' : List (RingOp α)) :
    puts (ops ++ ops') = puts ops ++ puts ops' := by
  induction ops with
  | nil => rfl
  | cons op ops ih => cases op <;> simp [puts, ih]

theorem RingOp.puts_erase {α : Type} (is : List ℕ) : puts (is.map (erase (α := α))) = [] := by
  induction is with
  | nil => rfl
  | cons i is ih => exact ih

/-- The operation does not empty slot `i`. -/
def RingOp.Spares {α : Type} (i : ℕ) : RingOp α → Prop
  | .put _ => True
  | .erase j => j ≠ i
  | .clear => False

namespace SlotRing

open RingOp

variable {α : Type} (r : SlotRing α)

@[simp] theorem run_nil : r.run [] = r := rfl

@[simp] theorem run_cons (op : RingOp α) (ops : List (RingOp α)) :
    r.run (op :: ops) = (r.apply op).run ops := rfl

theorem run_append (ops ops' : List (RingOp α)) :
    r.run (ops ++ ops') = (r.run ops).run ops' := List.foldl_append

theorem removals_append (ops ops' : List (RingOp α)) :
    r.removals (ops ++ ops') = r.removals ops ++ (r.run ops).removals ops' := by
  induction ops generalizing r with
  | nil => rfl
  | cons op ops ih => rw [List.cons_append, removals, removals, ih, List.append_assoc, run_cons]

theorem removals_singleton (op : RingOp α) : r.removals [op] = r.removed op := List.append_nil _

@[simp] theorem size_apply (op : RingOp α) : (r.apply op).size = r.size := by
  cases op <;> simp [apply, size]

@[simp] theorem size_run (ops : List (RingOp α)) : (r.run ops).size = r.size := by
  induction ops generalizing r with
  | nil => rfl
  | cons op ops ih => rw [run_cons, ih, size_apply]

theorem slot_eq_getElem? (i : ℕ) : r.slot i = (r.slots[i]?).getD none := by
  rw [slot, List.getD_eq_getElem?_getD]

/-! ## What is in the slots -/

theorem slots_eq_map : r.slots = (List.range r.size).map r.slot := by
  apply List.ext_getElem
  · simp [size]
  · intro i hi hi'
    simp [slot, List.getD_eq_getElem?_getD, hi]

theorem slot_put (a : α) (i : ℕ) :
    (r.apply (.put a)).slot i = if r.next = i then some a else r.slot i := by
  rw [slot_eq_getElem?, slot_eq_getElem?, apply, List.getElem?_set]
  by_cases hi : r.next = i
  · rw [if_pos hi, if_pos hi, if_pos (hi ▸ r.next_lt)]
    rfl
  · rw [if_neg hi, if_neg hi]

theorem slot_erase (i j : ℕ) :
    (r.apply (.erase i)).slot j = if i = j then none else r.slot j := by
  rw [slot_eq_getElem?, slot_eq_getElem?, apply, List.getElem?_set]
  by_cases hij : i = j
  · rw [if_pos hij, if_pos hij]
    split <;> rfl
  · rw [if_neg hij, if_neg hij]

theorem slot_clear (i : ℕ) : (r.apply .clear).slot i = none := by
  simp only [slot_eq_getElem?, apply, List.getElem?_replicate]
  split <;> rfl

theorem slot_empty (n : ℕ) (h : 0 < n) (i : ℕ) : (empty n h : SlotRing α).slot i = none := by
  simp only [slot_eq_getElem?, empty, List.getElem?_replicate]
  split <;> rfl

/-! ## How long a value stays -/

/-- Where a ring is not cleared, the cursor counts what is put in. -/
theorem next_run {ops : List (RingOp α)} (h : ∀ op ∈ ops, op ≠ .clear) :
    (r.run ops).next = (r.next + (puts ops).length) % r.size := by
  induction ops generalizing r with
  | nil => exact (Nat.mod_eq_of_lt r.next_lt).symm
  | cons op ops ih =>
      have hops := ih (r.apply op) fun op' hop' => h op' (List.mem_cons_of_mem _ hop')
      rw [run_cons, hops, size_apply]
      cases op with
      | put a =>
          show ((r.next + 1) % r.size + _) % r.size = _
          rw [Nat.mod_add_mod, puts, List.length_cons]
          congr 1
          omega
      | erase i => rfl
      | clear => exact absurd rfl (h _ List.mem_cons_self)

/-- A value stays while the operations spare its slot and the cursor does not get there. -/
theorem slot_run {ops : List (RingOp α)} {i : ℕ} (h : ∀ op ∈ ops, op.Spares i)
    (hfar : ∀ k, k < (puts ops).length → (r.next + k) % r.size ≠ i) :
    (r.run ops).slot i = r.slot i := by
  induction ops generalizing r with
  | nil => rfl
  | cons op ops ih =>
      have hspares := h op List.mem_cons_self
      have hrest : ∀ op' ∈ ops, op'.Spares i := fun op' hop' => h op' (List.mem_cons_of_mem _ hop')
      rw [run_cons]
      cases op with
      | put a =>
          have hnext : r.next ≠ i := by
            have := hfar 0 (by simp [puts])
            rwa [Nat.add_zero, Nat.mod_eq_of_lt r.next_lt_size] at this
          rw [ih _ hrest, slot_put, if_neg hnext]
          intro k hk
          rw [size_apply]
          show ((r.next + 1) % r.size + k) % r.size ≠ i
          rw [Nat.mod_add_mod, Nat.add_assoc, Nat.add_comm 1]
          exact hfar (k + 1) (by simpa [puts] using hk)
      | erase j =>
          rw [ih _ hrest, slot_erase, if_neg hspares]
          intro k hk
          rw [size_apply]
          exact hfar k hk
      | clear => exact absurd hspares id

/-- A value stays in its slot while fewer values are put in after it than there are slots. -/
theorem slot_run_put {ops : List (RingOp α)} (a : α) (h : ∀ op ∈ ops, op.Spares r.next)
    (hputs : (puts ops).length < r.size) :
    ((r.apply (.put a)).run ops).slot r.next = some a := by
  rw [slot_run _ h, slot_put, if_pos rfl]
  intro k hk
  rw [size_apply]
  show ((r.next + 1) % r.size + k) % r.size ≠ r.next
  have hlt := r.next_lt_size
  rw [Nat.mod_add_mod, Nat.add_assoc]
  intro heq
  rcases Nat.lt_or_ge (r.next + (1 + k)) r.size with hin | hout
  · rw [Nat.mod_eq_of_lt hin] at heq
    omega
  · rw [Nat.mod_eq_sub_mod hout, Nat.mod_eq_of_lt (by omega)] at heq
    omega

/-- When one value fewer was put in after it than there are slots, the next one takes its place. -/
theorem next_run_put {ops : List (RingOp α)} (a : α) (h : ∀ op ∈ ops, op ≠ .clear)
    (hputs : (puts ops).length + 1 = r.size) :
    ((r.apply (.put a)).run ops).next = r.next := by
  rw [next_run _ h, size_apply]
  show ((r.next + 1) % r.size + _) % r.size = r.next
  rw [Nat.mod_add_mod, Nat.add_assoc, Nat.add_comm 1, hputs, Nat.add_mod_right,
    Nat.mod_eq_of_lt r.next_lt_size]

/-! ## What is taken out -/

variable [DecidableEq α]

theorem count_set_slot {i : ℕ} (hi : i < r.size) (v : Option α) (a : α) :
    (r.slots.set i v).count (some a) + [r.slot i].count (some a) =
      r.slots.count (some a) + [v].count (some a) := by
  have hlt : i < r.slots.length := hi
  have hslot : r.slot i = r.slots[i] := by
    rw [slot_eq_getElem?, List.getElem?_eq_getElem hi]
    rfl
  have hmem : r.slots[i] = some a → 0 < r.slots.count (some a) := fun h =>
    List.count_pos_iff.mpr (h ▸ List.getElem_mem hi)
  rw [List.count_set hlt, hslot, List.count_singleton, List.count_singleton]
  by_cases h : r.slots[i] = some a
  · have := hmem h
    simp only [h, beq_self_eq_true, if_true]
    omega
  · simp only [beq_iff_eq, h, if_false]
    omega

/-- One operation: what is put in and what is taken out make up for the difference. -/
theorem count_removed (op : RingOp α) (a : α) :
    (r.apply op).slots.count (some a) + (r.removed op).count (some a) =
      r.slots.count (some a) + (puts [op]).count a := by
  cases op with
  | put b =>
      have hcount := r.count_set_slot r.next_lt (some b) a
      show (r.slots.set r.next (some b)).count (some a) + _ = _ + [b].count a
      rw [removed, hcount]
      simp [List.count_singleton]
  | erase i =>
      show (r.slots.set i none).count (some a) + _ = _ + [].count a
      rw [removed]
      rcases Nat.lt_or_ge i r.size with hi | hi
      · have hcount := r.count_set_slot hi none a
        simpa using hcount
      · have hslot : r.slot i = none := by
          rw [slot_eq_getElem?, List.getElem?_eq_none hi]
          rfl
        rw [List.set_eq_of_length_le hi, hslot]
        simp
  | clear => simp [apply, removed, puts, List.count_replicate]

/-- What is put in is what is taken out and what is still there. -/
theorem count_removals (ops : List (RingOp α)) (a : α) :
    (r.run ops).slots.count (some a) + (r.removals ops).count (some a) =
      r.slots.count (some a) + (puts ops).count a := by
  induction ops generalizing r with
  | nil => simp [removals, puts]
  | cons op ops ih =>
      have hop := r.count_removed op a
      have hops := ih (r.apply op)
      have hputs : (puts (op :: ops)).count a = (puts [op]).count a + (puts ops).count a := by
        cases op with
        | put b => simp [puts, List.count_cons, Nat.add_comm]
        | erase i => simp [puts]
        | clear => simp [puts]
      rw [run_cons, removals, List.count_append, hputs]
      omega

theorem count_empty (n : ℕ) (h : 0 < n) (a : α) :
    (empty n h : SlotRing α).slots.count (some a) = 0 := by
  simp [empty, List.count_replicate]

end SlotRing

end Effect
