import Mathlib.Data.List.Basic

/-!
# The FIFO cache

`server/fifocache.c`: a ring of `cachesize` slots, each holding a key and an entry.  A new record
always goes into the slot under the cursor, whatever it holds, and the cursor moves on by one.

The source keeps one pointer into the block of keys and one into the block of entries
(`k_next`, `e_next`); here both are slot numbers, that is the offset divided by the size of a key
or an entry.  Every cache made by `f_cache_new` keeps the two on the same slot of the ring, and
that is part of the type.  An unused slot has a null key, which compares equal to no key, and an
entry of zero bytes, which is the `default` of the entry type.  What `f_cache_put` and `f_cache_delete_entry`
pass to the destroy functions is returned to the caller.
-/

namespace Fsp

/-- One key and the entry stored with it. -/
structure Slot (κ α : Type) where
  key : Option κ
  entry : α

structure FifoCache (κ α : Type) where
  slots : List (Slot κ α)
  kNext : ℕ
  eNext : ℕ
  cursors : kNext = eNext
  eNext_lt : eNext < slots.length

namespace FifoCache

variable {κ α : Type}

/-- The number of slots. -/
def cachesize (c : FifoCache κ α) : ℕ := c.slots.length

theorem eNext_lt_cachesize (c : FifoCache κ α) : c.eNext < c.cachesize := c.eNext_lt

section

variable [Inhabited α]

/-- A slot of zero bytes. -/
def zeroSlot : Slot κ α := ⟨none, default⟩

/-- `f_cache_new` -/
def fCacheNew (cachesize : ℕ) (h : 0 < cachesize) : FifoCache κ α where
  slots := List.replicate cachesize zeroSlot
  kNext := 0
  eNext := 0
  cursors := rfl
  eNext_lt := by rw [List.length_replicate]; exact h

/-- The slot with number `i`. -/
def slot (c : FifoCache κ α) (i : ℕ) : Slot κ α := c.slots.getD i zeroSlot

/-- The entry a pointer returned by the cache points to. -/
def entry (c : FifoCache κ α) (i : ℕ) : α := (c.slot i).entry

/-- `f_cache_get_key` -/
def fCacheGetKey (c : FifoCache κ α) (i : ℕ) : Option κ := (c.slot i).key

/-- Change the slots of a cache, but not their number. -/
def setSlots (c : FifoCache κ α) (slots : List (Slot κ α)) (h : slots.length = c.slots.length) :
    FifoCache κ α :=
  { c with slots := slots, eNext_lt := by rw [h]; exact c.eNext_lt }

/-- Write through a pointer to an entry. -/
def setEntry (c : FifoCache κ α) (i : ℕ) (a : α) : FifoCache κ α :=
  c.setSlots (c.slots.set i { c.slot i with entry := a }) List.length_set

/-- The slots after `f_cache_put` has written a key and an entry. -/
def putSlots (c : FifoCache κ α) (key : κ) (a : α) : List (Slot κ α) :=
  let slots := c.slots.set c.kNext { c.slot c.kNext with key := some key }
  slots.set c.eNext { slots.getD c.eNext zeroSlot with entry := a }

theorem length_putSlots (c : FifoCache κ α) (key : κ) (a : α) :
    (c.putSlots key a).length = c.slots.length := by
  simp [putSlots]

/-- `f_cache_put`: the slot the record went to, what it overwrote, and the new cache. -/
def fCachePut (c : FifoCache κ α) (key : κ) (a : α) : ℕ × Slot κ α × FifoCache κ α :=
  let old : Slot κ α := ⟨(c.slot c.kNext).key, (c.slot c.eNext).entry⟩
  if h : c.eNext + 1 = c.cachesize ∨ c.kNext + 1 = c.cachesize then
    (c.eNext, old,
      { slots := c.putSlots key a
        kNext := 0
        eNext := 0
        cursors := rfl
        eNext_lt := by have := c.eNext_lt; rw [length_putSlots]; omega })
  else
    (c.eNext, old,
      { slots := c.putSlots key a
        kNext := c.kNext + 1
        eNext := c.eNext + 1
        cursors := by rw [c.cursors]
        eNext_lt := by
          have := c.eNext_lt
          rw [length_putSlots]
          simp only [cachesize] at h
          omega })

/-- `f_cache_find`: the lowest slot whose key is `key`. -/
def fCacheFind [DecidableEq κ] (c : FifoCache κ α) (key : κ) : Option ℕ :=
  c.slots.findIdx? fun slot => slot.key = some key

/-- `f_cache_delete_entry` for a pointer into the cache: what was destroyed and the new cache. -/
def fCacheDeleteEntry (c : FifoCache κ α) (i : ℕ) : Slot κ α × FifoCache κ α :=
  (c.slot i, c.setSlots (c.slots.set i zeroSlot) List.length_set)

/-! ## The cache as a ring -/

variable {c : FifoCache κ α}

@[simp] theorem cachesize_setEntry (i : ℕ) (a : α) : (c.setEntry i a).cachesize = c.cachesize := by
  simp [setEntry, setSlots, cachesize]

@[simp] theorem cachesize_fCacheDeleteEntry (i : ℕ) :
    (c.fCacheDeleteEntry i).2.cachesize = c.cachesize := by
  simp [fCacheDeleteEntry, setSlots, cachesize]

@[simp] theorem cachesize_fCachePut (key : κ) (a : α) :
    (c.fCachePut key a).2.2.cachesize = c.cachesize := by
  unfold fCachePut
  split <;> exact length_putSlots c key a

@[simp] theorem fst_fCachePut (key : κ) (a : α) : (c.fCachePut key a).1 = c.eNext := by
  unfold fCachePut
  split <;> rfl

/-- `f_cache_put` overwrites the slot under the cursor. -/
@[simp] theorem old_fCachePut (key : κ) (a : α) : (c.fCachePut key a).2.1 = c.slot c.eNext := by
  unfold fCachePut
  split <;> simp only [c.cursors]

/-! ### What the slots hold -/

theorem slot_of_lt {i : ℕ} (hi : i < c.slots.length) : c.slot i = c.slots[i] := by
  simp [slot, List.getD_eq_getElem?_getD, List.getElem?_eq_getElem hi]

theorem slot_of_length_le {i : ℕ} (hi : c.slots.length ≤ i) : c.slot i = zeroSlot := by
  simp [slot, List.getD_eq_getElem?_getD, List.getElem?_eq_none hi]

/-- `f_cache_put` changes the slot under the cursor. -/
theorem slots_fCachePut (key : κ) (a : α) :
    (c.fCachePut key a).2.2.slots = c.slots.set c.eNext ⟨some key, a⟩ := by
  have hlt := c.eNext_lt
  have hself : (c.slots.set c.eNext { c.slot c.eNext with key := some key }).getD c.eNext
      zeroSlot = { c.slot c.eNext with key := some key } := by
    simp [List.getD_eq_getElem?_getD, hlt]
  have hput : c.putSlots key a = c.slots.set c.eNext ⟨some key, a⟩ := by
    simp only [putSlots, c.cursors]
    rw [hself, List.set_set]
  rw [← hput]
  unfold fCachePut
  split <;> rfl

theorem slot_fCacheNew (cachesize : ℕ) (h : 0 < cachesize) (i : ℕ) :
    (fCacheNew cachesize h : FifoCache κ α).slot i = zeroSlot := by
  by_cases hi : i < cachesize
  · simp [slot, fCacheNew, hi]
  · simp [slot, fCacheNew, hi]

theorem slot_setEntry (i j : ℕ) (a : α) :
    (c.setEntry i a).slot j =
      if i = j ∧ i < c.cachesize then { c.slot j with entry := a } else c.slot j := by
  unfold setEntry setSlots slot cachesize
  rw [List.getD_eq_getElem?_getD, List.getElem?_set]
  by_cases hij : i = j
  · subst hij
    by_cases hlt : i < c.slots.length
    · simp [hlt, List.getD_eq_getElem?_getD]
    · simp [hlt, List.getD_eq_getElem?_getD]
  · simp [hij, List.getD_eq_getElem?_getD]

theorem slot_fCacheDeleteEntry (i j : ℕ) :
    (c.fCacheDeleteEntry i).2.slot j = if i = j then zeroSlot else c.slot j := by
  unfold fCacheDeleteEntry setSlots slot
  rw [List.getD_eq_getElem?_getD, List.getElem?_set]
  by_cases hij : i = j
  · subst hij
    by_cases hlt : i < c.slots.length <;> simp [hlt]
  · simp [hij, List.getD_eq_getElem?_getD]

theorem getD_putSlots (key : κ) (a : α) (j : ℕ) :
    (c.putSlots key a).getD j zeroSlot = if c.eNext = j then ⟨some key, a⟩ else c.slot j := by
  have hlt := c.eNext_lt
  simp only [putSlots, slot]
  rw [c.cursors, List.getD_eq_getElem?_getD, List.getElem?_set]
  by_cases hj : c.eNext = j
  · subst hj
    simp [hlt, List.getD_eq_getElem?_getD]
  · simp [hj, List.getD_eq_getElem?_getD]

/-- `f_cache_put` fills the slot under the cursor and no other. -/
theorem slot_fCachePut (key : κ) (a : α) (j : ℕ) :
    (c.fCachePut key a).2.2.slot j = if c.eNext = j then ⟨some key, a⟩ else c.slot j := by
  unfold fCachePut
  split <;> exact getD_putSlots key a j

/-- What was put into the cache is found where it was put. -/
theorem entry_fCachePut (key : κ) (a : α) :
    (c.fCachePut key a).2.2.entry (c.fCachePut key a).1 = a := by
  rw [entry, slot_fCachePut, fst_fCachePut, if_pos rfl]

theorem key_fCachePut_self (key : κ) (a : α) :
    (c.fCachePut key a).2.2.fCacheGetKey (c.fCachePut key a).1 = some key := by
  rw [fCacheGetKey, slot_fCachePut, fst_fCachePut, if_pos rfl]

theorem key_setEntry (i j : ℕ) (a : α) :
    (c.setEntry i a).fCacheGetKey j = c.fCacheGetKey j := by
  unfold fCacheGetKey
  rw [slot_setEntry]
  split <;> rfl

theorem entry_setEntry_self {i : ℕ} (h : i < c.cachesize) (a : α) :
    (c.setEntry i a).entry i = a := by
  unfold entry
  rw [slot_setEntry, if_pos ⟨rfl, h⟩]

/-! ### Searching -/

variable [DecidableEq κ]

theorem key_of_fCacheFind {key : κ} {i : ℕ} (h : c.fCacheFind key = some i) :
    c.fCacheGetKey i = some key := by
  obtain ⟨hi, hkey, _⟩ := List.findIdx?_eq_some_iff_getElem.mp h
  unfold fCacheGetKey slot
  rw [List.getD_eq_getElem?_getD, List.getElem?_eq_getElem hi]
  simpa using hkey

omit [Inhabited α] in
theorem lt_of_fCacheFind {key : κ} {i : ℕ} (h : c.fCacheFind key = some i) :
    i < c.cachesize :=
  (List.findIdx?_eq_some_iff_getElem.mp h).1

theorem fCacheFind_eq_none {key : κ} :
    c.fCacheFind key = none ↔ ∀ i, c.fCacheGetKey i ≠ some key := by
  unfold fCacheFind fCacheGetKey slot
  rw [List.findIdx?_eq_none_iff]
  constructor
  · intro h i
    by_cases hi : i < c.slots.length
    · have := h c.slots[i] (List.getElem_mem hi)
      simpa [List.getD_eq_getElem?_getD, hi] using this
    · simp [List.getD_eq_getElem?_getD, hi, zeroSlot]
  · intro h slot hslot
    obtain ⟨i, hi, rfl⟩ := List.mem_iff_getElem.mp hslot
    simpa [List.getD_eq_getElem?_getD, hi] using h i

end

end FifoCache

end Fsp
