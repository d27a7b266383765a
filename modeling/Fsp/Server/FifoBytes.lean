import Fsp.Lib.Ring
import Fsp.Memory
import Mathlib.Data.List.Induction

/-!
# The FIFO cache in memory

`server/fifocache.c`, on the bytes: a block of keys and a block of entries, a cursor into each, and
the ends of both.  Pointers are offsets into their blocks.  The products of sizes and numbers of
slots are computed with 32 bits, as in the source, while the blocks are as large as they should be.

A program that uses a cache (`Caller`) puts, finds, deletes and clears, and deletes through pointers
that it got before.  As long as both products fit into 32 bits, the cache is a ring of slots to it
(`simulates_run`): the two cursors stay on one slot, pointers denote slots, and the destroy functions
get what is taken out of the ring.  Where a product does not fit, `f_cache_clear` leaves keys behind.
-/

namespace Fsp

open Bytes Effect

/-- A key or an entry that was passed to its destroy function. -/
inductive Destroyed where
  | key (bytes : ByteString)
  | entry (bytes : ByteString)
  deriving DecidableEq

/-! ## The cache -/

structure ByteCache where
  cachesize : UInt32
  eHead : Mem
  eNext : ℕ
  eStop : Option ℕ
  entrysize : UInt32
  kHead : Mem
  kNext : ℕ
  kStop : Option ℕ
  keysize : UInt32

namespace ByteCache

/-- `f_cache_new`, where there is enough memory. -/
def fCacheNew (cachesize entrysize keysize : UInt32) : Option ByteCache :=
  if cachesize = 0 then none
  else if entrysize = 0 ∧ keysize = 0 then none
  else some
    { cachesize := cachesize
      eHead := fun _ => 0
      eNext := 0
      eStop := if entrysize = 0 then none else some (entrysize * cachesize).toNat
      entrysize := entrysize
      kHead := fun _ => 0
      kNext := 0
      kStop := if keysize = 0 then none else some (keysize * cachesize).toNat
      keysize := keysize }

/-- `i*cache->keysize` -/
def keyOff (c : ByteCache) (i : ℕ) : ℕ := (UInt32.ofNat i * c.keysize).toNat

/-- `i*cache->entrysize` -/
def entryOff (c : ByteCache) (i : ℕ) : ℕ := (UInt32.ofNat i * c.entrysize).toNat

/-- The key and the entry at two offsets, as they are passed to the destroy functions. -/
def destroy (c : ByteCache) (k e : ℕ) : List Destroyed :=
  [.key (chunk c.kHead k c.keysize.toNat), .entry (chunk c.eHead e c.entrysize.toNat)]

/-- `f_cache_put`: the pointer to the entry, what was destroyed, and the cache afterwards. -/
def fCachePut (c : ByteCache) (key data : Mem) : ℕ × List Destroyed × ByteCache :=
  let destroyed := c.destroy c.kNext c.eNext
  let where_ := c.eNext
  let c := { c with
    kHead := memcpy c.kHead c.kNext key c.keysize.toNat
    eHead := memcpy c.eHead c.eNext data c.entrysize.toNat
    eNext := c.eNext + c.entrysize.toNat
    kNext := c.kNext + c.keysize.toNat }
  let c := if some c.eNext = c.eStop ∨ some c.kNext = c.kStop then { c with eNext := 0, kNext := 0 }
    else c
  (where_, destroyed, c)

/-- `!k_compare_func(key,cache->k_head+i*cache->keysize)` -/
def keyMatches (equal : ByteString → ByteString → Bool) (c : ByteCache) (key : Mem) (i : ℕ) : Bool :=
  equal (chunk key 0 c.keysize.toNat) (chunk c.kHead (c.keyOff i) c.keysize.toNat)

/-- `f_cache_find`, where `equal` tells whether the compare function returns 0. -/
def fCacheFind (equal : ByteString → ByteString → Bool) (c : ByteCache) (key : Mem) : Option ℕ :=
  if c.keysize = 0 then none
  else ((List.range c.cachesize.toNat).find? (c.keyMatches equal key)).map c.entryOff

/-- `f_cache_clear` -/
def fCacheClear (c : ByteCache) : List Destroyed × ByteCache :=
  ((List.range c.cachesize.toNat).flatMap fun i => c.destroy (c.keyOff i) (c.entryOff i),
    { c with
      kHead := memzero c.kHead 0 (c.cachesize * c.keysize).toNat
      eHead := memzero c.eHead 0 (c.cachesize * c.entrysize).toNat
      kNext := 0
      eNext := 0 })

/-- `f_cache_delete_entry`: whether the pointer is one into the cache, what was destroyed, and the
cache afterwards.  The null pointer is not into the cache. -/
def fCacheDeleteEntry (c : ByteCache) (entry : Option ℕ) : Bool × List Destroyed × ByteCache :=
  match entry with
  | none => (false, [], c)
  | some e =>
      if c.entrysize = 0 then (false, [], c)
      else if c.eStop.getD 0 ≤ e then (false, [], c)
      else
        let k := c.keyOff (e / c.entrysize.toNat % 2 ^ 32)
        (true, c.destroy k e, { c with
          eHead := memzero c.eHead e c.entrysize.toNat
          kHead := memzero c.kHead k c.keysize.toNat })

/-- The loop of `f_cache_delete_by_key` over the slots `is`. -/
def deleteByKeyLoop (equal : ByteString → ByteString → Bool) (key : Mem) :
    List ℕ → ByteCache → List Destroyed × ByteCache
  | [], c => ([], c)
  | i :: is, c =>
      if c.keyMatches equal key i then
        let (_, destroyed, c) := c.fCacheDeleteEntry (some (c.entryOff i))
        let (destroyed', c) := deleteByKeyLoop equal key is c
        (destroyed ++ destroyed', c)
      else deleteByKeyLoop equal key is c

/-- `f_cache_delete_by_key` -/
def fCacheDeleteByKey (equal : ByteString → ByteString → Bool) (c : ByteCache) (key : Mem) :
    List Destroyed × ByteCache :=
  deleteByKeyLoop equal key (List.range c.cachesize.toNat) c

end ByteCache

/-! ## A program that uses a cache -/

/-- What a program does with a cache.  It deletes through the pointer that it got from its `n`th put
or search. -/
inductive CacheOp where
  | put (key data : Mem)
  | find (key : Mem)
  | deleteEntry (n : ℕ)
  | deleteByKey (key : Mem)
  | clear

/-- The cache, the pointers that were returned, and what was destroyed so far. -/
structure Caller where
  cache : ByteCache
  results : List (Option ℕ)
  destroyed : List Destroyed

namespace Caller

/-- One operation. -/
def step (equal : ByteString → ByteString → Bool) (s : Caller) : CacheOp → Caller
  | .put key data =>
      let (p, destroyed, c) := s.cache.fCachePut key data
      ⟨c, s.results ++ [some p], s.destroyed ++ destroyed⟩
  | .find key => { s with results := s.results ++ [s.cache.fCacheFind equal key] }
  | .deleteEntry n =>
      let (_, destroyed, c) := s.cache.fCacheDeleteEntry (s.results.getD n none)
      ⟨c, s.results, s.destroyed ++ destroyed⟩
  | .deleteByKey key =>
      let (destroyed, c) := s.cache.fCacheDeleteByKey equal key
      ⟨c, s.results, s.destroyed ++ destroyed⟩
  | .clear =>
      let (destroyed, c) := s.cache.fCacheClear
      ⟨c, s.results, s.destroyed ++ destroyed⟩

/-- A sequence of operations on a new cache. -/
def run (equal : ByteString → ByteString → Bool) (c : ByteCache) (ops : List CacheOp) : Caller :=
  ops.foldl (step equal) ⟨c, [], []⟩

end Caller

/-! ## The ring -/

/-- Some byte is not zero. -/
def NonZero (bytes : ByteString) : Prop := ∃ b ∈ bytes, b ≠ 0

/-- A compare function: it finds two keys equal if neither is all zeros and they have the same
value.  For keys that are compared byte by byte, the value is the key itself; for keys that are
pointers, it is what they point to. -/
structure KeyCompare (κ : Type) where
  equal : ByteString → ByteString → Bool
  val : ByteString → κ
  equal_iff : ∀ a b, equal a b = true ↔ NonZero a ∧ NonZero b ∧ val a = val b

/-- What `f_cache_put` copies into a slot, with a number that tells the puts apart. -/
structure Stored where
  serial : ℕ
  key : ByteString
  entry : ByteString
  deriving DecidableEq

/-- The sizes of a cache with keys and entries. -/
structure CacheSizes where
  cachesize : UInt32
  entrysize : UInt32
  keysize : UInt32
  cachesize_pos : 0 < cachesize.toNat
  entrysize_pos : 0 < entrysize.toNat
  keysize_pos : 0 < keysize.toNat

/-- The sizes of both blocks have 32 bits. -/
def CacheSizes.Fits (s : CacheSizes) : Prop :=
  s.cachesize.toNat * s.keysize.toNat < 2 ^ 32 ∧ s.cachesize.toNat * s.entrysize.toNat < 2 ^ 32

/-- The new cache. -/
def CacheSizes.cache (s : CacheSizes) : ByteCache :=
  ⟨s.cachesize, fun _ => 0, 0, some (s.entrysize * s.cachesize).toNat, s.entrysize, fun _ => 0, 0,
    some (s.keysize * s.cachesize).toNat, s.keysize⟩

theorem CacheSizes.fCacheNew (s : CacheSizes) :
    ByteCache.fCacheNew s.cachesize s.entrysize s.keysize = some s.cache := by
  have hne : ∀ x : UInt32, 0 < x.toNat → x ≠ 0 := by
    rintro x hx rfl
    exact absurd hx (by decide)
  have hc := hne _ s.cachesize_pos
  have he := hne _ s.entrysize_pos
  have hk := hne _ s.keysize_pos
  simp [ByteCache.fCacheNew, CacheSizes.cache, hc, he, hk]

/-- The ring at the start. -/
def CacheSizes.ring (s : CacheSizes) : SlotRing Stored :=
  .empty s.cachesize.toNat s.cachesize_pos

/-- The bytes of the key in a slot. -/
def keyBytes (n : ℕ) : Option Stored → ByteString
  | none => List.replicate n 0
  | some st => st.key

/-- The bytes of the entry in a slot. -/
def entryBytes (n : ℕ) : Option Stored → ByteString
  | none => List.replicate n 0
  | some st => st.entry

/-- What the destroy functions get for a slot. -/
def CacheSizes.destroyed (s : CacheSizes) (v : Option Stored) : List Destroyed :=
  [.key (keyBytes s.keysize.toNat v), .entry (entryBytes s.entrysize.toNat v)]

/-- The same program, using a ring: what it did to it, and the slots that were returned. -/
structure RingCaller where
  done : List (RingOp Stored)
  results : List (Option ℕ)

namespace RingCaller

variable {κ : Type} (k : KeyCompare κ) (s : CacheSizes)

/-- The ring. -/
def ring (a : RingCaller) : SlotRing Stored := s.ring.run a.done

/-- Whether slot `i` holds a key equal to `key`. -/
def holds (r : SlotRing Stored) (key : ByteString) (i : ℕ) : Bool :=
  (r.slot i).any fun st => k.equal key st.key

/-- The slots with a key equal to `key`. -/
def holders (r : SlotRing Stored) (key : ByteString) : List ℕ :=
  (List.range r.size).filter (holds k r key)

/-- One operation. -/
def step (a : RingCaller) : CacheOp → RingCaller
  | .put key data =>
      ⟨a.done ++ [.put ⟨(RingOp.puts a.done).length, chunk key 0 s.keysize.toNat,
        chunk data 0 s.entrysize.toNat⟩], a.results ++ [some (a.ring s).next]⟩
  | .find key =>
      { a with results := a.results ++ [(holders k (a.ring s) (chunk key 0 s.keysize.toNat)).head?] }
  | .deleteEntry n =>
      match a.results.getD n none with
      | none => a
      | some i => { a with done := a.done ++ [.erase i] }
  | .deleteByKey key =>
      { a with
        done := a.done ++ (holders k (a.ring s) (chunk key 0 s.keysize.toNat)).map .erase }
  | .clear => { a with done := a.done ++ [.clear] }

/-- A sequence of operations. -/
def run (ops : List CacheOp) : RingCaller := ops.foldl (step k s) ⟨[], []⟩

end RingCaller

/-! ## Slots -/

/-- Different slots do not overlap. -/
theorem slots_disjoint {i i' : ℕ} (h : i ≠ i') (n : ℕ) : i * n + n ≤ i' * n ∨ i' * n + n ≤ i * n := by
  rcases Nat.lt_or_gt_of_ne h with hlt | hlt
  · have := Nat.mul_le_mul_right n hlt
    rw [Nat.succ_mul] at this
    exact Or.inl this
  · have := Nat.mul_le_mul_right n hlt
    rw [Nat.succ_mul] at this
    exact Or.inr this

theorem chunk_memcpy_slot (m src : Mem) {i i' : ℕ} (h : i ≠ i') (n : ℕ) :
    chunk (memcpy m (i * n) src n) (i' * n) n = chunk m (i' * n) n := by
  apply chunk_congr
  intro j hj
  have := slots_disjoint h n
  rw [memcpy, if_neg (by omega)]

theorem chunk_memzero_slot (m : Mem) {i i' : ℕ} (h : i ≠ i') (n : ℕ) :
    chunk (memzero m (i * n) n) (i' * n) n = chunk m (i' * n) n := by
  apply chunk_congr
  intro j hj
  have := slots_disjoint h n
  rw [memzero, if_neg (by omega)]

/-- The offset of a slot, where the size of the block has 32 bits. -/
theorem toNat_ofNat_mul {x y : UInt32} {i : ℕ} (hi : i < y.toNat)
    (h : y.toNat * x.toNat < 2 ^ 32) : (UInt32.ofNat i * x).toNat = i * x.toNat := by
  have hle := Nat.mul_le_mul_right x.toNat hi.le
  have hlt := y.toNat_lt
  rw [UInt32.toNat_mul, UInt32.toNat_ofNat', Nat.mod_eq_of_lt (show i < 2 ^ 32 by omega),
    Nat.mod_eq_of_lt (by omega)]

/-! ## The layout of the blocks -/

/-- The blocks hold what is in the ring, and both cursors are on its next slot. -/
structure Layout (s : CacheSizes) (c : ByteCache) (r : SlotRing Stored) : Prop where
  cachesize : c.cachesize = s.cachesize
  entrysize : c.entrysize = s.entrysize
  keysize : c.keysize = s.keysize
  eStop : c.eStop = some (s.cachesize.toNat * s.entrysize.toNat)
  kStop : c.kStop = some (s.cachesize.toNat * s.keysize.toNat)
  size : r.size = s.cachesize.toNat
  kNext : c.kNext = r.next * s.keysize.toNat
  eNext : c.eNext = r.next * s.entrysize.toNat
  key : ∀ i, i < r.size →
    chunk c.kHead (i * s.keysize.toNat) s.keysize.toNat = keyBytes s.keysize.toNat (r.slot i)
  entry : ∀ i, i < r.size →
    chunk c.eHead (i * s.entrysize.toNat) s.entrysize.toNat =
      entryBytes s.entrysize.toNat (r.slot i)

theorem CacheSizes.Fits.layout {s : CacheSizes} (h : s.Fits) : Layout s s.cache s.ring where
  cachesize := rfl
  entrysize := rfl
  keysize := rfl
  eStop := by
    show some (s.entrysize * s.cachesize).toNat = _
    rw [UInt32.toNat_mul, Nat.mul_comm, Nat.mod_eq_of_lt h.2]
  kStop := by
    show some (s.keysize * s.cachesize).toNat = _
    rw [UInt32.toNat_mul, Nat.mul_comm, Nat.mod_eq_of_lt h.1]
  size := List.length_replicate
  kNext := (Nat.zero_mul _).symm
  eNext := (Nat.zero_mul _).symm
  key i _ := by
    rw [ring, SlotRing.slot_empty]
    exact chunk_zero _ _
  entry i _ := by
    rw [ring, SlotRing.slot_empty]
    exact chunk_zero _ _

namespace Layout

variable {s : CacheSizes} {c : ByteCache} {r : SlotRing Stored}

theorem keyOff (h : Layout s c r) (hs : s.Fits) {i : ℕ} (hi : i < r.size) :
    c.keyOff i = i * s.keysize.toNat := by
  rw [h.size] at hi
  rw [ByteCache.keyOff, h.keysize, toNat_ofNat_mul hi hs.1]

theorem entryOff (h : Layout s c r) (hs : s.Fits) {i : ℕ} (hi : i < r.size) :
    c.entryOff i = i * s.entrysize.toNat := by
  rw [h.size] at hi
  rw [ByteCache.entryOff, h.entrysize, toNat_ofNat_mul hi hs.2]

theorem destroy (h : Layout s c r) {i : ℕ} (hi : i < r.size) :
    c.destroy (i * s.keysize.toNat) (i * s.entrysize.toNat) = s.destroyed (r.slot i) := by
  rw [ByteCache.destroy, h.keysize, h.entrysize, h.key i hi, h.entry i hi]
  rfl

/-- A put fills the slot under the cursors and takes both on to the next one. -/
theorem put (h : Layout s c r) (key data : Mem) (serial : ℕ) :
    (c.fCachePut key data).1 = r.next * s.entrysize.toNat ∧
      (c.fCachePut key data).2.1 = s.destroyed (r.slot r.next) ∧
      Layout s (c.fCachePut key data).2.2 (r.apply (.put ⟨serial, chunk key 0 s.keysize.toNat,
        chunk data 0 s.entrysize.toNat⟩)) := by
  have hlt := r.next_lt_size
  have hdestroy : c.destroy c.kNext c.eNext = s.destroyed (r.slot r.next) := by
    rw [h.kNext, h.eNext, h.destroy hlt]
  -- the same test on both cursors
  have hwrap : ∀ n, 0 < n → (r.next * n + n = s.cachesize.toNat * n ↔ r.next + 1 = r.size) := by
    intro n hn
    rw [← Nat.succ_mul, Nat.mul_left_inj (Nat.pos_iff_ne_zero.mp hn), h.size]
  have hroll : (some (c.eNext + c.entrysize.toNat) = c.eStop ∨
      some (c.kNext + c.keysize.toNat) = c.kStop) ↔ r.next + 1 = r.size := by
    rw [h.eNext, h.entrysize, h.eStop, h.kNext, h.keysize, h.kStop, Option.some.injEq,
      Option.some.injEq, hwrap _ s.entrysize_pos, hwrap _ s.keysize_pos, or_self]
  have hkey : ∀ i, i < r.size →
      chunk (memcpy c.kHead c.kNext key c.keysize.toNat) (i * s.keysize.toNat) s.keysize.toNat =
        keyBytes s.keysize.toNat ((r.apply (.put ⟨serial, chunk key 0 s.keysize.toNat,
          chunk data 0 s.entrysize.toNat⟩)).slot i) := by
    intro i hi
    rw [h.kNext, h.keysize, SlotRing.slot_put]
    by_cases hnext : r.next = i
    · rw [if_pos hnext, hnext, chunk_memcpy_self]
      rfl
    · rw [if_neg hnext, chunk_memcpy_slot _ _ hnext, h.key i hi]
  have hentry : ∀ i, i < r.size →
      chunk (memcpy c.eHead c.eNext data c.entrysize.toNat) (i * s.entrysize.toNat)
          s.entrysize.toNat =
        entryBytes s.entrysize.toNat ((r.apply (.put ⟨serial, chunk key 0 s.keysize.toNat,
          chunk data 0 s.entrysize.toNat⟩)).slot i) := by
    intro i hi
    rw [h.eNext, h.entrysize, SlotRing.slot_put]
    by_cases hnext : r.next = i
    · rw [if_pos hnext, hnext, chunk_memcpy_self]
      rfl
    · rw [if_neg hnext, chunk_memcpy_slot _ _ hnext, h.entry i hi]
  refine ⟨h.eNext, hdestroy, ?_⟩
  simp only [ByteCache.fCachePut, hroll]
  by_cases hend : r.next + 1 = r.size
  · have hnext : (r.next + 1) % r.size = 0 := by rw [hend, Nat.mod_self]
    rw [if_pos hend]
    refine ⟨h.cachesize, h.entrysize, h.keysize, h.eStop, h.kStop, ?_, ?_, ?_, ?_, ?_⟩
    · rw [SlotRing.size_apply, h.size]
    · show 0 = (r.next + 1) % r.size * _
      rw [hnext, Nat.zero_mul]
    · show 0 = (r.next + 1) % r.size * _
      rw [hnext, Nat.zero_mul]
    · exact fun i hi => hkey i (by rwa [SlotRing.size_apply] at hi)
    · exact fun i hi => hentry i (by rwa [SlotRing.size_apply] at hi)
  · have hnext : (r.next + 1) % r.size = r.next + 1 := Nat.mod_eq_of_lt (by omega)
    rw [if_neg hend]
    refine ⟨h.cachesize, h.entrysize, h.keysize, h.eStop, h.kStop, ?_, ?_, ?_, ?_, ?_⟩
    · rw [SlotRing.size_apply, h.size]
    · show c.kNext + c.keysize.toNat = (r.next + 1) % r.size * _
      rw [hnext, Nat.succ_mul, h.kNext, h.keysize]
    · show c.eNext + c.entrysize.toNat = (r.next + 1) % r.size * _
      rw [hnext, Nat.succ_mul, h.eNext, h.entrysize]
    · exact fun i hi => hkey i (by rwa [SlotRing.size_apply] at hi)
    · exact fun i hi => hentry i (by rwa [SlotRing.size_apply] at hi)

/-- A deletion through a pointer to slot `i`. -/
theorem deleteEntry (h : Layout s c r) (hs : s.Fits) {i : ℕ} (hi : i < r.size) :
    (c.fCacheDeleteEntry (some (i * s.entrysize.toNat))).2.1 = s.destroyed (r.slot i) ∧
      Layout s (c.fCacheDeleteEntry (some (i * s.entrysize.toNat))).2.2 (r.apply (.erase i)) := by
  have hpos := s.entrysize_pos
  have hne : c.entrysize ≠ 0 := by
    rw [h.entrysize]
    intro hzero
    rw [hzero] at hpos
    exact absurd hpos (by decide)
  have hstop : ¬ c.eStop.getD 0 ≤ i * s.entrysize.toNat := by
    rw [h.eStop, Option.getD_some, ← h.size, not_le]
    exact Nat.mul_lt_mul_of_pos_right hi hpos
  have hindex : i * s.entrysize.toNat / c.entrysize.toNat % 2 ^ 32 = i := by
    have hlt := s.cachesize.toNat_lt
    rw [h.entrysize, Nat.mul_div_cancel _ hpos, Nat.mod_eq_of_lt]
    rw [← h.size] at hlt
    omega
  simp only [ByteCache.fCacheDeleteEntry, if_neg hne, if_neg hstop, hindex, h.keyOff hs hi]
  refine ⟨h.destroy hi, h.cachesize, h.entrysize, h.keysize, h.eStop, h.kStop, ?_, h.kNext,
    h.eNext, ?_, ?_⟩
  · rw [SlotRing.size_apply, h.size]
  · intro j hj
    rw [SlotRing.size_apply] at hj
    rw [SlotRing.slot_erase]
    show chunk (memzero c.kHead (i * s.keysize.toNat) c.keysize.toNat) _ _ = _
    rw [h.keysize]
    by_cases hij : i = j
    · rw [if_pos hij, hij, chunk_memzero_of_le _ le_rfl le_rfl]
      rfl
    · rw [if_neg hij, chunk_memzero_slot _ hij, h.key j hj]
  · intro j hj
    rw [SlotRing.size_apply] at hj
    rw [SlotRing.slot_erase]
    show chunk (memzero c.eHead (i * s.entrysize.toNat) c.entrysize.toNat) _ _ = _
    rw [h.entrysize]
    by_cases hij : i = j
    · rw [if_pos hij, hij, chunk_memzero_of_le _ le_rfl le_rfl]
      rfl
    · rw [if_neg hij, chunk_memzero_slot _ hij, h.entry j hj]

/-- A clear destroys all slots in order. -/
theorem clear (h : Layout s c r) (hs : s.Fits) :
    c.fCacheClear.1 = r.slots.flatMap s.destroyed ∧
      Layout s c.fCacheClear.2 (r.apply .clear) := by
  have hle : ∀ i n, i < r.size → i * n + n ≤ 0 + r.size * n := by
    intro i n hi
    rw [Nat.zero_add, ← Nat.succ_mul]
    exact Nat.mul_le_mul_right n hi
  refine ⟨?_, h.cachesize, h.entrysize, h.keysize, h.eStop, h.kStop, ?_, ?_, ?_, ?_, ?_⟩
  · rw [ByteCache.fCacheClear, r.slots_eq_map, List.flatMap_map, h.cachesize, ← h.size]
    apply List.flatMap_congr
    intro i hi
    have hi := List.mem_range.mp hi
    rw [h.keyOff hs hi, h.entryOff hs hi, h.destroy hi]
  · rw [SlotRing.size_apply, h.size]
  · exact (Nat.zero_mul _).symm
  · exact (Nat.zero_mul _).symm
  · intro i hi
    rw [SlotRing.size_apply] at hi
    rw [SlotRing.slot_clear]
    refine chunk_memzero_of_le _ (Nat.zero_le _) ?_
    rw [h.cachesize, h.keysize, UInt32.toNat_mul, Nat.mod_eq_of_lt hs.1, ← h.size]
    exact hle i _ hi
  · intro i hi
    rw [SlotRing.size_apply] at hi
    rw [SlotRing.slot_clear]
    refine chunk_memzero_of_le _ (Nat.zero_le _) ?_
    rw [h.cachesize, h.entrysize, UInt32.toNat_mul, Nat.mod_eq_of_lt hs.2, ← h.size]
    exact hle i _ hi

variable {κ : Type} {k : KeyCompare κ}

theorem not_nonZero_replicate (n : ℕ) : ¬ NonZero (List.replicate n 0) := by
  rintro ⟨b, hb, hne⟩
  exact hne (List.eq_of_mem_replicate hb)

/-- A comparison with the key in memory is one with the key in the slot. -/
theorem equal_keyBytes (bytes : ByteString) (n : ℕ) (v : Option Stored) :
    k.equal bytes (keyBytes n v) = v.any fun st => k.equal bytes st.key := by
  cases v with
  | none =>
      rw [Option.any_none, ← Bool.not_eq_true, k.equal_iff]
      exact fun heq => not_nonZero_replicate _ heq.2.1
  | some st => rfl

theorem keyMatches (h : Layout s c r) (hs : s.Fits) (key : Mem) {i : ℕ} (hi : i < r.size) :
    c.keyMatches k.equal key i = RingCaller.holds k r (chunk key 0 s.keysize.toNat) i := by
  rw [ByteCache.keyMatches, h.keyOff hs hi, h.keysize, h.key i hi, equal_keyBytes]
  rfl

theorem fCacheFind (h : Layout s c r) (hs : s.Fits) (key : Mem) :
    c.fCacheFind k.equal key =
      ((RingCaller.holders k r (chunk key 0 s.keysize.toNat)).head?).map
        (· * s.entrysize.toNat) := by
  have hne : c.keysize ≠ 0 := by
    rw [h.keysize]
    intro hzero
    have hpos := s.keysize_pos
    rw [hzero] at hpos
    exact absurd hpos (by decide)
  have hfilter : (List.range r.size).filter (c.keyMatches k.equal key) =
      RingCaller.holders k r (chunk key 0 s.keysize.toNat) :=
    List.filter_congr fun i hi => h.keyMatches hs key (List.mem_range.mp hi)
  rw [ByteCache.fCacheFind, if_neg hne, h.cachesize, ← h.size, ← List.head?_filter, hfilter]
  cases hres : (RingCaller.holders k r (chunk key 0 s.keysize.toNat)).head? with
  | none => rfl
  | some i =>
      have hmem := List.mem_of_mem_head? (Option.mem_def.mpr hres)
      rw [Option.map_some, Option.map_some,
        h.entryOff hs (List.mem_range.mp (List.mem_filter.mp hmem).1)]

/-- The loop over different slots deletes those that hold the key. -/
theorem deleteByKeyLoop (hs : s.Fits) (key : Mem) {is : List ℕ} (h : Layout s c r)
    (hnodup : is.Nodup) (his : ∀ i ∈ is, i < r.size) :
    (ByteCache.deleteByKeyLoop k.equal key is c).1 =
        (r.removals ((is.filter (RingCaller.holds k r (chunk key 0 s.keysize.toNat))).map
          .erase)).flatMap s.destroyed ∧
      Layout s (ByteCache.deleteByKeyLoop k.equal key is c).2
        (r.run ((is.filter (RingCaller.holds k r (chunk key 0 s.keysize.toNat))).map .erase)) := by
  induction is generalizing c r with
  | nil => exact ⟨rfl, h⟩
  | cons i is ih =>
      have hi := his i List.mem_cons_self
      obtain ⟨hnotMem, hnodup⟩ := List.nodup_cons.mp hnodup
      have his : ∀ j ∈ is, j < r.size := fun j hj => his j (List.mem_cons_of_mem _ hj)
      have hmatch := h.keyMatches (k := k) hs key hi
      cases hholds : RingCaller.holds k r (chunk key 0 s.keysize.toNat) i with
      | false =>
          rw [hholds] at hmatch
          rw [ByteCache.deleteByKeyLoop, List.filter_cons_of_neg (by rw [hholds]; simp), hmatch]
          exact ih h hnodup his
      | true =>
          rw [hholds] at hmatch
          obtain ⟨hdestroyed, hlayout⟩ := h.deleteEntry hs hi
          rw [← h.entryOff hs hi] at hdestroyed hlayout
          obtain ⟨hrest, hlayout'⟩ := ih hlayout hnodup fun j hj => by
            rw [SlotRing.size_apply]
            exact his j hj
          -- what the other slots hold has not changed
          have hsame : is.filter (RingCaller.holds k (r.apply (.erase i))
                (chunk key 0 s.keysize.toNat)) =
              is.filter (RingCaller.holds k r (chunk key 0 s.keysize.toNat)) := by
            apply List.filter_congr
            intro j hj
            have hij : i ≠ j := by
              rintro rfl
              exact hnotMem hj
            rw [RingCaller.holds, SlotRing.slot_erase, if_neg hij]
            rfl
          rw [hsame] at hrest hlayout'
          rw [ByteCache.deleteByKeyLoop, List.filter_cons_of_pos hholds, hmatch, if_pos rfl]
          refine ⟨?_, hlayout'⟩
          show _ ++ _ = _
          rw [hdestroyed, hrest]
          rfl

end Layout

/-! ## The simulation -/

/-- A program on the cache and the same program on the ring. -/
structure Simulates (s : CacheSizes) (c : Caller) (a : RingCaller) : Prop where
  layout : Layout s c.cache (a.ring s)
  results : c.results = a.results.map (Option.map (· * s.entrysize.toNat))
  results_lt : ∀ i, some i ∈ a.results → i < s.cachesize.toNat
  destroyed : c.destroyed = (s.ring.removals a.done).flatMap s.destroyed

section

variable {κ : Type} {k : KeyCompare κ} {s : CacheSizes} {c : Caller} {a : RingCaller}

theorem RingCaller.ring_done (a : RingCaller) (ops : List (RingOp Stored)) :
    RingCaller.ring s { a with done := a.done ++ ops } = (a.ring s).run ops :=
  SlotRing.run_append _ _ _

theorem Simulates.getD_results (h : Simulates s c a) (n : ℕ) :
    c.results.getD n none = (a.results.getD n none).map (· * s.entrysize.toNat) := by
  rw [h.results, List.getD_eq_getElem?_getD, List.getD_eq_getElem?_getD, List.getElem?_map]
  cases a.results[n]? <;> rfl

/-- What is done to both. -/
theorem Simulates.did (h : Simulates s c a) {cache : ByteCache} {destroyed : List Destroyed}
    (ops : List (RingOp Stored)) (hlayout : Layout s cache ((a.ring s).run ops))
    (hdestroyed : destroyed = ((a.ring s).removals ops).flatMap s.destroyed) :
    Simulates s ⟨cache, c.results, c.destroyed ++ destroyed⟩ { a with done := a.done ++ ops } where
  layout := by
    rw [a.ring_done]
    exact hlayout
  results := h.results
  results_lt := h.results_lt
  destroyed := by
    show _ ++ _ = _
    rw [h.destroyed, hdestroyed, SlotRing.removals_append, List.flatMap_append]
    rfl

/-- What is returned to both. -/
theorem Simulates.returned (h : Simulates s c a) {i : Option ℕ}
    (hi : ∀ j, i = some j → j < s.cachesize.toNat) :
    Simulates s { c with results := c.results ++ [i.map (· * s.entrysize.toNat)] }
      { a with results := a.results ++ [i] } where
  layout := h.layout
  results := by
    rw [h.results, List.map_append]
    rfl
  results_lt j hj := by
    rcases List.mem_append.mp hj with hj | hj
    · exact h.results_lt j hj
    · exact hi j (List.mem_singleton.mp hj).symm
  destroyed := h.destroyed

/-- One operation. -/
theorem simulates_step (hs : s.Fits) (h : Simulates s c a) (op : CacheOp) :
    Simulates s (c.step k.equal op) (a.step k s op) := by
  have hsize := h.layout.size
  cases op with
  | put key data =>
      obtain ⟨hp, hdestroyed, hlayout⟩ := h.layout.put key data (RingOp.puts a.done).length
      have hnext : (a.ring s).next < s.cachesize.toNat := by
        rw [← hsize]
        exact (a.ring s).next_lt_size
      have hdid := h.did [.put ⟨(RingOp.puts a.done).length, chunk key 0 s.keysize.toNat,
        chunk data 0 s.entrysize.toNat⟩] hlayout
        (hdestroyed.trans (by
          rw [SlotRing.removals_singleton, SlotRing.removed, List.flatMap_singleton]))
      have hreturned := hdid.returned (i := some (a.ring s).next) (by rintro _ ⟨⟩; exact hnext)
      rw [Option.map_some, ← hp] at hreturned
      exact hreturned
  | find key =>
      rw [Caller.step, h.layout.fCacheFind (k := k) hs key]
      refine h.returned fun j hj => ?_
      have hmem := List.mem_of_mem_head? (Option.mem_def.mpr hj)
      rw [← hsize]
      exact List.mem_range.mp (List.mem_filter.mp hmem).1
  | deleteEntry n =>
      rw [Caller.step, RingCaller.step, h.getD_results n]
      cases hslot : a.results.getD n none with
      | none =>
          show Simulates s ⟨c.cache, c.results, c.destroyed ++ []⟩ a
          rw [List.append_nil]
          exact h
      | some i =>
          have hmem : some i ∈ a.results := by
            rw [List.getD_eq_getElem?_getD] at hslot
            cases hget : a.results[n]? with
            | none => simp [hget] at hslot
            | some v =>
                rw [hget, Option.getD_some] at hslot
                exact hslot ▸ List.mem_of_getElem? hget
          have hi : i < (a.ring s).size := by
            rw [hsize]
            exact h.results_lt i hmem
          obtain ⟨hdestroyed, hlayout⟩ := h.layout.deleteEntry hs hi
          exact h.did [.erase i] hlayout (hdestroyed.trans (by
            rw [SlotRing.removals_singleton, SlotRing.removed, List.flatMap_singleton]))
  | deleteByKey key =>
      obtain ⟨hdestroyed, hlayout⟩ := h.layout.deleteByKeyLoop (k := k) hs key List.nodup_range
        fun i hi => List.mem_range.mp hi
      refine h.did ((RingCaller.holders k (a.ring s) _).map .erase) ?_ ?_
      · show Layout s (ByteCache.deleteByKeyLoop k.equal key (List.range _) c.cache).2 _
        rw [h.layout.cachesize, ← hsize]
        exact hlayout
      · show (ByteCache.deleteByKeyLoop k.equal key (List.range _) c.cache).1 = _
        rw [h.layout.cachesize, ← hsize]
        exact hdestroyed
  | clear =>
      obtain ⟨hdestroyed, hlayout⟩ := h.layout.clear hs
      exact h.did [.clear] hlayout
        (hdestroyed.trans (by rw [SlotRing.removals_singleton, SlotRing.removed]))

/-- While the sizes of both blocks have 32 bits, a cache is a ring of slots. -/
theorem simulates_foldl (hs : s.Fits) (h : Simulates s c a) (ops : List CacheOp) :
    Simulates s (ops.foldl (Caller.step k.equal) c) (ops.foldl (RingCaller.step k s) a) := by
  induction ops generalizing c a with
  | nil => exact h
  | cons op ops ih => exact ih (simulates_step hs h op)

theorem simulates_run (hs : s.Fits) (ops : List CacheOp) :
    Simulates s (Caller.run k.equal s.cache ops) (RingCaller.run k s ops) :=
  simulates_foldl hs ⟨hs.layout, rfl, by simp, rfl⟩ ops

end

end Fsp
