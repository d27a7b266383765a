import Fsp.Server.FifoRing
import Mathlib.Data.List.ReduceOption

/-!
# Destroying what was cached

Each `f_cache_put` copies a key and an entry that the cache then owns.  They are passed to their
destroy functions when another put needs the slot, when they are deleted, or when the cache is
cleared: once each, and from then on no slot holds them (`DestroysOnce`).  The destroy functions are
also called on empty slots, with zeros.

An `Account` says what was destroyed and what is in the slots after each sequence of operations; it
`Balances` when the two together are what was put in.  For a cache whose blocks have 32-bit sizes,
this is the account of the ring (`CacheSizes.Fits.balances`).  For any other, `f_cache_clear` after a
single put passes the same bytes on twice (`fits_of_destroysOnce`).
-/

namespace Fsp

open Bytes Effect

/-! ## What is put in -/

/-- What the puts among the operations copy, numbered from `n` on. -/
def storedFrom (s : CacheSizes) : ℕ → List CacheOp → List Stored
  | _, [] => []
  | n, .put key data :: ops =>
      ⟨n, chunk key 0 s.keysize.toNat, chunk data 0 s.entrysize.toNat⟩ :: storedFrom s (n + 1) ops
  | n, .find _ :: ops | n, .deleteEntry _ :: ops | n, .deleteByKey _ :: ops | n, .clear :: ops =>
      storedFrom s n ops

/-- What was put in. -/
def stored (s : CacheSizes) (ops : List CacheOp) : List Stored := storedFrom s 0 ops

theorem le_serial {s : CacheSizes} {n : ℕ} {ops : List CacheOp} {st : Stored}
    (h : st ∈ storedFrom s n ops) : n ≤ st.serial := by
  induction ops generalizing n with
  | nil => cases h
  | cons op ops ih =>
      cases op with
      | put key data =>
          rcases List.mem_cons.mp h with rfl | h
          · exact le_rfl
          · exact (Nat.le_succ n).trans (ih h)
      | find key => exact ih h
      | deleteEntry m => exact ih h
      | deleteByKey key => exact ih h
      | clear => exact ih h

theorem nodup_storedFrom (s : CacheSizes) (n : ℕ) (ops : List CacheOp) :
    (storedFrom s n ops).Nodup := by
  induction ops generalizing n with
  | nil => exact List.nodup_nil
  | cons op ops ih =>
      cases op with
      | put key data =>
          refine List.nodup_cons.mpr ⟨fun hmem => ?_, ih (n + 1)⟩
          exact absurd (le_serial hmem) (Nat.not_succ_le_self n)
      | find key => exact ih n
      | deleteEntry m => exact ih n
      | deleteByKey key => exact ih n
      | clear => exact ih n

/-- No two puts copy the same. -/
theorem nodup_stored (s : CacheSizes) (ops : List CacheOp) : (stored s ops).Nodup :=
  nodup_storedFrom s 0 ops

/-! ## Accounts -/

/-- What was destroyed, empty slots among it, and what is in the slots, after each sequence of
operations. -/
structure Account where
  dead : List CacheOp → List (Option Stored)
  live : List CacheOp → ℕ → Option Stored

section

variable {κ : Type} (k : KeyCompare κ) (s : CacheSizes)

/-- The slots, in order. -/
def Account.slots (t : Account) (ops : List CacheOp) : List (Option Stored) :=
  (List.range s.cachesize.toNat).map (t.live ops)

/-- The account is right after the operations `past`. -/
structure Account.Balances (t : Account) (past : List CacheOp) : Prop where
  /-- The destroy functions got what was destroyed, and zeros for empty slots. -/
  destroyed : (Caller.run k.equal s.cache past).destroyed = (t.dead past).flatMap s.destroyed
  /-- The keys are those of what is in the slots. -/
  keys : ∀ i, i < s.cachesize.toNat → (Caller.run k.equal s.cache past).slotKey s i =
    keyBytes s.keysize.toNat (t.live past i)
  /-- So are the entries. -/
  entries : ∀ i, i < s.cachesize.toNat → (Caller.run k.equal s.cache past).slotEntry s i =
    entryBytes s.entrysize.toNat (t.live past i)
  /-- What was put in was either destroyed once or is in one slot. -/
  once : ((t.dead past).reduceOption ++ (t.slots s past).reduceOption).Perm (stored s past)
  /-- What a search finds was not destroyed. -/
  find : ∀ key p, (Caller.run k.equal s.cache past).cache.fCacheFind k.equal key = some p →
    ∃ i st, p = i * s.entrysize.toNat ∧ t.live past i = some st ∧ some st ∉ t.dead past

/-- After the operations `ops` and a clear, each key and each entry that was put in has been
destroyed once, and it was in no slot from then on. -/
structure DestroysOnce (ops : List CacheOp) : Prop where
  account : ∃ t : Account,
    (∀ past later, past ++ later = ops ++ [.clear] →
      t.Balances k s past ∧ t.dead past <+: t.dead (ops ++ [.clear])) ∧
    (t.dead (ops ++ [.clear])).reduceOption.Perm (stored s ops)

variable {k s}

/-! ## The account of the ring -/

theorem count_reduceOption (l : List (Option Stored)) (st : Stored) :
    l.reduceOption.count st = l.count (some st) := by
  induction l with
  | nil => rfl
  | cons v l ih =>
      cases v with
      | none => simpa using ih
      | some st' => simp [List.count_cons, ih]

/-- The ring is given what is put in. -/
theorem RingCaller.puts_foldl (a : RingCaller) (ops : List CacheOp) :
    RingOp.puts (ops.foldl (step k s) a).done =
      RingOp.puts a.done ++ storedFrom s (RingOp.puts a.done).length ops := by
  induction ops generalizing a with
  | nil => exact (List.append_nil _).symm
  | cons op ops ih =>
      rw [List.foldl_cons, ih]
      cases op with
      | put key data =>
          rw [step, RingOp.puts_append, List.append_assoc, List.length_append]
          rfl
      | find key => rfl
      | deleteEntry n =>
          rw [step]
          cases a.results.getD n none with
          | none => rfl
          | some i =>
              rw [RingOp.puts_append, RingOp.puts, RingOp.puts, List.append_nil]
              rfl
      | deleteByKey key =>
          rw [step, RingOp.puts_append, RingOp.puts_erase, List.append_nil]
          rfl
      | clear =>
          rw [step, RingOp.puts_append, RingOp.puts, RingOp.puts, List.append_nil]
          rfl

theorem RingCaller.puts_run (ops : List CacheOp) :
    RingOp.puts (run k s ops).done = stored s ops := puts_foldl ⟨[], []⟩ ops

variable (k s) in
/-- What was taken out of the ring, and what is in it. -/
def RingCaller.account : Account where
  dead ops := s.ring.removals (run k s ops).done
  live ops i := ((run k s ops).ring s).slot i

theorem RingCaller.size_run (ops : List CacheOp) :
    ((run k s ops).ring s).size = s.cachesize.toNat := by
  rw [ring, SlotRing.size_run]
  exact List.length_replicate

theorem RingCaller.slots_account (ops : List CacheOp) :
    (account k s).slots s ops = ((run k s ops).ring s).slots := by
  rw [Account.slots, SlotRing.slots_eq_map, size_run]
  rfl

/-- What was put in was taken out once or is in one slot. -/
theorem RingCaller.once (ops : List CacheOp) :
    (((account k s).dead ops).reduceOption ++ ((account k s).slots s ops).reduceOption).Perm
      (stored s ops) := by
  rw [List.perm_iff_count]
  intro st
  have hcount := s.ring.count_removals (run k s ops).done st
  rw [CacheSizes.ring, SlotRing.count_empty, Nat.zero_add, puts_run] at hcount
  rw [List.count_append, count_reduceOption, count_reduceOption, slots_account, ← hcount,
    Nat.add_comm]
  rfl

/-- What is in a slot was not taken out. -/
theorem RingCaller.not_mem_dead {ops : List CacheOp} {i : ℕ} (hi : i < s.cachesize.toNat)
    {st : Stored} (h : (account k s).live ops i = some st) :
    some st ∉ (account k s).dead ops := by
  intro hmem
  have hnodup := (once (k := k) ops).nodup_iff.mpr (nodup_stored s ops)
  have hslot : some st ∈ (account k s).slots s ops :=
    List.mem_map.mpr ⟨i, List.mem_range.mpr hi, h⟩
  exact (List.nodup_append.mp hnodup).2.2 st (List.reduceOption_mem_iff.mpr hmem) st
    (List.reduceOption_mem_iff.mpr hslot) rfl

/-- While the sizes of both blocks have 32 bits, the account of the ring is right. -/
theorem CacheSizes.Fits.balances (hs : s.Fits) (past : List CacheOp) :
    (RingCaller.account k s).Balances k s past where
  destroyed := (simulates_run (k := k) hs past).destroyed
  keys _ hi := (simulates_run (k := k) hs past).slotKey hi
  entries i hi := (simulates_run (k := k) hs past).layout.entry i (by
    rw [RingCaller.size_run]
    exact hi)
  once := RingCaller.once past
  find key p hp := by
    have hrun := simulates_run (k := k) hs past
    have hfind := hrun.find (k := k) hs key
    rw [hp] at hfind
    obtain ⟨i, hi, hpi, hequal, -⟩ := hfind
    rw [hrun.equal_slotKey hi, RingCaller.holds, Option.any_eq_true] at hequal
    obtain ⟨st, hst, -⟩ := hequal
    exact ⟨i, st, hpi, hst, RingCaller.not_mem_dead hi hst⟩

/-- What was taken out stays taken out. -/
theorem RingCaller.dead_prefix (past later : List CacheOp) :
    (account k s).dead past <+: (account k s).dead (past ++ later) := by
  obtain ⟨rops, hdone, -⟩ := (run k s past).done_foldl (k := k) (s := s) later
  refine ⟨((run k s past).ring s).removals rops, ?_⟩
  show _ = s.ring.removals (run k s (past ++ later)).done
  rw [run_append, hdone, SlotRing.removals_append]
  rfl

theorem storedFrom_clear (n : ℕ) (ops : List CacheOp) :
    storedFrom s n (ops ++ [.clear]) = storedFrom s n ops := by
  induction ops generalizing n with
  | nil => rfl
  | cons op ops ih =>
      cases op with
      | put key data => exact congrArg (List.cons _) (ih (n + 1))
      | find key => exact ih n
      | deleteEntry m => exact ih n
      | deleteByKey key => exact ih n
      | clear => exact ih n

/-- A clear leaves nothing in the slots. -/
theorem RingCaller.slots_clear (ops : List CacheOp) :
    ((account k s).slots s (ops ++ [.clear])).reduceOption = [] := by
  rw [List.reduceOption_eq_nil_iff]
  refine ⟨s.cachesize.toNat, List.eq_replicate_iff.mpr ⟨?_, fun v hv => ?_⟩⟩
  · rw [Account.slots, List.length_map, List.length_range]
  · obtain ⟨i, -, rfl⟩ := List.mem_map.mp hv
    exact slot_run_clear ops i

theorem CacheSizes.Fits.destroysOnce (hs : s.Fits) (k : KeyCompare κ) (ops : List CacheOp) :
    DestroysOnce k s ops := by
  refine ⟨RingCaller.account k s, fun past later heq => ⟨hs.balances past, ?_⟩, ?_⟩
  · rw [← heq]
    exact RingCaller.dead_prefix past later
  · have honce := RingCaller.once (k := k) (s := s) (ops ++ [.clear])
    rw [RingCaller.slots_clear, List.append_nil, stored, storedFrom_clear] at honce
    exact honce

/-! ## Where a product does not fit -/

/-- How many of the chunks that `f_cache_clear` takes for slots are not all zeros. -/
def nonZeros (m : Mem) (size n : UInt32) : ℕ :=
  (List.range n.toNat).countP fun i =>
    decide (NonZero (chunk m (UInt32.ofNat i * size).toNat size.toNat))

theorem nonZero_chunk {m : Mem} {off n j : ℕ} (hj : j < n) (h : m (off + j) ≠ 0) :
    NonZero (chunk m off n) :=
  ⟨_, List.mem_map.mpr ⟨j, List.mem_range.mpr hj, rfl⟩, h⟩

theorem nonZeros_pos {m : Mem} {size n : UInt32} {i j : ℕ} (hi : i < n.toNat)
    (hj : j < size.toNat) (h : m ((UInt32.ofNat i * size).toNat + j) ≠ 0) :
    0 < nonZeros m size n :=
  List.countP_pos_iff.mpr
    ⟨i, List.mem_range.mpr hi, decide_eq_true (nonZero_chunk hj h)⟩

/-- A block with ones in its first slot only. -/
def oneSlot (size : UInt32) : Mem := memcpy (fun _ => 0) 0 ones size.toNat

theorem oneSlot_ne_zero {size : UInt32} {j : ℕ} (hj : j < size.toNat) : oneSlot size j ≠ 0 := by
  rw [oneSlot, memcpy, if_pos ⟨Nat.zero_le _, by omega⟩]
  show (1 : UInt8) ≠ 0
  decide

/-- The first offset that does not fit comes back into the first slot. -/
theorem two_le_nonZeros {size n : UInt32} (hsize : 0 < size.toNat)
    (h : 2 ^ 32 ≤ (n.toNat - 1) * size.toNat) : 2 ≤ nonZeros (oneSlot size) size n := by
  have hlt := size.toNat_lt
  have hn := n.toNat_lt
  obtain ⟨q, hq⟩ : ∃ q, q = (2 ^ 32 - 1) / size.toNat := ⟨_, rfl⟩
  obtain ⟨i, hi⟩ : ∃ i, i = q + 1 := ⟨_, rfl⟩
  -- `i` is the first slot whose offset does not fit
  have hdiv := Nat.div_add_mod (2 ^ 32 - 1) size.toNat
  have hmod := Nat.mod_lt (2 ^ 32 - 1) hsize
  rw [← hq] at hdiv
  have hoff : i * size.toNat = size.toNat * q + size.toNat := by
    rw [hi, Nat.succ_mul, Nat.mul_comm]
  have hin : i < n.toNat := by
    by_contra hge
    have := Nat.mul_le_mul_right size.toNat (show n.toNat - 1 ≤ q by omega)
    rw [Nat.mul_comm q] at this
    omega
  have hwrap : (UInt32.ofNat i * size).toNat < size.toNat := by
    rw [UInt32.toNat_mul, UInt32.toNat_ofNat', Nat.mod_eq_of_lt (show i < 2 ^ 32 by omega), hoff,
      Nat.mod_eq_sub_mod (by omega), Nat.mod_eq_of_lt (by omega)]
    omega
  have hsplit : List.range n.toNat =
      [0] ++ (List.range (n.toNat - 1)).map Nat.succ := by
    obtain ⟨m, hm⟩ := Nat.exists_eq_succ_of_ne_zero (show n.toNat ≠ 0 by omega)
    rw [hm, List.range_succ_eq_map]
    rfl
  have hfirst : 0 < [0].countP fun i =>
      decide (NonZero (chunk (oneSlot size) (UInt32.ofNat i * size).toNat size.toNat)) := by
    refine List.countP_pos_iff.mpr ⟨0, List.mem_singleton.mpr rfl, decide_eq_true ?_⟩
    refine nonZero_chunk hsize ?_
    rw [UInt32.toNat_mul]
    simpa using oneSlot_ne_zero hsize
  have hsecond : 0 < ((List.range (n.toNat - 1)).map Nat.succ).countP fun i =>
      decide (NonZero (chunk (oneSlot size) (UInt32.ofNat i * size).toNat size.toNat)) := by
    refine List.countP_pos_iff.mpr ⟨i, List.mem_map.mpr ⟨i - 1, List.mem_range.mpr (by omega), ?_⟩,
      decide_eq_true (nonZero_chunk hsize (oneSlot_ne_zero hwrap))⟩
    omega
  rw [nonZeros, hsplit, List.countP_append]
  omega

/-- Clearing a block that does not fit, twice, passes on two chunks that are not all zeros. -/
theorem two_le_nonZeros_add {size n : UInt32} (hsize : 0 < size.toNat)
    (h : 2 ^ 32 ≤ n.toNat * size.toNat) :
    2 ≤ nonZeros (oneSlot size) size n +
      nonZeros (memzero (oneSlot size) 0 (n * size).toNat) size n := by
  rcases Nat.lt_or_ge ((n.toNat - 1) * size.toNat) (2 ^ 32) with hlt | hge
  · have hn : 0 < n.toNat := by
      by_contra hzero
      rw [Nat.eq_zero_of_not_pos hzero] at h
      omega
    have hfirst : (UInt32.ofNat 0 * size).toNat = 0 := by
      rw [UInt32.toNat_mul]
      simp
    have hsub : (n.toNat - 1) * size.toNat = n.toNat * size.toNat - size.toNat := by
      rw [Nat.sub_mul, Nat.one_mul]
    -- less than the first slot is zeroed
    have hzeroed : (n * size).toNat < size.toNat := by
      have := size.toNat_lt
      rw [UInt32.toNat_mul, Nat.mod_eq_sub_mod h, Nat.mod_eq_of_lt (by omega)]
      omega
    have hbefore : 0 < nonZeros (oneSlot size) size n := by
      refine nonZeros_pos hn hsize ?_
      rw [hfirst]
      exact oneSlot_ne_zero hsize
    have hafter : 0 < nonZeros (memzero (oneSlot size) 0 (n * size).toNat) size n := by
      refine nonZeros_pos hn (Nat.sub_one_lt_of_lt hsize) ?_
      rw [hfirst, Nat.zero_add, memzero, if_neg (by omega)]
      exact oneSlot_ne_zero (Nat.sub_one_lt_of_lt hsize)
    omega
  · exact (two_le_nonZeros hsize hge).trans (Nat.le_add_right _ _)

/-- How many of the keys that were destroyed are not all zeros. -/
def numKeys (l : List Destroyed) : ℕ :=
  l.countP fun
    | .key bytes => decide (NonZero bytes)
    | .entry _ => false

/-- How many of the entries that were destroyed are not all zeros. -/
def numEntries (l : List Destroyed) : ℕ :=
  l.countP fun
    | .key _ => false
    | .entry bytes => decide (NonZero bytes)

/-- What was put in accounts for at most one key and one entry. -/
theorem numKeys_flatMap (l : List (Option Stored)) :
    numKeys (l.flatMap s.destroyed) ≤ l.reduceOption.length ∧
      numEntries (l.flatMap s.destroyed) ≤ l.reduceOption.length := by
  induction l with
  | nil => exact ⟨le_rfl, le_rfl⟩
  | cons v l ih =>
      rw [List.flatMap_cons, numKeys, numEntries, List.countP_append, List.countP_append]
      cases v with
      | none =>
          have hk := Layout.not_nonZero_replicate s.keysize.toNat
          have he := Layout.not_nonZero_replicate s.entrysize.toNat
          simpa [CacheSizes.destroyed, keyBytes, entryBytes, hk, he, numKeys, numEntries] using ih
      | some st =>
          obtain ⟨hk, he⟩ := ih
          rw [List.reduceOption_cons_of_some, List.length_cons, Nat.add_comm _ 1]
          refine ⟨Nat.add_le_add ?_ hk, Nat.add_le_add ?_ he⟩
          · cases hkey : decide (NonZero st.key) <;> simp [CacheSizes.destroyed, keyBytes, hkey]
          · cases hentry : decide (NonZero st.entry) <;> simp [CacheSizes.destroyed, entryBytes, hentry]

/-- What a clear passes on, slot by slot. -/
theorem ByteCache.numKeys_fCacheClear (c : ByteCache) :
    numKeys c.fCacheClear.1 = nonZeros c.kHead c.keysize c.cachesize ∧
      numEntries c.fCacheClear.1 = nonZeros c.eHead c.entrysize c.cachesize := by
  have hslots : ∀ is : List ℕ,
      numKeys (is.flatMap fun i => c.destroy (c.keyOff i) (c.entryOff i)) =
          is.countP (fun i => decide (NonZero (chunk c.kHead (c.keyOff i) c.keysize.toNat))) ∧
        numEntries (is.flatMap fun i => c.destroy (c.keyOff i) (c.entryOff i)) =
          is.countP (fun i => decide (NonZero (chunk c.eHead (c.entryOff i) c.entrysize.toNat))) := by
    intro is
    induction is with
    | nil => exact ⟨rfl, rfl⟩
    | cons i is ih =>
        obtain ⟨hk, he⟩ := ih
        rw [numKeys] at hk
        rw [numEntries] at he
        rw [List.flatMap_cons, numKeys, numEntries, List.countP_append, List.countP_append, hk, he,
          List.countP_cons, List.countP_cons]
        refine ⟨?_, ?_⟩
        · cases hkey : decide (NonZero (chunk c.kHead (c.keyOff i) c.keysize.toNat)) <;>
            simp [destroy, hkey, Nat.add_comm]
        · cases hentry : decide (NonZero (chunk c.eHead (c.entryOff i) c.entrysize.toNat)) <;>
            simp [destroy, hentry, Nat.add_comm]
  exact hslots _

/-- The cache after its first put. -/
theorem CacheSizes.put_ones (s : CacheSizes) :
    (s.cache.fCachePut ones ones).2.2.cachesize = s.cachesize ∧
      (s.cache.fCachePut ones ones).2.2.keysize = s.keysize ∧
      (s.cache.fCachePut ones ones).2.2.entrysize = s.entrysize ∧
      (s.cache.fCachePut ones ones).2.2.kHead = oneSlot s.keysize ∧
      (s.cache.fCachePut ones ones).2.2.eHead = oneSlot s.entrysize := by
  simp only [ByteCache.fCachePut]
  split <;> exact ⟨rfl, rfl, rfl, rfl, rfl⟩

/-- A put and two clears pass on one key and one entry only if both blocks fit. -/
theorem fits_of_destroysOnce (h : DestroysOnce k s [.put ones ones, .clear]) : s.Fits := by
  obtain ⟨t, hbalances, hdead⟩ := h.account
  obtain ⟨c, hc⟩ : ∃ c, c = (s.cache.fCachePut ones ones).2.2 := ⟨_, rfl⟩
  obtain ⟨hcachesize, hkeysize, hentrysize, hkHead, heHead⟩ := s.put_ones
  rw [← hc] at hcachesize hkeysize hentrysize hkHead heHead
  have hdestroyed := (hbalances _ [] (List.append_nil _)).1.destroyed
  have hrun : (Caller.run k.equal s.cache ([.put ones ones, .clear] ++ [.clear])).destroyed =
      (s.cache.fCachePut ones ones).2.1 ++ c.fCacheClear.1 ++ c.fCacheClear.2.fCacheClear.1 := by
    rw [hc]
    rfl
  have hone : (t.dead ([.put ones ones, .clear] ++ [.clear])).reduceOption.length = 1 :=
    hdead.length_eq
  obtain ⟨hkeys, hentries⟩ :=
    numKeys_flatMap (s := s) (t.dead ([.put ones ones, .clear] ++ [.clear]))
  rw [← hdestroyed, hrun, hone] at hkeys hentries
  rw [numKeys, List.countP_append, List.countP_append] at hkeys
  rw [numEntries, List.countP_append, List.countP_append] at hentries
  have hfirst := c.numKeys_fCacheClear
  have hagain := c.fCacheClear.2.numKeys_fCacheClear
  rw [numKeys, numEntries] at hfirst hagain
  refine ⟨?_, ?_⟩
  · by_contra hge
    have htwo := two_le_nonZeros_add s.keysize_pos (not_lt.mp hge)
    have hcleared : nonZeros c.fCacheClear.2.kHead c.fCacheClear.2.keysize
        c.fCacheClear.2.cachesize = nonZeros (memzero (oneSlot s.keysize) 0
          (s.cachesize * s.keysize).toNat) s.keysize s.cachesize := by
      rw [← hkHead, ← hkeysize, ← hcachesize]
      rfl
    rw [hfirst.1, hagain.1, hcleared, hkHead, hkeysize, hcachesize] at hkeys
    omega
  · by_contra hge
    have htwo := two_le_nonZeros_add s.entrysize_pos (not_lt.mp hge)
    have hcleared : nonZeros c.fCacheClear.2.eHead c.fCacheClear.2.entrysize
        c.fCacheClear.2.cachesize = nonZeros (memzero (oneSlot s.entrysize) 0
          (s.cachesize * s.entrysize).toNat) s.entrysize s.cachesize := by
      rw [← heHead, ← hentrysize, ← hcachesize]
      rfl
    rw [hfirst.2, hagain.2, hcleared, heHead, hentrysize, hcachesize] at hentries
    omega

/-- What was cached is destroyed once, whatever is done to the cache, if and only if its blocks have
32-bit sizes. -/
theorem destroysOnce_iff (k : KeyCompare κ) (s : CacheSizes) :
    (∀ ops, DestroysOnce k s ops) ↔ s.Fits :=
  ⟨fun h => fits_of_destroysOnce (h [.put ones ones, .clear]), fun h => h.destroysOnce k⟩

end

/-- A key that is destroyed again by the second of two clears. -/
theorem hugeSizes_not_destroysOnce :
    ¬ DestroysOnce byteKeys hugeSizes [.put ones ones, .clear] := by
  intro h
  have hfits : hugeSizes.cachesize.toNat * hugeSizes.keysize.toNat < 2 ^ 32 :=
    (fits_of_destroysOnce h).1
  exact absurd hfits (by decide)

end Fsp
