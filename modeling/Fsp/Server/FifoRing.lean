import Fsp.Server.FifoBytes

/-!
# The life of a cached pair

What the users of `server/fifocache.c` rely on, for every sequence of operations: a search finds the
first slot with an equal key, and a pair that was put in stays where it is until it is deleted,
cleared, or overwritten by the put that comes as many puts later as there are slots (`RefinesRing`).

This rests on the sizes of the blocks having 32 bits.  Where they do not, `f_cache_clear` leaves a key
in its slot that it has destroyed, or `f_cache_delete_entry` takes a pointer into the cache for one
that is not (`refinesRing_iff`).
-/

namespace Fsp

open Bytes Effect

/-! ## The cache as its user sees it -/

/-- The bytes of the key in slot `i`. -/
def Caller.slotKey (s : CacheSizes) (c : Caller) (i : ℕ) : ByteString :=
  chunk c.cache.kHead (i * s.keysize.toNat) s.keysize.toNat

/-- The bytes of the entry in slot `i`. -/
def Caller.slotEntry (s : CacheSizes) (c : Caller) (i : ℕ) : ByteString :=
  chunk c.cache.eHead (i * s.entrysize.toNat) s.entrysize.toNat

/-- How many of the operations are puts. -/
def numPuts (ops : List CacheOp) : ℕ :=
  ops.countP fun
    | .put _ _ => true
    | _ => false

section

variable {κ : Type} (k : KeyCompare κ) (s : CacheSizes)

/-- The operation neither clears the cache nor deletes slot `i`, through a pointer or by its key. -/
def SparesSlot (i : ℕ) (c : Caller) : CacheOp → Prop
  | .put _ _ | .find _ => True
  | .deleteEntry n => c.results.getD n none ≠ some (i * s.entrysize.toNat)
  | .deleteByKey key => k.equal (chunk key 0 s.keysize.toNat) (c.slotKey s i) = false
  | .clear => False

/-- None of the operations clears the cache or deletes slot `i`. -/
def SparesSlotAll (i : ℕ) : Caller → List CacheOp → Prop
  | _, [] => True
  | c, op :: ops => SparesSlot k s i c op ∧ SparesSlotAll i (c.step k.equal op) ops

/-- What a program does to a cache, after the operations `ops`, is what it would do to a ring of
slots. -/
structure RefinesRing (ops : List CacheOp) : Prop where
  /-- Both cursors are on the same slot. -/
  cursors : ((RingCaller.run k s ops).ring s).next < s.cachesize.toNat ∧
    (Caller.run k.equal s.cache ops).cache.kNext =
      ((RingCaller.run k s ops).ring s).next * s.keysize.toNat ∧
    (Caller.run k.equal s.cache ops).cache.eNext =
      ((RingCaller.run k s ops).ring s).next * s.entrysize.toNat
  /-- The keys are those in the ring, and zero where there is none. -/
  keys : ∀ i, i < s.cachesize.toNat → (Caller.run k.equal s.cache ops).slotKey s i =
    keyBytes s.keysize.toNat (((RingCaller.run k s ops).ring s).slot i)
  /-- The entries are those in the ring. -/
  entries : ∀ i, i < s.cachesize.toNat → ∀ st,
    ((RingCaller.run k s ops).ring s).slot i = some st →
      (Caller.run k.equal s.cache ops).slotEntry s i = st.entry
  /-- A search returns the entry of the first slot with an equal key. -/
  find : ∀ key, match (Caller.run k.equal s.cache ops).cache.fCacheFind k.equal key with
    | some p => ∃ i, i < s.cachesize.toNat ∧ p = i * s.entrysize.toNat ∧
        k.equal (chunk key 0 s.keysize.toNat)
          ((Caller.run k.equal s.cache ops).slotKey s i) = true ∧
        ∀ j, j < i → k.equal (chunk key 0 s.keysize.toNat)
          ((Caller.run k.equal s.cache ops).slotKey s j) = false
    | none => ∀ i, i < s.cachesize.toNat → k.equal (chunk key 0 s.keysize.toNat)
        ((Caller.run k.equal s.cache ops).slotKey s i) = false
  /-- What was put into the slot under the cursor is still there, unless that slot was deleted or
  cleared, or as many puts came after it as there are slots. -/
  stays : ∀ past key data later i, ops = past ++ .put key data :: later →
    ((Caller.run k.equal s.cache past).cache.fCachePut key data).1 = i * s.entrysize.toNat →
    SparesSlotAll k s i (Caller.run k.equal s.cache (past ++ [.put key data])) later →
    numPuts later < s.cachesize.toNat →
      (Caller.run k.equal s.cache ops).slotKey s i = chunk key 0 s.keysize.toNat ∧
      (Caller.run k.equal s.cache ops).slotEntry s i = chunk data 0 s.entrysize.toNat
  /-- The put after that goes into the same slot. -/
  overwritten : ∀ past key data later key' data', ops = past ++ .put key data :: later →
    CacheOp.clear ∉ later → numPuts later + 1 = s.cachesize.toNat →
      ((Caller.run k.equal s.cache ops).cache.fCachePut key' data').1 =
        ((Caller.run k.equal s.cache past).cache.fCachePut key data).1

variable {k s} {c : Caller} {a : RingCaller}

/-- What an operation does to the ring. -/
theorem RingCaller.done_step (a : RingCaller) (op : CacheOp) :
    ∃ ops : List (RingOp Stored), (a.step k s op).done = a.done ++ ops ∧
      (RingOp.puts ops).length = numPuts [op] ∧ (op ≠ .clear → ∀ rop ∈ ops, rop ≠ .clear) := by
  cases op with
  | put key data => exact ⟨_, rfl, rfl, by simp⟩
  | find key => exact ⟨[], (List.append_nil _).symm, rfl, by simp⟩
  | deleteEntry n =>
      rw [step]
      cases a.results.getD n none with
      | none => exact ⟨[], (List.append_nil _).symm, rfl, by simp⟩
      | some i => exact ⟨[.erase i], rfl, rfl, by simp⟩
  | deleteByKey key =>
      refine ⟨_, rfl, by rw [RingOp.puts_erase]; rfl, fun _ rop hrop => ?_⟩
      obtain ⟨i, -, rfl⟩ := List.mem_map.mp hrop
      simp
  | clear => exact ⟨[.clear], rfl, rfl, by simp⟩

theorem RingCaller.done_foldl (a : RingCaller) (ops : List CacheOp) :
    ∃ rops : List (RingOp Stored), (ops.foldl (step k s) a).done = a.done ++ rops ∧
      (RingOp.puts rops).length = numPuts ops ∧ (.clear ∉ ops → ∀ rop ∈ rops, rop ≠ .clear) := by
  induction ops generalizing a with
  | nil => exact ⟨[], (List.append_nil _).symm, rfl, by simp⟩
  | cons op ops ih =>
      obtain ⟨rops, hdone, hputs, hclear⟩ := a.done_step (k := k) (s := s) op
      obtain ⟨rops', hdone', hputs', hclear'⟩ := ih (a.step k s op)
      refine ⟨rops ++ rops', ?_, ?_, ?_⟩
      · rw [List.foldl_cons, hdone', hdone, List.append_assoc]
      · rw [RingOp.puts_append, List.length_append, hputs, hputs', numPuts, numPuts, numPuts,
          ← List.countP_append]
        rfl
      · intro hnotMem rop hrop
        rw [List.mem_cons, not_or] at hnotMem
        rcases List.mem_append.mp hrop with hrop | hrop
        · exact hclear (Ne.symm hnotMem.1) rop hrop
        · exact hclear' hnotMem.2 rop hrop

theorem Simulates.slotKey (h : Simulates s c a) {i : ℕ} (hi : i < s.cachesize.toNat) :
    c.slotKey s i = keyBytes s.keysize.toNat ((a.ring s).slot i) :=
  h.layout.key i (by rw [h.layout.size]; exact hi)

/-- An operation that spares a slot of the cache does so with the slot of the ring. -/
theorem Simulates.spares (h : Simulates s c a) {i : ℕ} (hi : i < s.cachesize.toNat) {op : CacheOp}
    (hop : SparesSlot k s i c op) {rops : List (RingOp Stored)}
    (hdone : (a.step k s op).done = a.done ++ rops) : ∀ rop ∈ rops, rop.Spares i := by
  have hnew : ∀ rops', a.done ++ rops' = a.done ++ rops → rops = rops' := fun rops' heq =>
    (List.append_cancel_left heq).symm
  cases op with
  | put key data =>
      rw [hnew _ hdone]
      intro rop hrop
      rw [List.mem_singleton.mp hrop]
      exact trivial
  | find key =>
      rw [hnew [] ((List.append_nil _).trans hdone)]
      simp
  | deleteEntry n =>
      have hres := h.getD_results n
      rw [SparesSlot, hres] at hop
      rw [RingCaller.step] at hdone
      cases hslot : a.results.getD n none with
      | none =>
          rw [hslot] at hdone
          rw [hnew [] ((List.append_nil _).trans hdone)]
          simp
      | some j =>
          rw [hslot] at hdone hop
          rw [hnew _ hdone]
          intro rop hrop
          rw [List.mem_singleton.mp hrop]
          rintro rfl
          exact hop rfl
  | deleteByKey key =>
      rw [hnew _ hdone]
      intro rop hrop
      obtain ⟨j, hj, rfl⟩ := List.mem_map.mp hrop
      rintro rfl
      have hholds := (List.mem_filter.mp hj).2
      rw [SparesSlot, h.slotKey hi, Layout.equal_keyBytes] at hop
      rw [RingCaller.holds, hop] at hholds
      cases hholds
  | clear => exact absurd hop id

theorem Simulates.sparesAll (hs : s.Fits) (h : Simulates s c a) {i : ℕ} (hi : i < s.cachesize.toNat)
    {ops : List CacheOp} (hops : SparesSlotAll k s i c ops) :
    ∃ rops : List (RingOp Stored), (ops.foldl (RingCaller.step k s) a).done = a.done ++ rops ∧
      (RingOp.puts rops).length = numPuts ops ∧ ∀ rop ∈ rops, rop.Spares i := by
  induction ops generalizing c a with
  | nil => exact ⟨[], (List.append_nil _).symm, rfl, by simp⟩
  | cons op ops ih =>
      obtain ⟨rops, hdone, hputs, -⟩ := a.done_step (k := k) (s := s) op
      obtain ⟨rops', hdone', hputs', hspares'⟩ := ih (simulates_step hs h op) hops.2
      have hspares := h.spares hi hops.1 hdone
      refine ⟨rops ++ rops', ?_, ?_, ?_⟩
      · rw [List.foldl_cons, hdone', hdone, List.append_assoc]
      · rw [RingOp.puts_append, List.length_append, hputs, hputs', numPuts, numPuts, numPuts,
          ← List.countP_append]
        rfl
      · intro rop hrop
        rcases List.mem_append.mp hrop with hrop | hrop
        · exact hspares rop hrop
        · exact hspares' rop hrop

theorem Caller.run_append (equal : ByteString → ByteString → Bool) (c : ByteCache)
    (ops ops' : List CacheOp) :
    run equal c (ops ++ ops') = ops'.foldl (step equal) (run equal c ops) := List.foldl_append

theorem RingCaller.run_append (ops ops' : List CacheOp) :
    run k s (ops ++ ops') = ops'.foldl (step k s) (run k s ops) := List.foldl_append

theorem RingCaller.ring_step_put (a : RingCaller) (key data : Mem) :
    (a.step k s (.put key data)).ring s = (a.ring s).apply (.put
      ⟨(RingOp.puts a.done).length, chunk key 0 s.keysize.toNat, chunk data 0 s.entrysize.toNat⟩) :=
  SlotRing.run_append _ _ _

theorem Simulates.equal_slotKey (h : Simulates s c a) {i : ℕ} (hi : i < s.cachesize.toNat)
    (bytes : ByteString) :
    k.equal bytes (c.slotKey s i) = RingCaller.holds k (a.ring s) bytes i := by
  rw [h.slotKey hi, Layout.equal_keyBytes]
  rfl

/-- A search returns the first slot with an equal key. -/
theorem Simulates.find (hs : s.Fits) (h : Simulates s c a) (key : Mem) :
    match c.cache.fCacheFind k.equal key with
    | some p => ∃ i, i < s.cachesize.toNat ∧ p = i * s.entrysize.toNat ∧
        k.equal (chunk key 0 s.keysize.toNat) (c.slotKey s i) = true ∧
        ∀ j, j < i → k.equal (chunk key 0 s.keysize.toNat) (c.slotKey s j) = false
    | none => ∀ i, i < s.cachesize.toNat →
        k.equal (chunk key 0 s.keysize.toNat) (c.slotKey s i) = false := by
  have hsize := h.layout.size
  rw [h.layout.fCacheFind (k := k) hs key, RingCaller.holders, List.head?_filter]
  cases hfind : (List.range (a.ring s).size).find?
      (RingCaller.holds k (a.ring s) (chunk key 0 s.keysize.toNat)) with
  | none =>
      intro i hi
      rw [h.equal_slotKey hi]
      have := List.find?_eq_none.mp hfind i (List.mem_range.mpr (by omega))
      simpa using this
  | some i =>
      obtain ⟨hi, hmem, hfirst⟩ := List.find?_range_eq_some.mp hfind
      have hlt := List.mem_range.mp hmem
      refine ⟨i, by omega, rfl, ?_, fun j hj => ?_⟩
      · rw [h.equal_slotKey (by omega)]
        exact hi
      · rw [h.equal_slotKey (by omega)]
        simpa using hfirst j hj

/-- A pair that was put in stays in its slot. -/
theorem Simulates.stays (hs : s.Fits) (h : Simulates s c a) {key data : Mem} {i : ℕ}
    (hi : (c.cache.fCachePut key data).1 = i * s.entrysize.toNat) {later : List CacheOp}
    (hspares : SparesSlotAll k s i (c.step k.equal (.put key data)) later)
    (hputs : numPuts later < s.cachesize.toNat) :
    (later.foldl (Caller.step k.equal) (c.step k.equal (.put key data))).slotKey s i =
        chunk key 0 s.keysize.toNat ∧
      (later.foldl (Caller.step k.equal) (c.step k.equal (.put key data))).slotEntry s i =
        chunk data 0 s.entrysize.toNat := by
  have hsize := h.layout.size
  have hlt : i < s.cachesize.toNat ∧ (a.ring s).next = i := by
    have hnext := (h.layout.put key data 0).1
    rw [hi] at hnext
    have := Nat.eq_of_mul_eq_mul_right s.entrysize_pos hnext
    have := (a.ring s).next_lt_size
    omega
  have hput := simulates_step (k := k) hs h (.put key data)
  obtain ⟨rops, hdone, hlen, hrops⟩ := hput.sparesAll hs hlt.1 hspares
  have hlater := simulates_foldl (k := k) hs hput later
  have hslot : ((later.foldl (RingCaller.step k s) (a.step k s (.put key data))).ring s).slot i =
      some ⟨(RingOp.puts a.done).length, chunk key 0 s.keysize.toNat,
        chunk data 0 s.entrysize.toNat⟩ := by
    rw [RingCaller.ring, hdone, SlotRing.run_append]
    show (((a.step k s (.put key data)).ring s).run rops).slot i = _
    rw [RingCaller.ring_step_put]
    rw [← hlt.2] at hrops ⊢
    exact SlotRing.slot_run_put _ _ hrops (by rw [hlen, hsize]; exact hputs)
  refine ⟨?_, ?_⟩
  · rw [hlater.slotKey hlt.1, hslot]
    rfl
  · have hentry := hlater.layout.entry i (by rw [hlater.layout.size]; exact hlt.1)
    rw [hslot] at hentry
    exact hentry

/-- The put that comes as many puts later as there are slots goes into the same slot. -/
theorem Simulates.overwritten (hs : s.Fits) (h : Simulates s c a) (key data : Mem)
    {later : List CacheOp} (hclear : CacheOp.clear ∉ later)
    (hputs : numPuts later + 1 = s.cachesize.toNat) (key' data' : Mem) :
    ((later.foldl (Caller.step k.equal) (c.step k.equal (.put key data))).cache.fCachePut
        key' data').1 = (c.cache.fCachePut key data).1 := by
  have hsize := h.layout.size
  have hput := simulates_step (k := k) hs h (.put key data)
  have hlater := simulates_foldl (k := k) hs hput later
  obtain ⟨rops, hdone, hlen, hrops⟩ :=
    (a.step k s (.put key data)).done_foldl (k := k) (s := s) later
  have hnext : ((later.foldl (RingCaller.step k s) (a.step k s (.put key data))).ring s).next =
      (a.ring s).next := by
    rw [RingCaller.ring, hdone, SlotRing.run_append]
    show (((a.step k s (.put key data)).ring s).run rops).next = _
    rw [RingCaller.ring_step_put]
    exact SlotRing.next_run_put _ _ (hrops hclear) (by rw [hlen, hsize]; exact hputs)
  rw [(hlater.layout.put key' data' 0).1, (h.layout.put key data 0).1, hnext]

/-- While the sizes of both blocks have 32 bits, whatever is done to a cache is done to a ring. -/
theorem CacheSizes.Fits.refinesRing (hs : s.Fits) (k : KeyCompare κ) (ops : List CacheOp) :
    RefinesRing k s ops := by
  have hrun := simulates_run (k := k) hs ops
  have hsize := hrun.layout.size
  refine ⟨⟨?_, hrun.layout.kNext, hrun.layout.eNext⟩, fun i hi => hrun.slotKey hi, ?_,
    hrun.find hs, ?_, ?_⟩
  · rw [← hsize]
    exact SlotRing.next_lt_size _
  · intro i hi st hst
    have hentry := hrun.layout.entry i (by rw [hsize]; exact hi)
    rw [hst] at hentry
    exact hentry
  · rintro past key data later i rfl hi hspares hputs
    rw [Caller.run_append] at hspares ⊢
    exact (simulates_run (k := k) hs past).stays hs hi hspares hputs
  · rintro past key data later key' data' rfl hclear hputs
    rw [Caller.run_append]
    exact (simulates_run (k := k) hs past).overwritten hs key data hclear hputs key' data'

/-! ## Where a product does not fit -/

/-- Keys and entries without zeros. -/
def ones : Mem := fun _ => 1

/-- As many puts. -/
def fill (m : ℕ) : List CacheOp := List.replicate m (.put ones ones)

theorem fill_succ (m : ℕ) : fill (m + 1) = fill m ++ [.put ones ones] := List.replicate_succ'

/-- The ring after `m` puts. -/
theorem ring_fill {m : ℕ} (hm : m ≤ s.cachesize.toNat) :
    ((RingCaller.run k s (fill m)).ring s).next = m % s.cachesize.toNat ∧
      (RingCaller.run k s (fill m)).results = (List.range m).map some ∧
      ∀ i, i < m → ∃ st, ((RingCaller.run k s (fill m)).ring s).slot i = some st ∧
        st.key = chunk ones 0 s.keysize.toNat := by
  have hsize : ∀ a : RingCaller, (a.ring s).size = s.cachesize.toNat := fun a => by
    rw [RingCaller.ring, SlotRing.size_run]
    exact List.length_replicate
  induction m with
  | zero => exact ⟨(Nat.zero_mod _).symm, rfl, fun i hi => absurd hi (Nat.not_lt_zero _)⟩
  | succ m ih =>
      obtain ⟨hnext, hresults, hslots⟩ := ih (by omega)
      rw [Nat.mod_eq_of_lt (by omega)] at hnext
      have hring := (RingCaller.run k s (fill m)).ring_step_put (k := k) (s := s) ones ones
      rw [fill_succ, RingCaller.run_append]
      rw [List.foldl_cons, List.foldl_nil, hring]
      refine ⟨?_, ?_, fun i hi => ?_⟩
      · show (((RingCaller.run k s (fill m)).ring s).next + 1) % SlotRing.size _ = _
        rw [hnext, hsize]
      · show _ ++ [some ((RingCaller.run k s (fill m)).ring s).next] = _
        rw [hresults, hnext, List.range_succ, List.map_append]
        rfl
      · rw [SlotRing.slot_put, hnext]
        by_cases him : m = i
        · rw [if_pos him]
          exact ⟨_, rfl, rfl⟩
        · rw [if_neg him]
          exact hslots i (by omega)

/-- The cache after `m` puts has the same sizes. -/
theorem cache_fill (m : ℕ) :
    (Caller.run k.equal s.cache (fill m)).cache.cachesize = s.cachesize ∧
      (Caller.run k.equal s.cache (fill m)).cache.keysize = s.keysize ∧
      (Caller.run k.equal s.cache (fill m)).cache.entrysize = s.entrysize ∧
      (Caller.run k.equal s.cache (fill m)).cache.eStop = s.cache.eStop ∧
      (Caller.run k.equal s.cache (fill m)).results.length = m := by
  induction m with
  | zero => exact ⟨rfl, rfl, rfl, rfl, rfl⟩
  | succ m ih =>
      obtain ⟨hc, hk, he, hstop, hlen⟩ := ih
      rw [fill_succ, Caller.run_append, List.foldl_cons, List.foldl_nil]
      refine ⟨?_, ?_, ?_, ?_, ?_⟩
      · rw [← hc]
        simp only [Caller.step, ByteCache.fCachePut]
        split <;> rfl
      · rw [← hk]
        simp only [Caller.step, ByteCache.fCachePut]
        split <;> rfl
      · rw [← he]
        simp only [Caller.step, ByteCache.fCachePut]
        split <;> rfl
      · rw [← hstop]
        simp only [Caller.step, ByteCache.fCachePut]
        split <;> rfl
      · show (_ ++ [_]).length = _
        rw [List.length_append, hlen]
        rfl

theorem getD_chunk {m : Mem} {off n j : ℕ} (hj : j < n) : (chunk m off n).getD j 0 = m (off + j) := by
  simp [chunk, List.getD_eq_getElem?_getD, hj]

/-- The last byte of the last key, after as many puts as there are slots. -/
theorem kHead_fill (h : RefinesRing k s (fill s.cachesize.toNat)) :
    (Caller.run k.equal s.cache (fill s.cachesize.toNat)).cache.kHead
      ((s.cachesize.toNat - 1) * s.keysize.toNat + (s.keysize.toNat - 1)) = 1 := by
  have hc := s.cachesize_pos
  have hk := s.keysize_pos
  obtain ⟨-, -, hslots⟩ := ring_fill (k := k) (s := s) le_rfl
  obtain ⟨st, hst, hkey⟩ := hslots (s.cachesize.toNat - 1) (by omega)
  have hkeys := h.keys (s.cachesize.toNat - 1) (by omega)
  rw [hst] at hkeys
  have hbyte := congrArg (fun l => l.getD (s.keysize.toNat - 1) 0) hkeys
  simp only [Caller.slotKey, keyBytes, hkey] at hbyte
  rw [getD_chunk (by omega), getD_chunk (by omega)] at hbyte
  exact hbyte

/-- An empty slot has a key of zeros. -/
theorem kHead_of_empty {ops : List CacheOp} (h : RefinesRing k s ops)
    (hslot : ((RingCaller.run k s ops).ring s).slot (s.cachesize.toNat - 1) = none) :
    (Caller.run k.equal s.cache ops).cache.kHead
      ((s.cachesize.toNat - 1) * s.keysize.toNat + (s.keysize.toNat - 1)) = 0 := by
  have hc := s.cachesize_pos
  have hk := s.keysize_pos
  have hkeys := h.keys (s.cachesize.toNat - 1) (by omega)
  rw [hslot] at hkeys
  have hbyte := congrArg (fun l => l.getD (s.keysize.toNat - 1) 0) hkeys
  simp only [Caller.slotKey, keyBytes] at hbyte
  rw [getD_chunk (by omega)] at hbyte
  rw [hbyte, List.getD_eq_getElem?_getD, List.getElem?_replicate]
  split <;> rfl

/-- A product that does not fit is too small by a multiple of 2³². -/
theorem toNat_mul_le {x y : UInt32} (h : 2 ^ 32 ≤ x.toNat * y.toNat) :
    (x * y).toNat ≤ (x.toNat - 1) * y.toNat := by
  have hy := y.toNat_lt
  have hsub : (x.toNat - 1) * y.toNat = x.toNat * y.toNat - y.toNat := by
    rw [Nat.sub_mul, Nat.one_mul]
  rw [UInt32.toNat_mul, hsub]
  have := Nat.mod_lt (x.toNat * y.toNat) (show 0 < 2 ^ 32 by decide)
  have := Nat.div_add_mod (x.toNat * y.toNat) (2 ^ 32)
  have := Nat.div_pos h (show 0 < 2 ^ 32 by decide)
  omega

theorem RingCaller.slot_run_clear (ops : List CacheOp) (i : ℕ) :
    ((run k s (ops ++ [.clear])).ring s).slot i = none := by
  rw [run_append, List.foldl_cons, List.foldl_nil, step, ring_done]
  exact SlotRing.slot_clear _ _

/-- With too large a block of keys, the last key is still there after `f_cache_clear`. -/
theorem fits_keys (h : ∀ ops, RefinesRing k s ops) :
    s.cachesize.toNat * s.keysize.toNat < 2 ^ 32 := by
  by_contra hge
  have hle := toNat_mul_le (not_lt.mp hge)
  have hk := s.keysize_pos
  obtain ⟨hcache, hkeysize, -, -, -⟩ := cache_fill (k := k) (s := s) s.cachesize.toNat
  have hone := kHead_fill (h (fill s.cachesize.toNat))
  have hzero := kHead_of_empty (h (fill s.cachesize.toNat ++ [.clear]))
    (RingCaller.slot_run_clear _ _)
  rw [Caller.run_append, List.foldl_cons, List.foldl_nil] at hzero
  have hsame : memzero (Caller.run k.equal s.cache (fill s.cachesize.toNat)).cache.kHead 0
      (s.cachesize * s.keysize).toNat
      ((s.cachesize.toNat - 1) * s.keysize.toNat + (s.keysize.toNat - 1)) = 1 := by
    rw [memzero, if_neg (by omega), hone]
  have hstep : ∀ c : Caller, (c.step k.equal .clear).cache.kHead =
      memzero c.cache.kHead 0 (c.cache.cachesize * c.cache.keysize).toNat := fun _ => rfl
  rw [hstep, hcache, hkeysize, hsame] at hzero
  exact absurd hzero (by decide)

/-- With too large a block of entries, the last entry cannot be deleted. -/
theorem fits_entries (h : ∀ ops, RefinesRing k s ops) :
    s.cachesize.toNat * s.entrysize.toNat < 2 ^ 32 := by
  by_contra hge
  have hc := s.cachesize_pos
  have hle := toNat_mul_le (not_lt.mp hge)
  have hone := kHead_fill (h (fill s.cachesize.toNat))
  -- the pointer that the last put returned
  have hlast : (Caller.run k.equal s.cache (fill s.cachesize.toNat)).results.getD
      (s.cachesize.toNat - 1) none = some ((s.cachesize.toNat - 1) * s.entrysize.toNat) := by
    obtain ⟨n, hn⟩ := Nat.exists_eq_succ_of_ne_zero (Nat.pos_iff_ne_zero.mp hc)
    obtain ⟨hnext, -, -⟩ := ring_fill (k := k) (s := s) (m := n) (by omega)
    have hcursor := (h (fill n)).cursors.2.2
    obtain ⟨-, -, -, -, hlen⟩ := cache_fill (k := k) (s := s) n
    rw [hnext, Nat.mod_eq_of_lt (by omega)] at hcursor
    rw [hn, Nat.succ_eq_add_one, fill_succ, Caller.run_append, List.foldl_cons, List.foldl_nil]
    show (_ ++ [some _]).getD _ none = _
    rw [List.getD_eq_getElem?_getD, List.getElem?_append_right (by omega), hlen]
    simpa using hcursor
  have hzero := kHead_of_empty (h (fill s.cachesize.toNat ++ [.deleteEntry (s.cachesize.toNat - 1)])) (by
    obtain ⟨-, hresults, -⟩ := ring_fill (k := k) (s := s) le_rfl
    have hslot : (RingCaller.run k s (fill s.cachesize.toNat)).results.getD
        (s.cachesize.toNat - 1) none = some (s.cachesize.toNat - 1) := by
      rw [hresults, List.getD_eq_getElem?_getD, List.getElem?_map, List.getElem?_range (by omega)]
      rfl
    rw [RingCaller.run_append, List.foldl_cons, List.foldl_nil, RingCaller.step, hslot]
    show (RingCaller.ring s { RingCaller.run k s (fill s.cachesize.toNat) with
      done := _ ++ [.erase (s.cachesize.toNat - 1)] }).slot _ = none
    rw [RingCaller.ring_done, SlotRing.run_cons, SlotRing.run_nil, SlotRing.slot_erase, if_pos rfl])
  obtain ⟨-, -, -, hstop, -⟩ := cache_fill (k := k) (s := s) s.cachesize.toNat
  have hrefused : (Caller.run k.equal s.cache (fill s.cachesize.toNat)).cache.fCacheDeleteEntry
      (some ((s.cachesize.toNat - 1) * s.entrysize.toNat)) =
        (false, [], (Caller.run k.equal s.cache (fill s.cachesize.toNat)).cache) := by
    simp only [ByteCache.fCacheDeleteEntry]
    split
    · rfl
    · rw [if_pos]
      rw [hstop, CacheSizes.cache, Option.getD_some, UInt32.mul_comm]
      exact hle
  rw [Caller.run_append, List.foldl_cons, List.foldl_nil, Caller.step, hlast, hrefused] at hzero
  exact absurd (hone.symm.trans hzero) (by decide)

/-- A cache is a ring of slots to every program if and only if its blocks have 32-bit sizes. -/
theorem refinesRing_iff (k : KeyCompare κ) (s : CacheSizes) :
    (∀ ops, RefinesRing k s ops) ↔ s.Fits :=
  ⟨fun h => ⟨fits_keys h, fits_entries h⟩, fun h => h.refinesRing k⟩

end

instance (bytes : ByteString) : Decidable (NonZero bytes) :=
  inferInstanceAs (Decidable (∃ b ∈ bytes, b ≠ 0))

/-- Keys that are compared byte by byte. -/
def byteKeys : KeyCompare ByteString where
  equal a b := decide (NonZero a ∧ a = b)
  val := id
  equal_iff a b := by
    rw [decide_eq_true_eq]
    exact ⟨fun ⟨ha, hab⟩ => ⟨ha, hab ▸ ha, hab⟩, fun ⟨ha, _, hab⟩ => ⟨ha, hab⟩⟩

/-- A cache of open files with 2²⁹ slots, which `fspd.conf` can ask for. -/
def hugeSizes : CacheSizes where
  cachesize := 536870912
  entrysize := 24
  keysize := 8
  cachesize_pos := by decide
  entrysize_pos := by decide
  keysize_pos := by decide

/-- A key that is still there after the cache was cleared. -/
theorem hugeSizes_not_refinesRing : ¬ RefinesRing byteKeys hugeSizes [.put ones ones, .clear] := by
  intro h
  have hkey := h.keys 0 (by decide)
  have hslot : ((RingCaller.run byteKeys hugeSizes [.put ones ones, .clear]).ring hugeSizes).slot 0 =
      none := RingCaller.slot_run_clear [.put ones ones] 0
  have hbytes : (Caller.run byteKeys.equal hugeSizes.cache [.put ones ones, .clear]).slotKey
      hugeSizes 0 = [1, 1, 1, 1, 1, 1, 1, 1] := by
    decide +kernel
  rw [hslot, hbytes] at hkey
  exact absurd hkey (by decide)

end Fsp
