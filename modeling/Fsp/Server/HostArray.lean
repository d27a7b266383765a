import Fsp.Server.Host
import Mathlib.Data.Finset.Card
import Mathlib.Data.Finset.Dedup
import Mathlib.Data.Finset.Max
import Mathlib.Logic.Function.Basic

/-!
# The client database in memory

`server/host.c` keeps the client database in a block of memory that grows by 30 records at a time.
`hcnt` of them are in use.  A new record is put in its place by copying those behind it one up, and
all indices are 32 bits wide.  Here `find_host` is followed at this level, and `findHost_table` says
that it does to the records in use what `Fsp.findHost` does to a list.

It follows that the database is a map from addresses to records: what a call finds is what the last
call for the same address left (`lastLeft`).  The bisection adds its two bounds before it halves the
sum, so that this holds while fewer than 2³¹ addresses are known, and ends there: after that a call
for the greatest of them does not return.
-/

namespace Fsp

open Effect

/-- `HALLOC_SIZE` -/
def hallocSize : ℕ := 30

/-- The variables `htab`, `hcnt` and `htot`; `cells` is the block that `htab` points to. -/
structure HostArray where
  cells : List HTab
  hcnt : UInt32
  htot : UInt32

/-- A call of `find_host`, and what its caller does to the record it gets.  `findHostname` is what a
reverse lookup gives at the moment, and `junk` what is in memory that was not used before. -/
structure HostCall where
  inetNum : UInt32
  ne_zero : inetNum ≠ 0
  findHostname : Option ByteString
  junk : ℕ → HTab
  leave : HTab → HTab
  inetNum_leave : ∀ hp, (leave hp).inetNum = hp.inetNum

namespace HostArray

/-- `init_htab` -/
def initHtab (junk : ℕ → HTab) : HostArray :=
  ⟨hzero :: { hzero with inetNum := 0xFFFFFFFF } :: (List.range (hallocSize - 2)).map junk, 2,
    UInt32.ofNat hallocSize⟩

/-- The search loop of `find_host`, for at most `n` rounds: where it ends, and whether it ends at a
record of `inetNum`. -/
def bisect (cells : List HTab) (inetNum : UInt32) : ℕ → UInt32 → UInt32 → Option (UInt32 × Bool)
  | 0, _, _ => none
  | n + 1, l, h =>
      let m := (l + h) >>> 1
      if m = l then some (l, false)
      else
        let inum := (hostAt cells m.toNat).inetNum
        if inetNum < inum then bisect cells inetNum n l m
        else if inum < inetNum then bisect cells inetNum n m h
        else some (m, true)

/-- The loop that makes room: `n` times, the record before `hs` is copied one up. -/
def shiftUp : ℕ → ℕ → List HTab → List HTab
  | 0, _, cells => cells
  | n + 1, hs, cells => shiftUp n (hs - 1) (cells.set hs (hostAt cells (hs - 1)))

/-- The block grows when all its records are in use. -/
def grow (t : HostArray) (junk : ℕ → HTab) : HostArray :=
  if t.htot < t.hcnt + 1 then
    let htot := t.htot + UInt32.ofNat hallocSize
    { t with
      htot := htot
      cells := (t.cells ++ (List.range hallocSize).map junk).take htot.toNat }
  else t

/-- The record with number `m` is overwritten. -/
def setAt (t : HostArray) (m : UInt32) (hp : HTab) : HostArray :=
  { t with cells := t.cells.set m.toNat hp }

/-- The record `hp` is put in place `m`, and those from there on move one up. -/
def insertAt (t : HostArray) (m : UInt32) (hp : HTab) : HostArray :=
  { t with
    cells := (shiftUp (t.hcnt - m).toNat t.hcnt.toNat t.cells).set m.toNat hp
    hcnt := t.hcnt + 1 }

/-- `find_host`, when its search takes at most `fuel` rounds: the number of the record, and the
database afterwards. -/
def findHost (noUnnamed : Bool) (fuel : ℕ) (t : HostArray) (c : HostCall) :
    Option (UInt32 × HostArray) := do
  let (m, found) ← bisect t.cells c.inetNum fuel 0 (t.hcnt - 1)
  if found then
    let hp := hostAt t.cells m.toNat
    let hp := if noUnnamed ∧ hp.hostname = none then { hp with hostname := c.findHostname } else hp
    some (m, t.setAt m { hp with accCnt := hp.accCnt + 1 })
  else
    let m := if (hostAt t.cells m.toNat).inetNum < c.inetNum then m + 1 else m
    some (m, (t.grow c.junk).insertAt m
      { hzero with inetNum := c.inetNum, hostname := c.findHostname })

/-- A call, with what the caller does to the record. -/
def call (noUnnamed : Bool) (fuel : ℕ) (t : HostArray) (c : HostCall) : Option HostArray := do
  let (m, t) ← t.findHost noUnnamed fuel c
  some (t.setAt m (c.leave (hostAt t.cells m.toNat)))

/-- The records in use. -/
def table (t : HostArray) : List HTab := t.cells.take t.hcnt.toNat

/-! ## Lists and blocks -/

theorem ext_hostAt {l l' : List HTab} (hlen : l.length = l'.length)
    (h : ∀ i, i < l.length → hostAt l i = hostAt l' i) : l = l' := by
  apply List.ext_getElem hlen
  intro i hi hi'
  have heq := h i hi
  simpa [hostAt, List.getD_eq_getElem?_getD, List.getElem?_eq_getElem, hi, hi'] using heq

theorem hostAt_take {l : List HTab} {n i : ℕ} (hi : i < n) : hostAt (l.take n) i = hostAt l i := by
  simp [hostAt, List.getD_eq_getElem?_getD, hi]

theorem hostAt_append_left {l l' : List HTab} {i : ℕ} (hi : i < l.length) :
    hostAt (l ++ l') i = hostAt l i := by
  simp [hostAt, List.getD_eq_getElem?_getD, List.getElem?_append, hi]

theorem length_shiftUp (n hs : ℕ) (cells : List HTab) :
    (shiftUp n hs cells).length = cells.length := by
  induction n generalizing hs cells with
  | zero => rfl
  | succ n ih => rw [shiftUp, ih, List.length_set]

/-- The records from `hs - n` on are one up. -/
theorem hostAt_shiftUp {n hs : ℕ} {cells : List HTab} (hhs : hs < cells.length) (hn : n ≤ hs)
    (i : ℕ) : hostAt (shiftUp n hs cells) i =
      if hs - n < i ∧ i ≤ hs then hostAt cells (i - 1) else hostAt cells i := by
  induction n generalizing hs cells with
  | zero => rw [shiftUp, if_neg (by omega)]
  | succ n ih =>
      rw [shiftUp, ih (by rw [List.length_set]; omega) (by omega), hostAt_set hhs, hostAt_set hhs]
      by_cases hi : hs - (n + 1) < i ∧ i ≤ hs
      · rw [if_pos hi]
        by_cases hlast : i = hs
        · rw [if_neg (by omega), if_pos hlast.symm, hlast]
        · rw [if_pos (by omega), if_neg (by omega)]
      · rw [if_neg hi, if_neg (by omega), if_neg (by omega)]

/-! ## The bisection in 32 bits -/

theorem toNat_mid (l h : UInt32) :
    ((l + h) >>> 1).toNat = (l.toNat + h.toNat) % 2 ^ 32 / 2 := by
  rw [UInt32.toNat_shiftRight, UInt32.toNat_add, Nat.shiftRight_eq_div_pow]
  rfl

/-- While the sum of the bounds has 32 bits, the search is the one on lists.  It is cut short only
where the fuel is less than the distance of the bounds. -/
theorem bisect_eq (cells htab : List HTab) {a l h : UInt32} {n N : ℕ} (hlt : l < h)
    (hle : h.toNat ≤ 2 ^ 31) (hN : h.toNat - l.toNat ≤ N)
    (hsame : ∀ i, i < h.toNat → hostAt cells i = hostAt htab i) :
    (n < h.toNat - l.toNat ∧ bisect cells a n l h = none) ∨
      (bisect cells a n l h).map (fun r => (r.1.toNat, r.2)) =
        some (bisectHost htab a N l.toNat h.toNat) := by
  induction n generalizing l h N with
  | zero =>
      rw [UInt32.lt_iff_toNat_lt] at hlt
      exact Or.inl ⟨by omega, rfl⟩
  | succ n ih =>
      have hlt' := UInt32.lt_iff_toNat_lt.mp hlt
      obtain ⟨N, rfl⟩ := Nat.exists_eq_succ_of_ne_zero (show N ≠ 0 by omega)
      have hmid : ((l + h) >>> 1).toNat = (l.toNat + h.toNat) / 2 := by
        rw [toNat_mid, Nat.mod_eq_of_lt (by omega)]
      have hml : (l + h) >>> 1 = l ↔ (l.toNat + h.toNat) / 2 = l.toNat := by
        rw [← hmid, UInt32.toNat_inj]
      simp only [bisect, bisectHost, hml]
      by_cases hm : (l.toNat + h.toNat) / 2 = l.toNat
      · rw [if_pos hm, if_pos hm]
        exact Or.inr rfl
      rw [if_neg hm, if_neg hm, hmid, hsame _ (by omega)]
      by_cases habove : a < (hostAt htab ((l.toNat + h.toNat) / 2)).inetNum
      · rw [if_pos habove, if_pos habove]
        have hrec := ih (l := l) (h := (l + h) >>> 1) (N := N)
          (UInt32.lt_iff_toNat_lt.mpr (by omega)) (by omega) (by omega)
          fun i hi => hsame i (by omega)
        rw [hmid] at hrec
        exact hrec.imp_left fun h => ⟨by omega, h.2⟩
      rw [if_neg habove, if_neg habove]
      by_cases hbelow : (hostAt htab ((l.toNat + h.toNat) / 2)).inetNum < a
      · rw [if_pos hbelow, if_pos hbelow]
        have hrec := ih (l := (l + h) >>> 1) (h := h) (N := N)
          (UInt32.lt_iff_toNat_lt.mpr (by omega)) hle (by omega) hsame
        rw [hmid] at hrec
        exact hrec.imp_left fun h => ⟨by omega, h.2⟩
      · rw [if_neg hbelow, if_neg hbelow, Option.map_some, hmid]
        exact Or.inr rfl

end HostArray

/-! ## `find_host` on lists, once more -/

/-- Where the bisection ends tells whether the address has a record. -/
theorem bisectHost_cases {htab : List HTab} {a : UInt32} (h : HostTable htab) (ha : a ≠ 0) :
    (bisectHost htab a htab.length 0 (htab.length - 1)).1 + 1 < htab.length ∧
      if hostRecord htab a = none then
        (bisectHost htab a htab.length 0 (htab.length - 1)).2 = false ∧
          (hostAt htab (bisectHost htab a htab.length 0 (htab.length - 1)).1).inetNum < a
      else (bisectHost htab a htab.length 0 (htab.length - 1)).2 = true := by
  have hlen := h.two_le
  rcases bisectHost_spec (brackets_start (a := a) h) (n := htab.length) (by omega) with
    ⟨hfound, hlt, hinet⟩ | ⟨hfound, hb⟩
  · rw [if_neg]
    · exact ⟨hlt, hfound⟩
    · rw [(hostRecord_eq_some h ha).mpr ⟨_, hlt, rfl, hinet⟩]
      simp
  · have hbelow : (hostAt htab (bisectHost htab a htab.length 0 (htab.length - 1)).1).inetNum <
        a := by
      rcases hb.below with hl | hlt
      · rw [hl, h.first]
        exact UInt32.pos_iff_ne_zero.mpr ha
      · exact hlt
    rw [if_pos (hb.hostRecord_eq_none h ha hbelow)]
    exact ⟨hb.lt_length, hfound, hbelow⟩

namespace HostArray

/-! ## What the array keeps -/

/-- The database with `n` addresses: the records in use fit into the block, which is no larger than
needed, and they are sorted between the two records that are always there. -/
structure Sound (t : HostArray) (n : ℕ) : Prop where
  hcnt : t.hcnt.toNat = n + 2
  block : t.cells.length = t.htot.toNat
  fits : n + 2 ≤ t.htot.toNat
  room : t.htot.toNat ≤ n + 32
  table : HostTable t.table
  last : (hostAt t.table (n + 1)).inetNum = 0xFFFFFFFF

theorem sound_initHtab (junk : ℕ → HTab) : Sound (initHtab junk) 0 where
  hcnt := rfl
  block := by
    simp [initHtab, hallocSize]
  fits := show 0 + 2 ≤ (UInt32.ofNat hallocSize).toNat by decide
  room := show (UInt32.ofNat hallocSize).toNat ≤ 0 + 32 by decide
  table := hostTable_initHtab
  last := rfl

variable {noUnnamed : Bool} {t t' : HostArray} {n : ℕ}

theorem Sound.length_table (h : Sound t n) : t.table.length = n + 2 := by
  have hfits := h.fits
  rw [HostArray.table, List.length_take, h.hcnt, h.block]
  omega

theorem Sound.hostAt_table (h : Sound t n) {i : ℕ} (hi : i < n + 2) :
    hostAt t.cells i = hostAt t.table i := by
  rw [HostArray.table, hostAt_take (by rw [h.hcnt]; exact hi)]

theorem Sound.toNat_pred (h : Sound t n) : (t.hcnt - 1).toNat = n + 1 := by
  have hcnt := h.hcnt
  rw [UInt32.toNat_sub_of_le _ _ (UInt32.le_iff_toNat_le.mpr (by rw [hcnt]; simp)), hcnt]
  rfl

/-- The search of `find_host` is the one on lists. -/
theorem Sound.bisect_eq (h : Sound t n) (hn : n < 2 ^ 31) (a : UInt32) (fuel : ℕ) :
    (fuel ≤ n ∧ bisect t.cells a fuel 0 (t.hcnt - 1) = none) ∨
      (bisect t.cells a fuel 0 (t.hcnt - 1)).map (fun r => (r.1.toNat, r.2)) =
        some (bisectHost t.table a t.table.length 0 (t.table.length - 1)) := by
  have hpred := h.toNat_pred
  have hlen := h.length_table
  have heq := HostArray.bisect_eq t.cells t.table (a := a) (l := 0)
    (h := t.hcnt - 1) (n := fuel) (N := t.table.length)
    (UInt32.lt_iff_toNat_lt.mpr (by rw [hpred]; simp)) (by omega) (by omega)
    fun i hi => h.hostAt_table (by omega)
  rw [hpred] at heq
  rw [show t.table.length - 1 = n + 1 by omega]
  exact heq.imp_left fun h => ⟨by have := h.1; simp at this; omega, h.2⟩

/-- The block after it may have grown has room for one more record. -/
structure Grown (t t' : HostArray) (n : ℕ) : Prop where
  hcnt : t'.hcnt = t.hcnt
  block : t'.cells.length = t'.htot.toNat
  fits : n + 3 ≤ t'.htot.toNat
  room : t'.htot.toNat ≤ n + 33
  same : ∀ i, i < n + 2 → hostAt t'.cells i = hostAt t.table i

theorem Sound.grow (h : Sound t n) (hn : n ≤ 2 ^ 31) (junk : ℕ → HTab) :
    Grown t (t.grow junk) n := by
  have hcnt := h.hcnt
  have hblock := h.block
  have hfits := h.fits
  have hroom := h.room
  have hsucc : (t.hcnt + 1).toNat = n + 3 := by
    rw [UInt32.toNat_add, hcnt]
    simp only [UInt32.reduceToNat]
    omega
  unfold HostArray.grow
  split
  · rename_i hfull
    rw [UInt32.lt_iff_toNat_lt, hsucc] at hfull
    have htot : (t.htot + UInt32.ofNat hallocSize).toNat = t.htot.toNat + 30 := by
      rw [UInt32.toNat_add]
      simp only [hallocSize, UInt32.reduceOfNat, UInt32.reduceToNat]
      omega
    have hlen : (t.cells ++ (List.range hallocSize).map junk).length = t.htot.toNat + 30 := by
      simp [hblock, hallocSize]
    refine ⟨rfl, ?_, ?_, ?_, ?_⟩
    · simp only [htot, List.length_take, hlen, Nat.min_self]
    · simp only [htot]
      omega
    · simp only [htot]
      omega
    · intro i hi
      simp only [htot]
      rw [hostAt_take (by omega), hostAt_append_left (by omega), h.hostAt_table hi]
  · rename_i hroomy
    rw [UInt32.lt_iff_toNat_lt, hsucc] at hroomy
    exact ⟨rfl, hblock, by omega, by omega, fun i hi => h.hostAt_table hi⟩

theorem table_setAt (t : HostArray) (m : UInt32) (hp : HTab) :
    (t.setAt m hp).table = t.table.set m.toNat hp := by
  rw [HostArray.table, HostArray.table, setAt, List.take_set]

/-- Overwriting a record by one of the same address. -/
theorem Sound.setAt (h : Sound t n) {m : UInt32} (hm : m.toNat < n + 1) {hp : HTab}
    (hinet : hp.inetNum = (hostAt t.table m.toNat).inetNum) : Sound (t.setAt m hp) n where
  hcnt := h.hcnt
  block := by
    rw [HostArray.setAt, List.length_set]
    exact h.block
  fits := h.fits
  room := h.room
  table := by
    have hlen := h.length_table
    rw [table_setAt]
    exact h.table.set (by omega) hinet
  last := by
    have hlen := h.length_table
    rw [table_setAt, hostAt_set (by omega), if_neg (by omega)]
    exact h.last

/-- The records in use after the new one was put in its place. -/
theorem table_insert {cells : List HTab} {m k : ℕ} (hm : m ≤ k) (hk : k < cells.length) (hp : HTab) :
    ((shiftUp (k - m) k cells).set m hp).take (k + 1) = (cells.take k).insertIdx m hp := by
  have hlen : (cells.take k).length = k := by
    rw [List.length_take]
    omega
  apply ext_hostAt
  · rw [List.length_take, List.length_set, length_shiftUp,
      List.length_insertIdx_of_le_length (by omega), hlen]
    omega
  · intro i hi
    rw [List.length_take] at hi
    rw [hostAt_take (by omega), hostAt_set (by rw [length_shiftUp]; omega),
      hostAt_shiftUp hk (by omega), hostAt_insertIdx (by omega)]
    by_cases him : m = i
    · rw [if_pos him, if_neg (by omega), if_pos him.symm]
    · rw [if_neg him]
      by_cases hlt : i < m
      · rw [if_pos hlt, if_neg (by omega), hostAt_take (by omega)]
      · rw [if_neg hlt, if_neg (Ne.symm him), if_pos (by omega), hostAt_take (by omega)]

/-- Once the block has room, the records in use are as before, and one more fits. -/
theorem Grown.table (h : Sound t n) (hgrown : Grown t t' n) :
    t'.hcnt.toNat = n + 2 ∧ (t'.hcnt + 1).toNat = n + 3 ∧ t'.cells.take (n + 2) = t.table := by
  have hcnt : t'.hcnt.toNat = n + 2 := by rw [hgrown.hcnt, h.hcnt]
  have hblock := hgrown.block
  have hfits := hgrown.fits
  have hlt := t'.htot.toNat_lt
  have hlen := h.length_table
  refine ⟨hcnt, ?_, ?_⟩
  · rw [UInt32.toNat_add, hcnt]
    simp only [UInt32.reduceToNat]
    omega
  · apply ext_hostAt
    · rw [List.length_take]
      omega
    · intro i hi
      rw [List.length_take] at hi
      rw [hostAt_take (by omega), hgrown.same i (by omega)]

/-- A new record in its place. -/
theorem table_insertAt (h : Sound t n) (hgrown : Grown t t' n) {m : UInt32}
    (hm : m.toNat ≤ n + 1) (hp : HTab) :
    (t'.insertAt m hp).table = t.table.insertIdx m.toNat hp := by
  have hblock := hgrown.block
  have hfits := hgrown.fits
  obtain ⟨hcnt, hsucc, htable⟩ := hgrown.table h
  have hsub : (t'.hcnt - m).toNat = n + 2 - m.toNat := by
    rw [UInt32.toNat_sub_of_le _ _ (UInt32.le_iff_toNat_le.mpr (by omega)), hcnt]
  show ((shiftUp (t'.hcnt - m).toNat t'.hcnt.toNat t'.cells).set m.toNat hp).take
    (t'.hcnt + 1).toNat = _
  rw [hsub, hcnt, hsucc, table_insert (by omega) (by omega), htable]

theorem Sound.insertAt (h : Sound t n) (hgrown : Grown t t' n) {m : UInt32}
    (hm : m.toNat ≤ n + 1) {hp : HTab} (htable : HostTable (t.table.insertIdx m.toNat hp)) :
    Sound (t'.insertAt m hp) (n + 1) where
  hcnt := (hgrown.table h).2.1
  block := by
    rw [HostArray.insertAt, List.length_set, length_shiftUp]
    exact hgrown.block
  fits := hgrown.fits
  room := hgrown.room
  table := by
    rw [table_insertAt h hgrown hm]
    exact htable
  last := by
    have hlen := h.length_table
    rw [table_insertAt h hgrown hm, hostAt_insertIdx (by omega), if_neg (by omega),
      if_neg (by omega)]
    exact h.last

/-! ## `find_host` -/

/-- The number of addresses after a call. -/
def counted (htab : List HTab) (a : UInt32) (n : ℕ) : ℕ :=
  if hostRecord htab a = none then n + 1 else n

/-- `find_host` does to the records in use what it does to a list, unless its search is cut short. -/
theorem findHost_table (h : Sound t n) (hn : n < 2 ^ 31) (c : HostCall) (fuel : ℕ) :
    (fuel ≤ n ∧ t.findHost noUnnamed fuel c = none) ∨
      ∃ m t', t.findHost noUnnamed fuel c = some (m, t') ∧
        m.toNat = (Fsp.findHost noUnnamed t.table c.inetNum c.findHostname).1 ∧
        t'.table = (Fsp.findHost noUnnamed t.table c.inetNum c.findHostname).2 ∧
        Sound t' (counted t.table c.inetNum n) := by
  rcases h.bisect_eq hn c.inetNum fuel with ⟨hfuel, hnone⟩ | hbisect
  · refine Or.inl ⟨hfuel, ?_⟩
    rw [findHost, hnone]
    rfl
  · obtain ⟨⟨m, found⟩, hr, hrb⟩ := Option.map_eq_some_iff.mp hbisect
    obtain ⟨hlt, hcases⟩ := bisectHost_cases h.table c.ne_zero
    have htouched := touchedAt_findHost (a := c.inetNum) h.table noUnnamed c.findHostname
    have hlen := h.length_table
    rw [Fsp.findHost] at htouched ⊢
    rw [← hrb] at hlt hcases htouched ⊢
    simp only at hlt hcases
    refine Or.inr ?_
    rw [findHost, hr]
    unfold counted
    by_cases hrecord : hostRecord t.table c.inetNum = none
    · rw [if_pos hrecord] at hcases ⊢
      obtain ⟨rfl, hbelow⟩ := hcases
      have hsucc : (m + 1).toNat = m.toNat + 1 := by
        rw [UInt32.toNat_add, UInt32.toNat_one, Nat.mod_eq_of_lt (by omega)]
      have hgrown := h.grow (by omega) c.junk
      simp only [Bool.false_eq_true, if_false, if_pos hbelow] at htouched ⊢
      simp only [Option.bind_eq_bind, Option.bind_some, Bool.false_eq_true, if_false,
        h.hostAt_table (show m.toNat < n + 2 by omega), if_pos hbelow]
      rw [← hsucc] at htouched ⊢
      exact ⟨_, _, rfl, rfl, table_insertAt h hgrown (by omega) _,
        h.insertAt hgrown (by omega) htouched.table⟩
    · rw [if_neg hrecord] at hcases ⊢
      subst hcases
      simp only [if_true] at htouched ⊢
      simp only [Option.bind_eq_bind, Option.bind_some, if_true,
        h.hostAt_table (show m.toNat < n + 2 by omega)]
      refine ⟨_, _, rfl, rfl, table_setAt _ _ _, h.setAt (by omega) ?_⟩
      split <;> rfl

/-! ## Calls one after the other -/

/-- A sequence of calls. -/
def calls (noUnnamed : Bool) (fuel : ℕ) (t : HostArray) (cs : List HostCall) : Option HostArray :=
  cs.foldlM (call noUnnamed fuel) t

/-- What a call leaves in the record of its address. -/
def leaves (noUnnamed : Bool) (left : UInt32 → Option HTab) (c : HostCall) :
    UInt32 → Option HTab :=
  Function.update left c.inetNum
    (some (c.leave (touchedHost noUnnamed c.inetNum c.findHostname (left c.inetNum))))

/-- For each address, the record as the last call for it left it. -/
def lastLeft (noUnnamed : Bool) (cs : List HostCall) : UInt32 → Option HTab :=
  cs.foldl (leaves noUnnamed) fun _ => none

/-- The addresses that were asked for. -/
def addresses (cs : List HostCall) : Finset UInt32 := (cs.map HostCall.inetNum).toFinset

/-- The records in use are sorted, the first one and the last one are the sentinels, and they fit
into the block. -/
structure InOrder (t : HostArray) : Prop where
  sorted : (t.table.map HTab.inetNum).Pairwise (· ≤ ·)
  first : (t.table.map HTab.inetNum).head? = some 0
  last : (t.table.map HTab.inetNum).getLast? = some 0xFFFFFFFF
  hcnt_le : t.hcnt ≤ t.htot
  block : t.cells.length = t.htot.toNat

/-- The call returned record `m`: it is no sentinel, it is the record of the address, its fields are
as the caller left them at the last call, and no other record has changed. -/
structure Answered (noUnnamed : Bool) (left : Option HTab) (t : HostArray) (c : HostCall)
    (m : UInt32) (t' : HostArray) : Prop where
  pos : 0 < m.toNat
  lt : m.toNat + 1 < t'.hcnt.toNat
  inetNum : (hostAt t'.table m.toNat).inetNum = c.inetNum
  record : hostAt t'.table m.toNat = touchedHost noUnnamed c.inetNum c.findHostname left
  other : ∀ b, b ≠ 0 → b ≠ c.inetNum → hostRecord t'.table b = hostRecord t.table b

/-- After the calls `cs`, the call `c` returns, the database is sorted before and after it, and it
is answered with the one record of its address. -/
def OneRecord (noUnnamed : Bool) (junk : ℕ → HTab) (cs : List HostCall) (c : HostCall) : Prop :=
  ∃ fuel t m t', (initHtab junk).calls noUnnamed fuel cs = some t ∧
    t.findHost noUnnamed fuel c = some (m, t') ∧ t.InOrder ∧ t'.InOrder ∧
    Answered noUnnamed (lastLeft noUnnamed cs c.inetNum) t c m t'

theorem lastLeft_concat (noUnnamed : Bool) (cs : List HostCall) (c : HostCall) :
    lastLeft noUnnamed (cs ++ [c]) = leaves noUnnamed (lastLeft noUnnamed cs) c := by
  rw [lastLeft, List.foldl_append]
  rfl

theorem calls_concat (noUnnamed : Bool) (fuel : ℕ) (t : HostArray) (cs : List HostCall)
    (c : HostCall) : t.calls noUnnamed fuel (cs ++ [c]) =
      (t.calls noUnnamed fuel cs).bind fun t => t.call noUnnamed fuel c := by
  rw [calls, List.foldlM_append]
  simp [calls]

theorem addresses_concat (cs : List HostCall) (c : HostCall) :
    addresses (cs ++ [c]) = insert c.inetNum (addresses cs) := by
  ext a
  simp [addresses]

theorem Sound.inOrder (h : Sound t n) : t.InOrder := by
  have hlen := h.length_table
  have hcnt := h.hcnt
  have hget : ∀ i (hi : i < t.table.length), t.table[i] = hostAt t.table i := by
    intro i hi
    simp [hostAt, List.getD_eq_getElem?_getD, hi]
  refine ⟨?_, ?_, ?_, UInt32.le_iff_toNat_le.mpr (by rw [hcnt]; exact h.fits), h.block⟩
  · rw [List.pairwise_iff_getElem]
    intro i j hi hj hij
    rw [List.length_map] at hi hj
    rw [List.getElem_map, List.getElem_map, hget, hget]
    by_cases hlast : j = n + 1
    · rw [hlast, h.last, UInt32.le_iff_toNat_le]
      have := (hostAt t.table i).inetNum.toNat_lt
      simp only [UInt32.reduceToNat]
      omega
    · rcases h.table.sorted i j hij (by omega) with hlt | ⟨hi, hj⟩
      · exact UInt32.le_of_lt hlt
      · rw [hi, hj]
        exact UInt32.le_refl _
  · rw [List.head?_eq_getElem?, List.getElem?_map, List.getElem?_eq_getElem (by omega), hget]
    exact congrArg some h.table.first
  · rw [List.getLast?_eq_getElem?, List.length_map, List.getElem?_map,
      List.getElem?_eq_getElem (by omega), hget, show t.table.length - 1 = n + 1 by omega]
    exact congrArg some h.last

/-- The array after the calls `cs`: what it holds is what they left. -/
structure Holds (noUnnamed : Bool) (cs : List HostCall) (t : HostArray) : Prop where
  sound : Sound t (addresses cs).card
  record : ∀ b, b ≠ 0 → hostRecord t.table b = lastLeft noUnnamed cs b

/-- An address has a record if it was asked for. -/
theorem lastLeft_eq_none (noUnnamed : Bool) (cs : List HostCall) (b : UInt32) :
    lastLeft noUnnamed cs b = none ↔ b ∉ addresses cs := by
  induction cs using List.reverseRecOn with
  | nil => simp [lastLeft, addresses]
  | append_singleton cs c ih =>
      rw [lastLeft_concat, addresses_concat, leaves, Finset.mem_insert]
      by_cases hb : b = c.inetNum
      · subst hb
        simp
      · rw [Function.update_of_ne hb, ih]
        simp [hb]

/-- One more call. -/
theorem Holds.findHost {cs : List HostCall} (h : Holds noUnnamed cs t)
    (hcs : (addresses cs).card < 2 ^ 31) (c : HostCall) (fuel : ℕ) :
    (fuel ≤ (addresses cs).card ∧ t.findHost noUnnamed fuel c = none) ∨
      ∃ m t', t.findHost noUnnamed fuel c = some (m, t') ∧
        Answered noUnnamed (lastLeft noUnnamed cs c.inetNum) t c m t' ∧
        Sound t' (addresses (cs ++ [c])).card := by
  refine (findHost_table h.sound hcs c fuel).imp_right ?_
  rintro ⟨m, t', hfind, hm, htable, hsound⟩
  have htouched := touchedAt_findHost (a := c.inetNum) h.sound.table noUnnamed c.findHostname
  have hrecord := hostAt_findHost h.sound.table c.ne_zero noUnnamed c.findHostname
  rw [← hm, ← htable] at htouched hrecord
  rw [h.record _ c.ne_zero] at hrecord
  have hcard : counted t.table c.inetNum (addresses cs).card = (addresses (cs ++ [c])).card := by
    have hnone := lastLeft_eq_none noUnnamed cs c.inetNum
    rw [addresses_concat, counted, h.record _ c.ne_zero]
    by_cases hmem : c.inetNum ∈ addresses cs
    · rw [if_neg (fun h => hnone.mp h hmem), Finset.insert_eq_of_mem hmem]
    · rw [if_pos (hnone.mpr hmem), Finset.card_insert_of_notMem hmem]
  rw [hcard] at hsound
  have hlen := hsound.length_table
  have hlt := htouched.lt
  refine ⟨m, t', hfind, ⟨?_, ?_, htouched.inetNum, hrecord, htouched.other⟩, hsound⟩
  · rw [Nat.pos_iff_ne_zero]
    intro hzero
    have hfirst := hsound.table.first
    have hinet := htouched.inetNum
    rw [hzero, hfirst] at hinet
    exact c.ne_zero hinet.symm
  · rw [hsound.hcnt]
    omega

/-- One more call, with what its caller leaves. -/
theorem Holds.call {cs : List HostCall} (h : Holds noUnnamed cs t)
    (hcs : (addresses cs).card < 2 ^ 31) (c : HostCall) (fuel : ℕ) :
    (fuel ≤ (addresses cs).card ∧ t.call noUnnamed fuel c = none) ∨
      ∃ t', t.call noUnnamed fuel c = some t' ∧ Holds noUnnamed (cs ++ [c]) t' := by
  rcases h.findHost hcs c fuel with ⟨hfuel, hnone⟩ | ⟨m, t', hfind, hanswered, hsound⟩
  · refine Or.inl ⟨hfuel, ?_⟩
    rw [HostArray.call, hnone]
    rfl
  have hlt := hanswered.lt
  rw [hsound.hcnt] at hlt
  have hlen := hsound.length_table
  have hcell : hostAt t'.cells m.toNat = hostAt t'.table m.toNat := hsound.hostAt_table (by omega)
  have htouched : TouchedAt t.table t'.table c.inetNum m.toNat :=
    ⟨hsound.table, by omega, hanswered.inetNum, hanswered.other⟩
  have hinet : (c.leave (hostAt t'.table m.toNat)).inetNum = c.inetNum := by
    rw [c.inetNum_leave, hanswered.inetNum]
  have hset := htouched.set hinet
  refine Or.inr ⟨_, by rw [HostArray.call, hfind]; rfl, ?_, ?_⟩
  · refine hsound.setAt (by omega) ?_
    rw [hcell, hinet, hanswered.inetNum]
  · intro b hb
    rw [table_setAt, hcell, lastLeft_concat, leaves]
    by_cases hbc : b = c.inetNum
    · subst hbc
      rw [hset.hostRecord_self hb, hostAt_set (by omega), if_pos rfl, Function.update_self,
        hanswered.record]
    · rw [hset.other b hb hbc, Function.update_of_ne hbc, h.record b hb]

theorem holds_initHtab (noUnnamed : Bool) (junk : ℕ → HTab) :
    Holds noUnnamed [] (initHtab junk) where
  sound := sound_initHtab junk
  record _ hb := hostRecord_initHtab hb

theorem card_addresses_mono {cs cs' : List HostCall} (h : cs' <+: cs) :
    (addresses cs').card ≤ (addresses cs).card := by
  apply Finset.card_le_card
  intro a
  simp only [addresses, List.mem_toFinset, List.mem_map]
  exact fun ⟨c, hc, ha⟩ => ⟨c, h.subset hc, ha⟩

variable (noUnnamed) in
/-- A run of calls that leaves fewer than 2³¹ addresses known: where it gets with some fuel, and that
it gets there with enough. -/
theorem holds_calls (junk : ℕ → HTab) {cs : List HostCall} (hcs : (addresses cs).card < 2 ^ 31)
    (fuel : ℕ) :
    (fuel ≤ (addresses cs).card ∧ (initHtab junk).calls noUnnamed fuel cs = none) ∨
      ∃ t, (initHtab junk).calls noUnnamed fuel cs = some t ∧ Holds noUnnamed cs t := by
  induction cs using List.reverseRecOn with
  | nil => exact Or.inr ⟨_, rfl, holds_initHtab noUnnamed junk⟩
  | append_singleton cs c ih =>
      have hmono := card_addresses_mono (List.prefix_append cs [c])
      rw [calls_concat]
      rcases ih (by omega) with ⟨hfuel, hnone⟩ | ⟨t, hrun, hholds⟩
      · exact Or.inl ⟨by omega, by rw [hnone]; rfl⟩
      · rw [hrun, Option.bind_some]
        exact (hholds.call (by omega) c fuel).imp_left fun h => ⟨by omega, h.2⟩

/-! ## Where the sum of the bounds does not fit -/

/-- With 2³¹ addresses known, the search for the greatest of them never ends: where the lower bound
gets to the record before, the sum of the bounds is 2³², and the search starts again. -/
theorem bisect_eq_none {cells : List HTab} {a l h : UInt32} (hl : l.toNat < 2 ^ 31)
    (hh : h.toNat = 2 ^ 31 + 1) (hbelow : ∀ i, i < 2 ^ 31 → (hostAt cells i).inetNum < a)
    (fuel : ℕ) : bisect cells a fuel l h = none := by
  induction fuel generalizing l with
  | zero => rfl
  | succ fuel ih =>
      have hmid := toNat_mid l h
      have hne : (l + h) >>> 1 ≠ l := by
        rw [ne_eq, ← UInt32.toNat_inj, hmid]
        omega
      have hlt : ((l + h) >>> 1).toNat < 2 ^ 31 := by
        rw [hmid]
        omega
      have hinum := hbelow _ hlt
      simp only [bisect]
      rw [if_neg hne, if_neg (UInt32.not_lt.mpr (UInt32.le_of_lt hinum)), if_pos hinum]
      exact ih hlt

/-- Once 2³¹ addresses are known, `find_host` does not return for the greatest of them. -/
theorem Holds.findHost_eq_none {cs : List HostCall} (h : Holds noUnnamed cs t)
    (hcs : (addresses cs).card = 2 ^ 31) {c : HostCall} (hmem : c.inetNum ∈ addresses cs)
    (hmax : ∀ b ∈ addresses cs, b.toNat ≤ c.inetNum.toNat) (fuel : ℕ) :
    t.findHost noUnnamed fuel c = none := by
  have hsound := h.sound
  have hlen := hsound.length_table
  rw [hcs] at hsound hlen
  have htable := hsound.table
  have hknown : ∀ b, b ≠ 0 → (hostRecord t.table b ≠ none ↔ b ∈ addresses cs) := by
    intro b hb
    rw [h.record b hb, ne_eq, lastLeft_eq_none, not_not]
  -- its record is the last one before the sentinel
  have hlast : (hostAt t.table (2 ^ 31)).inetNum = c.inetNum := by
    have hrecord := (hknown _ c.ne_zero).mpr hmem
    rw [ne_eq, hostRecord_eq_none htable c.ne_zero] at hrecord
    push Not at hrecord
    obtain ⟨i, hi, hinet⟩ := hrecord
    rcases Nat.lt_or_ge i (2 ^ 31) with hlt | hge
    · exfalso
      rcases htable.sorted i _ hlt (by omega) with hs | ⟨hs, -⟩
      · rw [hinet, UInt32.lt_iff_toNat_lt] at hs
        have hne : (hostAt t.table (2 ^ 31)).inetNum ≠ 0 := by
          intro hzero
          rw [hzero] at hs
          exact absurd hs (by simp)
        have := hmax _ ((hknown _ hne).mp fun hnone =>
          (hostRecord_eq_none htable hne).mp hnone (2 ^ 31) (by omega) rfl)
        omega
      · exact c.ne_zero (hinet.symm.trans hs)
    · rw [show 2 ^ 31 = i by omega]
      exact hinet
  have hnone : bisect t.cells c.inetNum fuel 0 (t.hcnt - 1) = none := by
    refine bisect_eq_none (by decide) hsound.toNat_pred ?_ fuel
    intro i hi
    rw [hsound.hostAt_table (by omega)]
    rcases htable.sorted i _ hi (by omega) with hs | ⟨-, hs⟩
    · rw [← hlast]
      exact hs
    · exact absurd (hlast.symm.trans hs) c.ne_zero
  rw [HostArray.findHost, hnone]
  rfl

/-- A run of calls that makes 2³¹ addresses known, and one more for the greatest of them. -/
theorem not_oneRecord {junk : ℕ → HTab} {cs : List HostCall} {d c : HostCall}
    (hcs : (addresses cs).card < 2 ^ 31) (hcsd : (addresses (cs ++ [d])).card = 2 ^ 31)
    (hmem : c.inetNum ∈ addresses (cs ++ [d]))
    (hmax : ∀ b ∈ addresses (cs ++ [d]), b.toNat ≤ c.inetNum.toNat) :
    ¬ OneRecord noUnnamed junk (cs ++ [d]) c := by
  rintro ⟨fuel, t, m, t', hrun, hfind, -⟩
  rw [calls_concat] at hrun
  rcases holds_calls noUnnamed junk hcs fuel with ⟨-, hnone⟩ | ⟨t₀, hrun₀, hholds₀⟩
  · rw [hnone] at hrun
    cases hrun
  rw [hrun₀, Option.bind_some] at hrun
  rcases hholds₀.call hcs d fuel with ⟨-, hnone⟩ | ⟨t₁, hcall, hholds⟩
  · rw [hnone] at hrun
    cases hrun
  · rw [hcall] at hrun
    cases hrun
    rw [hholds.findHost_eq_none hcsd hmem hmax] at hfind
    cases hfind

/-- The call at which the number of addresses becomes 2³¹. -/
theorem exists_last_call {cs : List HostCall} (h : 2 ^ 31 ≤ (addresses cs).card) :
    ∃ cs' d, cs' ++ [d] <+: cs ∧ (addresses cs').card < 2 ^ 31 ∧
      (addresses (cs' ++ [d])).card = 2 ^ 31 := by
  induction cs using List.reverseRecOn with
  | nil => exact absurd h (by decide)
  | append_singleton cs c ih =>
      rcases Nat.lt_or_ge (addresses cs).card (2 ^ 31) with hlt | hge
      · have hle := Finset.card_insert_le c.inetNum (addresses cs)
        rw [← addresses_concat] at hle
        exact ⟨cs, c, List.prefix_rfl, hlt, by omega⟩
      · obtain ⟨cs', d, hprefix, hlt, heq⟩ := ih hge
        exact ⟨cs', d, hprefix.trans (List.prefix_append _ _), hlt, heq⟩

/-- As long as fewer than 2³¹ addresses are known, every call returns the one record of its address;
and no longer, because then a call may not return. -/
theorem oneRecord_iff (noUnnamed : Bool) (junk : ℕ → HTab) (cs : List HostCall) :
    (∀ cs', cs' <+: cs → ∀ c, OneRecord noUnnamed junk cs' c) ↔
      (addresses cs).card < 2 ^ 31 := by
  constructor
  · intro hall
    by_contra hge
    obtain ⟨cs', d, hprefix, hlt, heq⟩ := exists_last_call (not_lt.mp hge)
    obtain ⟨a, ha, hmax⟩ := Finset.exists_max_image (addresses (cs' ++ [d])) UInt32.toNat
      (Finset.card_pos.mp (by omega))
    have hne : a ≠ 0 := by
      simp only [addresses, List.mem_toFinset, List.mem_map] at ha
      obtain ⟨c, -, rfl⟩ := ha
      exact c.ne_zero
    exact not_oneRecord hlt heq ha hmax
      (hall _ hprefix ⟨a, hne, none, fun _ => hzero, id, fun _ => rfl⟩)
  · intro hcs cs' hcs' c
    have hcard : (addresses cs').card < 2 ^ 31 := by
      have := card_addresses_mono hcs'
      omega
    rcases holds_calls noUnnamed junk hcard (2 ^ 31) with
      ⟨hfuel, -⟩ | ⟨t, hrun, hholds⟩
    · omega
    rcases hholds.findHost hcard c (2 ^ 31) with
      ⟨hfuel, -⟩ | ⟨m, t', hfind, hanswered, hsound⟩
    · omega
    exact ⟨_, t, m, t', hrun, hfind, hholds.sound.inOrder, hsound.inOrder, hanswered⟩

/-! ## A run that goes on for too long -/

theorem toNat_address (i : ℕ) : (UInt32.ofNat (i % 2 ^ 31 + 1)).toNat = i % 2 ^ 31 + 1 := by
  rw [UInt32.toNat_ofNat', Nat.mod_eq_of_lt (by omega)]

/-- A call for the address `i + 1`, which leaves the record as it is. -/
def plainCall (i : ℕ) : HostCall where
  inetNum := UInt32.ofNat (i % 2 ^ 31 + 1)
  ne_zero h := by
    have htoNat := toNat_address i
    rw [h] at htoNat
    simp at htoNat
  findHostname := none
  junk _ := hzero
  leave := id
  inetNum_leave _ := rfl

theorem inetNum_plainCall (i : ℕ) : (plainCall i).inetNum = UInt32.ofNat (i % 2 ^ 31 + 1) := rfl

/-- Calls for the addresses from 1 to `n`. -/
def ascending (n : ℕ) : List HostCall := (List.range n).map plainCall

theorem ascending_succ (n : ℕ) : ascending (n + 1) = ascending n ++ [plainCall n] := by
  rw [ascending, List.range_succ, List.map_append]
  rfl

theorem addresses_ascending (n : ℕ) :
    addresses (ascending n) = (Finset.range n).image fun i => UInt32.ofNat (i % 2 ^ 31 + 1) := by
  ext a
  simp [addresses, ascending, plainCall]

theorem card_addresses_ascending {n : ℕ} (hn : n ≤ 2 ^ 31) :
    (addresses (ascending n)).card = n := by
  rw [addresses_ascending, Finset.card_image_of_injOn, Finset.card_range]
  intro i hi j hj hij
  have htoNat := congrArg UInt32.toNat hij
  simp only [Finset.coe_range, Set.mem_Iio] at hi hj
  simp only [toNat_address] at htoNat
  omega

theorem toNat_le_of_mem_ascending {n : ℕ} (hn : n < 2 ^ 31) {b : UInt32}
    (hb : b ∈ addresses (ascending (n + 1))) : b.toNat ≤ (plainCall n).inetNum.toNat := by
  rw [addresses_ascending, Finset.mem_image] at hb
  obtain ⟨i, hi, rfl⟩ := hb
  have hin := Finset.mem_range.mp hi
  rw [inetNum_plainCall, toNat_address, toNat_address]
  omega

theorem not_oneRecord_ascending {n : ℕ} (hn : n + 1 = 2 ^ 31) :
    ¬ OneRecord false (fun _ => hzero) (ascending (n + 1)) (plainCall n) := by
  have hcard := card_addresses_ascending (n := n + 1) hn.le
  have hmax : ∀ b ∈ addresses (ascending (n + 1)), b.toNat ≤ (plainCall n).inetNum.toNat :=
    fun b hb => toNat_le_of_mem_ascending (by omega) hb
  rw [ascending_succ] at hcard hmax ⊢
  refine not_oneRecord ?_ (by omega) ?_ hmax
  · rw [card_addresses_ascending (by omega)]
    omega
  · rw [addresses_concat]
    exact Finset.mem_insert_self _ _

/-- After calls for the addresses from 1 to 2³¹, the call for the last one again does not return. -/
theorem ascending_not_oneRecord :
    ¬ OneRecord false (fun _ => hzero) (ascending 2147483648) (plainCall 2147483647) :=
  not_oneRecord_ascending (n := 2147483647) rfl

end HostArray

end Fsp
