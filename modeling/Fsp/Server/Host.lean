import Fsp.Server.State

/-!
# The client database

`server/host.c`: an array of host records sorted by address, searched by bisection, with a record
for address 0 at its start and one for the greatest address at its end.  `findHost` returns the
record of an address, which it inserts if there is none.
-/

namespace Fsp

open Effect

/-- `init_htab` -/
def initHtab : List HTab := [hzero, { hzero with inetNum := 0xFFFFFFFF }]

/-- The record with number `m`. -/
def hostAt (htab : List HTab) (m : ℕ) : HTab := htab.getD m hzero

/-- The bisection of `find_host` between `l` and `h`: where it ends, and whether it ends at a
record of `inetNum`.  Every round brings `l` and `h` closer together, so the number of records is
enough fuel. -/
def bisectHost (htab : List HTab) (inetNum : UInt32) : ℕ → ℕ → ℕ → ℕ × Bool
  | 0, l, _ => (l, false)
  | n + 1, l, h =>
      let m := (l + h) / 2
      if m = l then (l, false)
      else if inetNum < (hostAt htab m).inetNum then bisectHost htab inetNum n l m
      else if (hostAt htab m).inetNum < inetNum then bisectHost htab inetNum n m h
      else (m, true)

/-- `find_host` on the table: the number of the record and the table afterwards.  `findHostname`
is what a reverse lookup of the address gives at this moment. -/
def findHost (noUnnamed : Bool) (htab : List HTab) (inetNum : UInt32)
    (findHostname : Option (List UInt8)) : ℕ × List HTab :=
  let (m, found) := bisectHost htab inetNum htab.length 0 (htab.length - 1)
  if found then
    let hp := hostAt htab m
    let hp := if noUnnamed ∧ hp.hostname = none then { hp with hostname := findHostname } else hp
    (m, htab.set m { hp with accCnt := hp.accCnt + 1 })
  else
    let m := if (hostAt htab m).inetNum < inetNum then m + 1 else m
    (m, htab.insertIdx m { hzero with inetNum := inetNum, hostname := findHostname })

/-! ## The table is sorted

`HostTable` is the shape the table keeps.  Address 0 may occur more than once, because the record
at the start of the table is never found. -/

/-- Address `a` may stand before address `b`. -/
def Precedes (a b : UInt32) : Prop := a < b ∨ a = 0 ∧ b = 0

structure HostTable (htab : List HTab) : Prop where
  two_le : 2 ≤ htab.length
  first : (hostAt htab 0).inetNum = 0
  sorted : ∀ i j, i < j → j + 1 < htab.length →
    Precedes (hostAt htab i).inetNum (hostAt htab j).inetNum

theorem hostTable_initHtab : HostTable initHtab where
  two_le := by decide
  first := rfl
  sorted := by
    intro i j hij hj
    simp only [initHtab, List.length_cons, List.length_nil] at hj
    omega

variable {htab : List HTab} {a b : UInt32}

theorem hostAt_set {m : ℕ} (hm : m < htab.length) (hp : HTab) (i : ℕ) :
    hostAt (htab.set m hp) i = if m = i then hp else hostAt htab i := by
  unfold hostAt
  rw [List.getD_eq_getElem?_getD, List.getElem?_set]
  by_cases hi : m = i
  · subst hi
    simp [hm]
  · simp [hi, List.getD_eq_getElem?_getD]

theorem hostAt_insertIdx {m : ℕ} (hm : m ≤ htab.length) (hp : HTab) (i : ℕ) :
    hostAt (htab.insertIdx m hp) i =
      if i < m then hostAt htab i else if i = m then hp else hostAt htab (i - 1) := by
  unfold hostAt
  rw [List.getD_eq_getElem?_getD, List.getElem?_insertIdx]
  by_cases hlt : i < m
  · rw [if_pos hlt, if_pos hlt, List.getD_eq_getElem?_getD]
  · rw [if_neg hlt, if_neg hlt]
    by_cases hi : i = m
    · rw [if_pos hi, if_pos hi, hi, if_pos hm, Option.getD_some]
    · rw [if_neg hi, if_neg hi, List.getD_eq_getElem?_getD]

/-- Replacing a record by one for the same address keeps the table sorted. -/
theorem HostTable.set (h : HostTable htab) {m : ℕ} (hm : m < htab.length) {hp : HTab}
    (hinet : hp.inetNum = (hostAt htab m).inetNum) : HostTable (htab.set m hp) := by
  have hsame : ∀ i, (hostAt (htab.set m hp) i).inetNum = (hostAt htab i).inetNum := by
    intro i
    rw [hostAt_set hm]
    split
    · subst m
      exact hinet
    · rfl
  refine ⟨by rw [List.length_set]; exact h.two_le, by rw [hsame]; exact h.first, ?_⟩
  intro i j hij hj
  rw [List.length_set] at hj
  rw [hsame, hsame]
  exact h.sorted i j hij hj

/-- Inserting a record where its address belongs keeps the table sorted. -/
theorem HostTable.insertIdx (h : HostTable htab) {m : ℕ} (hm : m + 1 ≤ htab.length) {hp : HTab}
    (hbelow : ∀ i, i < m → Precedes (hostAt htab i).inetNum hp.inetNum)
    (habove : ∀ i, m ≤ i → i + 1 < htab.length → Precedes hp.inetNum (hostAt htab i).inetNum)
    (hfirst : m = 0 → hp.inetNum = 0) : HostTable (htab.insertIdx m hp) := by
  have hlen : (htab.insertIdx m hp).length = htab.length + 1 :=
    List.length_insertIdx_of_le_length (by omega) hp
  refine ⟨by rw [hlen]; have := h.two_le; omega, ?_, ?_⟩
  · rw [hostAt_insertIdx (by omega)]
    split
    · exact h.first
    · rw [if_pos (by omega)]
      exact hfirst (by omega)
  · intro i j hij hj
    rw [hlen] at hj
    rw [hostAt_insertIdx (by omega), hostAt_insertIdx (by omega)]
    by_cases hjm : j < m
    · rw [if_pos hjm, if_pos (by omega)]
      exact h.sorted i j hij (by omega)
    · rw [if_neg hjm]
      by_cases him : i < m
      · rw [if_pos him]
        split
        · exact hbelow i him
        · exact h.sorted i (j - 1) (by omega) (by omega)
      · rw [if_neg him, if_neg (show j ≠ m by omega)]
        split
        · exact habove (j - 1) (by omega) (by omega)
        · exact h.sorted (i - 1) (j - 1) (by omega) (by omega)

/-! ## The bisection -/

/-- What the two bounds of the bisection know. -/
structure Brackets (htab : List HTab) (a : UInt32) (l h : ℕ) : Prop where
  lt : l < h
  lt_length : h < htab.length
  below : l = 0 ∨ (hostAt htab l).inetNum < a
  above : h + 1 = htab.length ∨ a < (hostAt htab h).inetNum

/-- The bisection ends at a record of `a`, or between the records below and above `a`. -/
theorem bisectHost_spec {n l h : ℕ} (hb : Brackets htab a l h) (hn : h - l ≤ n) :
    ((bisectHost htab a n l h).2 = true ∧
      (bisectHost htab a n l h).1 + 1 < htab.length ∧
      (hostAt htab (bisectHost htab a n l h).1).inetNum = a) ∨
    ((bisectHost htab a n l h).2 = false ∧
      Brackets htab a (bisectHost htab a n l h).1 ((bisectHost htab a n l h).1 + 1)) := by
  induction n generalizing l h with
  | zero =>
      have := hb.lt
      omega
  | succ n ih =>
      have hlt := hb.lt
      have hlen := hb.lt_length
      simp only [bisectHost]
      by_cases hm : (l + h) / 2 = l
      · rw [if_pos hm]
        have hh : h = l + 1 := by omega
        subst hh
        exact Or.inr ⟨rfl, hb⟩
      · rw [if_neg hm]
        by_cases habove : a < (hostAt htab ((l + h) / 2)).inetNum
        · rw [if_pos habove]
          exact ih ⟨by omega, by omega, hb.below, Or.inr habove⟩ (by omega)
        · rw [if_neg habove]
          by_cases hbelow : (hostAt htab ((l + h) / 2)).inetNum < a
          · rw [if_pos hbelow]
            exact ih ⟨by omega, hlen, Or.inr hbelow, hb.above⟩ (by omega)
          · rw [if_neg hbelow]
            refine Or.inl ⟨rfl, by simp only; omega, ?_⟩
            exact UInt32.le_antisymm (UInt32.not_lt.mp habove) (UInt32.not_lt.mp hbelow)

/-! ## The record of a host -/

/-- The record of an address other than 0. -/
def hostRecord (htab : List HTab) (a : UInt32) : Option HTab :=
  htab.dropLast.find? fun hp => hp.inetNum = a

theorem hostRecord_initHtab (ha : a ≠ 0) : hostRecord initHtab a = none := by
  simp [hostRecord, initHtab, hzero, ha.symm]

/-- The record of an address is the only one before the end of the table that has it. -/
theorem hostRecord_eq_some (h : HostTable htab) (ha : a ≠ 0) {hp : HTab} :
    hostRecord htab a = some hp ↔
      ∃ i, i + 1 < htab.length ∧ hostAt htab i = hp ∧ hp.inetNum = a := by
  have hget : ∀ i (hi : i < htab.dropLast.length), htab.dropLast[i] = hostAt htab i := by
    intro i hi
    rw [List.length_dropLast] at hi
    rw [List.getElem_dropLast, hostAt, List.getD_eq_getElem?_getD,
      List.getElem?_eq_getElem (by omega), Option.getD_some]
  constructor
  · intro hfind
    have hinet := List.find?_some hfind
    obtain ⟨i, hi, rfl⟩ := List.mem_iff_getElem.mp (List.mem_of_find?_eq_some hfind)
    refine ⟨i, ?_, (hget i hi).symm, by simpa using hinet⟩
    rw [List.length_dropLast] at hi
    omega
  · rintro ⟨i, hi, rfl, hinet⟩
    have hi' : i < htab.dropLast.length := by rw [List.length_dropLast]; omega
    refine List.find?_eq_some_iff_getElem.mpr ⟨by simpa using hinet, i, hi', hget i hi', ?_⟩
    intro j hj
    have hlt := h.sorted j i hj hi
    rw [hget j (by omega)]
    rw [hinet] at hlt
    rcases hlt with hlt | ⟨_, hzero⟩
    · simpa using UInt32.ne_of_lt hlt
    · exact absurd hzero ha

theorem hostRecord_eq_none (h : HostTable htab) (ha : a ≠ 0) :
    hostRecord htab a = none ↔ ∀ i, i + 1 < htab.length → (hostAt htab i).inetNum ≠ a := by
  rw [Option.eq_none_iff_forall_ne_some]
  constructor
  · intro hnone i hi hinet
    exact hnone _ ((hostRecord_eq_some h ha).mpr ⟨i, hi, rfl, hinet⟩)
  · intro hall hp hsome
    obtain ⟨i, hi, rfl, hinet⟩ := (hostRecord_eq_some h ha).mp hsome
    exact hall i hi hinet

/-- Two tables with the same records of `b` have the same record of `b`. -/
theorem hostRecord_congr {htab' : List HTab} (h : HostTable htab) (h' : HostTable htab')
    (hb : b ≠ 0)
    (hsame : ∀ hp : HTab, hp.inetNum = b → ((∃ i, i + 1 < htab'.length ∧ hostAt htab' i = hp) ↔
      ∃ i, i + 1 < htab.length ∧ hostAt htab i = hp)) :
    hostRecord htab' b = hostRecord htab b := by
  refine Option.ext fun hp => ?_
  rw [hostRecord_eq_some h' hb, hostRecord_eq_some h hb]
  constructor
  · rintro ⟨i, hi, hp', hinet⟩
    obtain ⟨j, hj, hp''⟩ := (hsame hp hinet).mp ⟨i, hi, hp'⟩
    exact ⟨j, hj, hp'', hinet⟩
  · rintro ⟨i, hi, hp', hinet⟩
    obtain ⟨j, hj, hp''⟩ := (hsame hp hinet).mpr ⟨i, hi, hp'⟩
    exact ⟨j, hj, hp'', hinet⟩

/-! ## `find_host`

`findHost` only ever touches the record of the address it is asked for, and what it returns is
that record. -/

/-- The record `find_host` makes or updates, given the one it finds. -/
def touchedHost (noUnnamed : Bool) (a : UInt32) (findHostname : Option (List UInt8)) :
    Option HTab → HTab
  | some hp =>
      let hp := if noUnnamed ∧ hp.hostname = none then { hp with hostname := findHostname } else hp
      { hp with accCnt := hp.accCnt + 1 }
  | none => { hzero with inetNum := a, hostname := findHostname }

/-- The table `htab'` differs from `htab` at the record of `a`, which is number `m`. -/
structure TouchedAt (htab htab' : List HTab) (a : UInt32) (m : ℕ) : Prop where
  table : HostTable htab'
  lt : m + 1 < htab'.length
  inetNum : (hostAt htab' m).inetNum = a
  other : ∀ b, b ≠ 0 → b ≠ a → hostRecord htab' b = hostRecord htab b

/-- Changing the record that was found changes no other record. -/
theorem TouchedAt.set {htab' : List HTab} {m : ℕ} (h : TouchedAt htab htab' a m) {hp : HTab}
    (hinet : hp.inetNum = a) : TouchedAt htab (htab'.set m hp) a m := by
  have hm := h.lt
  have htable : HostTable (htab'.set m hp) := h.table.set (by omega) (by rw [hinet, h.inetNum])
  refine ⟨htable, by rw [List.length_set]; exact hm, ?_, ?_⟩
  · rw [hostAt_set (by omega), if_pos rfl]
    exact hinet
  · intro b hb hba
    rw [← h.other b hb hba]
    refine hostRecord_congr h.table htable hb fun hq hqinet => ?_
    constructor
    · rintro ⟨i, hi, hiq⟩
      rw [List.length_set] at hi
      rw [hostAt_set (by omega)] at hiq
      split at hiq
      · subst hiq
        exact absurd (hqinet.symm.trans hinet) hba
      · exact ⟨i, hi, hiq⟩
    · rintro ⟨i, hi, hiq⟩
      refine ⟨i, by rw [List.length_set]; exact hi, ?_⟩
      rw [hostAt_set (by omega), if_neg]
      · exact hiq
      · rintro rfl
        exact hba (by rw [← hqinet, ← hiq, h.inetNum])

theorem TouchedAt.hostRecord_self {htab' : List HTab} {m : ℕ} (h : TouchedAt htab htab' a m)
    (ha : a ≠ 0) : hostRecord htab' a = some (hostAt htab' m) :=
  (hostRecord_eq_some h.table ha).mpr ⟨m, h.lt, rfl, h.inetNum⟩

theorem brackets_start (h : HostTable htab) : Brackets htab a 0 (htab.length - 1) := by
  have := h.two_le
  exact ⟨by omega, by omega, Or.inl rfl, Or.inl (by omega)⟩

/-- Between the records below and above it, an address has no record. -/
theorem Brackets.hostRecord_eq_none (h : HostTable htab) (ha : a ≠ 0) {l : ℕ}
    (hb : Brackets htab a l (l + 1)) (hbelow : (hostAt htab l).inetNum < a) :
    hostRecord htab a = none := by
  refine (Fsp.hostRecord_eq_none h ha).mpr fun i hi hinet => ?_
  rcases Nat.lt_trichotomy i l with hlt | rfl | hgt
  · rcases h.sorted i l hlt (by have := hb.lt_length; omega) with hs | ⟨hzero, _⟩
    · rw [hinet] at hs
      exact absurd (UInt32.lt_trans hs hbelow) (UInt32.lt_irrefl a)
    · exact ha (hinet.symm.trans hzero)
  · rw [hinet] at hbelow
    exact absurd hbelow (UInt32.lt_irrefl a)
  · rcases hb.above with hend | habove
    · omega
    · rcases Nat.eq_or_lt_of_le (show l + 1 ≤ i by omega) with rfl | hgt'
      · rw [hinet] at habove
        exact absurd habove (UInt32.lt_irrefl a)
      · rcases h.sorted (l + 1) i hgt' hi with hs | ⟨_, hzero⟩
        · rw [hinet] at hs
          exact absurd (UInt32.lt_trans hs habove) (UInt32.lt_irrefl _)
        · exact ha (hinet.symm.trans hzero)

/-- A record inserted between the records below and above its address. -/
theorem touchedAt_insertIdx (h : HostTable htab) {l m : ℕ} (hb : Brackets htab a l (l + 1))
    (hm : m = if (hostAt htab l).inetNum < a then l + 1 else l) {hp : HTab}
    (hinet : hp.inetNum = a) : TouchedAt htab (htab.insertIdx m hp) a m := by
  have hlen := hb.lt_length
  have hle : m ≤ l + 1 := by
    rw [hm]
    split <;> omega
  -- where the address is not above the record at `l`, both are address 0
  have hzero : m ≠ l + 1 → l = 0 ∧ a = 0 := by
    intro hne
    have hnlt : ¬ (hostAt htab l).inetNum < a := by
      intro hlt
      rw [if_pos hlt] at hm
      exact hne hm
    rcases hb.below with rfl | hlt
    · rw [h.first] at hnlt
      exact ⟨rfl, UInt32.le_antisymm (UInt32.not_lt.mp hnlt) UInt32.zero_le⟩
    · exact absurd hlt hnlt
  have hlm : m = l ∨ m = l + 1 := by
    rw [hm]
    split <;> simp
  have htable : HostTable (htab.insertIdx m hp) := by
    refine h.insertIdx (by omega) ?_ ?_ ?_
    · intro i hi
      rw [hinet]
      by_cases hml : m = l + 1
      · have hlt : (hostAt htab l).inetNum < a := by
          by_contra hnlt
          rw [if_neg hnlt] at hm
          omega
        rcases Nat.eq_or_lt_of_le (show i ≤ l by omega) with rfl | hil
        · exact Or.inl hlt
        · rcases h.sorted i l hil hlen with hs | ⟨hs, hs'⟩
          · exact Or.inl (UInt32.lt_trans hs hlt)
          · rw [hs, ← hs']
            exact Or.inl hlt
      · have := hzero hml
        omega
    · intro i hi hilen
      rw [hinet]
      by_cases hml : m = l + 1
      · rcases hb.above with hend | habove
        · omega
        · rcases Nat.eq_or_lt_of_le (show l + 1 ≤ i by omega) with rfl | hil
          · exact Or.inl habove
          · rcases h.sorted (l + 1) i hil hilen with hs | ⟨hs, _⟩
            · exact Or.inl (UInt32.lt_trans habove hs)
            · rw [hs] at habove
              exact absurd habove UInt32.not_lt_zero
      · obtain ⟨rfl, rfl⟩ := hzero hml
        by_cases hi0 : (hostAt htab i).inetNum = 0
        · exact Or.inr ⟨rfl, hi0⟩
        · exact Or.inl (UInt32.pos_iff_ne_zero.mpr hi0)
    · intro hm0
      rw [hinet]
      exact (hzero (by omega)).2
  have hleni : (htab.insertIdx m hp).length = htab.length + 1 :=
    List.length_insertIdx_of_le_length (by omega) hp
  refine ⟨htable, by omega, ?_, ?_⟩
  · rw [hostAt_insertIdx (by omega), if_neg (by omega), if_pos rfl]
    exact hinet
  · intro b hb0 hba
    refine hostRecord_congr h htable hb0 fun hq hqinet => ?_
    constructor
    · rintro ⟨i, hi, hiq⟩
      rw [hostAt_insertIdx (by omega)] at hiq
      split at hiq
      · exact ⟨i, by omega, hiq⟩
      · split at hiq
        · subst hiq
          exact absurd (hqinet.symm.trans hinet) hba
        · exact ⟨i - 1, by omega, hiq⟩
    · rintro ⟨i, hi, hiq⟩
      by_cases him : i < m
      · refine ⟨i, by omega, ?_⟩
        rw [hostAt_insertIdx (by omega), if_pos him]
        exact hiq
      · refine ⟨i + 1, by omega, ?_⟩
        rw [hostAt_insertIdx (by omega), if_neg (by omega), if_neg (by omega)]
        exact hiq

/-- `find_host` returns the record of the address and leaves every other record alone. -/
theorem touchedAt_findHost (h : HostTable htab) (noUnnamed : Bool)
    (findHostname : Option (List UInt8)) :
    TouchedAt htab (findHost noUnnamed htab a findHostname).2 a
      (findHost noUnnamed htab a findHostname).1 := by
  have hlen := h.two_le
  unfold findHost
  rcases bisectHost_spec (brackets_start (a := a) h) (n := htab.length) (by omega) with
    ⟨hfound, hlt, hinet⟩ | ⟨hfound, hb⟩
  · simp only [hfound, if_true]
    have hm : TouchedAt htab htab a (bisectHost htab a htab.length 0 (htab.length - 1)).1 :=
      ⟨h, hlt, hinet, fun _ _ _ => rfl⟩
    refine hm.set ?_
    split <;> exact hinet
  · simp only [hfound, Bool.false_eq_true, if_false]
    exact touchedAt_insertIdx h hb rfl rfl

/-- The record `find_host` returns, as a function of the one that was there. -/
theorem hostAt_findHost (h : HostTable htab) (ha : a ≠ 0) (noUnnamed : Bool)
    (findHostname : Option (List UInt8)) :
    hostAt (findHost noUnnamed htab a findHostname).2 (findHost noUnnamed htab a findHostname).1 =
      touchedHost noUnnamed a findHostname (hostRecord htab a) := by
  have hlen := h.two_le
  unfold findHost
  rcases bisectHost_spec (brackets_start (a := a) h) (n := htab.length) (by omega) with
    ⟨hfound, hlt, hinet⟩ | ⟨hfound, hb⟩
  · simp only [hfound, if_true]
    rw [hostAt_set (by omega), if_pos rfl, (hostRecord_eq_some h ha).mpr ⟨_, hlt, rfl, hinet⟩]
    rfl
  · simp only [hfound, Bool.false_eq_true, if_false]
    have hbelow : (hostAt htab (bisectHost htab a htab.length 0 (htab.length - 1)).1).inetNum < a := by
      rcases hb.below with hl | hlt
      · rw [hl, h.first]
        exact UInt32.pos_iff_ne_zero.mpr ha
      · exact hlt
    have hlen' := hb.lt_length
    rw [if_pos hbelow, hostAt_insertIdx (by omega), if_neg (by omega), if_pos rfl,
      hb.hostRecord_eq_none h ha hbelow]
    rfl

end Fsp
