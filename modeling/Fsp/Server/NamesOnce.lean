import Fsp.Scenario
import Fsp.Server.Phases
import Mathlib.Data.List.Find
import Mathlib.Data.List.Nodup

/-!
# One record for each name

`f_cache_put` does not look for a record with the same key.  `validate_path` and `server_get_dir` store
a record only after they have looked for one and found none, or have deleted the one they found.
`server_make_dir` stores the record of a directory it has made without a look, and a directory that is
gone can still be in the cache: `server_del_dir` leaves its record there, and other processes remove
directories, too.  Then `f_cache_find` returns the record in the lower slot, which may be the older one.
Nothing else stores a second record: `namesOnce_iff`.
-/

namespace Fsp

open Bytes Effect

/-! ## In a cache -/

namespace FifoCache

variable {κ α : Type} [Inhabited α] {c : FifoCache κ α}

/-- No two slots have the same key. -/
def Distinct (c : FifoCache κ α) : Prop :=
  ∀ i j key, c.fCacheGetKey i = some key → c.fCacheGetKey j = some key → i = j

/-- Where there is a record for `key`, it is the one that `f_cache_put` overwrites. -/
def Takes (c : FifoCache κ α) (key : κ) : Prop :=
  ∀ i, c.fCacheGetKey i = some key → i = c.eNext

@[simp] theorem eNext_setEntry (i : ℕ) (a : α) : (c.setEntry i a).eNext = c.eNext := rfl

@[simp] theorem eNext_fCacheDeleteEntry (i : ℕ) : (c.fCacheDeleteEntry i).2.eNext = c.eNext := rfl

theorem key_fCacheDeleteEntry (i j : ℕ) :
    (c.fCacheDeleteEntry i).2.fCacheGetKey j = if i = j then none else c.fCacheGetKey j := by
  unfold fCacheGetKey
  rw [slot_fCacheDeleteEntry]
  split <;> rfl

theorem key_fCachePut (key : κ) (a : α) (j : ℕ) :
    (c.fCachePut key a).2.2.fCacheGetKey j =
      if c.eNext = j then some key else c.fCacheGetKey j := by
  unfold fCacheGetKey
  rw [slot_fCachePut]
  split <;> rfl

/-- A key that is found after a record was deleted was there before. -/
theorem key_of_fCacheDeleteEntry {i j : ℕ} {key : κ}
    (h : (c.fCacheDeleteEntry i).2.fCacheGetKey j = some key) :
    i ≠ j ∧ c.fCacheGetKey j = some key := by
  rw [key_fCacheDeleteEntry] at h
  split at h
  · cases h
  · exact ⟨‹_›, h⟩

theorem distinct_fCacheNew (cachesize : ℕ) (h : 0 < cachesize) :
    (fCacheNew cachesize h : FifoCache κ α).Distinct := by
  intro i j key hi
  rw [fCacheGetKey, slot_fCacheNew] at hi
  cases hi

theorem Distinct.setEntry (h : c.Distinct) (i : ℕ) (a : α) : (c.setEntry i a).Distinct := by
  intro j k key hj hk
  rw [key_setEntry] at hj hk
  exact h j k key hj hk

theorem Distinct.fCacheDeleteEntry (h : c.Distinct) (i : ℕ) :
    (c.fCacheDeleteEntry i).2.Distinct := by
  intro j k key hj hk
  exact h j k key (key_of_fCacheDeleteEntry hj).2 (key_of_fCacheDeleteEntry hk).2

theorem Takes.setEntry {key : κ} (h : c.Takes key) (i : ℕ) (a : α) : (c.setEntry i a).Takes key := by
  intro j hj
  rw [key_setEntry] at hj
  exact h j hj

theorem Takes.fCacheDeleteEntry {key : κ} (h : c.Takes key) (i : ℕ) :
    (c.fCacheDeleteEntry i).2.Takes key := by
  intro j hj
  exact h j (key_of_fCacheDeleteEntry hj).2

/-- Without its record, a name has none. -/
theorem Distinct.takes_fCacheDeleteEntry {i : ℕ} {key : κ} (h : c.Distinct)
    (hi : c.fCacheGetKey i = some key) : (c.fCacheDeleteEntry i).2.Takes key := by
  intro j hj
  obtain ⟨hne, hkey⟩ := key_of_fCacheDeleteEntry hj
  exact absurd (h i j key hi hkey) hne

theorem Distinct.fCachePut {key : κ} (h : c.Distinct) (htakes : c.Takes key) (a : α) :
    (c.fCachePut key a).2.2.Distinct := by
  intro i j key' hi hj
  rw [key_fCachePut] at hi hj
  split at hi
  · rename_i heq
    cases hi
    split at hj
    · omega
    · exact heq.symm.trans (htakes j hj).symm
  · split at hj
    · rename_i heq
      cases hj
      exact (htakes i hi).trans heq
    · exact h i j key' hi hj

/-- A second record for a name stands beside the first. -/
theorem takes_of_distinct_fCachePut {key : κ} {a : α} (h : (c.fCachePut key a).2.2.Distinct) :
    c.Takes key := by
  intro i hi
  by_contra hne
  apply hne
  apply h i c.eNext key
  · rw [key_fCachePut, if_neg (Ne.symm hne)]
    exact hi
  · rw [key_fCachePut, if_pos rfl]

/-! ### The newest record -/

/-- The slots in the order in which the cursor has left them, the last one first: those before the
cursor, and then the others. -/
def newestFirst (c : FifoCache κ α) : List ℕ :=
  (List.range c.eNext).reverse ++ (List.range' c.eNext (c.cachesize - c.eNext)).reverse

variable [DecidableEq κ]

/-- The slot of the record for `key` that was stored last. -/
def lastPut (c : FifoCache κ α) (key : κ) : Option ℕ :=
  c.newestFirst.find? fun i => c.fCacheGetKey i = some key

/-- A name has at most one record, and `f_cache_find` returns the one that was stored last. -/
structure Once (c : FifoCache κ α) : Prop where
  distinct : c.Distinct
  newest : ∀ key, c.fCacheFind key = c.lastPut key

omit [Inhabited α] [DecidableEq κ] in
theorem mem_newestFirst {i : ℕ} : i ∈ c.newestFirst ↔ i < c.cachesize := by
  have hlt := c.eNext_lt_cachesize
  simp only [newestFirst, List.mem_append, List.mem_reverse, List.mem_range, List.mem_range'_1]
  omega

theorem Distinct.once (h : c.Distinct) : c.Once := by
  refine ⟨h, fun key => ?_⟩
  cases hfind : c.fCacheFind key with
  | none =>
      rw [fCacheFind_eq_none] at hfind
      refine (List.find?_eq_none.mpr ?_).symm
      intro i _
      simpa using hfind i
  | some i =>
      have hkey := key_of_fCacheFind hfind
      cases hlast : c.lastPut key with
      | none =>
          have hnone := List.find?_eq_none.mp hlast i (mem_newestFirst.mpr (lt_of_fCacheFind hfind))
          simp [hkey] at hnone
      | some j =>
          have hj : c.fCacheGetKey j = some key := by simpa using List.find?_some hlast
          rw [h i j key hkey hj]

omit [DecidableEq κ] in
theorem eNext_fCachePut (key : κ) (a : α) :
    (c.fCachePut key a).2.2.eNext = if c.eNext + 1 = c.cachesize then 0 else c.eNext + 1 := by
  have hcursors := c.cursors
  unfold fCachePut
  split
  · rw [if_pos (by omega)]
  · rw [if_neg (by omega)]

omit [DecidableEq κ] in
/-- The slot that is filled is the oldest one before, and the newest one afterwards. -/
theorem newestFirst_fCachePut (key : κ) (a : α) :
    (c.fCachePut key a).2.2.newestFirst ++ [c.eNext] = c.eNext :: c.newestFirst := by
  have hlt := c.eNext_lt_cachesize
  have hlast : (List.range (c.eNext + 1)).reverse = c.eNext :: (List.range c.eNext).reverse := by
    rw [List.range_succ, List.reverse_append, List.reverse_singleton, List.singleton_append]
  have hfirst : (List.range' c.eNext (c.cachesize - c.eNext)).reverse =
      (List.range' (c.eNext + 1) (c.cachesize - (c.eNext + 1))).reverse ++ [c.eNext] := by
    rw [show c.cachesize - c.eNext = c.cachesize - (c.eNext + 1) + 1 by omega, List.range'_succ,
      List.reverse_cons]
  unfold newestFirst
  rw [eNext_fCachePut, cachesize_fCachePut, hfirst]
  split
  · rename_i hwrap
    rw [Nat.sub_zero, ← List.range_eq_range', ← hwrap, hlast]
    simp
  · rw [hlast]
    simp

omit [Inhabited α] [DecidableEq κ] in
theorem nodup_newestFirst : c.newestFirst.Nodup := by
  unfold newestFirst
  apply List.Nodup.append
  · exact List.nodup_reverse.mpr List.nodup_range
  · exact List.nodup_reverse.mpr (List.nodup_range' ..)
  · intro i hi hi'
    have hlt := List.mem_range.mp (List.mem_reverse.mp hi)
    have hle := (List.mem_range'_1.mp (List.mem_reverse.mp hi')).1
    omega

/-- What was stored last for a name is what `f_cache_put` has stored for it last and has not
overwritten since. -/
theorem lastPut_fCachePut (key key' : κ) (a : α) :
    (c.fCachePut key a).2.2.lastPut key' =
      if key' = key then some c.eNext
      else if c.lastPut key' = some c.eNext then none else c.lastPut key' := by
  obtain ⟨older, hnew, hold⟩ : ∃ older, (c.fCachePut key a).2.2.newestFirst = c.eNext :: older ∧
      c.newestFirst = older ++ [c.eNext] := by
    have hboth := newestFirst_fCachePut (c := c) key a
    cases hlist : (c.fCachePut key a).2.2.newestFirst with
    | nil =>
        have hmem := mem_newestFirst.mpr (c.fCachePut key a).2.2.eNext_lt_cachesize
        rw [hlist] at hmem
        exact absurd hmem List.not_mem_nil
    | cons i older =>
        rw [hlist, List.cons_append] at hboth
        injection hboth with hi holder
        exact ⟨older, by rw [hi], holder.symm⟩
  have hnot : c.eNext ∉ older := by
    have hnodup := nodup_newestFirst (c := c)
    rw [hold, List.nodup_append] at hnodup
    intro hmem
    exact hnodup.2.2 _ hmem _ List.mem_cons_self rfl
  have hput : (c.fCachePut key a).2.2.fCacheGetKey c.eNext = some key := by
    rw [key_fCachePut, if_pos rfl]
  unfold lastPut
  rw [hnew, hold, List.find?_append]
  split
  · rename_i heq
    rw [heq, List.find?_cons_of_pos (by simpa using hput)]
  · rename_i hne
    have hskip : ¬ (c.fCachePut key a).2.2.fCacheGetKey c.eNext = some key' := by
      rw [hput]
      exact fun h => hne (Option.some.inj h).symm
    rw [List.find?_cons_of_neg (by simpa using hskip)]
    have hsame : older.find? (fun i => (c.fCachePut key a).2.2.fCacheGetKey i = some key') =
        older.find? fun i => c.fCacheGetKey i = some key' := by
      apply List.find?_congr
      intro i hi
      have hne : c.eNext ≠ i := by
        intro h
        rw [h] at hnot
        exact hnot hi
      rw [key_fCachePut, if_neg hne]
    rw [hsame]
    cases hfind : older.find? fun i => c.fCacheGetKey i = some key' with
    | some i =>
        have hi : i ≠ c.eNext := by
          intro h
          rw [h] at hfind
          exact hnot (List.mem_of_find?_eq_some hfind)
        simp [hi]
    | none =>
        by_cases hkey : c.fCacheGetKey c.eNext = some key' <;> simp [hkey]

end FifoCache

/-! ## In the server -/

variable {Fs Cwd : Type} [Posix Fs Cwd] {cfg : Config} {s : Server Fs Cwd}

/-- Each name has at most one record in the two caches for directories, and it is found as it was stored
last. -/
structure NamesOnce (s : Server Fs Cwd) : Prop where
  stat : s.dirStatCache.Once
  list : s.dirListCache.Once

/-- The caches for directories. -/
def Server.caches (s : Server Fs Cwd) : FifoCache ByteString DirInfo × FifoCache ByteString DirListing :=
  (s.dirStatCache, s.dirListCache)

/-- In both caches for directories the keys are different. -/
def Server.Distinct (s : Server Fs Cwd) : Prop :=
  s.dirStatCache.Distinct ∧ s.dirListCache.Distinct

omit [Posix Fs Cwd] in
theorem Server.Distinct.namesOnce (hs : s.Distinct) : NamesOnce s := ⟨hs.1.once, hs.2.once⟩

omit [Posix Fs Cwd] in
theorem NamesOnce.distinct (hs : NamesOnce s) : s.Distinct := ⟨hs.stat.distinct, hs.list.distinct⟩

/-! ### Steps that store no record -/

/-- What holds of the two caches, whatever is written into their entries and whichever entries are
deleted. -/
structure Shrinks (I : FifoCache ByteString DirInfo → FifoCache ByteString DirListing → Prop) :
    Prop where
  setEntry : ∀ c l i d, I c l → I (c.setEntry i d) l
  fCacheDeleteEntry : ∀ c l i, I c l → I (c.fCacheDeleteEntry i).2 l

section

variable {I : FifoCache ByteString DirInfo → FifoCache ByteString DirListing → Prop}

omit [Posix Fs Cwd] in
theorem kept_syscall_caches {α : Type} (call : Fs → Cwd → α × Fs) (event : α → Event) :
    Preserves (fun s : Server Fs Cwd => I s.dirStatCache s.dirListCache)
      (syscall call event : Srv Fs Cwd α) := fun _ hs => hs

/-- The steps that store nothing keep what holds of caches that lose entries. -/
theorem steps_of_shrinks (hI : Shrinks I) :
    Steps (Kept fun s : Server Fs Cwd => I s.dirStatCache s.dirListCache) (fun _ => True)
      fun _ => False where
  emit _ _ := fun _ hs => hs
  stat _ _ := kept_syscall_caches _ _
  lstat _ _ := kept_syscall_caches _ _
  chdir _ _ := by
    intro s hs
    unfold chdir
    split <;> exact hs
  unlink _ _ := kept_syscall_caches _ _
  remove _ _ := kept_syscall_caches _ _
  rmdir _ _ := kept_syscall_caches _ _
  mkdir _ _ := kept_syscall_caches _ _
  rename _ _ _ := fun _ hs => hs
  touch _ _ := kept_syscall_caches _ _
  writeFile _ _ _ := kept_syscall_caches _ _
  chmod _ _ := kept_syscall_caches _ _
  utime _ _ _ _ := kept_syscall_caches _ _
  fopen _ _ _ := kept_syscall_caches _ _
  fclose _ _ := kept_syscall_caches _ _
  fseeko _ _ _ := kept_syscall_caches _ _
  fread _ _ _ := kept_syscall_caches _ _
  fwrite _ _ _ := kept_syscall_caches _ _
  setFpCache _ _ := fun _ hs => hs
  setThc _ _ := fun _ hs => hs
  setDirInfo _ _ _ := fun _ hs => hI.setEntry _ _ _ _ hs
  deleteDirInfo _ := fun _ hs => hI.fCacheDeleteEntry _ _ _ hs
  putDirInfo _ _ h := h.elim
  good_update _ _ _ _ h := h

end

theorem shrinks_distinct : Shrinks fun c l => c.Distinct ∧ l.Distinct where
  setEntry _ _ i d h := ⟨h.1.setEntry i d, h.2⟩
  fCacheDeleteEntry _ _ i h := ⟨h.1.fCacheDeleteEntry i, h.2⟩

/-- Both caches can go on, the one for directory information also with a record for `work`. -/
def TakesInfo (work : ByteString) (s : Server Fs Cwd) : Prop :=
  s.Distinct ∧ s.dirStatCache.Takes work

/-- Both caches can go on, the one for listings also with a record for `realname`. -/
def TakesListing (realname : ByteString) (s : Server Fs Cwd) : Prop :=
  s.Distinct ∧ s.dirListCache.Takes realname

theorem steps_distinct :
    Steps (Kept (Server.Distinct : Server Fs Cwd → Prop)) (fun _ => True) fun _ => False :=
  steps_of_shrinks shrinks_distinct

theorem steps_takesInfo (work : ByteString) :
    Steps (Kept (TakesInfo work : Server Fs Cwd → Prop)) (fun _ => True) fun _ => False :=
  steps_of_shrinks (I := fun c l => (c.Distinct ∧ l.Distinct) ∧ c.Takes work)
    ⟨fun _ _ i d h => ⟨⟨h.1.1.setEntry i d, h.1.2⟩, h.2.setEntry i d⟩,
      fun _ _ i h => ⟨⟨h.1.1.fCacheDeleteEntry i, h.1.2⟩, h.2.fCacheDeleteEntry i⟩⟩

theorem steps_takesListing (realname : ByteString) :
    Steps (Kept (TakesListing realname : Server Fs Cwd → Prop)) (fun _ => True) fun _ => False :=
  steps_of_shrinks (I := fun c l => (c.Distinct ∧ l.Distinct) ∧ l.Takes realname)
    ⟨fun _ _ i d h => ⟨⟨h.1.1.setEntry i d, h.1.2⟩, h.2⟩,
      fun _ _ i h => ⟨⟨h.1.1.fCacheDeleteEntry i, h.1.2⟩, h.2⟩⟩

/-! ### Looking for a directory -/

theorem distinct_buildDirInfo (work : ByteString) (sd : Stat) :
    Triple (TakesInfo work : Server Fs Cwd → Prop) (buildDirInfo cfg work sd)
      (fun _ => Server.Distinct) Server.Distinct := by
  have hsteps := @steps_takesInfo Fs Cwd _ work
  have hkeep : ∀ {α : Type} {m : Srv Fs Cwd α}, Preserves (TakesInfo work) m →
      Triple (TakesInfo work) m (fun _ => TakesInfo work) Server.Distinct :=
    fun hm => triple_mono hm.triple (fun _ hs => hs) (fun _ _ hs => hs) fun _ hs => hs.1
  have hstay : ∀ {α : Type} (res : α),
      Triple (TakesInfo work) (pure res : Srv Fs Cwd α) (fun _ => Server.Distinct) Server.Distinct :=
    fun res => triple_pure fun _ hs => hs.1
  have hchdir : ∀ path, Triple (TakesInfo work) (chdir path : Srv Fs Cwd Bool)
      (fun _ => TakesInfo work) Server.Distinct :=
    fun path => hkeep (hsteps.chdir path fun _ => trivial)
  apply triple_seq (hchdir work)
  intro ok
  apply triple_ite
  · intro _
    apply triple_seq (hkeep (does_query _))
    intro realname
    cases realname with
    | none => exact triple_seq (hchdir cfg.homeDir) fun _ => hstay _
    | some realname =>
        apply triple_ite
        · exact fun _ => triple_seq (hchdir cfg.homeDir) fun _ => hstay _
        intro _
        apply triple_seq (hkeep does_get)
        intro now
        apply triple_seq (hkeep (does_loadAccessRights
          (fun file _ => hsteps.stat file fun _ => trivial) _))
        intro newdir
        apply triple_seq (hchdir cfg.homeDir)
        intro _
        have hput : Triple (TakesInfo work) (putDirInfo work newdir : Srv Fs Cwd ℕ)
            (fun _ => Server.Distinct) Server.Distinct :=
          ⟨fun s hs => ⟨hs.1.1.fCachePut hs.2 newdir, hs.1.2⟩⟩
        exact triple_seq hput fun _ => triple_pure fun _ hs => hs
  · exact fun _ => hstay _

theorem distinct_recheckDirInfo (work : ByteString) (di : Option ℕ) :
    Triple (fun s : Server Fs Cwd => s.Distinct ∧ s.dirStatCache.fCacheFind work = di)
      (recheckDirInfo cfg work di) (fun _ => Server.Distinct) Server.Distinct := by
  have hsteps := @steps_distinct Fs Cwd _
  have hstat : Triple (fun s : Server Fs Cwd => s.Distinct ∧ s.dirStatCache.fCacheFind work = di)
      (stat work) (fun _ s => s.Distinct ∧ s.dirStatCache.fCacheFind work = di) Server.Distinct :=
    ⟨fun s hs => hs⟩
  apply triple_seq hstat
  intro sd
  cases sd with
  | none => exact triple_pure fun _ hs => hs.1
  | some sd =>
      apply triple_ite
      · exact fun _ => triple_pure fun _ hs => hs.1
      intro _
      cases di with
      | none =>
          refine triple_mono (distinct_buildDirInfo work sd) ?_ (fun _ _ hs => hs) fun _ hs => hs
          intro s hs
          refine ⟨hs.1, fun i hi => ?_⟩
          exact absurd hi (FifoCache.fCacheFind_eq_none.mp hs.2 i)
      | some di =>
          have hget : Triple (fun s : Server Fs Cwd => s.Distinct ∧
              s.dirStatCache.fCacheFind work = some di) (get : Srv Fs Cwd (Server Fs Cwd))
              (fun _ s => s.Distinct ∧ s.dirStatCache.fCacheFind work = some di) Server.Distinct :=
            ⟨fun s hs => hs⟩
          apply triple_seq hget
          intro now
          apply triple_ite
          · intro _
            have hset := does_setTimes hsteps di DirInfo.mtime fun _ => now.curTime
            refine triple_mono (triple_seq (Preserves.triple hset) fun _ => triple_pure fun _ hs => hs)
              (fun _ hs => hs.1) (fun _ _ hs => hs) fun _ hs => hs
          · intro _
            -- without the stale record there is none with this key
            have hdelete : Triple (fun s : Server Fs Cwd => s.Distinct ∧
                s.dirStatCache.fCacheFind work = some di) (deleteDirInfo di)
                (fun _ => TakesInfo work) Server.Distinct := by
              constructor
              intro s ⟨hs, hfind⟩
              refine ⟨⟨hs.1.fCacheDeleteEntry di, hs.2⟩, ?_⟩
              exact hs.1.takes_fCacheDeleteEntry (FifoCache.key_of_fCacheFind hfind)
            exact triple_seq hdelete fun _ => distinct_buildDirInfo work sd

theorem distinct_findDirInfo (work : ByteString) :
    Preserves Server.Distinct (findDirInfo cfg work : Srv Fs Cwd (Except ByteString ℕ)) := by
  apply preserves_of_wp
  intro s hs
  simp only [findDirInfo, wp_bind, wp_get]
  have hrecheck : ∀ di, s.dirStatCache.fCacheFind work = di →
      wp (recheckDirInfo cfg work di) (fun _ => Server.Distinct) Server.Distinct s :=
    fun di hdi => (distinct_recheckDirInfo work di).run s ⟨hs, hdi⟩
  cases hfind : s.dirStatCache.fCacheFind work with
  | none => exact hrecheck none hfind
  | some di => exact wp_ite (fun _ => hs) fun _ => hrecheck (some di) hfind

theorem distinct_validatePath (fullp : ByteString) (wantDirectory : Bool) :
    Preserves Server.Distinct (validatePath cfg fullp wantDirectory :
      Srv Fs Cwd (Except ByteString (PPath × ℕ))) := by
  have hsteps := @steps_distinct Fs Cwd _
  unfold validatePath
  split
  · exact does_pure _
  · apply does_bind (hsteps.emit _ trivial)
    intro _
    apply does_bind (distinct_findDirInfo _)
    intro di
    cases di with
    | error err => exact does_pure _
    | ok di =>
        refine does_bind (does_dirInfo di) fun d => ?_
        exact does_bind (hsteps.emit _ trivial) fun _ => does_pure _

/-! ### Listing a directory -/

theorem distinct_makeListing (di : DirInfo) :
    Triple (TakesListing di.realname : Server Fs Cwd → Prop) (makeListing cfg di)
      (fun _ => Server.Distinct) Server.Distinct := by
  have hsteps := @steps_takesListing Fs Cwd _ di.realname
  have hkeep : ∀ {α : Type} {m : Srv Fs Cwd α}, Preserves (TakesListing di.realname) m →
      Triple (TakesListing di.realname) m (fun _ => TakesListing di.realname) Server.Distinct :=
    fun hm => triple_mono hm.triple (fun _ hs => hs) (fun _ _ hs => hs) fun _ hs => hs.1
  have hstore : ∀ (listP : Option ByteString) (new : DirListing),
      Triple (TakesListing di.realname) (storeListing listP di new : Srv Fs Cwd ℕ)
        (fun _ => Server.Distinct) Server.Distinct := by
    intro listP new
    have hput : Triple (TakesListing di.realname) (putDirListing di.realname new : Srv Fs Cwd ℕ)
        (fun _ => Server.Distinct) Server.Distinct :=
      ⟨fun s hs => ⟨hs.1.1, hs.1.2.fCachePut hs.2 new⟩⟩
    apply triple_seq hput
    intro dl
    apply Preserves.triple
    refine does_bind does_get fun now => ?_
    cases listP with
    | none => exact does_pure _
    | some listP =>
        refine does_bind (does_savePrebuilt steps_distinct
          ⟨fun _ => trivial, fun _ _ _ => trivial, fun _ _ => trivial, fun _ _ _ => trivial⟩
          ⟨fun _ => trivial, fun _ => trivial, fun _ => trivial⟩ _) fun ok => ?_
        apply does_ite
        · intro _
          have hset : Preserves Server.Distinct (setDirListing dl fun new =>
              { new with mtime := now.curTime } : Srv Fs Cwd Unit) :=
            fun s hs => ⟨hs.1, hs.2.setEntry _ _⟩
          exact does_bind hset fun _ => does_pure _
        · exact fun _ => does_pure _
  have hload : Preserves (TakesListing di.realname) (if cfg.usePrebuildDirlists
      then loadPrebuilt (di.realname ++ [slash] ++ fspDirlisting) di else pure none :
      Srv Fs Cwd (Option DirListing)) :=
    does_ite (fun _ => does_loadPrebuilt hsteps (fun _ => trivial) di) fun _ => does_pure _
  apply triple_seq (hkeep hload)
  intro prebuilt
  cases prebuilt with
  | some new => exact triple_seq (hstore none new) fun _ => triple_pure fun _ hs => hs
  | none =>
      apply triple_seq (hkeep (does_query _))
      intro entries
      cases entries with
      | none => exact triple_pure fun _ hs => hs.1
      | some entries =>
          simp only
          split
          · exact triple_throw fun _ hs => hs.1
          · apply triple_seq (hkeep does_get)
            intro now
            exact triple_seq (hstore _ _) fun _ => triple_pure fun _ hs => hs

theorem distinct_serverGetDir (di : ℕ) :
    Preserves Server.Distinct (serverGetDir cfg di : Srv Fs Cwd (Except ByteString ℕ)) := by
  apply preserves_of_wp
  intro s hs
  have hdir : wp (dirInfo di) (fun d s' => d = s.dirStatCache.entry di ∧ s' = s)
      Server.Distinct s := ⟨rfl, rfl⟩
  refine wp_seq hdir ?_
  intro d s' ⟨hd, hs'⟩
  rw [hd, hs']
  simp only [wp_bind, wp_get]
  cases hfind : s.dirListCache.fCacheFind (s.dirStatCache.entry di).realname with
  | none =>
      apply (distinct_makeListing (s.dirStatCache.entry di)).run
      refine ⟨hs, fun i hi => ?_⟩
      exact absurd hi (FifoCache.fCacheFind_eq_none.mp hfind i)
  | some dl =>
      apply wp_ite
      · intro _
        have hdelete : wp (deleteDirListing dl : Srv Fs Cwd Unit)
            (fun _ => TakesListing (s.dirStatCache.entry di).realname) Server.Distinct s :=
          ⟨⟨hs.1, hs.2.fCacheDeleteEntry dl⟩,
            hs.2.takes_fCacheDeleteEntry (FifoCache.key_of_fCacheFind hfind)⟩
        exact wp_seq hdelete fun _ s' hs' => (distinct_makeListing _).run s' hs'
      · exact fun _ => hs

/-! ### Making a directory -/

/-- The caches are `p`. -/
def CachesAre (p : FifoCache ByteString DirInfo × FifoCache ByteString DirListing)
    (s : Server Fs Cwd) : Prop := s.caches = p

section

variable {p : FifoCache ByteString DirInfo × FifoCache ByteString DirListing}

omit [Posix Fs Cwd] in
theorem cachesAre_syscall {α : Type} (call : Fs → Cwd → α × Fs) (event : α → Event) :
    Triple (CachesAre p) (syscall call event : Srv Fs Cwd α) (fun _ => CachesAre p) fun _ => False :=
  ⟨fun _ hs => hs⟩

theorem cachesAre_chdir (path : ByteString) :
    Triple (CachesAre p) (chdir path : Srv Fs Cwd Bool) (fun _ => CachesAre p) fun _ => False := by
  constructor
  intro s hs
  unfold wp chdir
  cases Posix.chdir s.fs s.cwd path <;> exact hs

theorem cachesAre_saveAccessRights (d : DirInfo) :
    Triple (CachesAre p) (saveAccessRights cfg d : Srv Fs Cwd Unit) (fun _ => CachesAre p)
      fun _ => False := by
  have hdone : Triple (CachesAre p) (pure () : Srv Fs Cwd Unit) (fun _ => CachesAre p)
      fun _ => False := triple_pure fun _ hs => hs
  have hpassword : ∀ file (password : Option ByteString),
      Triple (CachesAre p) (savePasswordIf file password : Srv Fs Cwd Unit) (fun _ => CachesAre p)
        fun _ => False := by
    intro file password
    cases password with
    | none => exact hdone
    | some password =>
        show Triple _ (savePassword file password) _ _
        unfold savePassword
        exact cachesAre_syscall _ _
  have hunlink : Triple (CachesAre p) (accessFiles.forM fun file => do
      let _ ← unlink file
      pure () : Srv Fs Cwd Unit) (fun _ => CachesAre p) fun _ => False :=
    triple_forM (I := fun _ => CachesAre p) fun _ _ _ =>
      triple_seq (cachesAre_syscall _ _) fun _ => hdone
  apply triple_seq hunlink
  intro _
  apply triple_ite
  · intro _
    apply triple_seq (triple_forM (I := fun _ => CachesAre p) fun _ _ _ => cachesAre_syscall _ _)
    intro _
    apply triple_seq (hpassword _ _)
    intro _
    apply triple_seq (hpassword _ _)
    intro _
    exact triple_ite (fun _ => cachesAre_syscall _ _) fun _ => hdone
  · exact fun _ => hdone

end

/-- `server_make_dir` stores a record if it makes a directory, and otherwise leaves the caches alone. -/
theorem wp_serverMakeDir (pp : PPath) (inetNum : UInt32) (di : ℕ) (s : Server Fs Cwd) :
    wp (serverMakeDir cfg pp inetNum di)
      (fun res s' => if (Posix.mkdir s.fs s.cwd pp.fullp).1 then
          ∃ slot d, res = .ok slot ∧
            s'.caches = ((s.dirStatCache.fCachePut pp.fullp d).2.2, s.dirListCache)
        else ∃ err, res = .error err ∧ s'.caches = s.caches) (fun _ => False) s := by
  have hmkdir : wp (mkdir pp.fullp : Srv Fs Cwd Bool)
      (fun ok s' => ok = (Posix.mkdir s.fs s.cwd pp.fullp).1 ∧ CachesAre s.caches s')
      (fun _ => False) s := ⟨rfl, rfl⟩
  apply wp_seq hmkdir
  intro ok s' ⟨hok, hs'⟩
  rw [← hok]
  cases ok with
  | false => exact ⟨_, rfl, hs'⟩
  | true =>
      have hread : ∀ {α : Type} {m : Srv Fs Cwd α}, (∀ s, ∃ a, m s = .ok a s) →
          Triple (CachesAre s.caches) m (fun _ => CachesAre s.caches) fun _ => False := by
        intro α m hm
        constructor
        intro s hs
        obtain ⟨a, ha⟩ := hm s
        unfold wp
        rw [ha]
        exact hs
      refine Triple.run ?_ s' hs'
      apply triple_seq (hread fun _ => ⟨_, rfl⟩)
      intro d
      apply triple_seq (hread fun _ => ⟨_, rfl⟩)
      intro now
      apply triple_seq (hread fun _ => ⟨_, rfl⟩)
      intro gethostbyname
      apply triple_seq (cachesAre_chdir _)
      intro _
      apply triple_seq (cachesAre_saveAccessRights _)
      intro _
      apply triple_seq (hread fun _ => ⟨_, rfl⟩)
      intro cwd
      apply triple_seq (cachesAre_chdir _)
      intro _
      have hput : ∀ d, Triple (CachesAre s.caches) (putDirInfo pp.fullp d : Srv Fs Cwd ℕ)
          (fun _ => CachesAre ((s.dirStatCache.fCachePut pp.fullp d).2.2, s.dirListCache))
          fun _ => False := by
        intro d
        constructor
        intro s hs
        injection hs with hstat hlist
        show ((s.dirStatCache.fCachePut pp.fullp d).2.2, s.dirListCache) = _
        rw [hstat, hlist]
      apply triple_seq (hput _)
      intro slot
      exact triple_pure fun _ hs => ⟨slot, _, rfl, hs⟩

/-! ### Requests -/

/-- `server_make_dir` is called for `pp` in the state `s'`: the request is let in. -/
structure CallsMakeDir (cfg : Config) (r : Request) (s : Server Fs Cwd) (pp : PPath)
    (s' : Server Fs Cwd) : Prop where
  cmd : Command.ofByte r.ub.cmd = .makeDir
  writable : cfg.readOnly = false
  new : r.old = false
  letIn : ∃ di s₁ pe, validatePath cfg r.s1 false s = .ok (.ok (pp, di)) s₁ ∧
    requireAccess cfg r di dirMkdir pp.passwd s₁ = .ok pe s' ∧
    pe.head? ≠ some 0x49 ∧ pe.head? ≠ some 0x44

/-- `CC_MAKE_DIR` makes a directory, and there is a record for its name that the new record does not
overwrite. -/
def Remakes (cfg : Config) (r : Request) (s : Server Fs Cwd) : Prop :=
  ∃ pp s', CallsMakeDir cfg r s pp s' ∧ (Posix.mkdir s'.fs s'.cwd pp.fullp).1 = true ∧
    ∃ i, s'.dirStatCache.fCacheGetKey i = some pp.fullp ∧ i ≠ s'.dirStatCache.eNext

variable {r : Request}

/-- A reply leaves the caches alone. -/
theorem keepsCaches_serverReply (client : SockAddr) (ub : Ubuf) (data xtra : ByteString) :
    Keeps Server.caches (serverReply cfg client ub data xtra : Srv Fs Cwd Unit) := by
  have hthrottle : ∀ bytes, Keeps Server.caches (throttle cfg bytes : Srv Fs Cwd Unit) := by
    intro bytes
    apply does_ite
    · exact fun _ => does_pure _
    · intro _
      refine does_bind does_get fun s => ?_
      exact does_ite (fun _ => fun _ => rfl) fun _ => does_throw _
  refine does_bind (hthrottle _) fun _ => ?_
  refine does_bind (does_query _) fun sent => ?_
  exact does_ite (fun _ => fun _ => rfl) fun _ => does_throw _

/-- The end of `case CC_MAKE_DIR`. -/
theorem keepsCaches_finish (di : ℕ) (passwd : Option ByteString) :
    Keeps Server.caches (checkAccessRights cfg r di 0 passwd fun pe => replyPro cfg r di pe :
      Srv Fs Cwd Unit) := by
  have haccess : Keeps Server.caches (requireAccess cfg r di 0 passwd : Srv Fs Cwd ByteString) :=
    fun _ => rfl
  apply does_bind haccess
  intro pe
  apply does_ite
  · exact fun _ => does_pure _
  intro _
  apply does_ite
  · exact fun _ => keepsCaches_serverReply _ _ _ _
  · exact fun _ => does_bind (does_dirInfo di) fun _ => keepsCaches_serverReply _ _ _ _

omit [Posix Fs Cwd] in
theorem distinct_of_caches {s' : Server Fs Cwd} (h : s'.caches = s.caches) :
    s'.Distinct ↔ s.Distinct := by
  injection h with hstat hlist
  unfold Server.Distinct
  rw [hstat, hlist]

/-- A second record for a name is only stored where `Remakes` says so. -/
theorem distinct_caseMakeDir (hcmd : Command.ofByte r.ub.cmd = .makeDir)
    (hremakes : ¬ Remakes cfg r s) (hs : s.Distinct) : (final (caseMakeDir cfg r s)).Distinct := by
  have hreply : ∀ {m : Srv Fs Cwd Unit}, Keeps Server.caches m → ∀ s : Server Fs Cwd, s.Distinct →
      wp m (fun _ => Server.Distinct) Server.Distinct s := by
    intro m hm s hs
    exact wp_of_final ((distinct_of_caches (hm s)).mpr hs)
  have hrefuse : ∀ msg, Keeps Server.caches (refuse cfg r msg : Srv Fs Cwd Unit) :=
    fun msg => keepsCaches_serverReply _ _ _ _
  apply wp_final
  unfold caseMakeDir
  apply wp_ite
  · exact fun _ => hreply (hrefuse _) s hs
  intro hwrite
  apply wp_seq (wp_run ((distinct_validatePath r.s1 false).wp hs))
  intro res s₁ ⟨hs₁, hvalid⟩
  cases res with
  | error pe => exact hreply (hrefuse _) s₁ hs₁
  | ok res =>
      obtain ⟨pp, di⟩ := res
      apply wp_ite
      · exact fun _ => hreply (keepsCaches_finish _ _) s₁ hs₁
      intro hnew
      have haccess : Preserves Server.Distinct
          (requireAccess cfg r di dirMkdir pp.passwd : Srv Fs Cwd ByteString) :=
        does_requireAccess steps_distinct fun _ => trivial
      apply wp_seq (wp_run (haccess.wp hs₁))
      intro pe s₂ ⟨hs₂, hletIn⟩
      apply wp_ite
      · exact fun _ => hs₂
      intro hignored
      apply wp_ite
      · exact fun _ => hreply (hrefuse _) s₂ hs₂
      intro hdenied
      have hcalls : CallsMakeDir cfg r s pp s₂ :=
        ⟨hcmd, by simpa using hwrite, by simpa using hnew, di, s₁, pe, hvalid, hletIn, hignored, hdenied⟩
      apply wp_seq_of_total (wp_serverMakeDir pp r.inetNum di s₂)
      intro res s₃ hmade
      split at hmade
      · rename_i hmkdir
        obtain ⟨slot, d, hres, hcaches⟩ := hmade
        rw [hres]
        apply hreply (keepsCaches_finish slot pp.passwd) s₃
        injection hcaches with hstat hlist
        unfold Server.Distinct
        rw [hstat, hlist]
        refine ⟨hs₂.1.fCachePut ?_ d, hs₂.2⟩
        intro i hi
        by_contra hne
        exact hremakes ⟨pp, s₂, hcalls, hmkdir, i, hi, hne⟩
      · obtain ⟨err, hres, hcaches⟩ := hmade
        rw [hres]
        exact hreply (hrefuse err) s₃ ((distinct_of_caches hcaches).mpr hs₂)

/-- And there it is stored. -/
theorem not_distinct_of_remakes (h : Remakes cfg r s) :
    ¬ (final (caseMakeDir cfg r s)).Distinct := by
  obtain ⟨pp, s₂, ⟨hcmd, hwrite, hnew, di, s₁, pe, hvalid, hletIn, hignored, hdenied⟩, hmkdir, i, hi,
    hne⟩ := h
  have hstep : ∀ {α : Type} {m : Srv Fs Cwd α} {a : α} {s s' : Server Fs Cwd}, m s = .ok a s' →
      wp m (fun b t => b = a ∧ t = s') (fun s => ¬ s.Distinct) s := by
    intro α m a s s' hm
    unfold wp
    rw [hm]
    exact ⟨rfl, rfl⟩
  refine wp_final (E := fun s : Server Fs Cwd => ¬ s.Distinct) ?_
  unfold caseMakeDir
  apply wp_ite
  · intro hreadOnly
    rw [hwrite] at hreadOnly
    cases hreadOnly
  intro _
  apply wp_seq (hstep hvalid)
  intro res s' ⟨hres, hs'⟩
  rw [hres, hs']
  apply wp_ite
  · intro hold
    rw [hnew] at hold
    cases hold
  intro _
  apply wp_seq (hstep hletIn)
  intro answer s' ⟨hanswer, hs'⟩
  rw [hanswer, hs']
  apply wp_ite (fun h => absurd h hignored)
  intro _
  apply wp_ite (fun h => absurd h hdenied)
  intro _
  apply wp_seq_of_total (wp_serverMakeDir pp r.inetNum di s₂)
  intro res s₃ hmade
  rw [if_pos hmkdir] at hmade
  obtain ⟨slot, d, hres, hcaches⟩ := hmade
  rw [hres]
  apply wp_of_final
  intro hdistinct
  have hsame : (final (checkAccessRights cfg r slot 0 pp.passwd
      (fun pe => replyPro cfg r slot pe) s₃)).caches = s₃.caches := keepsCaches_finish slot pp.passwd s₃
  injection hsame.trans hcaches with hstat
  have hput := hdistinct.1
  rw [hstat] at hput
  exact hne (FifoCache.takes_of_distinct_fCachePut hput i hi)

theorem serve_makeDir (hcmd : Command.ofByte r.ub.cmd = .makeDir) (hp : ℕ) :
    (serve cfg r hp : Srv Fs Cwd Unit) = caseMakeDir cfg r := by
  unfold serve
  rw [hcmd]

/-- The other commands store no second record. -/
theorem phases_distinct (hcmd : Command.ofByte r.ub.cmd ≠ .makeDir) :
    Phases (Server.Distinct : Server Fs Cwd → Prop) Server.Distinct cfg r := by
  apply phases_of_steps steps_distinct fun _ _ => trivial
  · exact fun _ hs => hs
  · exact fun path => steps_distinct.stat path fun _ => trivial
  · exact fun di rights passwd => does_requireAccess steps_distinct fun _ => trivial
  · exact fun l _ => (distinct_validatePath l.1 l.2).triple
  · exact fun di => (distinct_serverGetDir di).triple
  · exact fun hmake => absurd hmake hcmd
  · exact fun _ _ hs => hs

theorem distinct_serve_iff (hp : ℕ) (hs : s.Distinct) :
    (final (serve cfg r hp s)).Distinct ↔ ¬ Remakes cfg r s := by
  by_cases hcmd : Command.ofByte r.ub.cmd = .makeDir
  · rw [serve_makeDir hcmd]
    constructor
    · exact fun hdistinct hremakes => not_distinct_of_remakes hremakes hdistinct
    · exact fun hremakes => distinct_caseMakeDir hcmd hremakes hs
  · constructor
    · intro _ ⟨pp, s', hcalls, _⟩
      exact hcmd hcalls.cmd
    · exact fun _ => wp_final (((phases_distinct hcmd).serve hp).run s hs)

/-! ### Runs -/

/-- The request of the round, if there is one, stores a second record for a name. -/
def RoundRemakes (cfg : Config) (r : Effect.Round (Arrival Fs) (Server Fs Cwd)) : Prop :=
  ∃ ub old h, Dispatches cfg r.input r.before ub old h ∧
    Remakes cfg (requestOf r.input ub old h) (dispatchState cfg r.input r.before old h)

theorem distinct_serverRound_iff (a : Arrival Fs) (htable : HostTable s.htab) (hs : s.Distinct) :
    (final (serverRound cfg a s)).Distinct ↔
      ¬ RoundRemakes cfg ⟨a, s, final (serverRound cfg a s)⟩ := by
  have hreply : ∀ {client : SockAddr} {ub : Ubuf} {msg : ByteString} {s' : Server Fs Cwd},
      s'.Distinct → (final (sendError cfg client ub msg s')).Distinct := by
    intro client ub msg s' hs'
    exact (distinct_of_caches (keepsCaches_serverReply _ _ _ _ s')).mpr hs'
  have hdispatch : ∀ old h, (dispatchState cfg a s old h).Distinct := fun _ _ => hs
  constructor
  · intro hdistinct ⟨ub, old, h, hdisp, hremakes⟩
    rw [serverRound_of_dispatches htable hdisp] at hdistinct
    exact (distinct_serve_iff _ (hdispatch old h)).mp hdistinct hremakes
  · intro hremakes
    have hgoes := serverRound_goes cfg a htable
    generalize serverRound cfg a s = res at hgoes ⊢
    cases hgoes with
    | unread => exact hs
    | exits => exact hs
    | denied => exact hreply hs
    | unnamed => exact hreply hs
    | ignored => exact hs
    | garbled => exact hs
    | dispatched hdisp =>
        rename_i ub old h
        apply (distinct_serve_iff _ (hdispatch old h)).mpr
        exact fun h' => hremakes ⟨ub, old, h, hdisp, h'⟩

omit [Posix Fs Cwd] in
theorem distinct_initServer (cfg : Config) (fs : Fs) (cwd : Cwd) (now : ℤ) :
    (initServer cfg fs cwd now).Distinct := by
  have hstat := cfg.statCacheLimit_ge
  have hlist := cfg.dirCacheLimit_ge
  exact ⟨FifoCache.distinct_fCacheNew cfg.statCacheLimit (by omega),
    FifoCache.distinct_fCacheNew cfg.dirCacheLimit (by omega)⟩

/-- In a run, each name has at most one record before and after every request if and only if no request
makes a directory whose name still has a record. -/
theorem namesOnce_iff (cfg : Config) (fs : Fs) (cwd : Cwd) (now : ℤ) (arrivals : List (Arrival Fs)) :
    (∀ r ∈ history cfg (initServer cfg fs cwd now) arrivals, NamesOnce r.before ∧ NamesOnce r.after) ↔
      ∀ r ∈ history cfg (initServer cfg fs cwd now) arrivals, ¬ RoundRemakes cfg r := by
  constructor
  · intro honce r hr
    obtain ⟨before, after, hrun⟩ := List.append_of_mem hr
    have htable := hostTable_history cfg fs cwd now hrun
    have hafter := after_of_mem_rounds hr
    have hdistinct := (honce r hr).2.distinct
    rw [hafter] at hdistinct
    exact (distinct_serverRound_iff r.input htable (honce r hr).1.distinct).mp hdistinct
  · intro hremakes r hr
    obtain ⟨before, after, hrun⟩ := List.append_of_mem hr
    have hboth := rounds_induction (I := fun _ s => HostTable s.htab ∧ s.Distinct) []
      ⟨hostTable_initHtab, distinct_initServer cfg fs cwd now⟩ ?_ hrun
    · exact ⟨hboth.1.2.namesOnce, hboth.2.2.namesOnce⟩
    · intro before' r' after' hrun' hafter ⟨htable, hs⟩
      have hmem : r' ∈ history cfg (initServer cfg fs cwd now) arrivals := by
        unfold history
        rw [hrun']
        exact List.mem_append_right _ List.mem_cons_self
      rw [hafter]
      exact ⟨hostTable_serverRound cfg r'.input htable,
        (distinct_serverRound_iff r'.input htable hs).mpr (hremakes r' hmem)⟩

/-- A client makes the directory `d`, deletes it, and makes it again. -/
def remakeRun : List (Effect.Round (Arrival Disk) (Server Disk Path)) :=
  history Scenario.config (Scenario.start Scenario.config
      [("h/.FSP_OK_MKDIR", Scenario.emptyFile), ("h/.FSP_OK_DEL", Scenario.emptyFile)])
    [Scenario.arrival 100 7
        (Scenario.datagram .makeDir 5 0 (Scenario.path "d") [] Scenario.length_path_d),
      Scenario.arrival 101 8
        (Scenario.datagram .delDir 7 0 (Scenario.path "d") [] Scenario.length_path_d),
      Scenario.arrival 102 9
        (Scenario.datagram .makeDir 8 0 (Scenario.path "d") [] Scenario.length_path_d)]

/-- Then there are two records for it, and the older one is found. -/
theorem remakeRun_not_namesOnce : ∃ r ∈ remakeRun, ¬ NamesOnce r.after ∧
    r.after.dirStatCache.fCacheFind (text "d") = some 1 ∧
    r.after.dirStatCache.lastPut (text "d") = some 2 := by
  have hlast : (some 1, some 2) ∈ remakeRun.map fun r =>
      (r.after.dirStatCache.fCacheFind (text "d"), r.after.dirStatCache.lastPut (text "d")) := by
    decide +kernel
  obtain ⟨r, hr, hboth⟩ := List.mem_map.mp hlast
  injection hboth with hfind hput
  refine ⟨r, hr, fun honce => ?_, hfind, hput⟩
  rw [honce.stat.newest, hput] at hfind
  cases hfind

end Fsp
