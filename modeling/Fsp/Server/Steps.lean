import Fsp.Server.Dispatch

/-!
# What the operations do, step by step

Every operation of `server/file.c` and `server/acl.c` is made of system calls, of changes to the
three caches, and of entries in the trace.  A preorder `R` on states that each of these steps
respects is therefore respected by every operation, and this is proved here once, with one theorem
for each operation.

`Primitives R P Good` says that `R` respects the steps: a step that is written to the trace only
has to respect it when the entry has `P`, and a directory information only when it is `Good`.  The
theorem about an operation then asks for `P` of the entries that the operation can write.
-/

namespace Fsp

open Bytes Effect

variable {Fs Cwd : Type} [Posix Fs Cwd]

/-- The steps respect `R`, apart from changes to the cache of listings. -/
structure Steps (R : Server Fs Cwd → Server Fs Cwd → Prop) (P : Event → Prop)
    (Good : DirInfo → Prop) : Prop where
  emit : ∀ e, P e → Does R (emit e)
  stat : ∀ path, (∀ r, P (.stat path r)) → Does R (stat path)
  lstat : ∀ path, (∀ r, P (.stat path r)) → Does R (lstat path)
  chdir : ∀ path, (∀ ok, P (.chdir path ok)) → Does R (chdir path)
  unlink : ∀ path, (∀ ok, P (.unlink path ok)) → Does R (unlink path)
  remove : ∀ path, (∀ ok, P (.remove path ok)) → Does R (remove path)
  rmdir : ∀ path, (∀ ok, P (.rmdir path ok)) → Does R (rmdir path)
  mkdir : ∀ path, (∀ ok, P (.mkdir path ok)) → Does R (mkdir path)
  rename : ∀ src dst, (∀ t ok, P (.rename src dst t ok)) → Does R (rename src dst)
  touch : ∀ path, P (.creat path) → Does R (touch path)
  writeFile : ∀ path data, P (.writeFile path data) → Does R (writeFile path data)
  chmod : ∀ path, P (.chmod path) → Does R (chmod path)
  utime : ∀ path a m, P (.utime path m) → Does R (utime path a m)
  fopen : ∀ path mode, (∀ fp, P (.fopen path mode fp)) → Does R (fopen path mode)
  fclose : ∀ fp, P (.fclose fp) → Does R (fclose fp)
  fseeko : ∀ fp pos, (∀ ok, P (.fseeko fp pos ok)) → Does R (fseeko fp pos)
  fread : ∀ fp len, (∀ data, P (.fread fp data)) → Does R (fread fp len)
  fwrite : ∀ fp data, (∀ n, P (.fwrite fp data n)) → Does R (fwrite fp data)
  setFpCache : (∀ fp, P (.fclose fp)) →
    ∀ f : Server Fs Cwd → FifoCache ByteString FpCache,
      Does R (modify fun s => { s with fpCache := f s } : Srv Fs Cwd Unit)
  setThc : ∀ (f : Server Fs Cwd → List UInt32) (g : Server Fs Cwd → ℤ),
    Does R (modify fun s => { s with thc := f s, thcBase := g s } : Srv Fs Cwd Unit)
  setDirInfo : ∀ di f, (∀ d, Good d → Good (f d)) → Does R (setDirInfo di f)
  deleteDirInfo : ∀ di, Does R (deleteDirInfo di)
  putDirInfo : ∀ key d, Good d → Does R (putDirInfo key d)
  good_update : ∀ d mtime lastcheck protection, Good d → Good { d with mtime, lastcheck, protection }

/-- The steps respect `R`. -/
structure Primitives (R : Server Fs Cwd → Server Fs Cwd → Prop) (P : Event → Prop)
    (Good : DirInfo → Prop) : Prop extends Steps R P Good where
  setListCache : ∀ f : Server Fs Cwd → FifoCache ByteString DirListing,
    Does R (modify fun s => { s with dirListCache := f s } : Srv Fs Cwd Unit)

variable {R : Server Fs Cwd → Server Fs Cwd → Prop} [IsPreorder (Server Fs Cwd) R]
  {P : Event → Prop} {Good : DirInfo → Prop} {cfg : Config}

omit [IsPreorder (Server Fs Cwd) R] in
theorem Primitives.mono {R' : Server Fs Cwd → Server Fs Cwd → Prop} (h : Primitives R P Good)
    (hR : ∀ s s', R s s' → R' s s') : Primitives R' P Good where
  emit _ he := (h.emit _ he).mono hR
  stat _ hP := (h.stat _ hP).mono hR
  lstat _ hP := (h.lstat _ hP).mono hR
  chdir _ hP := (h.chdir _ hP).mono hR
  unlink _ hP := (h.unlink _ hP).mono hR
  remove _ hP := (h.remove _ hP).mono hR
  rmdir _ hP := (h.rmdir _ hP).mono hR
  mkdir _ hP := (h.mkdir _ hP).mono hR
  rename _ _ hP := (h.rename _ _ hP).mono hR
  touch _ hP := (h.touch _ hP).mono hR
  writeFile _ _ hP := (h.writeFile _ _ hP).mono hR
  chmod _ hP := (h.chmod _ hP).mono hR
  utime _ _ _ hP := (h.utime _ _ _ hP).mono hR
  fopen _ _ hP := (h.fopen _ _ hP).mono hR
  fclose _ hP := (h.fclose _ hP).mono hR
  fseeko _ _ hP := (h.fseeko _ _ hP).mono hR
  fread _ _ hP := (h.fread _ _ hP).mono hR
  fwrite _ _ hP := (h.fwrite _ _ hP).mono hR
  setFpCache hP _ := (h.setFpCache hP _).mono hR
  setListCache _ := (h.setListCache _).mono hR
  setThc _ _ := (h.setThc _ _).mono hR
  setDirInfo _ _ hf := (h.setDirInfo _ _ hf).mono hR
  deleteDirInfo _ := (h.deleteDirInfo _).mono hR
  putDirInfo _ _ hd := (h.putDirInfo _ _ hd).mono hR
  good_update := h.good_update

/-! ## Closing a cached stream -/

/-- The files once the stream in a slot is closed. -/
def closedFs (s : Server Fs Cwd) (i : Option ℕ) : Fs :=
  (i.bind fun i => (s.fpCache.fCacheDeleteEntry i).1.entry.fp).elim s.fs fun fp =>
    Posix.fclose s.fs fp

/-- Closing a cached stream touches neither the current directory nor the other caches. -/
theorem deleteFp_ok (cacheF : Option ℕ) (s : Server Fs Cwd) :
    deleteFp cacheF s = .ok () (final (deleteFp cacheF s)) ∧
      (final (deleteFp cacheF s)).fs = closedFs s cacheF ∧
      (final (deleteFp cacheF s)).cwd = s.cwd ∧
      (final (deleteFp cacheF s)).dirStatCache = s.dirStatCache := by
  cases cacheF with
  | none => exact ⟨rfl, rfl, rfl, rfl⟩
  | some i =>
      obtain ⟨entry, hentry⟩ : ∃ entry, entry = (s.fpCache.fCacheDeleteEntry i).1.entry := ⟨_, rfl⟩
      have hdelete : deleteFp (some i) s =
          (freeFp entry >>= fun _ => modify fun s' : Server Fs Cwd =>
            { s' with fpCache := (s.fpCache.fCacheDeleteEntry i).2 }) s := by
        rw [hentry]
        rfl
      rw [hdelete, freeFp]
      unfold closedFs
      rw [Option.bind_some, ← hentry]
      cases entry.fp with
      | none => exact ⟨rfl, rfl, rfl, rfl⟩
      | some fp => exact ⟨rfl, rfl, rfl, rfl⟩

/-! ## Reading -/

section

omit [Posix Fs Cwd]

theorem does_query {α : Type} (call : Fs → Cwd → α) : Does R (query call : Srv Fs Cwd α) :=
  does_bind does_get fun _ => does_pure _

theorem does_dirInfo (di : ℕ) : Does R (dirInfo di : Srv Fs Cwd DirInfo) :=
  does_bind does_get fun _ => does_pure _

theorem does_dirListing (dl : ℕ) : Does R (dirListing dl : Srv Fs Cwd DirListing) :=
  does_bind does_get fun _ => does_pure _

theorem does_findFp (key : ByteString) : Does R (findFp key : Srv Fs Cwd (Option ℕ)) :=
  does_bind does_get fun _ => does_pure _

theorem does_fpOf (i : ℕ) : Does R (fpOf i : Srv Fs Cwd Handle) := by
  refine does_bind does_get fun s => ?_
  split
  · exact does_pure _
  · exact does_throw _

theorem does_searchFpcache (inetNum : UInt32) (portNum : UInt16) (fname : ByteString) :
    Does R (searchFpcache inetNum portNum fname : Srv Fs Cwd (Option ℕ)) := by
  refine does_bind does_get fun s => ?_
  split
  · exact does_throw _
  · exact does_pure _

end

theorem does_fexist (path : ByteString) : Does R (fexist path : Srv Fs Cwd Bool) := does_query _

theorem does_readFile (path : ByteString) :
    Does R (readFile path : Srv Fs Cwd (Option ByteString)) := does_query _

theorem does_loadPassword (file : ByteString) :
    Does R (loadPassword file : Srv Fs Cwd (Option ByteString)) :=
  does_bind (does_readFile file) fun _ => does_pure _

theorem does_loadProtection (p : UInt8) : Does R (loadProtection p : Srv Fs Cwd UInt8) := by
  refine does_bind (does_fexist _) fun _ => ?_
  refine does_bind (does_fexist _) fun _ => ?_
  refine does_bind (does_fexist _) fun _ => ?_
  refine does_bind (does_fexist _) fun _ => ?_
  refine does_bind (does_fexist _) fun _ => ?_
  exact does_bind (does_fexist _) fun _ => does_pure _

/-! ## Access rights -/

theorem does_loadReadme (hreadme : Does R (stat cfg.readmeFile : Srv Fs Cwd (Option Stat))) :
    Does R (loadReadme cfg : Srv Fs Cwd (Option ByteString)) := by
  refine does_bind hreadme fun sf => ?_
  cases sf with
  | none => exact does_pure _
  | some sf =>
      refine does_bind (does_readFile _) fun content => ?_
      cases content <;> exact does_pure _

theorem does_loadPasswordFile {file : ByteString}
    (hfile : Does R (stat file : Srv Fs Cwd (Option Stat))) :
    Does R (loadPasswordFile file : Srv Fs Cwd (Option ByteString)) := by
  refine does_bind hfile fun sf => ?_
  cases sf with
  | none => exact does_pure _
  | some sf => exact does_ite (fun _ => does_loadPassword _) fun _ => does_pure _

theorem does_loadOwner (hpassword : Does R (stat fspOwnerpassword : Srv Fs Cwd (Option Stat))) :
    Does R (loadOwner : Srv Fs Cwd (List IPrange × Option ByteString)) := by
  refine does_bind (does_readFile _) fun content => ?_
  cases content with
  | none => exact does_pure _
  | some content =>
      refine does_bind (does_query _) fun gethostbyname => ?_
      split
      · exact does_throw _
      · exact does_bind (does_loadPasswordFile hpassword) fun _ => does_pure _

/-- The names `load_access_rights` looks at with `stat`. -/
def statNames (cfg : Config) : List ByteString := [cfg.readmeFile, fspPassword, fspOwnerpassword]

theorem does_loadAccessRights
    (hstat : ∀ file ∈ statNames cfg, Does R (stat file : Srv Fs Cwd (Option Stat)))
    (di : DirInfo) : Does R (loadAccessRights cfg di : Srv Fs Cwd DirInfo) := by
  refine does_bind (does_loadReadme (hstat _ (by simp [statNames]))) fun readme => ?_
  refine does_ite (fun _ => ?_) fun _ => does_pure _
  refine does_bind (does_loadProtection _) fun p => ?_
  refine does_bind (does_loadPasswordFile (hstat _ (by simp [statNames]))) fun password => ?_
  exact does_bind (does_loadOwner (hstat _ (by simp [statNames]))) fun _ => does_pure _

section

variable (h : Steps R P Good)
include h

/-- What `save_access_rights` writes. -/
structure AllowsSave (P : Event → Prop) : Prop where
  unlink : ∀ file ∈ accessFiles, ∀ ok, P (.unlink file ok)
  creat : ∀ file ∈ accessFiles, P (.creat file)
  writeFile : ∀ file ∈ accessFiles, ∀ data, P (.writeFile file data)

omit h in
/-- `save_access_rights` unlinks, creates and writes access files. -/
theorem does_saveAccessRights_of_files
    (hunlink : ∀ file ∈ accessFiles, Does R (unlink file : Srv Fs Cwd Bool))
    (htouch : ∀ file ∈ accessFiles, Does R (touch file : Srv Fs Cwd Unit))
    (hwrite : ∀ file ∈ accessFiles, ∀ data, Does R (writeFile file data : Srv Fs Cwd Unit))
    (di : DirInfo) : Does R (saveAccessRights cfg di : Srv Fs Cwd Unit) := by
  have hpassword : ∀ file ∈ accessFiles, ∀ password,
      Does R (savePasswordIf file password : Srv Fs Cwd Unit) := by
    intro file hfile password
    cases password with
    | none => exact does_pure _
    | some password => exact hwrite file hfile _
  refine does_bind (does_forM fun file hfile => ?_) fun _ => ?_
  · exact does_bind (hunlink file hfile) fun _ => does_pure _
  · refine does_ite (fun _ => ?_) fun _ => does_pure _
    refine does_bind (does_forM fun file hfile => ?_) fun _ => ?_
    · exact htouch file (mem_accessFiles_of_mem_flagFiles hfile)
    refine does_bind (hpassword _ (by simp [accessFiles]) _) fun _ => ?_
    refine does_bind (hpassword _ (by simp [accessFiles]) _) fun _ => ?_
    refine does_ite (fun _ => ?_) fun _ => does_pure _
    exact hwrite _ (by simp [accessFiles]) _

theorem does_saveAccessRights (hsave : AllowsSave P) (di : DirInfo) :
    Does R (saveAccessRights cfg di : Srv Fs Cwd Unit) := by
  apply does_saveAccessRights_of_files
  · exact fun file hfile => h.unlink _ (hsave.unlink file hfile)
  · exact fun file hfile => h.touch _ (hsave.creat file hfile)
  · exact fun file hfile data => h.writeFile _ _ (hsave.writeFile file hfile data)

/-! ## Directories -/

/-- What the search for a directory information writes. -/
structure AllowsFind (cfg : Config) (work : ByteString) (P : Event → Prop) : Prop where
  lookup : P (.lookup work)
  stat : ∀ r, P (.stat work r)
  statNames : ∀ file ∈ statNames cfg, ∀ r, P (.stat file r)
  chdir : ∀ ok, P (.chdir work ok)
  home : ∀ ok, P (.chdir cfg.homeDir ok)

omit [IsPreorder (Server Fs Cwd) R] in
theorem does_setTimes (di : ℕ) (f g : DirInfo → ℤ) :
    Does R (setDirInfo di fun d => { d with mtime := f d, lastcheck := g d } : Srv Fs Cwd Unit) :=
  h.setDirInfo _ _ fun d hd => h.good_update d _ _ d.protection hd

theorem does_touchDirInfo (di : ℕ) : Does R (touchDirInfo di : Srv Fs Cwd Unit) :=
  does_bind does_get fun _ => does_setTimes h di _ _

theorem does_buildDirInfo {work : ByteString} (hfind : AllowsFind cfg work P)
    (hgood : ∀ di, Returns Good (loadAccessRights cfg di : Srv Fs Cwd DirInfo)) (sd : Stat) :
    Does R (buildDirInfo cfg work sd : Srv Fs Cwd (Except ByteString ℕ)) := by
  refine does_bind (h.chdir _ hfind.chdir) fun ok => ?_
  refine does_ite (fun _ => ?_) fun _ => does_pure _
  refine does_bind (does_query _) fun realname => ?_
  cases realname with
  | none => exact does_bind (h.chdir _ hfind.home) fun _ => does_pure _
  | some realname =>
      refine does_ite (fun _ => does_bind (h.chdir _ hfind.home) fun _ => does_pure _) fun _ => ?_
      refine does_bind does_get fun s => ?_
      refine does_bind_of_returns
        (does_loadAccessRights (fun file hfile => h.stat file (hfind.statNames file hfile)) _)
        (hgood _) fun newdir hnewdir => ?_
      refine does_bind (h.chdir _ hfind.home) fun _ => ?_
      exact does_bind (h.putDirInfo _ _ hnewdir) fun _ => does_pure _

theorem does_recheckDirInfo {work : ByteString} (hfind : AllowsFind cfg work P)
    (hgood : ∀ di, Returns Good (loadAccessRights cfg di : Srv Fs Cwd DirInfo)) (di : Option ℕ) :
    Does R (recheckDirInfo cfg work di : Srv Fs Cwd (Except ByteString ℕ)) := by
  refine does_bind (h.stat _ hfind.stat) fun sd => ?_
  cases sd with
  | none => exact does_pure _
  | some sd =>
      refine does_ite (fun _ => does_pure _) fun _ => ?_
      cases di with
      | none => exact does_buildDirInfo h hfind hgood sd
      | some di =>
          refine does_bind does_get fun s => ?_
          refine does_ite (fun _ => ?_) fun _ => ?_
          · exact does_bind (does_setTimes h di DirInfo.mtime _) fun _ => does_pure _
          · exact does_bind (h.deleteDirInfo _) fun _ => does_buildDirInfo h hfind hgood sd

theorem does_findDirInfo {work : ByteString} (hfind : AllowsFind cfg work P)
    (hgood : ∀ di, Returns Good (loadAccessRights cfg di : Srv Fs Cwd DirInfo)) :
    Does R (findDirInfo cfg work : Srv Fs Cwd (Except ByteString ℕ)) := by
  refine does_bind does_get fun s => ?_
  split
  · exact does_ite (fun _ => does_pure _) fun _ => does_recheckDirInfo h hfind hgood _
  · exact does_recheckDirInfo h hfind hgood _

theorem does_validatePath {fullp : ByteString} {wantDirectory : Bool}
    (hfind : ∀ pp, parsePath fullp = .ok pp →
      AllowsFind cfg (directoryPart pp wantDirectory).work P)
    (hvalidated : ∀ pp di realname, P (.validated pp di realname))
    (hgood : ∀ di, Returns Good (loadAccessRights cfg di : Srv Fs Cwd DirInfo)) :
    Does R (validatePath cfg fullp wantDirectory : Srv Fs Cwd (Except ByteString (PPath × ℕ))) := by
  unfold validatePath
  split
  · exact does_pure _
  · rename_i pp hpp
    refine does_bind (h.emit _ (hfind pp hpp).lookup) fun _ => ?_
    refine does_bind (does_findDirInfo h (hfind pp hpp) hgood) fun di => ?_
    cases di with
    | error err => exact does_pure _
    | ok di =>
        refine does_bind (does_dirInfo _) fun d => ?_
        exact does_bind (h.emit _ (hvalidated _ _ _)) fun _ => does_pure _

/-! ## Files -/

theorem does_freeFp (hclose : ∀ fp, P (.fclose fp)) (entry : FpCache) :
    Does R (freeFp entry : Srv Fs Cwd Unit) := by
  unfold freeFp
  split
  · exact h.fclose _ (hclose _)
  · exact does_pure _

theorem does_putFp (hclose : ∀ fp, P (.fclose fp)) (key : ByteString) (entry : FpCache) :
    Does R (putFp key entry : Srv Fs Cwd Unit) :=
  does_bind does_get fun _ =>
    does_bind (does_freeFp h hclose _) fun _ => h.setFpCache hclose _

theorem does_deleteFp (hclose : ∀ fp, P (.fclose fp)) (i : Option ℕ) :
    Does R (deleteFp i : Srv Fs Cwd Unit) := by
  cases i with
  | none => exact does_pure _
  | some i =>
      exact does_bind does_get fun _ =>
        does_bind (does_freeFp h hclose _) fun _ => h.setFpCache hclose _

/-- What the use of streams writes. -/
structure AllowsStreams (P : Event → Prop) : Prop where
  fclose : ∀ fp, P (.fclose fp)
  fseeko : ∀ fp pos ok, P (.fseeko fp pos ok)
  fread : ∀ fp data, P (.fread fp data)
  fwrite : ∀ fp data n, P (.fwrite fp data n)

theorem does_copyLoop (hstreams : AllowsStreams P) (fuel : ℕ) (ft fp : Handle) :
    Does R (copyLoop fuel ft fp : Srv Fs Cwd Unit) := by
  induction fuel with
  | zero => exact does_throw _
  | succ fuel ih =>
      refine does_bind (h.fread _ _ (hstreams.fread _)) fun buf => ?_
      refine does_ite (fun _ => does_pure _) fun _ => ?_
      refine does_bind (h.fwrite _ _ (hstreams.fwrite _ _)) fun bytes => ?_
      exact does_ite (fun _ => ih) fun _ => does_pure _

theorem does_copyFile (hstreams : AllowsStreams P) {n1 n2 : ByteString}
    (hopen : ∀ fp, P (.fopen n1 .r fp)) (hopen' : ∀ fp, P (.fopen n2 .w fp))
    (hunlink : ∀ ok, P (.unlink n2 ok)) (hcopied : P (.copied n1 n2)) :
    Does R (copyFile n1 n2 : Srv Fs Cwd (Option ByteString)) := by
  refine does_bind (h.fopen _ _ hopen) fun ft => ?_
  cases ft with
  | none => exact does_pure _
  | some ft =>
      refine does_bind (h.fopen _ _ hopen') fun fp => ?_
      cases fp with
      | none => exact does_bind (h.fclose _ (hstreams.fclose _)) fun _ => does_pure _
      | some fp =>
          refine does_bind (does_query _) fun fuel => ?_
          refine does_bind (does_copyLoop h hstreams _ _ _) fun _ => ?_
          refine does_bind (does_query _) fun readError => ?_
          refine does_bind (does_query _) fun writeError => ?_
          refine does_bind (h.fclose _ (hstreams.fclose _)) fun _ => ?_
          refine does_bind (h.fclose _ (hstreams.fclose _)) fun _ => ?_
          refine does_ite (fun _ => ?_) fun _ => ?_
          · exact does_bind (h.unlink _ hunlink) fun _ => does_pure _
          · exact does_bind (h.emit _ hcopied) fun _ => does_pure _

/-! ## Listings -/

theorem does_loadPrebuilt {listP : ByteString} (hstat : ∀ r, P (.stat listP r)) (di : DirInfo) :
    Does R (loadPrebuilt listP di : Srv Fs Cwd (Option DirListing)) := by
  refine does_bind (h.stat _ hstat) fun sf => ?_
  cases sf with
  | none => exact does_pure _
  | some sf =>
      refine does_ite (fun _ => does_pure _) fun _ => ?_
      refine does_bind (does_readFile _) fun content => ?_
      cases content with
      | none => exact does_pure _
      | some content => exact does_ite (fun _ => does_pure _) fun _ => does_pure _

/-- What the listing file of a directory causes to be written. -/
structure AllowsListing (listP : ByteString) (P : Event → Prop) : Prop where
  stat : ∀ r, P (.stat listP r)
  fopen : ∀ fp, P (.fopen listP .w fp)
  unlink : ∀ ok, P (.unlink listP ok)

theorem does_savePrebuilt (hstreams : AllowsStreams P) {listP : ByteString}
    (hlist : AllowsListing listP P) (listing : ByteString) :
    Does R (savePrebuilt listP listing : Srv Fs Cwd Bool) := by
  refine does_bind (h.fopen _ _ hlist.fopen) fun f => ?_
  cases f with
  | none => exact does_bind (h.unlink _ hlist.unlink) fun _ => does_pure _
  | some f =>
      refine does_bind (h.fwrite _ _ (hstreams.fwrite _ _)) fun written => ?_
      refine does_bind (h.fclose _ (hstreams.fclose _)) fun _ => ?_
      refine does_ite (fun _ => ?_) fun _ => does_pure _
      exact does_bind (h.unlink _ hlist.unlink) fun _ => does_pure _

end

section

variable (h : Primitives R P Good)
include h

omit [IsPreorder (Server Fs Cwd) R] in
theorem does_putDirListing (key : ByteString) (dl : DirListing) :
    Does R (putDirListing key dl : Srv Fs Cwd ℕ) := by
  have := h.setListCache fun s => (s.dirListCache.fCachePut key dl).2.2
  exact fun s => this s

theorem does_storeListing (hstreams : AllowsStreams P) {listP : Option ByteString}
    (hlist : ∀ p ∈ listP, AllowsListing p P) (di : DirInfo) (new : DirListing) :
    Does R (storeListing listP di new : Srv Fs Cwd ℕ) := by
  refine does_bind (does_putDirListing h _ _) fun dl => ?_
  refine does_bind does_get fun s => ?_
  cases listP with
  | none => exact does_pure _
  | some listP =>
      refine does_bind (does_savePrebuilt h.toSteps hstreams (hlist _ rfl) _) fun ok => ?_
      refine does_ite (fun _ => ?_) fun _ => does_pure _
      exact does_bind (h.setListCache _) fun _ => does_pure _

theorem does_makeListing (hstreams : AllowsStreams P) {di : DirInfo}
    (hlist : AllowsListing (di.realname ++ [slash] ++ fspDirlisting) P) :
    Does R (makeListing cfg di : Srv Fs Cwd (Except ByteString ℕ)) := by
  refine does_bind (R := R) ?_ fun prebuilt => ?_
  · exact does_ite (fun _ => does_loadPrebuilt h.toSteps hlist.stat _) fun _ => does_pure _
  cases prebuilt with
  | some new =>
      exact does_bind (does_storeListing h hstreams (by simp) _ _) fun _ => does_pure _
  | none =>
      refine does_bind (does_query _) fun entries => ?_
      cases entries with
      | none => exact does_pure _
      | some entries =>
          simp only
          split
          · exact does_throw _
          · refine does_bind does_get fun s => ?_
            refine does_bind (does_storeListing h hstreams ?_ _ _) fun _ => does_pure _
            intro p hp
            split at hp
            · injection hp with hp
              exact hp ▸ hlist
            · cases hp

theorem does_serverGetDir (hstreams : AllowsStreams P)
    (hlist : ∀ realname, AllowsListing (realname ++ [slash] ++ fspDirlisting) P) (di : ℕ) :
    Does R (serverGetDir cfg di : Srv Fs Cwd (Except ByteString ℕ)) := by
  refine does_bind (does_dirInfo _) fun d => ?_
  refine does_bind does_get fun s => ?_
  split
  · exact does_makeListing h hstreams (hlist _)
  · refine does_ite (fun _ => ?_) fun _ => does_pure _
    exact does_bind (h.setListCache _) fun _ => does_makeListing h hstreams (hlist _)

end

/-! ## Operations -/

section

variable (h : Steps R P Good)
include h

theorem does_serverDelFile {pp : PPath} (hstat : ∀ r, P (.stat pp.fullp r))
    (hunlink : ∀ ok, P (.unlink pp.fullp ok)) (di : ℕ) :
    Does R (serverDelFile pp di : Srv Fs Cwd (Option ByteString)) := by
  refine does_bind (h.stat _ hstat) fun sb => ?_
  cases sb with
  | none => exact does_pure _
  | some sb =>
      refine does_ite (fun _ => does_pure _) fun _ => ?_
      refine does_bind (h.unlink _ hunlink) fun ok => ?_
      refine does_ite (fun _ => ?_) fun _ => does_pure _
      exact does_bind (does_touchDirInfo h _) fun _ => does_pure _

theorem does_serverDelDir {pp : PPath} (hsave : AllowsSave P)
    (hstat : ∀ r, P (.stat pp.fullp r)) (hchdir : ∀ ok, P (.chdir pp.fullp ok))
    (hhome : ∀ ok, P (.chdir cfg.homeDir ok)) (hrmdir : ∀ ok, P (.rmdir pp.fullp ok)) (di : ℕ) :
    Does R (serverDelDir cfg pp di : Srv Fs Cwd (Option ByteString)) := by
  refine does_bind (h.stat _ hstat) fun sb => ?_
  cases sb with
  | none => exact does_pure _
  | some sb =>
      refine does_ite (fun _ => does_pure _) fun _ => ?_
      refine does_bind (h.chdir _ hchdir) fun _ => ?_
      refine does_bind (does_saveAccessRights h hsave _) fun _ => ?_
      refine does_bind (h.chdir _ hhome) fun _ => ?_
      refine does_bind (h.rmdir _ hrmdir) fun ok => ?_
      refine does_ite (fun _ => ?_) fun _ => ?_
      · exact does_bind (does_setTimes h _ DirInfo.mtime _) fun _ => does_pure _
      · refine does_bind (h.chdir _ hchdir) fun _ => ?_
        refine does_bind (does_dirInfo _) fun d => ?_
        refine does_bind (does_saveAccessRights h hsave _) fun _ => ?_
        exact does_bind (h.chdir _ hhome) fun _ => does_pure _

theorem does_serverMakeDir {pp : PPath} {inetNum : UInt32} (hsave : AllowsSave P)
    (hmkdir : ∀ ok, P (.mkdir pp.fullp ok)) (hchdir : ∀ ok, P (.chdir pp.fullp ok))
    (hhome : ∀ ok, P (.chdir cfg.homeDir ok))
    (hgood : ∀ gethostbyname d t realname,
      Good { creatorInfo gethostbyname (creatorLine cfg.bigEndian inetNum) d t with realname })
    (di : ℕ) :
    Does R (serverMakeDir cfg pp inetNum di : Srv Fs Cwd (Except ByteString ℕ)) := by
  refine does_bind (h.mkdir _ hmkdir) fun ok => ?_
  refine does_ite (fun _ => ?_) fun _ => does_pure _
  refine does_bind (does_dirInfo _) fun d => ?_
  refine does_bind does_get fun s => ?_
  refine does_bind (does_query _) fun gethostbyname => ?_
  refine does_bind (h.chdir _ hchdir) fun _ => ?_
  refine does_bind (does_saveAccessRights h hsave _) fun _ => ?_
  refine does_bind (does_query _) fun cwd => ?_
  refine does_bind (h.chdir _ hhome) fun _ => ?_
  exact does_bind (h.putDirInfo _ _ (hgood _ _ _ _)) fun _ => does_pure _

theorem does_serverGetFile {pp : PPath} (hclose : ∀ fp, P (.fclose fp))
    (hstat : ∀ path r, P (.stat path r)) (hopen : ∀ fp, P (.fopen pp.fullp .r fp))
    (inetNum : UInt32) (portNum : UInt16) (di : ℕ) :
    Does R (serverGetFile pp inetNum portNum di : Srv Fs Cwd (Except ByteString Handle)) := by
  refine does_bind (does_dirInfo _) fun d => ?_
  refine does_bind (does_searchFpcache _ _ _) fun i => ?_
  cases i with
  | some i => exact does_bind (does_fpOf _) fun _ => does_pure _
  | none =>
      refine does_bind (h.stat _ (hstat _)) fun sb => ?_
      cases sb with
      | none => exact does_pure _
      | some sb =>
          refine does_ite (fun _ => does_pure _) fun _ => ?_
          refine does_ite (fun _ => does_pure _) fun _ => ?_
          refine does_bind (h.fopen _ _ hopen) fun fp => ?_
          cases fp with
          | none => exact does_pure _
          | some fp => exact does_bind (does_putFp h hclose _ _) fun _ => does_pure _

theorem does_serverSetPro (hsave : AllowsSave P) (hprotect : ∀ name p p', P (.protect name p p'))
    (hchdir : ∀ path ok, P (.chdir path ok)) (di : ℕ) (k0 k1 : UInt8) :
    Does R (serverSetPro cfg di k0 k1 : Srv Fs Cwd (Option ByteString)) := by
  refine does_bind (does_dirInfo _) fun d => ?_
  split
  · exact does_pure _
  · refine does_bind ?_ fun _ => ?_
    · exact h.setDirInfo _ _ fun d hd => h.good_update d d.mtime d.lastcheck _ hd
    refine does_bind (h.emit _ (hprotect _ _ _)) fun _ => ?_
    refine does_bind (does_touchDirInfo h _) fun _ => ?_
    refine does_bind (h.chdir _ (hchdir _)) fun _ => ?_
    refine does_bind (does_dirInfo _) fun d => ?_
    refine does_bind (does_saveAccessRights h hsave _) fun _ => ?_
    exact does_bind (h.chdir _ (hchdir _)) fun _ => does_pure _

/-- What an upload writes. -/
structure AllowsUpload (tname : ByteString) (P : Event → Prop) : Prop extends AllowsStreams P where
  fopen : ∀ mode fp, P (.fopen tname mode fp)
  unlink : ∀ ok, P (.unlink tname ok)
  remove : ∀ ok, P (.remove tname ok)
  stat : ∀ r, P (.stat tname r)
  chmod : P (.chmod tname)

theorem does_uploadTail {tname : ByteString} (hup : AllowsUpload tname P) (data : ByteString)
    (pos : ℕ) (cacheF : Option ℕ) (fp : Handle) {again : Srv Fs Cwd (Option ByteString)}
    (hagain : Does R again) : Does R (uploadTail tname data pos cacheF fp again) := by
  refine does_bind (does_query _) fun size => ?_
  have hdelete : Does R (deleteFp cacheF : Srv Fs Cwd Unit) := does_deleteFp h hup.fclose _
  refine does_ite (fun _ => ?_) fun _ => does_ite (fun _ => ?_) fun _ => ?_
  · exact does_bind hdelete fun _ => does_bind (h.unlink _ hup.unlink) fun _ => does_pure _
  · refine does_bind hdelete fun _ => does_bind (h.unlink _ hup.unlink) fun _ => ?_
    exact does_ite (fun _ => hagain) fun _ => does_pure _
  · refine does_bind (R := R) (does_ite (fun _ => ?_) fun _ => does_pure _) fun ok => ?_
    · exact h.fseeko _ _ (hup.fseeko _ _)
    refine does_ite (fun _ => ?_) fun _ => does_bind hdelete fun _ => does_pure _
    refine does_bind (h.fwrite _ _ (hup.fwrite _ _)) fun written => ?_
    exact does_ite (fun _ => does_pure _) fun _ => does_bind hdelete fun _ => does_pure _

theorem does_uploadOpen {tname : ByteString} (hup : AllowsUpload tname P) (pos : ℕ) :
    Does R (uploadOpen tname pos : Srv Fs Cwd (Option Handle)) := by
  refine does_ite (fun _ => h.fopen _ _ (hup.fopen _)) fun _ => ?_
  exact does_bind (h.unlink _ hup.unlink) fun _ => h.fopen _ _ (hup.fopen _)

theorem does_serverUpLoad {inetNum : UInt32} {portNum : UInt16}
    (hup : AllowsUpload (uploadName cfg inetNum portNum) P) (data : ByteString) (pos depth : ℕ) :
    Does R (serverUpLoad cfg data pos inetNum portNum depth :
      Srv Fs Cwd (Option ByteString)) := by
  induction depth with
  | zero => exact does_throw _
  | succ depth ih =>
      refine does_bind (does_findFp _) fun i => ?_
      cases i with
      | some i => exact does_bind (does_fpOf _) fun fp => does_uploadTail h hup _ _ _ _ ih
      | none =>
          refine does_bind (does_uploadOpen h hup _) fun fp => ?_
          cases fp with
          | none => exact does_pure _
          | some fp =>
              have hclose : Does R (fclose fp : Srv Fs Cwd Unit) := h.fclose _ (hup.fclose _)
              refine does_bind (h.lstat _ hup.stat) fun sf => ?_
              cases sf with
              | none =>
                  exact does_bind hclose fun _ => does_bind (h.remove _ hup.remove) fun _ =>
                    does_pure _
              | some sf =>
                  refine does_ite (fun _ => ?_) fun _ => does_ite (fun _ => ?_) fun _ =>
                    does_ite (fun _ => ?_) fun _ => ?_
                  · exact does_bind hclose fun _ => does_bind (h.remove _ hup.remove) fun _ =>
                      does_pure _
                  · exact does_bind hclose fun _ => does_bind (h.unlink _ hup.unlink) fun _ =>
                      does_pure _
                  · refine does_bind hclose fun _ => does_bind (h.unlink _ hup.unlink) fun _ => ?_
                    exact does_ite (fun _ => ih) fun _ => does_pure _
                  · refine does_bind (h.fseeko _ _ (hup.fseeko _ _)) fun ok => ?_
                    refine does_ite (fun _ => ?_) fun _ => ?_
                    · refine does_bind (h.chmod _ hup.chmod) fun _ => ?_
                      refine does_bind (does_putFp h hup.fclose _ _) fun _ => ?_
                      exact does_uploadTail h hup _ _ _ _ ih
                    · exact does_bind hclose fun _ => does_bind (h.unlink _ hup.unlink) fun _ =>
                        does_pure _

theorem does_serverInstall {pp : PPath} {inetNum : UInt32} {portNum : UInt16}
    (hstreams : AllowsStreams P)
    (htemp : ∀ ok, P (.unlink (uploadName cfg inetNum portNum) ok))
    (hunlink : ∀ ok, P (.unlink pp.fullp ok))
    (hopen : ∀ fp, P (.fopen (uploadName cfg inetNum portNum) .r fp))
    (hopen' : ∀ fp, P (.fopen pp.fullp .w fp))
    (hcopied : P (.copied (uploadName cfg inetNum portNum) pp.fullp))
    (hutime : ∀ m, P (.utime pp.fullp m)) (acc : ByteString) (di : ℕ) (s2 : ByteString) :
    Does R (serverInstall cfg pp inetNum portNum acc di s2 : Srv Fs Cwd (Option ByteString)) := by
  refine does_bind (does_findFp _) fun cacheF => ?_
  refine does_bind (does_deleteFp h hstreams.fclose _) fun _ => ?_
  refine does_ite (fun _ => ?_) fun _ => ?_
  · exact does_bind (h.unlink _ htemp) fun _ => does_pure _
  refine does_bind (does_dirInfo _) fun d => ?_
  refine does_bind (does_query _) fun exist => ?_
  refine does_ite (fun _ => ?_) fun _ => ?_
  · exact does_bind (h.unlink _ htemp) fun _ => does_pure _
  refine does_bind (does_touchDirInfo h _) fun _ => ?_
  refine does_bind (h.unlink _ hunlink) fun _ => ?_
  refine does_bind (does_copyFile h hstreams hopen hopen' hunlink hcopied) fun tmp => ?_
  refine does_bind (h.unlink _ htemp) fun _ => ?_
  split
  · refine does_bind does_get fun s => ?_
    exact does_bind (h.utime _ _ _ (hutime _)) fun _ => does_pure _
  · exact does_pure _

theorem does_serverSecureFile {pp : PPath} {inetNum : UInt32} {portNum : UInt16}
    (hstreams : AllowsStreams P) (hstat : ∀ r, P (.stat pp.fullp r))
    (htemp : ∀ ok, P (.unlink (grabName cfg inetNum portNum) ok))
    (hunlink : ∀ ok, P (.unlink pp.fullp ok)) (hopen : ∀ fp, P (.fopen pp.fullp .r fp))
    (hopen' : ∀ fp, P (.fopen (grabName cfg inetNum portNum) .w fp))
    (hcopied : P (.copied pp.fullp (grabName cfg inetNum portNum))) (di : ℕ) :
    Does R (serverSecureFile cfg pp inetNum portNum di : Srv Fs Cwd (Option ByteString)) := by
  refine does_bind (h.stat _ hstat) fun sb => ?_
  cases sb with
  | none => exact does_pure _
  | some sb =>
      refine does_ite (fun _ => does_pure _) fun _ => ?_
      refine does_bind (h.unlink _ htemp) fun _ => ?_
      refine does_bind (does_copyFile h hstreams hopen hopen' htemp hcopied) fun tmp => ?_
      cases tmp with
      | some tmp => exact does_pure _
      | none =>
          refine does_bind (h.unlink _ hunlink) fun ok => ?_
          refine does_ite (fun _ => ?_) fun _ => ?_
          · exact does_bind (does_touchDirInfo h _) fun _ => does_pure _
          · exact does_bind (h.unlink _ htemp) fun _ => does_pure _

theorem does_serverGrabFile {inetNum : UInt32} {portNum : UInt16} (hclose : ∀ fp, P (.fclose fp))
    (hstat : ∀ r, P (.stat (grabName cfg inetNum portNum) r))
    (hopen : ∀ fp, P (.fopen (grabName cfg inetNum portNum) .r fp)) :
    Does R (serverGrabFile cfg inetNum portNum : Srv Fs Cwd (Except ByteString Handle)) := by
  refine does_bind (does_findFp _) fun i => ?_
  cases i with
  | some i => exact does_bind (does_fpOf _) fun _ => does_pure _
  | none =>
      refine does_bind (h.stat _ hstat) fun sb => ?_
      cases sb with
      | none => exact does_pure _
      | some sb =>
          refine does_ite (fun _ => does_pure _) fun _ => ?_
          refine does_bind (h.fopen _ _ hopen) fun fp => ?_
          cases fp with
          | none => exact does_pure _
          | some fp => exact does_bind (does_putFp h hclose _ _) fun _ => does_pure _

theorem does_serverGrabDone {inetNum : UInt32} {portNum : UInt16} (hclose : ∀ fp, P (.fclose fp))
    (hstat : ∀ r, P (.stat (grabName cfg inetNum portNum) r))
    (hunlink : ∀ ok, P (.unlink (grabName cfg inetNum portNum) ok)) :
    Does R (serverGrabDone cfg inetNum portNum : Srv Fs Cwd (Option ByteString)) := by
  refine does_bind (h.stat _ hstat) fun sb => ?_
  cases sb with
  | none => exact does_pure _
  | some sb =>
      refine does_bind (does_findFp _) fun i => ?_
      refine does_bind (does_deleteFp h hclose _) fun _ => ?_
      refine does_bind (h.unlink _ hunlink) fun ok => ?_
      exact does_ite (fun _ => does_pure _) fun _ => does_pure _

theorem does_serverStat {path : ByteString} (hstat : ∀ path r, P (.stat path r))
    (hfind : ∀ work, AllowsFind cfg work P)
    (hvalidated : ∀ pp di realname, P (.validated pp di realname))
    (hgood : ∀ di, Returns Good (loadAccessRights cfg di : Srv Fs Cwd DirInfo)) (junk : UInt32) :
    Does R (serverStat cfg path junk : Srv Fs Cwd ByteString) := by
  unfold serverStat
  simp only
  split
  · exact does_pure _
  · refine does_bind (h.stat _ (hstat _)) fun sb => ?_
    cases sb with
    | none => exact does_pure _
    | some sb =>
        refine does_bind ?_ fun _ => does_pure _
        unfold statAllowed
        split
        · exact does_pure _
        · refine does_bind (does_validatePath h (fun _ _ => hfind _) hvalidated hgood) fun r => ?_
          cases r <;> exact does_pure _

theorem does_serverRename {src dest : PPath} (hstat : ∀ path r, P (.stat path r))
    (hrename : ∀ t ok, P (.rename src.fullp dest.fullp t ok)) (sdir tdir : ℕ) :
    Does R (serverRename src dest sdir tdir : Srv Fs Cwd (Option ByteString)) := by
  refine does_bind (h.stat _ (hstat _)) fun sb => ?_
  cases sb with
  | none => exact does_pure _
  | some sb =>
      refine does_ite (fun _ => does_pure _) fun _ => ?_
      refine does_bind (h.stat _ (hstat _)) fun target => ?_
      refine does_ite (fun _ => does_pure _) fun _ => does_ite (fun _ => ?_) fun _ => does_pure _
      refine does_bind (h.rename _ _ hrename) fun ok => ?_
      refine does_ite (fun _ => ?_) fun _ => does_pure _
      exact does_bind (does_touchDirInfo h _) fun _ => does_pure _

end

/-! ## Replies -/

section

variable (h : Steps R P Good)
include h

theorem does_throttle (bytes : ℕ) : Does R (throttle cfg bytes : Srv Fs Cwd Unit) := by
  refine does_ite (fun _ => does_pure _) fun _ => does_bind does_get fun s => ?_
  exact does_ite (fun _ => h.setThc _ _) fun _ => does_throw _

theorem does_serverReply {client : SockAddr} {ub : Ubuf} {data xtra : ByteString}
    (hsent : P (.sent client (replyTo ub data xtra).encode)) :
    Does R (serverReply cfg client ub data xtra : Srv Fs Cwd Unit) := by
  refine does_bind (does_throttle h _) fun _ => does_bind (does_query _) fun sent => ?_
  exact does_ite (fun _ => h.emit _ hsent) fun _ => does_throw _

theorem does_requireAccess {r : Request} {di : ℕ} {rights : UInt8} {passwd : Option ByteString}
    (haccess : ∀ pe, P (.access di rights r.inetNum passwd pe)) :
    Does R (requireAccess cfg r di rights passwd : Srv Fs Cwd ByteString) :=
  does_bind (does_dirInfo _) fun _ => does_bind (h.emit _ (haccess _)) fun _ => does_pure _

end

/-! ## Entries and frame

One such preorder: entries were added to the trace, and the client database and the clock are as
they were. -/

/-- Entries with `P` were added to the trace, and neither the client database nor the clock has
changed. -/
def Acts (P : Event → Prop) (s s' : Server Fs Cwd) : Prop :=
  Appends P s s' ∧ Same (fun s => (s.htab, s.curTime)) s s'

instance (P : Event → Prop) : IsPreorder (Server Fs Cwd) (Acts P) :=
  inferInstanceAs (IsPreorder (Server Fs Cwd)
    fun s s' => Appends P s s' ∧ Same (fun s => (s.htab, s.curTime)) s s')

omit [Posix Fs Cwd] in
theorem acts_syscall {α : Type} {call : Fs → Cwd → α × Fs} {event : α → Event} {P : Event → Prop}
    (h : ∀ a, P (event a)) : Does (Acts P) (syscall call event : Srv Fs Cwd α) :=
  fun _ => ⟨appends_one rfl (h _), rfl⟩

omit [Posix Fs Cwd] in
theorem acts_silent {f : Server Fs Cwd → Server Fs Cwd} {P : Event → Prop}
    (htrace : ∀ s, (f s).trace = s.trace) (hframe : ∀ s, (f s).htab = s.htab)
    (htime : ∀ s, (f s).curTime = s.curTime) : Does (Acts P) (modify f : Srv Fs Cwd Unit) :=
  fun s => ⟨appends_of_log_eq (htrace s), Prod.ext (hframe s) (htime s)⟩

theorem primitives_acts (P : Event → Prop) :
    Primitives (Acts P : Server Fs Cwd → Server Fs Cwd → Prop) P fun _ => True where
  emit _ he := fun _ => ⟨appends_one rfl he, rfl⟩
  stat _ hP := acts_syscall hP
  lstat _ hP := acts_syscall hP
  chdir path hP := by
    intro s
    unfold chdir
    split
    · exact ⟨appends_one rfl (hP true), rfl⟩
    · exact ⟨appends_one rfl (hP false), rfl⟩
  unlink _ hP := acts_syscall hP
  remove _ hP := acts_syscall hP
  rmdir _ hP := acts_syscall hP
  mkdir _ hP := acts_syscall hP
  rename _ _ hP := fun s => acts_syscall (hP _) s
  touch _ hP := acts_syscall fun _ => hP
  writeFile _ _ hP := acts_syscall fun _ => hP
  chmod _ hP := acts_syscall fun _ => hP
  utime _ _ _ hP := acts_syscall fun _ => hP
  fopen _ _ hP := acts_syscall hP
  fclose _ hP := acts_syscall fun _ => hP
  fseeko _ _ hP := acts_syscall hP
  fread _ _ hP := acts_syscall hP
  fwrite _ _ hP := acts_syscall hP
  setFpCache _ _ := acts_silent (fun _ => rfl) (fun _ => rfl) fun _ => rfl
  setListCache _ := acts_silent (fun _ => rfl) (fun _ => rfl) fun _ => rfl
  setThc _ _ := acts_silent (fun _ => rfl) (fun _ => rfl) fun _ => rfl
  setDirInfo _ _ _ := acts_silent (fun _ => rfl) (fun _ => rfl) fun _ => rfl
  deleteDirInfo _ := acts_silent (fun _ => rfl) (fun _ => rfl) fun _ => rfl
  putDirInfo key d _ :=
    acts_silent (f := fun s => { s with dirStatCache := (s.dirStatCache.fCachePut key d).2.2 })
      (fun _ => rfl) (fun _ => rfl) fun _ => rfl
  good_update _ _ _ _ _ := trivial

theorem returns_loadAccessRights (di : DirInfo) :
    Returns (fun _ => True) (loadAccessRights cfg di : Srv Fs Cwd DirInfo) := returns_true _

omit [Posix Fs Cwd] in
/-- What holds of all entries keeps holding while only such entries are added. -/
theorem wp_acts {α : Type} {m : Srv Fs Cwd α} {P : Event → Prop} (h : Does (Acts P) m)
    {s : Server Fs Cwd} (hs : ∀ e ∈ s.trace, P e) :
    wp m (fun _ s' => ∀ e ∈ s'.trace, P e) (fun s' => ∀ e ∈ s'.trace, P e) s :=
  wp_of_final ((h s).1.forall_mem hs)

end Fsp
