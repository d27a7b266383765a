import Fsp.Server.Copies

/-!
# Saving directory listings

`server_get_dir` writes a listing that it has built to `.FSP_CONTENT`, and deletes the file again if
nothing could be written.  A file that has a part of the listing stays, and so does one whose last
bytes are lost when the stream is closed.
-/

namespace Fsp

open Bytes Effect

/-! ## The calls of a save -/

variable {d : BufferedDisk} {cwd : Path} {listP listing : ByteString}

/-- The file does not exist, or it has exactly the listing. -/
def WholeOrAbsent (d : BufferedDisk) (cwd : Path) (listP listing : ByteString) : Prop :=
  ∀ content, Posix.readFile d cwd listP = some content → content = listing

/-- How many bytes `fwrite` takes. -/
def bytesTaken (d : BufferedDisk) (listing : ByteString) : ℕ :=
  if (d.plan (d.calls + 1)).fails then min (d.plan (d.calls + 1)).moved listing.length
  else listing.length

/-- How many of these bytes are in the file when it is closed. -/
def bytesKept (d : BufferedDisk) (listing : ByteString) : ℕ :=
  if (d.plan (d.calls + 2)).fails then
    min (d.plan (d.calls + 2)).settled (bytesTaken d listing)
  else bytesTaken d listing

/-- The file cannot be opened for writing. -/
def CannotSave (d : BufferedDisk) (cwd : Path) (listP : ByteString) : Prop :=
  (d.plan d.calls).fails = true ∨ ¬ BufferedDisk.Writable d.disk (Disk.resolve cwd listP)

/-- A file that cannot be opened is deleted or has the listing already; one that is opened gets
nothing and is deleted, or gets all bytes. -/
def SaveHolds (d : BufferedDisk) (cwd : Path) (listP listing : ByteString) : Prop :=
  (CannotSave d cwd listP →
    (d.plan (d.calls + 1)).fails = false ∨ WholeOrAbsent d cwd listP listing) ∧
  (¬ CannotSave d cwd listP →
    4294967296 ∣ bytesTaken d listing ∧ (d.plan (d.calls + 3)).fails = false ∨
      bytesKept d listing = listing.length)

theorem bytesTaken_le (d : BufferedDisk) (listing : ByteString) :
    bytesTaken d listing ≤ listing.length := by
  unfold bytesTaken
  split
  · exact Nat.min_le_right _ _
  · exact le_rfl

theorem bytesKept_le (d : BufferedDisk) (listing : ByteString) :
    bytesKept d listing ≤ listing.length := by
  unfold bytesKept
  split
  · exact (Nat.min_le_right _ _).trans (bytesTaken_le d listing)
  · exact bytesTaken_le d listing

/-- `ok`, which holds what `fwrite` returned, is zero. -/
theorem ofNat_eq_zero_iff (n : ℕ) : UInt32.ofNat n = 0 ↔ 4294967296 ∣ n := by
  rw [← UInt32.toNat_inj, UInt32.toNat_ofNat']
  exact (Nat.dvd_iff_mod_eq_zero).symm

/-! ## Files that are deleted -/

/-- A call of `unlink` that does not fail leaves no file. -/
theorem readFile_unlink_self (hquiet : d.outcome.fails = false) (path content : ByteString) :
    Posix.readFile (d.unlink cwd path).2 cwd path ≠ some content := by
  rw [ne_eq, BufferedDisk.readFile_eq_some]
  intro hnode
  have hunlink : (d.unlink cwd path).2 = d.called (Posix.unlink d.disk cwd path).2 := by
    rw [BufferedDisk.unlink, hquiet]
    rfl
  rw [hunlink] at hnode
  by_cases hfile : (d.disk.node (Disk.resolve cwd path)).isSome && !d.disk.isDir (Disk.resolve cwd path)
  · have herase : (Posix.unlink d.disk cwd path).2 = d.disk.erase (Disk.resolve cwd path) :=
      congrArg Prod.snd (if_pos hfile)
    have hroot : Disk.resolve cwd path ≠ [] := by
      intro hnil
      rw [hnil] at hfile
      simp [Disk.isDir, Disk.node] at hfile
    have hnone := Disk.node_erase d.disk hroot (Disk.resolve cwd path)
    rw [if_pos rfl, ← herase] at hnone
    exact absurd (hnone.symm.trans hnode) (by simp)
  · have hsame : (Posix.unlink d.disk cwd path).2 = d.disk := congrArg Prod.snd (if_neg hfile)
    have hnode' : d.disk.node (Disk.resolve cwd path) = some (.file content) := hsame ▸ hnode
    refine hfile ?_
    rw [Disk.isDir, hnode']
    rfl

/-- A call of `unlink` that fails changes no file. -/
theorem readFile_unlink_of_fails (hfails : d.outcome.fails = true) (path : ByteString) :
    Posix.readFile (d.unlink cwd path).2 cwd path = Posix.readFile d cwd path := by
  refine BufferedDisk.readFile_congr ?_
  rw [BufferedDisk.unlink, hfails]
  rfl

theorem wholeOrAbsent_unlink : WholeOrAbsent (d.unlink cwd listP).2 cwd listP listing ↔
    d.outcome.fails = false ∨ WholeOrAbsent d cwd listP listing := by
  cases hfails : d.outcome.fails with
  | false =>
      exact iff_of_true (fun content h => absurd h (readFile_unlink_self hfails listP content))
        (Or.inl rfl)
  | true =>
      unfold WholeOrAbsent
      rw [readFile_unlink_of_fails hfails]
      simp

/-! ## A save -/

/-- A file that cannot be opened for writing is left as it was. -/
theorem fopen_of_cannotSave (h : CannotSave d cwd listP) :
    Posix.fopen d cwd listP .w = (none, d.called d.disk) := by
  have hcall : Posix.fopen d cwd listP .w = d.fopen (Disk.resolve cwd listP) .w := rfl
  rw [hcall]
  cases hfails : d.outcome.fails with
  | true => rw [BufferedDisk.fopen, if_pos hfails]
  | false =>
      have hquiet : ¬ (d.plan d.calls).fails = true := Bool.eq_false_iff.mp hfails
      rcases d.fopen_w (p := Disk.resolve cwd listP) hfails with ⟨hwritable, -⟩ | ⟨-, hopen⟩
      · exact absurd hwritable (h.resolve_left hquiet)
      · exact hopen

/-- A file that can be opened for writing has what `fwrite` and `fclose` put there. -/
theorem fclose_fwrite (listing : ByteString) (h : ¬ CannotSave d cwd listP) :
    ∃ f d₁, Posix.fopen d cwd listP .w = (some f, d₁) ∧
      (Posix.fwrite d₁ f listing).1 = bytesTaken d listing ∧
      Posix.readFile (Posix.fclose (Posix.fwrite d₁ f listing).2 f) cwd listP =
        some (listing.take (bytesKept d listing)) ∧
      (Posix.fclose (Posix.fwrite d₁ f listing).2 f).calls = d.calls + 3 ∧
      (Posix.fclose (Posix.fwrite d₁ f listing).2 f).plan = d.plan := by
  obtain ⟨hquiet, hwritable⟩ := not_or.mp h
  rw [not_not] at hwritable
  obtain ⟨f, d₁, hopen, hst, himage, hnode, hcalls, hplan⟩ :=
    BufferedDisk.fopen_w_spec (Bool.eq_false_iff.mpr hquiet) hwritable
  obtain ⟨hcount, hst₂, himage₂, hnode₂⟩ :=
    BufferedDisk.fwrite_first hst himage ⟨_, hnode⟩ listing
  obtain ⟨-, hcalls₂, hplan₂⟩ := d₁.fwrite_noted f listing
  obtain ⟨hfile, hcalls₃, hplan₃⟩ := BufferedDisk.node_fclose hst₂ himage₂ hnode₂
  have hwrite : d₁.outcome = d.plan (d.calls + 1) := by
    rw [BufferedDisk.outcome, hplan, hcalls]
  have hclose : (d₁.fwrite f listing).2.outcome = d.plan (d.calls + 2) := by
    rw [BufferedDisk.outcome, hplan₂, hplan, hcalls₂, hcalls]
  have htaken : d₁.taken listing = listing.take (bytesTaken d listing) := by
    rw [BufferedDisk.taken, bytesTaken, hwrite]
    split
    · exact List.take_eq_take_min
    · exact List.take_length.symm
  have hlen : (d₁.taken listing).length = bytesTaken d listing := by
    rw [htaken, List.length_take, Nat.min_eq_left (bytesTaken_le d listing)]
  refine ⟨f, d₁, hopen, hcount.trans hlen, ?_, ?_, ?_⟩
  · refine BufferedDisk.readFile_eq_some.mpr (hfile.trans ?_)
    rw [hclose, htaken, bytesKept]
    split
    · rw [List.take_take]
    · rfl
  · exact hcalls₃.trans (by rw [hcalls₂, hcalls])
  · exact hplan₃.trans (hplan₂.trans hplan)

/-- The state after the listing was written and its file closed. -/
def Server.afterSave (s : Server BufferedDisk Path) (listP : ByteString) (f : Handle)
    (listing : ByteString) : Server BufferedDisk Path :=
  { (s.fopened listP .w).written f listing with
    fs := Posix.fclose (Posix.fwrite (s.fopened listP .w).fs f listing).2 f
    trace := ((s.fopened listP .w).written f listing).trace ++ [.fclose f] }

/-- Trying to save a listing leaves the whole listing or no file if and only if `SaveHolds`. -/
theorem savePrebuilt_whole_iff (listP listing : ByteString) (s : Server BufferedDisk Path) :
    ∃ ok s', savePrebuilt listP listing s = .ok ok s' ∧ s'.cwd = s.cwd ∧
      (WholeOrAbsent s'.fs s.cwd listP listing ↔ SaveHolds s.fs s.cwd listP listing) := by
  by_cases hopen : CannotSave s.fs s.cwd listP
  · have hfopen := fopen_of_cannotSave hopen
    have hrun : savePrebuilt listP listing s =
        .ok false ((s.fopened listP .w).unlinked listP) :=
      (bind_of_ok (fopen_ok (congrArg Prod.fst hfopen))).trans (bind_of_ok (unlink_ok rfl))
    refine ⟨_, _, hrun, rfl, ?_⟩
    have hholds : SaveHolds s.fs s.cwd listP listing ↔
        (s.fs.plan (s.fs.calls + 1)).fails = false ∨ WholeOrAbsent s.fs s.cwd listP listing :=
      ⟨fun h => h.1 hopen, fun h => ⟨fun _ => h, fun hnot => absurd hopen hnot⟩⟩
    have hfs : ((s.fopened listP .w).unlinked listP).fs =
        ((s.fs.called s.fs.disk).unlink s.cwd listP).2 :=
      congrArg (fun d : BufferedDisk => (d.unlink s.cwd listP).2) (congrArg Prod.snd hfopen)
    rw [hholds, hfs, wholeOrAbsent_unlink]
    exact Iff.rfl
  · obtain ⟨f, d₁, hfopen, hcount, hread, hcalls, hplan⟩ := fclose_fwrite listing hopen
    have hopened : (s.fopened listP .w).fs = d₁ := congrArg Prod.snd hfopen
    rw [← hopened] at hcount hread hcalls hplan
    have hwhole : WholeOrAbsent (s.afterSave listP f listing).fs s.cwd listP listing ↔
        bytesKept s.fs listing = listing.length := by
      unfold WholeOrAbsent Server.afterSave
      rw [hread]
      constructor
      · intro h
        have hlen := congrArg List.length (h _ rfl)
        rw [List.length_take, Nat.min_eq_left (bytesKept_le s.fs listing)] at hlen
        exact hlen
      · intro h content hcontent
        rw [← Option.some.inj hcontent, h, List.take_length]
    have hholds : SaveHolds s.fs s.cwd listP listing ↔
        4294967296 ∣ bytesTaken s.fs listing ∧ (s.fs.plan (s.fs.calls + 3)).fails = false ∨
          bytesKept s.fs listing = listing.length :=
      ⟨fun h => h.2 hopen, fun h => ⟨fun hnot => absurd hnot hopen, fun _ => h⟩⟩
    have hfopened := fopen_ok (congrArg Prod.fst hfopen)
    have hwrite : fwrite f listing (s.fopened listP .w) =
        .ok (Posix.fwrite (s.fopened listP .w).fs f listing).1
          ((s.fopened listP .w).written f listing) := rfl
    have hclose : fclose f ((s.fopened listP .w).written f listing) =
        .ok () (s.afterSave listP f listing) := rfl
    rw [hholds]
    by_cases hzero : UInt32.ofNat (Posix.fwrite (s.fopened listP .w).fs f listing).1 = 0
    · have hrun : savePrebuilt listP listing s =
          .ok false ((s.afterSave listP f listing).unlinked listP) :=
        (bind_of_ok hfopened).trans ((bind_of_ok hwrite).trans ((bind_of_ok hclose).trans
          ((congrFun (if_pos hzero) _).trans (bind_of_ok (unlink_ok rfl)))))
      have houtcome : (s.afterSave listP f listing).fs.outcome = s.fs.plan (s.fs.calls + 3) := by
        unfold Server.afterSave
        rw [BufferedDisk.outcome, hplan, hcalls]
      have hdvd : 4294967296 ∣ bytesTaken s.fs listing := by
        rw [← hcount]
        exact (ofNat_eq_zero_iff _).mp hzero
      refine ⟨_, _, hrun, rfl, ?_⟩
      refine (wholeOrAbsent_unlink (d := (s.afterSave listP f listing).fs)).trans ?_
      rw [houtcome]
      exact or_congr ⟨fun h => ⟨hdvd, h⟩, fun h => h.2⟩ hwhole
    · have hrun : savePrebuilt listP listing s = .ok true (s.afterSave listP f listing) :=
        (bind_of_ok hfopened).trans ((bind_of_ok hwrite).trans ((bind_of_ok hclose).trans
          (congrFun (if_neg hzero) _)))
      refine ⟨_, _, hrun, rfl, hwhole.trans (or_iff_right fun h => hzero ?_).symm⟩
      rw [hcount]
      exact (ofNat_eq_zero_iff _).mpr h.1

/-! ## A request -/

variable {cfg : Config} {di : ℕ} {s : Server BufferedDisk Path}

/-- The file a listing is saved in. -/
def listingPath (d : DirInfo) : ByteString := d.realname ++ [slash] ++ fspDirlisting

/-- A listing file that `server_get_dir` uses: it is not older than the directory and can be read. -/
def Loadable (fs : BufferedDisk) (cwd : Path) (d : DirInfo) : Prop :=
  ∃ sf content, Posix.stat fs cwd (listingPath d) = some sf ∧ d.mtime ≤ sf.mtime ∧
    Posix.readFile fs cwd (listingPath d) = some content ∧ sf.size ≤ content.length

/-- `server_get_dir` builds this listing: there is none in memory that is new enough, and none in a
file. -/
structure FreshlyBuilt (cfg : Config) (di : ℕ) (s : Server BufferedDisk Path)
    (listing : ByteString) : Prop where
  prebuild : cfg.usePrebuildDirlists = true
  expired : ∀ dl, s.dirListCache.fCacheFind (s.dirStatCache.entry di).realname = some dl →
    (s.dirListCache.entry dl).mtime < (s.dirStatCache.entry di).mtime
  not_loaded : ¬ Loadable s.fs s.cwd (s.dirStatCache.entry di)
  built : ∃ dirents, Posix.readdir s.fs s.cwd (s.dirStatCache.entry di).realname = some dirents ∧
    buildDirListing cfg (dirents.map fun dp =>
      (dp, Posix.stat s.fs s.cwd ((s.dirStatCache.entry di).realname ++ [slash] ++ dp.name))) =
        some listing

theorem loadPrebuilt_of_not_loadable {d : DirInfo} (h : ¬ Loadable s.fs s.cwd d) :
    loadPrebuilt (listingPath d) d s = .ok none (s.statted (listingPath d)) := by
  cases hstat : Posix.stat s.fs s.cwd (listingPath d) with
  | none =>
      have hcall : stat (listingPath d) s = .ok none (s.statted (listingPath d)) := by
        rw [← hstat]
        rfl
      exact bind_of_ok hcall
  | some sf =>
      have hcall : stat (listingPath d) s = .ok (some sf) (s.statted (listingPath d)) := by
        rw [← hstat]
        rfl
      refine (bind_of_ok hcall).trans ?_
      by_cases hold : sf.mtime < d.mtime
      · exact congrFun (if_pos hold) _
      · refine (congrFun (if_neg hold) _).trans ?_
        cases hread : Posix.readFile s.fs s.cwd (listingPath d) with
        | none =>
            have hcall' : readFile (listingPath d) (s.statted (listingPath d)) =
                .ok none (s.statted (listingPath d)) := by
              rw [← hread]
              rfl
            exact bind_of_ok hcall'
        | some content =>
            have hcall' : readFile (listingPath d) (s.statted (listingPath d)) =
                .ok (some content) (s.statted (listingPath d)) := by
              rw [← hread]
              rfl
            have hshort : ¬ (content.take sf.size).length = sf.size := by
              intro hlen
              rw [List.length_take] at hlen
              exact h ⟨sf, content, hstat, Int.not_lt.mp hold, hread, by omega⟩
            exact (bind_of_ok hcall').trans (congrFun (if_neg hshort) _)

/-- Storing a listing leaves the whole listing in its file, or no file, if and only if `SaveHolds`. -/
theorem storeListing_whole_iff (listP : ByteString) (d : DirInfo) (new : DirListing)
    (s : Server BufferedDisk Path) :
    ∃ dl s', storeListing (some listP) d new s = .ok dl s' ∧
      (WholeOrAbsent s'.fs s.cwd listP new.listing ↔ SaveHolds s.fs s.cwd listP new.listing) := by
  have hput : putDirListing d.realname new s = .ok (s.dirListCache.fCachePut d.realname new).1
      { s with dirListCache := (s.dirListCache.fCachePut d.realname new).2.2 } := rfl
  obtain ⟨ok, s', hsave, -, hiff⟩ := savePrebuilt_whole_iff listP new.listing
    { s with dirListCache := (s.dirListCache.fCachePut d.realname new).2.2 }
  have hrun : storeListing (some listP) d new s = (if ok = true then (do
      setDirListing (s.dirListCache.fCachePut d.realname new).1 fun new =>
        { new with mtime := s.curTime }
      pure (s.dirListCache.fCachePut d.realname new).1)
    else pure (s.dirListCache.fCachePut d.realname new).1 : Srv BufferedDisk Path ℕ) s' :=
    (bind_of_ok hput).trans ((bind_of_ok rfl).trans (bind_of_ok hsave))
  rw [hrun]
  cases ok with
  | true => exact ⟨_, _, rfl, hiff⟩
  | false => exact ⟨_, _, rfl, hiff⟩

/-- `server_get_dir`, when it builds a listing. -/
theorem makeListing_saves_iff {d : DirInfo} {listing : ByteString} {dirents : List Dirent}
    (hprebuild : cfg.usePrebuildDirlists = true) (hload : ¬ Loadable s.fs s.cwd d)
    (hscan : Posix.readdir s.fs s.cwd d.realname = some dirents)
    (hbuild : buildDirListing cfg (dirents.map fun dp =>
      (dp, Posix.stat s.fs s.cwd (d.realname ++ [slash] ++ dp.name))) = some listing) :
    ∃ dl s', makeListing cfg d s = .ok (.ok dl) s' ∧
      (WholeOrAbsent s'.fs s.cwd (listingPath d) listing ↔
        SaveHolds s.fs s.cwd (listingPath d) listing) := by
  obtain ⟨dl, s', hstore, hiff⟩ := storeListing_whole_iff (listingPath d) d ⟨listing, s.curTime⟩
    (s.statted (listingPath d))
  have hload' : (if cfg.usePrebuildDirlists then loadPrebuilt (listingPath d) d else pure none :
      Srv BufferedDisk Path (Option DirListing)) s = .ok none (s.statted (listingPath d)) := by
    rw [if_pos hprebuild]
    exact loadPrebuilt_of_not_loadable hload
  have hscan' : (scanDir d.realname : Srv BufferedDisk Path _) (s.statted (listingPath d)) =
      .ok (some (dirents.map fun dp =>
        (dp, Posix.stat s.fs s.cwd (d.realname ++ [slash] ++ dp.name))))
        (s.statted (listingPath d)) := by
    show EStateM.Result.ok ((Posix.readdir s.fs s.cwd d.realname).map _) _ = _
    rw [hscan]
    rfl
  have hpath : (if cfg.usePrebuildDirlists then some (d.realname ++ [slash] ++ fspDirlisting)
      else none) = some (listingPath d) := if_pos hprebuild
  have hrun : makeListing cfg d s = (do
      let dl ← storeListing (if cfg.usePrebuildDirlists then
        some (d.realname ++ [slash] ++ fspDirlisting) else none) d ⟨listing, s.curTime⟩
      pure (.ok dl) : Srv BufferedDisk Path (Except ByteString ℕ)) (s.statted (listingPath d)) := by
    refine (bind_of_ok hload').trans ((bind_of_ok hscan').trans ?_)
    simp only [hbuild]
    rfl
  rw [hrun, hpath]
  exact ⟨dl, s', bind_of_ok hstore, hiff⟩

/-- After `server_get_dir` has tried to save a listing that it has built, the file of the listing does not
exist or has exactly the listing, if and only if `SaveHolds`. -/
theorem serverGetDir_saves_iff (cfg : Config) (di : ℕ) (s : Server BufferedDisk Path)
    (listing : ByteString) (h : FreshlyBuilt cfg di s listing) :
    ∃ dl s', serverGetDir cfg di s = .ok (.ok dl) s' ∧
      (WholeOrAbsent s'.fs s.cwd (listingPath (s.dirStatCache.entry di)) listing ↔
        SaveHolds s.fs s.cwd (listingPath (s.dirStatCache.entry di)) listing) := by
  obtain ⟨dirents, hscan, hbuild⟩ := h.built
  have hinfo : dirInfo di s = .ok (s.dirStatCache.entry di) s := rfl
  cases hfind : s.dirListCache.fCacheFind (s.dirStatCache.entry di).realname with
  | none =>
      obtain ⟨dl, s', hmake, hiff⟩ := makeListing_saves_iff h.prebuild h.not_loaded hscan hbuild
      refine ⟨dl, s', ?_, hiff⟩
      refine (bind_of_ok hinfo).trans ((bind_of_ok rfl).trans ?_)
      simp only [hfind]
      exact hmake
  | some old =>
      obtain ⟨dl, s', hmake, hiff⟩ := makeListing_saves_iff
        (s := { s with dirListCache := (s.dirListCache.fCacheDeleteEntry old).2 })
        h.prebuild h.not_loaded hscan hbuild
      refine ⟨dl, s', ?_, hiff⟩
      refine (bind_of_ok hinfo).trans ((bind_of_ok rfl).trans ?_)
      simp only [hfind, h.expired old hfind, if_true]
      exact (bind_of_ok rfl).trans hmake

/-! ## A write that fails -/

def prebuildConfig : Config := { Scenario.config with usePrebuildDirlists := true }

/-- A server on a disk with one file, where the second call writes one byte and fails. -/
def savingStart : Server BufferedDisk Path :=
  let s := initServer prebuildConfig
    { disk := Scenario.disk [("h/a", .file (text "xy"))]
      image := fun _ => none
      failed := fun _ => false
      calls := 0
      plan := fun i => ⟨i == 1, 1, 1⟩ } [text "h"] 0
  { s with
    dirStatCache := s.dirStatCache.setEntry 0 ⟨text "/h", [], 0, none, none, none, 0, 0⟩ }

/-- Two entries: the file, of two bytes, and the end of the listing. -/
def savedListing : ByteString := [0, 0, 0, 0, 0, 0, 0, 2, 1, 0x61, 0, 0, 0, 0, 0, 0, 0, 0, 0, 0, 0]

theorem freshlyBuilt_savingStart : FreshlyBuilt prebuildConfig 0 savingStart savedListing := by
  have hfind : savingStart.dirListCache.fCacheFind (savingStart.dirStatCache.entry 0).realname =
      none := by decide +kernel
  have hstat : Posix.stat savingStart.fs savingStart.cwd
      (listingPath (savingStart.dirStatCache.entry 0)) = none := by decide +kernel
  refine ⟨rfl, ?_, ?_, [⟨1, text "a"⟩], by decide +kernel, by decide +kernel⟩
  · intro dl h
    rw [hfind] at h
    cases h
  · intro ⟨sf, content, h, _⟩
    rw [hstat] at h
    cases h

theorem serverGetDir_saves_iff_failing :
    ∃ dl s', serverGetDir prebuildConfig 0 savingStart = .ok (.ok dl) s' ∧
      (WholeOrAbsent s'.fs savingStart.cwd (listingPath (savingStart.dirStatCache.entry 0))
          savedListing ↔
        SaveHolds savingStart.fs savingStart.cwd (listingPath (savingStart.dirStatCache.entry 0))
          savedListing) :=
  serverGetDir_saves_iff prebuildConfig 0 savingStart savedListing freshlyBuilt_savingStart

/-- The byte that was written stays in the file. -/
theorem listing_truncated :
    FreshlyBuilt prebuildConfig 0 savingStart savedListing ∧
      Posix.readFile (final (serverGetDir prebuildConfig 0 savingStart)).fs savingStart.cwd
        (listingPath (savingStart.dirStatCache.entry 0)) = some [0] ∧ savedListing ≠ [0] :=
  ⟨freshlyBuilt_savingStart, by decide +kernel, by decide⟩

end Fsp
