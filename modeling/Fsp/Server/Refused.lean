import Fsp.Server.Cached
import Fsp.Server.Lookup
import Fsp.Server.Stored

/-!
# Directories that are not removed

`server_del_dir` removes the access files of a directory before it tries to remove the directory, and
writes them again from the cached directory information if it could not.  What the access files said
before is what they say again exactly if the cached copy is an image of them: if access files are
not used at all they had better say nothing.
-/

namespace Fsp

open Bytes Effect

variable {Fs Cwd : Type} {cfg : Config}

/-! ## What can be written back -/

/-- A directory information whose passwords and owners are as they are read from files. -/
structure Clean (d : DirInfo) : Prop where
  publicPassword : ∀ p ∈ d.publicPassword, Word p
  ownerPassword : ∀ p ∈ d.ownerPassword, Word p
  owner : ∀ r ∈ d.owner, HostText r.text ∧ OneLine r

/-- The owner of a new directory. -/
theorem creator_clean {gethostbyname : ByteString → Option UInt32} {inetNum : UInt32}
    {r : IPrange}
    (h : parseIpline gethostbyname (creatorLine cfg.bigEndian inetNum) = some r) :
    HostText r.text ∧ OneLine r := by
  have hbyte : ∀ n < 256, ∀ c ∈ decimal n, isSpace c = false ∧ c ≠ 0 := by
    intro n hn c hc
    have hdigit := List.all_eq_true.mp (decimal_spec n hn).1 c hc
    refine ⟨isSpace_of_isDigit hdigit, ?_⟩
    rintro rfl
    exact absurd hdigit (by decide)
  have hdot : ∀ c ∈ text ".", isSpace c = false ∧ c ≠ 0 := by decide +kernel
  have hquad : ∀ c ∈ dottedQuad cfg.bigEndian inetNum, isSpace c = false ∧ c ≠ 0 := by
    have hoctet : ∀ j, (if cfg.bigEndian then 0 else (octet inetNum j).toNat) < 256 := by
      intro j
      split
      · decide
      · exact (octet inetNum j).toNat_lt
    intro c hc
    simp only [dottedQuad, List.mem_append] at hc
    rcases hc with (((((hc | hc) | hc) | hc) | hc) | hc) | hc
    · exact hbyte _ (hoctet 0) c hc
    · exact hdot c hc
    · exact hbyte _ (hoctet 1) c hc
    · exact hdot c hc
    · exact hbyte _ (hoctet 2) c hc
    · exact hdot c hc
    · exact hbyte _ (hoctet 3) c hc
  have hline : creatorLine cfg.bigEndian inetNum =
      dottedQuad cfg.bigEndian inetNum ++ 0x20 :: 0x4F :: text " Creator\n" := rfl
  have hzero : (0 : UInt8) ∉ creatorLine cfg.bigEndian inetNum := by
    rw [hline]
    intro h0
    rcases List.mem_append.mp h0 with h0 | h0
    · exact (hquad 0 h0).2 rfl
    · exact absurd h0 (by decide)
  refine ⟨(hostText_parseIpline h hzero).1, ?_⟩
  rw [hline] at h
  rcases text_parseIpline (fun c hc => (hquad c hc).1) rfl rfl h with hnil | htext
  · have hdigits := (decimal_spec (if cfg.bigEndian then 0 else (octet inetNum 0).toNat)
      (by split; decide; exact (octet inetNum 0).toNat_lt)).2.1
    exact absurd hnil (by simp [dottedQuad, hdigits])
  · unfold OneLine
    rw [htext]
    decide +kernel

theorem clean_of_empty {d : DirInfo} (hpublic : d.publicPassword = none)
    (hpassword : d.ownerPassword = none) (howner : d.owner = []) : Clean d := by
  constructor
  · simp [hpublic]
  · simp [hpassword]
  · simp [howner]

section

variable [Posix Fs Cwd]

theorem returns_loadPasswordFile (file : ByteString) :
    Returns (fun password : Option ByteString => ∀ p ∈ password, Word p)
      (loadPasswordFile file : Srv Fs Cwd (Option ByteString)) := by
  have hnone : Returns (fun password : Option ByteString => ∀ p ∈ password, Word p)
      (pure none : Srv Fs Cwd (Option ByteString)) := returns_pure (by simp)
  apply returns_bind (returns_true _)
  intro sb _
  cases sb with
  | none => exact hnone
  | some sf =>
      apply returns_ite
      · intro _
        apply returns_bind (returns_true _)
        intro content _
        apply returns_pure
        intro p hp
        obtain ⟨content, -, hscan⟩ := Option.bind_eq_some_iff.mp hp
        exact word_scanPassword hscan
      · exact fun _ => hnone

theorem returns_loadOwner :
    Returns (fun owner : List IPrange × Option ByteString =>
        (∀ r ∈ owner.1, HostText r.text ∧ OneLine r) ∧ ∀ p ∈ owner.2, Word p)
      (loadOwner : Srv Fs Cwd (List IPrange × Option ByteString)) := by
  apply returns_bind (returns_true _)
  intro content _
  cases content with
  | none => exact returns_pure ⟨by simp, by simp⟩
  | some content =>
      apply returns_bind (returns_true _)
      intro gethostbyname _
      cases hlines : addIplines gethostbyname (ownerLines content.length content) [] with
      | none => exact returns_throw _
      | some owner =>
          apply returns_bind (returns_loadPasswordFile fspOwnerpassword)
          intro password hpassword
          have hloaded : loadedOwner gethostbyname (some content) = some owner := hlines
          exact returns_pure ⟨(loadedOwner_spec hloaded).2, hpassword⟩

theorem clean_loadAccessRights (d : DirInfo) :
    Returns Clean (loadAccessRights cfg d : Srv Fs Cwd DirInfo) := by
  unfold loadAccessRights
  apply returns_bind (returns_true _)
  intro readme _
  apply returns_ite
  · intro _
    apply returns_bind (returns_true _)
    intro protection _
    apply returns_bind (returns_loadPasswordFile fspPassword)
    intro publicPassword hpublic
    apply returns_bind returns_loadOwner
    intro owner howner
    exact returns_pure ⟨hpublic, howner.2, howner.1⟩
  · exact fun _ => returns_pure (clean_of_empty rfl rfl rfl)

omit [Posix Fs Cwd] in
theorem parseIpline_of_mem_addIpline {gethostbyname : ByteString → Option UInt32}
    {line : ByteString} {r : IPrange} (h : r ∈ (addIpline gethostbyname line []).getD []) :
    parseIpline gethostbyname line = some r := by
  unfold addIpline at h
  cases hparse : parseIpline gethostbyname line with
  | none =>
      rw [hparse] at h
      cases h
  | some nl =>
      rw [hparse] at h
      obtain rfl := List.mem_singleton.mp h
      rfl

omit [Posix Fs Cwd] in
theorem clean_creatorInfo {d : DirInfo} (hd : Clean d)
    {gethostbyname : ByteString → Option UInt32} {line : ByteString}
    (hline : ∀ r, parseIpline gethostbyname line = some r → HostText r.text ∧ OneLine r)
    (t : ℤ) (realname : ByteString) :
    Clean { creatorInfo gethostbyname line d t with realname } :=
  ⟨hd.publicPassword, hd.ownerPassword, fun r hr => hline r (parseIpline_of_mem_addIpline hr)⟩

/-- All that the server keeps about directories can be written back. -/
theorem lasting_clean : Lasting Fs cfg Clean where
  empty := clean_of_empty rfl rfl rfl
  update _ _ _ _ hd := ⟨hd.publicPassword, hd.ownerPassword, hd.owner⟩
  load := clean_loadAccessRights
  create _ _ _ t realname hd := clean_creatorInfo hd (fun _ h => creator_clean h) t realname

end

/-! ## Images -/

/-- The access files say the same: flags, passwords, and owner entries. -/
structure SameStored (gethostbyname : ByteString → Option UInt32) (C C' : Contents) : Prop where
  flags : ∀ f ∈ flagTable, (C' f.2.1).isSome = (C f.2.1).isSome
  publicPassword : (C' fspPassword).bind scanPassword = (C fspPassword).bind scanPassword
  ownerPassword :
    (C' fspOwnerpassword).bind scanPassword = (C fspOwnerpassword).bind scanPassword
  owner : storedOwners gethostbyname (C' fspOwner) = storedOwners gethostbyname (C fspOwner)

/-- The directory information `d` is an image of the access files.  An empty password is none. -/
structure Image (gethostbyname : ByteString → Option UInt32) (C : Contents) (d : DirInfo) :
    Prop where
  flags : SameFlags d.protection C
  publicPassword : d.publicPassword.filter (· ≠ []) = (C fspPassword).bind scanPassword
  ownerPassword : d.ownerPassword.filter (· ≠ []) = (C fspOwnerpassword).bind scanPassword
  owner : d.owner = storedOwners gethostbyname (C fspOwner)

/-- The access files say nothing. -/
structure Blank (gethostbyname : ByteString → Option UInt32) (C : Contents) : Prop where
  flags : ∀ f ∈ flagTable, C f.2.1 = none
  publicPassword : (C fspPassword).bind scanPassword = none
  ownerPassword : (C fspOwnerpassword).bind scanPassword = none
  owner : storedOwners gethostbyname (C fspOwner) = []

/-- What is found in a password file that was written from the cache. -/
theorem scanPassword_saved {password : Option ByteString} (h : ∀ p ∈ password, Word p) :
    (password.map fun password => password ++ text "\n").bind scanPassword =
      password.filter (· ≠ []) := by
  cases password with
  | none => rfl
  | some p =>
      by_cases hnil : p = []
      · subst hnil
        rfl
      · show scanPassword (p ++ text "\n") = _
        rw [scanPassword_append ⟨h p rfl, hnil⟩]
        exact (if_pos (decide_eq_true hnil)).symm

/-- The files written from the cached copy say what the old ones said exactly if the copy is an
image of these, or if there are none and nothing was said. -/
theorem sameStored_savedContents_iff (gethostbyname : ByteString → Option UInt32) {C : Contents}
    {d : DirInfo} (hd : Clean d) : SameStored gethostbyname C (savedContents cfg d) ↔
      if cfg.useAccessFiles then Image gethostbyname C d else Blank gethostbyname C := by
  by_cases huse : cfg.useAccessFiles = true
  · have hflags : (∀ f ∈ flagTable, (savedContents cfg d f.2.1).isSome = (C f.2.1).isSome) ↔
        SameFlags d.protection C := by
      constructor
      · intro h f hf
        rw [← h f hf]
        exact savedContents_flag huse f hf
      · intro h f hf
        have heq := (savedContents_flag huse f hf).symm.trans (h f hf)
        cases hsaved : (savedContents cfg d f.2.1).isSome <;>
          cases hold : (C f.2.1).isSome <;> rw [hsaved, hold] at heq <;>
            cases hgrants : f.2.2 <;> simp_all
    have howner : storedOwners gethostbyname (savedContents cfg d fspOwner) = d.owner := by
      rw [savedContents_owner huse]
      by_cases hnil : d.owner = []
      · rw [if_pos hnil, hnil]
        rfl
      · rw [if_neg hnil, storedOwners_dumpIptab gethostbyname hd.owner]
    rw [if_pos huse]
    constructor
    · intro h
      refine ⟨hflags.mp h.flags, ?_, ?_, ?_⟩
      · rw [← h.publicPassword, savedContents_password huse, scanPassword_saved hd.publicPassword]
      · rw [← h.ownerPassword, savedContents_ownerpassword huse,
          scanPassword_saved hd.ownerPassword]
      · rw [← h.owner, howner]
    · intro h
      refine ⟨hflags.mpr h.flags, ?_, ?_, ?_⟩
      · rw [← h.publicPassword, savedContents_password huse, scanPassword_saved hd.publicPassword]
      · rw [← h.ownerPassword, savedContents_ownerpassword huse,
          scanPassword_saved hd.ownerPassword]
      · rw [← h.owner, howner]
  · have hnone : savedContents cfg d = emptyFiles [] := if_neg huse
    rw [if_neg huse, hnone]
    constructor
    · intro h
      refine ⟨fun f hf => ?_, h.publicPassword.symm, h.ownerPassword.symm, h.owner.symm⟩
      have hf := h.flags f hf
      cases hC : C f.2.1 with
      | none => rfl
      | some content =>
          rw [hC] at hf
          cases hf
    · intro h
      refine ⟨fun f hf => ?_, h.publicPassword.symm, h.ownerPassword.symm, h.owner.symm⟩
      rw [h.flags f hf]
      rfl

/-! ## Runs of `server_del_dir` -/

/-- What the answer is when the directory could not be removed. -/
def cannotUnlink : ByteString := text "rmdir: cannot unlink"

section

variable [Posix Fs Cwd]

/-- As long as the system is in a state with `Good`, `path` leads from `home` to `dir` and `homeDir`
back, the access files are kept in `dir`, and removing `dir` in vain changes nothing there. -/
structure Enters (cfg : Config) (Good : Fs → Prop) (path : ByteString) (home dir : Cwd) : Prop
    extends Keeps Good dir where
  enter : ∀ fs, Good fs → Posix.chdir fs home path = some dir
  leave : ∀ fs, Good fs → Posix.chdir fs dir cfg.homeDir = some home
  refused : ∀ fs, Good fs → (Posix.rmdir fs home path).1 = false →
    Good (Posix.rmdir fs home path).2 ∧ ∀ n ∈ accessFiles,
      Posix.readFile (Posix.rmdir fs home path).2 dir n = Posix.readFile fs dir n

/-- The server is at home, the access files in `dir` contain `C`, and `d` is the cached copy. -/
def Away (Good : Fs → Prop) (home dir : Cwd) (C : Contents) (di : ℕ) (d : DirInfo)
    (s : Server Fs Cwd) : Prop :=
  (s.cwd = home ∧ Stores Good dir C s.fs) ∧ s.dirStatCache.entry di = d

/-- The same, in the directory. -/
def Within (Good : Fs → Prop) (dir : Cwd) (C : Contents) (di : ℕ) (d : DirInfo)
    (s : Server Fs Cwd) : Prop :=
  Holding Good dir C s ∧ s.dirStatCache.entry di = d

variable {Good : Fs → Prop} {path : ByteString} {home dir : Cwd} {C : Contents} {di : ℕ}
  {d : DirInfo} (henters : Enters cfg Good path home dir)
include henters

theorem triple_enter :
    Triple (Away Good home dir C di d) (chdir path : Srv Fs Cwd Bool)
      (fun _ => Within Good dir C di d) fun _ => False := by
  constructor
  rintro s ⟨⟨hcwd, hstores⟩, hd⟩
  have hchdir : Posix.chdir s.fs s.cwd path = some dir := by
    rw [hcwd]
    exact henters.enter s.fs hstores.good
  unfold wp chdir
  rw [hchdir]
  exact ⟨⟨rfl, hstores⟩, hd⟩

theorem triple_leave :
    Triple (Within Good dir C di d) (chdir cfg.homeDir : Srv Fs Cwd Bool)
      (fun _ => Away Good home dir C di d) fun _ => False := by
  constructor
  rintro s ⟨⟨hcwd, hstores⟩, hd⟩
  have hchdir : Posix.chdir s.fs s.cwd cfg.homeDir = some home := by
    rw [hcwd]
    exact henters.leave s.fs hstores.good
  unfold wp chdir
  rw [hchdir]
  exact ⟨⟨rfl, hstores⟩, hd⟩

theorem triple_rmdir :
    Triple (Away Good home dir C di d) (rmdir path : Srv Fs Cwd Bool)
      (fun ok s => ok = false → Away Good home dir C di d s) fun _ => False := by
  constructor
  rintro s ⟨⟨hcwd, hstores⟩, hd⟩ hok
  have hrefused : (Posix.rmdir s.fs home path).1 = false := by
    rw [← hcwd]
    exact hok
  obtain ⟨hgood, hread⟩ := henters.refused s.fs hstores.good hrefused
  rw [← hcwd] at hgood hread
  exact ⟨⟨hcwd, hgood, fun n hn => (hread n hn).trans (hstores.read n hn)⟩, hd⟩

omit henters in
/-- Access files are saved without a look at the cache. -/
theorem sameCache_saveAccessRights (d' : DirInfo) :
    Does (Same fun s : Server Fs Cwd => s.dirStatCache)
      (saveAccessRights cfg d' : Srv Fs Cwd Unit) := by
  have hunlink : ∀ file, Does (Same fun s : Server Fs Cwd => s.dirStatCache)
      (unlink file : Srv Fs Cwd Bool) := fun _ _ => rfl
  have htouch : ∀ file, Does (Same fun s : Server Fs Cwd => s.dirStatCache)
      (touch file : Srv Fs Cwd Unit) := fun _ _ => rfl
  have hwrite : ∀ file data, Does (Same fun s : Server Fs Cwd => s.dirStatCache)
      (writeFile file data : Srv Fs Cwd Unit) := fun _ _ _ => rfl
  have hpassword : ∀ file (password : Option ByteString),
      Does (Same fun s : Server Fs Cwd => s.dirStatCache)
        (savePasswordIf file password : Srv Fs Cwd Unit) := by
    intro file password
    cases password with
    | none => exact does_pure _
    | some password => exact hwrite _ _
  refine does_bind (does_forM fun file _ => does_bind (hunlink file) fun _ => does_pure _)
    fun _ => ?_
  refine does_ite (fun _ => ?_) fun _ => does_pure _
  refine does_bind (does_forM fun file _ => htouch file) fun _ => ?_
  refine does_bind (hpassword _ _) fun _ => does_bind (hpassword _ _) fun _ => ?_
  exact does_ite (fun _ => hwrite _ _) fun _ => does_pure _

theorem within_saveAccessRights (d' : DirInfo) :
    Triple (Within Good dir C di d) (saveAccessRights cfg d' : Srv Fs Cwd Unit)
      (fun _ => Within Good dir (savedContents cfg d') di d) fun _ => False := by
  have hentry : ∀ s s' : Server Fs Cwd, Same (fun s => s.dirStatCache) s s' →
      Kept (fun s => s.dirStatCache.entry di = d) s s' := by
    intro s s' hsame hd
    rw [show s'.dirStatCache = s.dirStatCache from hsame]
    exact hd
  have hcache : Preserves (fun s : Server Fs Cwd => s.dirStatCache.entry di = d)
      (saveAccessRights cfg d' : Srv Fs Cwd Unit) := (sameCache_saveAccessRights d').mono hentry
  exact triple_mono (triple_and (holding_saveAccessRights henters.toKeeps d') hcache.triple)
    (fun _ hs => hs) (fun _ _ h => h) fun _ h => h.1

/-- When the directory is not removed, its access files are what `save_access_rights` makes of the
cached copy. -/
theorem triple_serverDelDir_refused (pp : PPath) (hpath : pp.fullp = path) :
    Triple (Away Good home dir C di d) (serverDelDir cfg pp di : Srv Fs Cwd (Option ByteString))
      (fun res s => res = some cannotUnlink →
        Away Good home dir (savedContents cfg d) di d s) fun _ => False := by
  have hother : ∀ {msg : Option ByteString} {P : Server Fs Cwd → Prop}, msg ≠ some cannotUnlink →
      Triple P (pure msg : Srv Fs Cwd (Option ByteString))
        (fun res s => res = some cannotUnlink → Away Good home dir (savedContents cfg d) di d s)
        fun _ => False := fun hmsg => triple_pure fun _ _ h => absurd h hmsg
  subst hpath
  have hstat : Triple (Away Good home dir C di d) (stat pp.fullp : Srv Fs Cwd (Option Stat))
      (fun _ => Away Good home dir C di d) fun _ => False := ⟨fun _ hs => hs⟩
  apply triple_seq hstat
  intro sb
  cases sb with
  | none => exact hother (by decide)
  | some sb =>
      apply triple_ite
      · exact fun _ => hother (by decide)
      · intro _
        apply triple_seq (triple_enter henters)
        intro _
        apply triple_seq (within_saveAccessRights henters _)
        intro _
        apply triple_seq (triple_leave henters)
        intro _
        apply triple_seq (triple_rmdir henters)
        intro ok
        apply triple_ite
        · intro _
          have hset : ∀ {P : Server Fs Cwd → Prop} (f : DirInfo → DirInfo),
              Triple P (setDirInfo di f : Srv Fs Cwd Unit) (fun _ _ => True) fun _ => False :=
            fun f => ⟨fun _ _ => trivial⟩
          apply triple_seq (hset _)
          exact fun _ => hother (by decide)
        · intro hok
          have haway : ∀ {C' : Contents} {s : Server Fs Cwd},
              (ok = false → Away Good home dir C' di d s) → Away Good home dir C' di d s :=
            fun h => h (by simpa using hok)
          apply triple_seq (triple_mono (triple_enter henters) (fun _ hs => haway hs)
            (fun _ _ h => h) fun _ h => h)
          intro _
          have hdir : ∀ {C' : Contents}, Triple (Within Good dir C' di d)
              (dirInfo di : Srv Fs Cwd DirInfo)
              (fun d' s => Within Good dir C' di d s ∧ d' = d) fun _ => False :=
            ⟨fun s hs => ⟨hs, hs.2⟩⟩
          apply triple_seq hdir
          intro d'
          apply triple_fact
          rintro rfl
          apply triple_seq (within_saveAccessRights henters d')
          intro _
          apply triple_seq (triple_leave henters)
          exact fun _ => triple_pure fun _ hs _ => hs

omit henters in
theorem SameStored.congr {gethostbyname : ByteString → Option UInt32} {C C' C'' : Contents}
    (h : SameStored gethostbyname C C') (heq : ∀ n ∈ accessFiles, C' n = C'' n) :
    SameStored gethostbyname C C'' := by
  have hflag : ∀ f ∈ flagTable, f.2.1 ∈ accessFiles := by decide
  refine ⟨fun f hf => ?_, ?_, ?_, ?_⟩
  · rw [← heq _ (hflag f hf)]
    exact h.flags f hf
  · rw [← heq _ (by decide)]
    exact h.publicPassword
  · rw [← heq _ (by decide)]
    exact h.ownerPassword
  · rw [← heq _ (by decide)]
    exact h.owner

omit henters in
/-- A request to remove a directory that `CHECK_ACCESS_RIGHTS` lets through to `server_del_dir`, and
that is refused there. -/
structure RefusedRun (cfg : Config) (r : Request) (fullp : ByteString) (wantDirectory : Bool)
    (s : Server Fs Cwd) where
  pp : PPath
  di : ℕ
  validated : Server Fs Cwd
  acc : ByteString
  allowed : Server Fs Cwd
  after : Server Fs Cwd
  validate : validatePath cfg fullp wantDirectory s = .ok (.ok (pp, di)) validated
  access : requireAccess cfg r di dirDel pp.passwd validated = .ok acc allowed
  granted : ¬ (acc.head? = some 0x49 ∨ acc.head? = some 0x44)
  delete : serverDelDir cfg pp di allowed = .ok (some cannotUnlink) after

omit henters in
/-- The client gets the error text, and the server goes on from there. -/
theorem RefusedRun.serve_eq {r : Request} {s : Server Fs Cwd} (run : RefusedRun cfg r r.s1 true s)
    (hcmd : Command.ofByte r.ub.cmd = .delDir) (hwritable : cfg.readOnly = false)
    (hnew : r.old = false) (hp : ℕ) : serve cfg r hp s = refuse cfg r cannotUnlink run.after := by
  obtain ⟨hignored, hdenied⟩ := not_or.mp run.granted
  have hallowed : checkAccessRights cfg r run.di dirDel run.pp.passwd (fun _ => do
      let pe ← serverDelDir cfg run.pp run.di
      unlessError cfg r pe (reply cfg r [] [])) run.validated = refuse cfg r cannotUnlink run.after := by
    refine (bind_of_ok run.access).trans ?_
    rw [if_neg hignored, if_neg hdenied]
    exact bind_of_ok run.delete
  have hcase : (serve cfg r hp : Srv Fs Cwd Unit) = caseDelDir cfg r := by
    unfold serve
    rw [hcmd]
  rw [hcase, caseDelDir, if_neg (by simp [hwritable]), if_neg (by simp [hnew])]
  exact (bind_of_ok run.validate).trans hallowed

omit henters in
/-- In every state the server gets into, for every directory information that `validate_path` comes
up with: a directory that could not be removed has kept what its access files said exactly if the
cached copy was an image of them, or, if access files are not used, if they said nothing. -/
theorem refusedDelDir_iff {s : Server Fs Cwd} (hs : Reachable (serverRound cfg) (Starts cfg) s)
    {a : Arrival Fs} {old : Bool} {h : HTab} {r : Request} {fullp : ByteString}
    {wantDirectory : Bool}
    (run : RefusedRun cfg r fullp wantDirectory (dispatchState cfg a s old h))
    {Good : Fs → Prop} {home dir : Cwd} (henters : Enters cfg Good run.pp.fullp home dir)
    (hcwd : run.allowed.cwd = home) (hgood : Good (dispatchState cfg a s old h).fs)
    (gethostbyname : ByteString → Option UInt32) :
    SameStored gethostbyname (Posix.readFile (dispatchState cfg a s old h).fs dir)
        (Posix.readFile run.after.fs dir) ↔
      if cfg.useAccessFiles then
        Image gethostbyname (Posix.readFile (dispatchState cfg a s old h).fs dir)
          (run.validated.dirStatCache.entry run.di)
      else Blank gethostbyname (Posix.readFile (dispatchState cfg a s old h).fs dir) := by
  obtain ⟨pp, di, s₁, acc, s₂, s₃, hvalid, haccess, hgranted, hdel⟩ := run
  have hfinal : final (validatePath cfg fullp wantDirectory (dispatchState cfg a s old h)) = s₁ := by
    rw [hvalid]
    rfl
  have hfs₁ : s₁.fs = (dispatchState cfg a s old h).fs := by
    rw [← hfinal]
    exact (looks_validatePath fullp wantDirectory _).2
  have hlasting : Lasting Fs cfg Clean := lasting_clean
  have hclean : Clean (s₁.dirStatCache.entry di) := by
    have hkept : Preserves (AllCached Clean) (validatePath cfg fullp wantDirectory :
        Srv Fs Cwd (Except ByteString (PPath × ℕ))) :=
      does_validatePath (primitives_allCached hlasting).toSteps (fun _ _ => ⟨trivial, fun _ => trivial,
        fun _ _ _ => trivial, fun _ => trivial, fun _ => trivial⟩) (fun _ _ _ => trivial)
        clean_loadAccessRights
    have hstart : AllCached Clean (dispatchState cfg a s old h) :=
      fun di => allCached_reachable hlasting hs di
    have hall := hkept _ hstart
    rw [hfinal] at hall
    exact hall di
  obtain ⟨hfs₂, hcache⟩ : s₂.fs = s₁.fs ∧ s₂.dirStatCache = s₁.dirStatCache := by
    injection haccess with _ hs₂
    subst hs₂
    exact ⟨rfl, rfl⟩
  have haway : Away Good home dir (Posix.readFile s₂.fs dir) di (s₁.dirStatCache.entry di) s₂ := by
    refine ⟨⟨hcwd, ?_, fun _ _ => rfl⟩, by rw [hcache]⟩
    rw [hfs₂, hfs₁]
    exact hgood
  obtain ⟨⟨-, -, hread⟩, -⟩ :=
    (triple_serverDelDir_refused henters pp rfl).of_ok haway hdel rfl
  rw [← sameStored_savedContents_iff gethostbyname hclean]
  constructor
  · exact fun h => h.congr hread
  · exact fun h => h.congr fun n hn => (hread n hn).symm

omit henters in
/-- The request, if it is refused. -/
def refusedRun? (cfg : Config) (r : Request) (fullp : ByteString) (wantDirectory : Bool)
    (s : Server Fs Cwd) : Option (RefusedRun cfg r fullp wantDirectory s) :=
  match hvalid : validatePath cfg fullp wantDirectory s with
  | .error _ _ | .ok (.error _) _ => none
  | .ok (.ok (pp, di)) validated =>
      match haccess : requireAccess cfg r di dirDel pp.passwd validated with
      | .error _ _ => none
      | .ok acc allowed =>
          if hacc : acc.head? = some 0x49 ∨ acc.head? = some 0x44 then none
          else
            match hdel : serverDelDir cfg pp di allowed with
            | .error _ _ => none
            | .ok res after =>
                if hres : res = some cannotUnlink then
                  some ⟨pp, di, validated, acc, allowed, after, hvalid, haccess, hacc, hres ▸ hdel⟩
                else none

end

/-! ## Disks -/

/-- A directory of a disk can be entered and left. -/
theorem enters_disk {path : ByteString} {home dir : Path} (hpath : Disk.resolve home path = dir)
    (hhome : Disk.resolve dir cfg.homeDir = home) :
    Enters cfg (KeptOn home dir) path home dir where
  toKeeps := keeps_disk home dir
  enter d hd := by
    show (if d.isDir (Disk.resolve home path) then some (Disk.resolve home path) else none) = _
    rw [hpath, hd.1.2]
    rfl
  leave d hd := by
    show (if d.isDir (Disk.resolve dir cfg.homeDir) then some (Disk.resolve dir cfg.homeDir)
      else none) = _
    rw [hhome, hd.1.1]
    rfl
  refused d hd hrmdir := by
    have hsame : (Posix.rmdir d home path).2 = d := by
      revert hrmdir
      show (Disk.whenNode d _ _).1 = false → (Disk.whenNode d _ _).2 = d
      unfold Disk.whenNode
      split
      · rintro ⟨⟩
      · exact fun _ => rfl
    rw [hsame]
    exact ⟨hd, fun _ _ => rfl⟩

/-! ### Two requests -/

/-- A directory with a file in it, flags, a password, and what is in its owner file. -/
def fullDisk (owners : List (String × Node)) : Disk :=
  Scenario.disk ([("h/d", .dir), ("h/d/f", .file (text "abc")),
    ("h/d/.FSP_OK_DEL", Scenario.emptyFile), ("h/d/.FSP_NO_LIST", Scenario.emptyFile),
    ("h/d/.FSP_OK_PASSWORD", .file (text "word"))] ++ owners)

/-- The server when it starts. -/
def fullInit (owners : List (String × Node)) : Server Disk Path :=
  initServer Scenario.config (fullDisk owners) [text "h"] 0

/-- A request for the removal of the directory, with the password. -/
def fullArrival : Arrival Disk :=
  Scenario.arrival 100 7 (Scenario.datagram .delDir 5 0 (Scenario.path "d\nword") [] (by decide))

/-- The server when the request reaches the dispatcher. -/
def fullStart (owners : List (String × Node)) : Server Disk Path :=
  dispatchState Scenario.config fullArrival (fullInit owners) false hzero

/-- The request, as it is read from the datagram. -/
def fullRequest : Request :=
  requestOf fullArrival
    ⟨Command.delDir.code, 153, 5, 0, 8, 7, 0, Scenario.path "d\nword"⟩ false hzero

/-- How the request goes, if it is refused. -/
def fullRun? (owners : List (String × Node)) :
    Option (RefusedRun Scenario.config fullRequest fullRequest.s1 true (fullStart owners)) :=
  refusedRun? Scenario.config fullRequest fullRequest.s1 true (fullStart owners)

/-- Flags and a password are written again. -/
theorem refusedDelDir_iff_noOwner : ∃ run, fullRun? [] = some run ∧
    SameStored (fun _ => none) (Posix.readFile (fullStart []).fs [text "h", text "d"])
      (Posix.readFile run.after.fs [text "h", text "d"]) := by
  have hstart : Reachable (serverRound Scenario.config) (Starts Scenario.config)
      (fullInit []) := .start ⟨_, _, _, rfl⟩
  have hrun : (fullRun? []).map (fun run => (run.pp.fullp, run.allowed.cwd)) =
      some (text "d", [text "h"]) := by decide +kernel
  have hcopy : (fullRun? []).map (fun run =>
      let d := run.validated.dirStatCache.entry run.di
      (d.protection, d.publicPassword, d.ownerPassword, d.owner.length)) =
      some (dirGet ||| dirDel, some (text "word"), none, 0) := by decide +kernel
  obtain ⟨run, hfull, hobs⟩ := Option.map_eq_some_iff.mp hrun
  rw [hfull] at hcopy
  simp only [Option.map_some, Option.some.injEq, Prod.mk.injEq] at hobs hcopy
  obtain ⟨hpath, hcwd⟩ := hobs
  obtain ⟨hprotection, hpublic, howner, hnone⟩ := hcopy
  refine ⟨run, hfull, ?_⟩
  have henters : Enters Scenario.config (KeptOn [text "h"] [text "h", text "d"]) run.pp.fullp
      [text "h"] [text "h", text "d"] :=
    enters_disk (by rw [hpath]; decide +kernel) (by decide +kernel)
  have himage : Image (fun _ => none) (Posix.readFile (fullStart []).fs [text "h", text "d"])
      (run.validated.dirStatCache.entry run.di) := by
    refine ⟨?_, ?_, ?_, ?_⟩
    · rw [hprotection]
      unfold SameFlags
      decide +kernel
    · rw [hpublic]
      decide +kernel
    · rw [howner]
      decide +kernel
    · rw [List.length_eq_zero_iff.mp hnone]
      rfl
  exact (refusedDelDir_iff hstart run henters hcwd (by decide +kernel) fun _ => none).mpr
    ((if_pos rfl).mpr himage)

/-- An owner file of two lines. -/
def twoOwners : List (String × Node) :=
  [("h/d/.FSP_OWNER", .file (text "127.0.0.1 O Me\n10.0.0.1 O You\n"))]

/-- Of two owners, one is lost.  The server answers that it could not remove the directory, and this is
what the files are then. -/
theorem twoOwners_not_sameStored : ∃ run, fullRun? twoOwners = some run ∧
    (final (serverRound Scenario.config fullArrival (fullInit twoOwners))).trace.getLast? =
      some (.sent Scenario.client
        (replyTo { fullRequest.ub with cmd := ccErr, bbPos := 0 } (cannotUnlink ++ [0]) []).encode) ∧
    (final (serverRound Scenario.config fullArrival (fullInit twoOwners))).fs = run.after.fs ∧
    ¬ SameStored (fun _ => none)
      (Posix.readFile (fullStart twoOwners).fs [text "h", text "d"])
      (Posix.readFile run.after.fs [text "h", text "d"]) := by
  have hrun : (fullRun? twoOwners).map (fun run => (storedOwners (fun _ => none)
      (Posix.readFile run.after.fs [text "h", text "d"] fspOwner)).length) = some 1 := by
    decide +kernel
  have htwo : (storedOwners (fun _ => none)
      (Posix.readFile (fullStart twoOwners).fs [text "h", text "d"] fspOwner)).length = 2 := by
    decide +kernel
  have hround : (fullRun? twoOwners).map (fun run => run.after.fs) =
      some (final (serverRound Scenario.config fullArrival (fullInit twoOwners))).fs := by
    decide +kernel
  obtain ⟨run, hfull, hone⟩ := Option.map_eq_some_iff.mp hrun
  rw [hfull, Option.map_some, Option.some.injEq] at hround
  refine ⟨run, hfull, by decide +kernel, hround.symm, fun hsame => ?_⟩
  rw [hsame.owner, htwo] at hone
  exact absurd hone (by decide)

end Fsp
