import Fsp.LinkedDisk
import Fsp.Server.RealName
import Fsp.Server.Validate

/-!
# Staying below the home directory

With `homedir_restricted` on, `validate_path` changes into a directory and compares the name `getcwd`
gives for it with `home_dir`, but only over the length of `home_dir`: with the home directory `/h` the
directory `/h2` passes as well, and `server_make_dir` stores the directory it has made without any
comparison.  As long as no directory that is looked up has a name of that kind, and directories are made
in the tree of the home directory, all directory information that is found or cached is about that tree:
`inTree_history`.
-/

namespace Fsp

open Bytes Effect

variable {Fs Cwd : Type} [Posix Fs Cwd] {cfg : Config}

/-- The directory named `name` is the one named `home`, or lies below it. -/
def InTree (home name : ByteString) : Prop :=
  name = home ∨ home ++ [slash] <+: name ∨ home.getLast? = some slash ∧ home <+: name

instance (home name : ByteString) : Decidable (InTree home name) :=
  inferInstanceAs (Decidable (name = home ∨ home ++ [slash] <+: name ∨
    home.getLast? = some slash ∧ home <+: name))

/-- All that was found in a round, and all that is cached, is in the tree of the home directory. -/
structure Homed (cfg : Config) (s : Server Fs Cwd) : Prop where
  validated : ∀ pp di realname, .validated pp di realname ∈ s.trace → InTree cfg.homeDir realname
  cached : ∀ di key, s.dirStatCache.fCacheGetKey di = some key →
    InTree cfg.homeDir (s.dirStatCache.entry di).realname

/-! ## Where requests lead -/

/-- Where the server can stand while it looks up directories: where it stood before, and where the way
back home leads from a directory it has looked up. -/
inductive Standing (cfg : Config) (r : Request) (fs : Fs) (cwd : Cwd) : Cwd → Prop
  | start : Standing cfg r fs cwd cwd
  | back {c c' : Cwd} {l : ByteString × Bool} {pp : PPath} :
      Standing cfg r fs cwd c → l ∈ r.lookups cfg → parsePath l.1 = .ok pp →
      Posix.chdir fs c (directoryPart pp l.2).work = some c' →
      Standing cfg r fs cwd ((Posix.chdir fs c' cfg.homeDir).getD c')

/-- The name of the directory `work` begins with the name of the home directory, but it is not in its
tree. -/
def Strays (cfg : Config) (fs : Fs) (c : Cwd) (work : ByteString) : Prop :=
  ∃ c' realname, Posix.chdir fs c work = some c' ∧ Posix.getcwd fs c' = some realname ∧
    cfg.homeDir <+: realname ∧ ¬ InTree cfg.homeDir realname

/-- No directory that the request has looked up strays, and the directory that it makes is in the tree
of the home directory. -/
structure StaysIn (cfg : Config) (r : Request) (fs : Fs) (cwd : Cwd) : Prop where
  found : ∀ l ∈ r.lookups cfg, ∀ pp, parsePath l.1 = .ok pp → ∀ c, Standing cfg r fs cwd c →
    ¬ Strays cfg fs c (directoryPart pp l.2).work
  made : Command.ofByte r.ub.cmd = .makeDir → r.old = false → ∀ pp, parsePath r.s1 = .ok pp →
    ∀ c, Standing cfg r fs cwd c → ∀ fs', Posix.mkdir fs c pp.fullp = (true, fs') →
      ∃ realname, Posix.getcwd fs' ((Posix.chdir fs' c pp.fullp).getD c) = some realname ∧
        InTree cfg.homeDir realname

/-- Files that come and go do not change the names of directories. -/
structure KeepsNames (Fs : Type) {Cwd : Type} [Posix Fs Cwd] : Prop where
  unlink : ∀ (fs : Fs) (c c' : Cwd) path,
    Posix.getcwd (Posix.unlink fs c path).2 c' = Posix.getcwd fs c'
  creat : ∀ (fs : Fs) (c c' : Cwd) path,
    Posix.getcwd (Posix.creat fs c path) c' = Posix.getcwd fs c'
  writeFile : ∀ (fs : Fs) (c c' : Cwd) path data,
    Posix.getcwd (Posix.writeFile fs c path data) c' = Posix.getcwd fs c'

/-! ## Single steps -/

variable {s s' : Server Fs Cwd}

omit [Posix Fs Cwd] in
theorem Homed.emit {e : Event} (hs : Homed cfg s) (he : NotValidated e)
    (htrace : s'.trace = s.trace ++ [e]) (hcache : s'.dirStatCache = s.dirStatCache) :
    Homed cfg s' := by
  constructor
  · intro pp di realname hmem
    rw [htrace, List.mem_append, List.mem_singleton] at hmem
    rcases hmem with hmem | rfl
    · exact hs.validated pp di realname hmem
    · exact he.elim
  · rw [hcache]
    exact hs.cached

omit [Posix Fs Cwd] in
theorem Homed.of_eq (hs : Homed cfg s) (htrace : s'.trace = s.trace)
    (hcache : s'.dirStatCache = s.dirStatCache) : Homed cfg s' := by
  constructor
  · rw [htrace]
    exact hs.validated
  · rw [hcache]
    exact hs.cached

omit [Posix Fs Cwd] in
theorem homed_syscall {α : Type} {call : Fs → Cwd → α × Fs} {event : α → Event}
    (h : ∀ a, NotValidated (event a)) :
    Preserves (Homed cfg) (syscall call event : Srv Fs Cwd α) :=
  fun _ hs => hs.emit (h _) rfl rfl

omit [Posix Fs Cwd] in
theorem homed_modify {f : Server Fs Cwd → Server Fs Cwd} (htrace : ∀ s, (f s).trace = s.trace)
    (hcache : ∀ s, (f s).dirStatCache = s.dirStatCache) :
    Preserves (Homed cfg) (modify f : Srv Fs Cwd Unit) :=
  fun s hs => hs.of_eq (htrace s) (hcache s)

omit [Posix Fs Cwd] in
theorem homed_setDirInfo {di : ℕ} {f : DirInfo → DirInfo}
    (hf : ∀ d, InTree cfg.homeDir d.realname → InTree cfg.homeDir (f d).realname) :
    Preserves (Homed cfg) (setDirInfo di f : Srv Fs Cwd Unit) := by
  intro s hs
  constructor
  · exact hs.validated
  · intro i key hkey
    have hkey' : (s.dirStatCache.setEntry di (f (s.dirStatCache.entry di))).fCacheGetKey i = some key :=
      hkey
    rw [FifoCache.key_setEntry] at hkey'
    show InTree cfg.homeDir
      ((s.dirStatCache.setEntry di (f (s.dirStatCache.entry di))).slot i).entry.realname
    rw [FifoCache.slot_setEntry]
    split
    · rename_i hdi
      have hold := hs.cached i key hkey'
      rw [hdi.1]
      exact hf _ hold
    · exact hs.cached i key hkey'

omit [Posix Fs Cwd] in
theorem homed_deleteDirInfo (di : ℕ) :
    Preserves (Homed cfg) (deleteDirInfo di : Srv Fs Cwd Unit) := by
  intro s hs
  constructor
  · exact hs.validated
  · intro i key hkey
    have hkey' : ((s.dirStatCache.fCacheDeleteEntry di).2.slot i).key = some key := hkey
    show InTree cfg.homeDir ((s.dirStatCache.fCacheDeleteEntry di).2.slot i).entry.realname
    rw [FifoCache.slot_fCacheDeleteEntry] at hkey' ⊢
    split at hkey'
    · cases hkey'
    · rw [if_neg ‹_›]
      exact hs.cached i key hkey'

omit [Posix Fs Cwd] in
theorem homed_putDirInfo (key : ByteString) {d : DirInfo} (hd : InTree cfg.homeDir d.realname) :
    Preserves (Homed cfg) (putDirInfo key d : Srv Fs Cwd ℕ) := by
  intro s hs
  constructor
  · exact hs.validated
  · intro i key' hkey
    have hkey' : ((s.dirStatCache.fCachePut key d).2.2.slot i).key = some key' := hkey
    show InTree cfg.homeDir ((s.dirStatCache.fCachePut key d).2.2.slot i).entry.realname
    rw [FifoCache.slot_fCachePut] at hkey' ⊢
    split
    · exact hd
    · rw [if_neg ‹_›] at hkey'
      exact hs.cached i key' hkey'

theorem primitives_homed : Primitives (Kept (Homed cfg) : Server Fs Cwd → Server Fs Cwd → Prop)
    NotValidated fun d => InTree cfg.homeDir d.realname where
  emit _ he := fun _ hs => hs.emit he rfl rfl
  stat _ hP := homed_syscall hP
  lstat _ hP := homed_syscall hP
  chdir _ hP := by
    intro s hs
    unfold chdir
    split
    · exact hs.emit (hP true) rfl rfl
    · exact hs.emit (hP false) rfl rfl
  unlink _ hP := homed_syscall hP
  remove _ hP := homed_syscall hP
  rmdir _ hP := homed_syscall hP
  mkdir _ hP := homed_syscall hP
  rename _ _ hP := fun s => homed_syscall (hP _) s
  touch _ hP := homed_syscall fun _ => hP
  writeFile _ _ hP := homed_syscall fun _ => hP
  chmod _ hP := homed_syscall fun _ => hP
  utime _ _ _ hP := homed_syscall fun _ => hP
  fopen _ _ hP := homed_syscall hP
  fclose _ hP := homed_syscall fun _ => hP
  fseeko _ _ hP := homed_syscall hP
  fread _ _ hP := homed_syscall hP
  fwrite _ _ hP := homed_syscall hP
  setFpCache _ _ := homed_modify (fun _ => rfl) fun _ => rfl
  setListCache _ := homed_modify (fun _ => rfl) fun _ => rfl
  setThc _ _ := homed_modify (fun _ => rfl) fun _ => rfl
  setDirInfo _ _ hf := homed_setDirInfo hf
  deleteDirInfo di := homed_deleteDirInfo di
  putDirInfo key _ hd := homed_putDirInfo key hd
  good_update _ _ _ _ hd := hd

/-! ## Places -/

/-- The server keeps to its home directory, and `A` holds of the files and of the directory it stands in. -/
structure At (cfg : Config) (A : Fs → Cwd → Prop) (s : Server Fs Cwd) : Prop where
  homed : Homed cfg s
  stands : A s.fs s.cwd

variable {A B : Fs → Cwd → Prop}

omit [Posix Fs Cwd] in
/-- What leaves the files and the current directory alone. -/
theorem at_of_homed {α : Type} {m : Srv Fs Cwd α} (hm : Preserves (Homed cfg) m)
    (hsame : Does (Same fun s => (s.fs, s.cwd)) m) : Preserves (At cfg A) m := by
  intro s hs
  have hplace : ((final (m s)).fs, (final (m s)).cwd) = (s.fs, s.cwd) := hsame s
  injection hplace with hfs hcwd
  exact ⟨hm s hs.homed, by rw [hfs, hcwd]; exact hs.stands⟩

omit [Posix Fs Cwd] in
theorem at_emit {e : Event} (he : NotValidated e) :
    Preserves (At cfg A) (emit e : Srv Fs Cwd Unit) :=
  fun _ hs => ⟨hs.homed.emit he rfl rfl, hs.stands⟩

theorem at_stat (path : ByteString) :
    Preserves (At cfg A) (stat path : Srv Fs Cwd (Option Stat)) :=
  fun _ hs => ⟨hs.homed.emit (e := .stat path _) trivial rfl rfl, hs.stands⟩

omit [Posix Fs Cwd] in
theorem at_requireAccess (r : Request) (di : ℕ) (rights : UInt8) (passwd : Option ByteString) :
    Preserves (At cfg A) (requireAccess cfg r di rights passwd : Srv Fs Cwd ByteString) :=
  does_bind (does_dirInfo _) fun _ => does_bind (at_emit trivial) fun _ => does_pure _

theorem at_loadAccessRights (d : DirInfo) :
    Preserves (At cfg A) (loadAccessRights cfg d : Srv Fs Cwd DirInfo) :=
  does_loadAccessRights (fun file _ => at_stat file) d

/-- Changing into a directory, which leaves the server where it is when it fails. -/
theorem triple_chdir {C : Bool → Fs → Cwd → Prop} (path : ByteString)
    (hin : ∀ fs c c', A fs c → Posix.chdir fs c path = some c' → C true fs c')
    (hfail : ∀ fs c, A fs c → Posix.chdir fs c path = none → C false fs c) :
    Triple (At cfg A) (chdir path : Srv Fs Cwd Bool) (fun ok => At cfg (C ok)) fun _ => False := by
  constructor
  intro s hs
  unfold wp
  cases hchdir : Posix.chdir s.fs s.cwd path with
  | some c =>
      rw [chdir_of_some hchdir]
      exact ⟨hs.homed.emit (e := .chdir path true) trivial rfl rfl, hin _ _ _ hs.stands hchdir⟩
  | none =>
      rw [chdir_of_none hchdir]
      exact ⟨hs.homed.emit (e := .chdir path false) trivial rfl rfl, hfail _ _ hs.stands hchdir⟩

/-- Changing into a directory, wherever that leads. -/
theorem triple_chdir_getD (path : ByteString)
    (h : ∀ fs c, A fs c → B fs ((Posix.chdir fs c path).getD c)) :
    Triple (At cfg A) (chdir path : Srv Fs Cwd Bool) (fun _ => At cfg B) fun _ => False := by
  apply triple_chdir (C := fun _ => B)
  · intro fs c c' hA hchdir
    have hB := h fs c hA
    rwa [hchdir] at hB
  · intro fs c hA hchdir
    have hB := h fs c hA
    rwa [hchdir] at hB

/-- The name of the current directory. -/
theorem triple_getcwd :
    Triple (At cfg A) (getcwd : Srv Fs Cwd (Option ByteString))
      (fun realname => At cfg fun fs c => A fs c ∧ Posix.getcwd fs c = realname)
      fun _ => False :=
  ⟨fun _ hs => ⟨hs.homed, hs.stands, rfl⟩⟩

/-! ## Looking up -/

section

variable {r : Request} {fs : Fs} {cwd : Cwd}

/-- While the request `r`, which met the files `fs`, looks up directories. -/
def Searching (cfg : Config) (r : Request) (fs : Fs) (cwd : Cwd) : Server Fs Cwd → Prop :=
  At cfg fun fs' c => fs' = fs ∧ Standing cfg r fs cwd c

variable {l : ByteString × Bool} {pp : PPath}

/-- In a directory that was looked up. -/
def Entered (cfg : Config) (r : Request) (fs : Fs) (cwd : Cwd) (work : ByteString) :
    Server Fs Cwd → Prop :=
  At cfg fun fs' c' => fs' = fs ∧ ∃ c, Standing cfg r fs cwd c ∧ Posix.chdir fs c work = some c'

theorem triple_home (hl : l ∈ r.lookups cfg) (hpp : parsePath l.1 = .ok pp) :
    Triple (Entered cfg r fs cwd (directoryPart pp l.2).work)
      (chdir cfg.homeDir : Srv Fs Cwd Bool) (fun _ => Searching cfg r fs cwd)
      fun _ => False := by
  apply triple_chdir_getD
  rintro fs' c' ⟨rfl, c, hc, hchdir⟩
  exact ⟨rfl, hc.back hl hpp hchdir⟩

theorem triple_buildDirInfo (hrestricted : cfg.homedirRestricted = true)
    (hstays : StaysIn cfg r fs cwd) (hl : l ∈ r.lookups cfg) (hpp : parsePath l.1 = .ok pp)
    (sd : Stat) :
    Triple (Searching cfg r fs cwd) (buildDirInfo cfg (directoryPart pp l.2).work sd)
      (fun _ => Searching cfg r fs cwd) (Homed cfg) := by
  have hchdir : Triple (Searching cfg r fs cwd)
      (chdir (directoryPart pp l.2).work : Srv Fs Cwd Bool)
      (fun ok => bif ok then Entered cfg r fs cwd (directoryPart pp l.2).work
        else Searching cfg r fs cwd) fun _ => False := by
    have h := @triple_chdir Fs Cwd _ cfg (fun fs' c => fs' = fs ∧ Standing cfg r fs cwd c)
      (fun ok fs' c' => fs' = fs ∧ bif ok then ∃ c, Standing cfg r fs cwd c ∧
        Posix.chdir fs c (directoryPart pp l.2).work = some c' else Standing cfg r fs cwd c')
      (directoryPart pp l.2).work ?_ ?_
    · refine triple_mono h (fun _ hs => hs) ?_ fun _ hs => hs
      rintro (_ | _) s hs
      · exact hs
      · exact hs
    · rintro fs' c c' ⟨rfl, hc⟩ hchdir
      exact ⟨rfl, c, hc, hchdir⟩
    · exact fun fs' c hc _ => hc
  have hhome : ∀ {P : Server Fs Cwd → Prop} {err : ByteString},
      (∀ s, P s → Entered cfg r fs cwd (directoryPart pp l.2).work s) → Triple P (do
        let _ ← chdir cfg.homeDir
        pure (.error err) : Srv Fs Cwd (Except ByteString ℕ)) (fun _ => Searching cfg r fs cwd)
          (Homed cfg) := by
    intro P err hP
    apply triple_seq (triple_mono (triple_of_total (triple_home hl hpp)) hP (fun _ _ hs => hs)
      fun _ hs => hs)
    exact fun _ => triple_pure fun _ hs => hs
  apply triple_seq (triple_of_total hchdir)
  intro ok
  cases ok with
  | false => exact triple_pure fun _ hs => hs
  | true =>
      apply triple_seq (triple_of_total triple_getcwd)
      intro realname
      cases realname with
      | none => exact hhome fun s hs => ⟨hs.homed, hs.stands.1⟩
      | some realname =>
          apply triple_ite
          · exact fun _ => hhome fun s hs => ⟨hs.homed, hs.stands.1⟩
          intro hprefix
          have hwithin : cfg.homeDir <+: realname := by
            by_contra hnot
            exact hprefix ⟨hrestricted, hnot⟩
          have hfound : ∀ s : Server Fs Cwd, At cfg (fun fs' c' => (fs' = fs ∧
                ∃ c, Standing cfg r fs cwd c ∧
                  Posix.chdir fs c (directoryPart pp l.2).work = some c') ∧
                Posix.getcwd fs' c' = some realname) s →
              Entered cfg r fs cwd (directoryPart pp l.2).work s ∧ InTree cfg.homeDir realname := by
            rintro s ⟨hs, ⟨hfs, c, hc, hchdir⟩, hname⟩
            refine ⟨⟨hs, hfs, c, hc, hchdir⟩, ?_⟩
            by_contra hnot
            rw [hfs] at hname
            exact hstays.found l hl pp hpp c hc ⟨s.cwd, realname, hchdir, hname, hwithin, hnot⟩
          refine triple_mono ?_ hfound (fun _ _ hs => hs) fun _ hs => hs
          apply triple_fact
          intro hin
          have hkeep : ∀ {α : Type} {m : Srv Fs Cwd α},
              Preserves (Entered cfg r fs cwd (directoryPart pp l.2).work) m →
              Triple (Entered cfg r fs cwd (directoryPart pp l.2).work) m
                (fun _ => Entered cfg r fs cwd (directoryPart pp l.2).work) (Homed cfg) :=
            fun hm => triple_mono (Preserves.triple hm) (fun _ hs => hs) (fun _ _ hs => hs)
              fun _ hs => hs.homed
          apply triple_seq (hkeep does_get)
          intro now
          apply triple_seq (triple_mono (triple_and (hkeep (at_loadAccessRights _))
            (⟨fun s _ => (realname_loadAccessRights _).run s⟩ : Triple (fun _ => True) _ _ _))
              (fun s hs => ⟨hs, trivial⟩) (fun _ _ hs => hs) fun _ hs => hs.1)
          intro newdir
          apply triple_fact
          intro hname
          apply triple_seq (triple_of_total (triple_home hl hpp))
          intro _
          have hput : Preserves (Searching cfg r fs cwd)
              (putDirInfo (directoryPart pp l.2).work newdir : Srv Fs Cwd ℕ) :=
            at_of_homed (homed_putDirInfo _ (by rw [hname]; exact hin)) fun _ => rfl
          apply triple_seq (triple_mono (Preserves.triple hput) (fun _ hs => hs) (fun _ _ hs => hs)
            fun _ hs => hs.homed)
          exact fun _ => triple_pure fun _ hs => hs

/-- A directory that strays is cached. -/
theorem strays_buildDirInfo {work : ByteString} (hstrays : Strays cfg s.fs s.cwd work) (sd : Stat) :
    wp (buildDirInfo cfg work sd)
      (fun res s' => ∃ di, res = .ok di ∧ s'.dirStatCache.fCacheGetKey di = some work ∧
        ¬ InTree cfg.homeDir (s'.dirStatCache.entry di).realname) (fun _ => True) s := by
  obtain ⟨c, realname, hchdir, hcwd, hprefix, hnot⟩ := hstrays
  have henter : wp (chdir work : Srv Fs Cwd Bool)
      (fun ok s' => ok = true ∧ s'.fs = s.fs ∧ s'.cwd = c) (fun _ => True) s := by
    unfold wp
    rw [chdir_of_some hchdir]
    exact ⟨rfl, rfl, rfl⟩
  apply wp_seq henter
  rintro ok s₁ ⟨rfl, hfs, hc⟩
  have hname : wp (getcwd : Srv Fs Cwd (Option ByteString)) (fun name _ => name = some realname)
      (fun _ => True) s₁ := by
    show Posix.getcwd s₁.fs s₁.cwd = some realname
    rw [hfs, hc]
    exact hcwd
  apply wp_seq hname
  rintro _ s₂ rfl
  apply wp_ite
  · exact fun h => absurd hprefix h.2
  intro _
  apply wp_seq ((returns_true _).run s₂)
  intro now s₃ _
  apply wp_seq ((realname_loadAccessRights _).run s₃)
  intro newdir s₄ hnewdir
  apply wp_seq ((returns_true _).run s₄)
  intro _ s₅ _
  have hput : wp (putDirInfo work newdir : Srv Fs Cwd ℕ)
      (fun di s' => s'.dirStatCache.slot di = ⟨some work, newdir⟩) (fun _ => True) s₅ := by
    show (s₅.dirStatCache.fCachePut work newdir).2.2.slot
      (s₅.dirStatCache.fCachePut work newdir).1 = ⟨some work, newdir⟩
    rw [FifoCache.slot_fCachePut, FifoCache.fst_fCachePut, if_pos rfl]
  apply wp_seq hput
  intro di s₆ hslot
  refine ⟨di, rfl, ?_, ?_⟩
  · rw [FifoCache.fCacheGetKey, hslot]
  · rw [FifoCache.entry, hslot]
    show ¬ InTree cfg.homeDir newdir.realname
    rw [hnewdir]
    exact hnot

theorem triple_findDirInfo (hrestricted : cfg.homedirRestricted = true)
    (hstays : StaysIn cfg r fs cwd) (hl : l ∈ r.lookups cfg) (hpp : parsePath l.1 = .ok pp) :
    Triple (Searching cfg r fs cwd) (findDirInfo cfg (directoryPart pp l.2).work)
      (fun _ => Searching cfg r fs cwd) (Homed cfg) := by
  have hkeep : ∀ {α : Type} {m : Srv Fs Cwd α}, Preserves (Searching cfg r fs cwd) m →
      Triple (Searching cfg r fs cwd) m (fun _ => Searching cfg r fs cwd) (Homed cfg) :=
    fun hm => triple_mono (Preserves.triple hm) (fun _ hs => hs) (fun _ _ hs => hs)
      fun _ hs => hs.homed
  have hbuild := triple_buildDirInfo hrestricted hstays hl hpp
  have hrecheck : ∀ di, Triple (Searching cfg r fs cwd)
      (recheckDirInfo cfg (directoryPart pp l.2).work di) (fun _ => Searching cfg r fs cwd)
      (Homed cfg) := by
    intro di
    apply triple_seq (hkeep (at_stat _))
    intro sd
    cases sd with
    | none => exact hkeep (does_pure _)
    | some sd =>
        apply triple_ite
        · exact fun _ => hkeep (does_pure _)
        intro _
        cases di with
        | none => exact hbuild sd
        | some di =>
            apply triple_seq (hkeep does_get)
            intro now
            apply triple_ite
            · intro _
              have hset : Preserves (Searching cfg r fs cwd)
                  (setDirInfo di fun d => { d with lastcheck := now.curTime } : Srv Fs Cwd Unit) :=
                at_of_homed (homed_setDirInfo fun _ hd => hd) fun _ => rfl
              exact triple_seq (hkeep hset) fun _ => hkeep (does_pure _)
            · intro _
              have hdelete : Preserves (Searching cfg r fs cwd)
                  (deleteDirInfo di : Srv Fs Cwd Unit) :=
                at_of_homed (homed_deleteDirInfo di) fun _ => rfl
              exact triple_seq (hkeep hdelete) fun _ => hbuild sd
  apply triple_seq (hkeep does_get)
  intro now
  split
  · apply triple_ite
    · exact fun _ => hkeep (does_pure _)
    · exact fun _ => hrecheck _
  · exact hrecheck _

theorem homed_validatePath (hrestricted : cfg.homedirRestricted = true)
    (hstays : StaysIn cfg r fs cwd) (hl : l ∈ r.lookups cfg) :
    Triple (Searching cfg r fs cwd) (validatePath cfg l.1 l.2) (fun _ => Searching cfg r fs cwd)
      (Homed cfg) := by
  unfold validatePath
  cases hpp : parsePath l.1 with
  | error err => exact triple_pure fun _ hs => hs
  | ok pp =>
      have hlookup : Preserves (Searching cfg r fs cwd)
          (emit (.lookup (directoryPart pp l.2).work) : Srv Fs Cwd Unit) := at_emit trivial
      apply triple_seq (triple_mono (Preserves.triple hlookup) (fun _ hs => hs) (fun _ _ hs => hs)
        fun _ hs => hs.homed)
      intro _
      have hfind := triple_and (triple_findDirInfo hrestricted hstays hl hpp)
        (⟨fun s _ => keyOf_findDirInfo s (directoryPart pp l.2).work⟩ :
          Triple (fun _ => True) _ _ _)
      apply triple_seq (triple_mono hfind (fun s hs => ⟨hs, trivial⟩) (fun _ _ hs => hs)
        fun _ hs => hs.1)
      intro res
      cases res with
      | error err => exact triple_pure fun _ hs => hs.1
      | ok di =>
          constructor
          rintro s ⟨hs, hkey⟩
          refine ⟨⟨?_, hs.homed.cached⟩, hs.stands⟩
          intro pp' di' realname hmem
          rcases List.mem_append.mp hmem with hold | hnew
          · exact hs.homed.validated pp' di' realname hold
          · cases List.mem_singleton.mp hnew
            exact hs.homed.cached di _ (hkey di rfl)

/-! ## Making directories -/

/-- In a directory with a name in the tree of the home directory. -/
def Below (cfg : Config) : Server Fs Cwd → Prop :=
  At cfg fun fs c => ∃ realname, Posix.getcwd fs c = some realname ∧ InTree cfg.homeDir realname

theorem below_saveAccessRights (hnames : KeepsNames Fs) (d : DirInfo) :
    Preserves (Below cfg) (saveAccessRights cfg d : Srv Fs Cwd Unit) := by
  have hfile : ∀ {α : Type} {call : Fs → Cwd → α × Fs} {event : α → Event},
      (∀ a, NotValidated (event a)) →
      (∀ fs c c', Posix.getcwd (call fs c).2 c' = Posix.getcwd fs c') →
      Preserves (Below cfg) (syscall call event : Srv Fs Cwd α) := by
    rintro α call event hevent hkeeps s ⟨hs, realname, hname, hin⟩
    exact ⟨hs.emit (hevent _) rfl rfl, realname, (hkeeps s.fs s.cwd s.cwd).trans hname, hin⟩
  apply does_saveAccessRights_of_files
  · exact fun file _ => hfile (fun _ => trivial) fun fs c c' => hnames.unlink fs c c' file
  · exact fun file _ => hfile (fun _ => trivial) fun fs c c' => hnames.creat fs c c' file
  · exact fun file _ data => hfile (fun _ => trivial) fun fs c c' =>
      hnames.writeFile fs c c' file data

theorem homed_serverMakeDir (hnames : KeepsNames Fs) (hstays : StaysIn cfg r fs cwd)
    (hcmd : Command.ofByte r.ub.cmd = .makeDir) (hold : r.old = false)
    (hpp : parsePath r.s1 = .ok pp) (di : ℕ) :
    Triple (Searching cfg r fs cwd) (serverMakeDir cfg pp r.inetNum di)
      (fun _ => Homed cfg) (Homed cfg) := by
  have hmkdir : Triple (Searching cfg r fs cwd) (mkdir pp.fullp : Srv Fs Cwd Bool)
      (fun ok => At cfg fun fs' c => ok = true →
        Standing cfg r fs cwd c ∧ Posix.mkdir fs c pp.fullp = (true, fs')) (Homed cfg) := by
    constructor
    rintro s ⟨hs, hfs, hstanding⟩
    refine ⟨hs.emit (e := .mkdir pp.fullp _) trivial rfl rfl, fun hok => ⟨hstanding, ?_⟩⟩
    rw [← hfs, ← hok]
  apply triple_seq hmkdir
  intro ok
  apply triple_ite
  · intro hok
    have hkeep : ∀ {A : Fs → Cwd → Prop} {α : Type} {m : Srv Fs Cwd α},
        Preserves (At cfg A) m → Triple (At cfg A) m (fun _ => At cfg A) (Homed cfg) :=
      fun hm => triple_mono (Preserves.triple hm) (fun _ hs => hs) (fun _ _ hs => hs)
        fun _ hs => hs.homed
    apply triple_seq (hkeep (does_dirInfo di))
    intro d
    apply triple_seq (hkeep does_get)
    intro now
    apply triple_seq (hkeep (does_query _))
    intro gethostbyname
    have hchdir : Triple (At cfg fun fs' c => ok = true →
          Standing cfg r fs cwd c ∧ Posix.mkdir fs c pp.fullp = (true, fs'))
        (chdir pp.fullp : Srv Fs Cwd Bool) (fun _ => Below cfg) fun _ => False :=
      triple_chdir_getD _ fun fs' c h => hstays.made hcmd hold pp hpp c (h hok).1 fs' (h hok).2
    apply triple_seq (triple_of_total hchdir)
    intro _
    apply triple_seq (hkeep (below_saveAccessRights hnames _))
    intro _
    apply triple_seq (triple_of_total triple_getcwd)
    intro name
    have hname : ∀ s : Server Fs Cwd, At cfg (fun fs c => (∃ realname,
          Posix.getcwd fs c = some realname ∧ InTree cfg.homeDir realname) ∧
          Posix.getcwd fs c = name) s →
        Homed cfg s ∧ ∃ realname, name = some realname ∧ InTree cfg.homeDir realname := by
      rintro s ⟨hs, ⟨realname, hcwd, hin⟩, hname⟩
      exact ⟨hs, realname, hname.symm.trans hcwd, hin⟩
    refine triple_mono ?_ hname (fun _ _ hs => hs) fun _ hs => hs
    apply triple_fact
    rintro ⟨realname, rfl, hin⟩
    apply triple_seq (Preserves.triple (primitives_homed.chdir cfg.homeDir fun _ => trivial))
    intro _
    apply triple_seq (Preserves.triple (homed_putDirInfo pp.fullp hin))
    exact fun _ => triple_pure fun _ hs => hs
  · exact fun _ => triple_pure fun _ hs => hs.homed

/-! ## Whole requests -/

theorem phases_homed (hrestricted : cfg.homedirRestricted = true) (hnames : KeepsNames Fs)
    (hstays : StaysIn cfg r fs cwd) : Phases (Searching cfg r fs cwd) (Homed cfg) cfg r := by
  apply phases_of_primitives primitives_homed fun _ he => he
  · exact fun _ hs => hs.homed
  · exact at_stat
  · exact at_requireAccess r
  · exact fun l hl => homed_validatePath hrestricted hstays hl
  · exact fun hcmd hold pp hpp => homed_serverMakeDir hnames hstays hcmd hold hpp
  · exact fun hp => homed_modify (fun _ => rfl) fun _ => rfl

end

/-! ## Runs -/

/-- No request that is dispatched in the round strays. -/
def RoundStaysIn (cfg : Config) (r : Effect.Round (Arrival Fs) (Server Fs Cwd)) : Prop :=
  ∀ ub old h, Dispatches cfg r.input r.before ub old h →
    StaysIn cfg (requestOf r.input ub old h) (r.input.world r.before.fs) r.before.cwd

theorem inTree_serverRound (hrestricted : cfg.homedirRestricted = true) (hnames : KeepsNames Fs)
    (a : Arrival Fs) (htable : HostTable s.htab)
    (hstays : RoundStaysIn cfg ⟨a, s, final (serverRound cfg a s)⟩) (hs : Homed cfg s) :
    Homed cfg (final (serverRound cfg a s)) := by
  have hmet : ∀ {s' : Server Fs Cwd}, s'.trace = [] → s'.dirStatCache = s.dirStatCache →
      Homed cfg s' := by
    intro s' htrace hcache
    constructor
    · rw [htrace]
      exact fun _ _ _ hmem => absurd hmem List.not_mem_nil
    · rw [hcache]
      exact hs.cached
  have hreply : ∀ {client : SockAddr} {ub : Ubuf} {msg : ByteString},
      Preserves (Homed cfg) (sendError cfg client ub msg : Srv Fs Cwd Unit) :=
    does_serverReply primitives_homed.toSteps trivial
  have hgoes := serverRound_goes cfg a htable
  generalize serverRound cfg a s = res at hgoes ⊢
  cases hgoes with
  | unread => exact hmet rfl rfl
  | exits => exact hmet rfl rfl
  | denied => exact hreply _ (hmet rfl rfl)
  | unnamed => exact hreply _ (hmet rfl rfl)
  | ignored => exact hmet rfl rfl
  | garbled => exact hmet rfl rfl
  | dispatched hdisp =>
      rename_i ub old h
      apply wp_final
      apply ((phases_homed hrestricted hnames (hstays ub old h hdisp)).serve _).run
      refine ⟨?_, rfl, .start⟩
      constructor
      · intro pp di realname hmem
        exact absurd (List.mem_singleton.mp hmem) nofun
      · exact hs.cached

/-- A server that is restricted to its home directory only finds and caches directories in the tree of
the home directory, in every run in which no request strays. -/
theorem inTree_history (hrestricted : cfg.homedirRestricted = true) (hnames : KeepsNames Fs)
    (fs : Fs) (cwd : Cwd) (now : ℤ) (arrivals : List (Arrival Fs))
    (hstays : ∀ r ∈ history cfg (initServer cfg fs cwd now) arrivals, RoundStaysIn cfg r) :
    ∀ r ∈ history cfg (initServer cfg fs cwd now) arrivals, Homed cfg r.after := by
  intro r hr
  obtain ⟨before, after, hrun⟩ := List.append_of_mem hr
  have hstart : Homed cfg (initServer cfg fs cwd now) := by
    constructor
    · exact fun _ _ _ hmem => absurd hmem List.not_mem_nil
    · intro di key hkey
      rw [FifoCache.fCacheGetKey, slot_initServer] at hkey
      cases hkey
  have hboth := rounds_induction (I := fun _ s => HostTable s.htab ∧ Homed cfg s) []
    ⟨hostTable_initHtab, hstart⟩ ?_ hrun
  · exact hboth.2.2
  · rintro before' r' after' hrun' hafter ⟨htable, hs⟩
    have hmem : r' ∈ history cfg (initServer cfg fs cwd now) arrivals := by
      unfold history
      rw [hrun']
      exact List.mem_append_right _ List.mem_cons_self
    rw [hafter]
    refine ⟨hostTable_serverRound cfg r'.input htable,
      inTree_serverRound hrestricted hnames r'.input htable ?_ hs⟩
    exact hstays r' hmem

/-- The home directory with a directory `d` in it. -/
def subDisk : Disk := Scenario.disk [("h/d", .dir)]

/-- A request to list it. -/
def subListing : Arrival Disk :=
  Scenario.arrival 100 7 (Scenario.datagram .getDir 5 0 (Scenario.path "d") [] Scenario.length_path_d)

theorem staysIn_subListing {r : Request} (hcmd : Command.ofByte r.ub.cmd = .getDir)
    (hpath : r.s1 = Scenario.path "d") : StaysIn Scenario.config r subDisk [text "h"] := by
  have hparse : parsePath (Scenario.path "d") =
      .ok ⟨text "d", text "d", 1, text ".", 1, none⟩ := by decide
  have hlookups : r.lookups Scenario.config = [(Scenario.path "d", true)] := by
    unfold Request.lookups
    rw [hcmd, hpath]
  have henter : Posix.chdir subDisk [text "h"] (text "d") = some [text "h", text "d"] := by decide
  have hhome : Posix.chdir subDisk [text "h", text "d"] (text "/h") = some [text "h"] := by decide
  -- the server goes back home from the directory, so it never stands elsewhere when it looks it up
  have hstanding : ∀ c, Standing Scenario.config r subDisk [text "h"] c → c = [text "h"] := by
    intro c hc
    induction hc with
    | start => rfl
    | back _ hl hpp hchdir ih =>
        rw [hlookups, List.mem_singleton] at hl
        subst ih hl
        cases hparse.symm.trans hpp
        cases henter.symm.trans hchdir
        exact congrArg (·.getD [text "h", text "d"]) hhome
  constructor
  · intro l hl pp hpp c hc
    rw [hlookups, List.mem_singleton] at hl
    subst hl
    cases hparse.symm.trans hpp
    cases hstanding c hc
    rintro ⟨c', realname, hchdir, hname, -, hnot⟩
    cases henter.symm.trans hchdir
    cases hname
    exact hnot (by decide)
  · intro hmake
    rw [hcmd] at hmake
    cases hmake

/-- Listing the directory leads into it, and nowhere else. -/
theorem inTree_history_listing :
    ∃ r ∈ history Scenario.config (initServer Scenario.config subDisk [text "h"] 0) [subListing],
      .validated ⟨text "d", text "d", 1, text "d", 3, none⟩ 0 (text "/h/d") ∈ r.after.trace ∧
        Homed Scenario.config r.after := by
  have hfound : .validated ⟨text "d", text "d", 1, text "d", 3, none⟩ 0 (text "/h/d") ∈
      (history Scenario.config (initServer Scenario.config subDisk [text "h"] 0)
        [subListing]).flatMap fun r => r.after.trace := by decide +kernel
  obtain ⟨r, hr, hmem⟩ := List.mem_flatMap.mp hfound
  refine ⟨r, hr, hmem, ?_⟩
  refine inTree_history rfl ⟨fun _ _ _ _ => rfl, fun _ _ _ _ => rfl, fun _ _ _ _ _ => rfl⟩
    subDisk [text "h"] 0 [subListing] ?_ r hr
  intro r hr ub old h hdisp
  obtain ⟨hinput, hbefore⟩ := of_mem_rounds_singleton hr
  obtain ⟨ub', hdecode, hdata, hcmd⟩ : ∃ ub', Ubuf.decode subListing.bytes = some ub' ∧
      ub'.data = Scenario.path "d" ∧ Command.ofByte ub'.cmd = .getDir :=
    ⟨_, rfl, by decide, by decide⟩
  rw [hinput, hbefore]
  have hub : ub = ub' := by
    have hreads := hdisp.reads.decode
    rw [hinput, hdecode] at hreads
    exact (Option.some.inj hreads).symm
  subst hub
  exact staysIn_subListing hcmd hdata

/-- The home directory `/h`, and in it a link `l` to its neighbour `/h2`. -/
def neighbourDisk : LinkedDisk where
  disk := Scenario.disk [("h2", .dir)]
  links := [([text "h", text "l"], [text "h2"])]

/-- The server is restricted to its home directory and gets one request, to list `l`. -/
def neighbourRun : List (Effect.Round (Arrival LinkedDisk) (Server LinkedDisk Path)) :=
  history Scenario.config (initServer Scenario.config neighbourDisk [text "h"] 0)
    [{ client := Scenario.client
       datagram := Scenario.datagram .getDir 5 0 (Scenario.path "l") []
       now := 100
       genNextKey := 7
       findHostname := none
       world := id
       behind := []
       junk := 0 }]

/-- It finds `/h2`. -/
theorem neighbourRun_not_homed : Scenario.config.homedirRestricted = true ∧
    ∃ r ∈ neighbourRun, ¬ Homed Scenario.config r.after := by
  have hfound : .validated ⟨text "l", text "l", 1, text "l", 3, none⟩ 0 (text "/h2") ∈
      neighbourRun.flatMap fun r => r.after.trace := by decide +kernel
  obtain ⟨r, hr, hmem⟩ := List.mem_flatMap.mp hfound
  have hnot : ¬ InTree Scenario.config.homeDir (text "/h2") := by decide
  exact ⟨rfl, r, hr, fun hhomed => hnot (hhomed.validated _ _ _ hmem)⟩

end Fsp
