import Fsp.Scenario
import Fsp.Server.OwnerLines
import Mathlib.Logic.Function.Basic

/-!
# What the access files say

The rights of a directory are stored in files inside it.  `Contents` is what these files contain, by
name; a directory `Keeps` them if the system calls do to them what the manual says, which a disk does
in which no other kind of object has one of their names.  `save_access_rights` then leaves exactly
`savedContents` there, and `load_access_rights` reads the rights off the contents.

Rights that were saved are not always loaded again: `load_access_rights` never gets past the end of
the first line of the owner file.
-/

namespace Fsp

open Bytes Effect

variable {Fs Cwd : Type}

/-! ## Contents -/

/-- What the files of a directory contain, by name. -/
abbrev Contents := ByteString → Option ByteString

/-- A file with the password, if there is one. -/
def withPassword (file : ByteString) (password : Option ByteString) (C : Contents) : Contents :=
  match password with
  | some password => Function.update C file (some (password ++ text "\n"))
  | none => C

/-- Empty files with the given names. -/
def emptyFiles (files : List ByteString) : Contents :=
  fun n => if n ∈ files then some [] else none

/-- The access files that `save_access_rights` leaves. -/
def savedContents (cfg : Config) (d : DirInfo) : Contents :=
  if cfg.useAccessFiles then
    let C := withPassword fspOwnerpassword d.ownerPassword
      (withPassword fspPassword d.publicPassword (emptyFiles (flagFiles d.protection)))
    if d.owner ≠ [] then Function.update C fspOwner (some (dumpIptab d.owner)) else C
  else emptyFiles []

/-! ## Flags -/

/-- The rights that have a flag file, and whether a file grants the right. -/
def flagTable : List (UInt8 × ByteString × Bool) :=
  [(dirGet, fspNoget, false), (dirDel, fspDel, true), (dirAdd, fspAdd, true),
    (dirMkdir, fspMkdir, true), (dirRename, fspRename, true), (dirList, fspNolist, false)]

/-- The bits of a protection are those the flag files stand for. -/
def SameFlags (protection : UInt8) (C : Contents) : Prop :=
  ∀ f ∈ flagTable, permits protection f.1 = ((C f.2.1).isSome == f.2.2)

/-- The protection `load_access_rights` finds where the files with `present` are. -/
def loadedProtection (present : ByteString → Bool) (p : UInt8) : UInt8 :=
  let p := if present fspNoget then p ^^^ dirGet else p
  let p := if present fspDel then p ||| dirDel else p
  let p := if present fspAdd then p ||| dirAdd else p
  let p := if present fspMkdir then p ||| dirMkdir else p
  let p := if present fspRename then p ||| dirRename else p
  if present fspNolist then p ^^^ dirList else p

/-- Every bit is loaded from its own flag file. -/
theorem permits_loadedProtection (present : ByteString → Bool) {p : UInt8}
    (hp : p = dirList ||| dirGet ∨ p = dirList ||| dirGet ||| dirReadme) :
    ∀ f ∈ flagTable, permits (loadedProtection present p) f.1 = (present f.2.1 == f.2.2) := by
  have hbits : ∀ (p : UInt8), p = dirList ||| dirGet ∨ p = dirList ||| dirGet ||| dirReadme →
      ∀ noget del add mkdir rename nolist : Bool,
        let p := if noget then p ^^^ dirGet else p
        let p := if del then p ||| dirDel else p
        let p := if add then p ||| dirAdd else p
        let p := if mkdir then p ||| dirMkdir else p
        let p := if rename then p ||| dirRename else p
        let p := if nolist then p ^^^ dirList else p
        permits p dirGet = (noget == false) ∧ permits p dirDel = (del == true) ∧
          permits p dirAdd = (add == true) ∧ permits p dirMkdir = (mkdir == true) ∧
          permits p dirRename = (rename == true) ∧ permits p dirList = (nolist == false) := by
    rintro p (rfl | rfl) <;> decide
  obtain ⟨hget, hdel, hadd, hmkdir, hrename, hlist⟩ := hbits p hp (present fspNoget)
    (present fspDel) (present fspAdd) (present fspMkdir) (present fspRename) (present fspNolist)
  intro f hf
  simp only [flagTable, List.mem_cons, List.not_mem_nil, or_false] at hf
  rcases hf with rfl | rfl | rfl | rfl | rfl | rfl
  · exact hget
  · exact hdel
  · exact hadd
  · exact hmkdir
  · exact hrename
  · exact hlist

/-- No other files are flag files. -/
theorem mem_flagTable_of_mem_flagFiles {p : UInt8} {n : ByteString} (hn : n ∈ flagFiles p) :
    n ∈ flagTable.map fun f => f.2.1 := by
  have hfiles : ∀ get del add mkdir rename list : Bool,
      ∀ n ∈ (if get then [] else [fspNoget]) ++ (if del then [fspDel] else []) ++
        (if add then [fspAdd] else []) ++ (if mkdir then [fspMkdir] else []) ++
        (if rename then [fspRename] else []) ++ (if list then [] else [fspNolist]),
        n ∈ flagTable.map fun f => f.2.1 := by
    decide +kernel
  exact hfiles _ _ _ _ _ _ n hn

/-- The flag files of a protection stand for its bits. -/
theorem sameFlags_flagFiles (p : UInt8) : SameFlags p (emptyFiles (flagFiles p)) := by
  have hfiles : ∀ get del add mkdir rename list : Bool,
      let files := (if get then [] else [fspNoget]) ++ (if del then [fspDel] else []) ++
        (if add then [fspAdd] else []) ++ (if mkdir then [fspMkdir] else []) ++
        (if rename then [fspRename] else []) ++ (if list then [] else [fspNolist])
      get = (decide (fspNoget ∈ files) == false) ∧ del = (decide (fspDel ∈ files) == true) ∧
        add = (decide (fspAdd ∈ files) == true) ∧ mkdir = (decide (fspMkdir ∈ files) == true) ∧
        rename = (decide (fspRename ∈ files) == true) ∧
        list = (decide (fspNolist ∈ files) == false) := by
    decide +kernel
  obtain ⟨hget, hdel, hadd, hmkdir, hrename, hlist⟩ := hfiles (permits p dirGet)
    (permits p dirDel) (permits p dirAdd) (permits p dirMkdir) (permits p dirRename)
    (permits p dirList)
  have hpresent : ∀ n, (emptyFiles (flagFiles p) n).isSome = decide (n ∈ flagFiles p) := by
    intro n
    by_cases hn : n ∈ flagFiles p <;> simp [emptyFiles, hn]
  intro f hf
  rw [hpresent]
  simp only [flagTable, List.mem_cons, List.not_mem_nil, or_false] at hf
  rcases hf with rfl | rfl | rfl | rfl | rfl | rfl
  · exact hget
  · exact hdel
  · exact hadd
  · exact hmkdir
  · exact hrename
  · exact hlist

/-! ## Passwords -/

/-- What `load_password` can have read. -/
structure Word (p : ByteString) : Prop where
  length_le : p.length ≤ 79
  blank : ∀ c ∈ p, isSpace c = false
  zero : (0 : UInt8) ∉ p

/-- A password that a password file can hold. -/
structure Password (p : ByteString) : Prop extends Word p where
  ne_nil : p ≠ []

/-- `save_password` and `load_password` are inverse to each other on passwords. -/
theorem scanPassword_append {p : ByteString} (hp : Password p) :
    scanPassword (p ++ text "\n") = some p := by
  obtain ⟨c, rest, rfl⟩ := List.exists_cons_of_ne_nil hp.ne_nil
  have hfront : ((c :: rest) ++ text "\n").dropWhile isSpace = (c :: rest) ++ text "\n" := by
    rw [List.cons_append, List.dropWhile_cons, hp.blank c List.mem_cons_self]
    rfl
  have hword : (((c :: rest) ++ text "\n").take 79).takeWhile (fun c => !isSpace c) =
      c :: rest := by
    rw [← List.take_takeWhile, List.takeWhile_append_of_pos]
    · show List.take 79 ((c :: rest) ++ []) = c :: rest
      rw [List.append_nil, List.take_of_length_le hp.length_le]
    · intro c hc
      rw [hp.blank c hc]
      rfl
  unfold scanPassword
  simp only [hfront, hword, List.cons_ne_nil, if_false, cstr_eq_self hp.zero]

theorem word_scanPassword {content p : ByteString} (h : scanPassword content = some p) :
    Word p := by
  unfold scanPassword at h
  dsimp only at h
  split at h
  · cases h
  · obtain rfl := Option.some.inj h
    have hsub := List.takeWhile_sublist (fun c : UInt8 => c != 0)
      (l := ((content.dropWhile isSpace).take 79).takeWhile fun c => !isSpace c)
    refine ⟨?_, ?_, zero_notMem_cstr _⟩
    · have hword := (List.takeWhile_sublist (fun c => !isSpace c)
        (l := (content.dropWhile isSpace).take 79)).length_le
      have htake := List.length_take_le 79 (content.dropWhile isSpace)
      exact hsub.length_le.trans (hword.trans htake)
    · intro c hc
      have hkept := List.mem_takeWhile_imp (hsub.subset hc)
      simpa using hkept

/-! ## What is saved -/

section

variable {cfg : Config} {d : DirInfo}

theorem withPassword_self (file : ByteString) (password : Option ByteString) {C : Contents}
    (hC : C file = none) :
    withPassword file password C file = password.map fun password => password ++ text "\n" := by
  cases password with
  | none => exact hC
  | some password => exact Function.update_self _ _ _

theorem withPassword_of_ne {file n : ByteString} (hn : n ≠ file) (password : Option ByteString)
    (C : Contents) : withPassword file password C n = C n := by
  cases password with
  | none => rfl
  | some password => exact Function.update_of_ne hn _ _

theorem savedContents_of_ne (huse : cfg.useAccessFiles = true) {n : ByteString}
    (hn : n ≠ fspOwner) : savedContents cfg d n =
      withPassword fspOwnerpassword d.ownerPassword
        (withPassword fspPassword d.publicPassword (emptyFiles (flagFiles d.protection))) n := by
  unfold savedContents
  rw [if_pos huse]
  split
  · exact Function.update_of_ne hn _ _
  · rfl

/-- A file that is no flag file. -/
theorem emptyFiles_eq_none {n : ByteString} (hn : n ∉ flagTable.map fun f => f.2.1) :
    emptyFiles (flagFiles d.protection) n = none :=
  if_neg fun h => hn (mem_flagTable_of_mem_flagFiles h)

theorem savedContents_flag (huse : cfg.useAccessFiles = true) :
    SameFlags d.protection (savedContents cfg d) := by
  intro f hf
  have hne : ∀ f ∈ flagTable, f.2.1 ≠ fspOwner ∧ f.2.1 ≠ fspOwnerpassword ∧
      f.2.1 ≠ fspPassword := by
    decide
  obtain ⟨howner, hownerpassword, hpassword⟩ := hne f hf
  rw [savedContents_of_ne huse howner, withPassword_of_ne hownerpassword,
    withPassword_of_ne hpassword]
  exact sameFlags_flagFiles d.protection f hf

theorem savedContents_password (huse : cfg.useAccessFiles = true) :
    savedContents cfg d fspPassword =
      d.publicPassword.map fun password => password ++ text "\n" := by
  rw [savedContents_of_ne huse (by decide), withPassword_of_ne (by decide),
    withPassword_self _ _ (emptyFiles_eq_none (by decide))]

theorem savedContents_ownerpassword (huse : cfg.useAccessFiles = true) :
    savedContents cfg d fspOwnerpassword =
      d.ownerPassword.map fun password => password ++ text "\n" := by
  rw [savedContents_of_ne huse (by decide), withPassword_self]
  rw [withPassword_of_ne (by decide), emptyFiles_eq_none (by decide)]

theorem savedContents_owner (huse : cfg.useAccessFiles = true) :
    savedContents cfg d fspOwner = if d.owner = [] then none else some (dumpIptab d.owner) := by
  unfold savedContents
  rw [if_pos huse]
  by_cases howner : d.owner = []
  · rw [if_pos howner, if_neg (not_not.mpr howner), withPassword_of_ne (by decide),
      withPassword_of_ne (by decide), emptyFiles_eq_none (by decide)]
  · rw [if_neg howner, if_pos howner, Function.update_self]

end

/-! ## What is loaded -/

/-- What the access files say. -/
structure Loaded (C : Contents) (d : DirInfo) : Prop where
  flags : SameFlags d.protection C
  publicPassword : d.publicPassword = (C fspPassword).bind scanPassword
  owner : ∃ gethostbyname, loadedOwner gethostbyname (C fspOwner) = some d.owner
  ownerPassword : d.ownerPassword =
    (C fspOwner).bind fun _ => (C fspOwnerpassword).bind scanPassword

/-- The access rights of two directories are the same. -/
structure SameRights (d d' : DirInfo) : Prop where
  flags : ∀ f ∈ flagTable, permits d'.protection f.1 = permits d.protection f.1
  publicPassword : d'.publicPassword = d.publicPassword
  ownerPassword : d'.ownerPassword = d.ownerPassword
  owner : d'.owner = d.owner

/-- The rights of a directory as the access files can hold them: what the passwords and the entries
of the owner table look like, and that there is no password for owners without owners. -/
structure Savable (d : DirInfo) : Prop where
  publicPassword : ∀ p ∈ d.publicPassword, Password p
  ownerPassword : ∀ p ∈ d.ownerPassword, Password p
  parsed : ∀ r ∈ d.owner, ∃ gethostbyname line, (0 : UInt8) ∉ line ∧
    parseIpline gethostbyname line = some r
  length_le : ∀ r ∈ d.owner, (dumpRecord r).length ≤ 255
  owned : d.ownerPassword ≠ none → d.owner ≠ []

/-- Rights that the owner table survives are loaded as they were saved. -/
theorem sameRights_of_loaded {cfg : Config} (huse : cfg.useAccessFiles = true) {d d' : DirInfo}
    (hd : Savable d) (howner : ∀ gethostbyname,
      loadedOwner gethostbyname (savedContents cfg d fspOwner) = some d.owner)
    (h : Loaded (savedContents cfg d) d') : SameRights d d' := by
  have hpassword : ∀ password : Option ByteString, (∀ p ∈ password, Password p) →
      (password.map fun password => password ++ text "\n").bind scanPassword = password := by
    intro password hpassword
    cases password with
    | none => rfl
    | some password => exact scanPassword_append (hpassword password rfl)
  refine ⟨?_, ?_, ?_, ?_⟩
  · intro f hf
    exact (h.flags f hf).trans (savedContents_flag huse f hf).symm
  · rw [h.publicPassword, savedContents_password huse, hpassword _ hd.publicPassword]
  · rw [h.ownerPassword, savedContents_owner huse, savedContents_ownerpassword huse,
      hpassword _ hd.ownerPassword]
    by_cases hnil : d.owner = []
    · rw [if_pos hnil]
      by_contra hne
      exact hd.owned (Ne.symm hne) hnil
    · rw [if_neg hnil]
      rfl
  · obtain ⟨gethostbyname, hloaded⟩ := h.owner
    rw [howner gethostbyname] at hloaded
    exact (Option.some.inj hloaded).symm

section

variable [Posix Fs Cwd]

/-- `load_access_rights` right after `save_access_rights` -/
def saveThenLoad (cfg : Config) (d d₀ : DirInfo) : Srv Fs Cwd DirInfo := do
  saveAccessRights cfg d
  loadAccessRights cfg d₀

/-- The rights are loaded as they were saved. -/
def LoadsBack (cfg : Config) (d d₀ : DirInfo) (s : Server Fs Cwd) : Prop :=
  ∃ d' s', saveThenLoad cfg d d₀ s = .ok d' s' ∧ SameRights d d'

/-- As long as the system is in a state with `Good`, the access files in `dir` are ordinary files
that can be created, written, read and removed, and no other file changes with one. -/
structure Keeps (Good : Fs → Prop) (dir : Cwd) : Prop where
  access : ∀ fs, Good fs → ∀ n ∈ accessFiles,
    Posix.access fs dir n = (Posix.readFile fs dir n).isSome
  size : ∀ fs, Good fs → ∀ n ∈ accessFiles,
    (Posix.stat fs dir n).map Stat.size = (Posix.readFile fs dir n).map List.length
  unlink : ∀ fs, Good fs → ∀ n ∈ accessFiles, Good (Posix.unlink fs dir n).2 ∧
    ∀ m ∈ accessFiles, Posix.readFile (Posix.unlink fs dir n).2 dir m =
      Function.update (Posix.readFile fs dir) n none m
  creat : ∀ fs, Good fs → ∀ n ∈ accessFiles, Good (Posix.creat fs dir n) ∧
    ∀ m ∈ accessFiles, Posix.readFile (Posix.creat fs dir n) dir m =
      Function.update (Posix.readFile fs dir) n (some ((Posix.readFile fs dir n).getD [])) m
  writeFile : ∀ fs, Good fs → ∀ n ∈ accessFiles, ∀ data, Good (Posix.writeFile fs dir n data) ∧
    ∀ m ∈ accessFiles, Posix.readFile (Posix.writeFile fs dir n data) dir m =
      Function.update (Posix.readFile fs dir) n (some data) m

/-- The access files in `dir` contain `C`. -/
structure Stores (Good : Fs → Prop) (dir : Cwd) (C : Contents) (fs : Fs) : Prop where
  good : Good fs
  read : ∀ n ∈ accessFiles, Posix.readFile fs dir n = C n

/-- The server is in `dir`, where the access files contain `C`. -/
def Holding (Good : Fs → Prop) (dir : Cwd) (C : Contents) (s : Server Fs Cwd) : Prop :=
  s.cwd = dir ∧ Stores Good dir C s.fs

variable {Good : Fs → Prop} {dir : Cwd} {C C' : Contents} {cfg : Config}

theorem Stores.congr {fs : Fs} (h : Stores Good dir C fs) (hC : ∀ n ∈ accessFiles, C n = C' n) :
    Stores Good dir C' fs :=
  ⟨h.good, fun n hn => (h.read n hn).trans (hC n hn)⟩

/-! ## Saving -/

/-- A call that changes one access file. -/
theorem holding_syscall {α : Type} {call : Fs → Cwd → α × Fs} {event : α → Event}
    {n : ByteString} {new : Option ByteString}
    (hcall : ∀ fs, Stores Good dir C fs → Good (call fs dir).2 ∧
      ∀ m ∈ accessFiles, Posix.readFile (call fs dir).2 dir m =
        Function.update (Posix.readFile fs dir) n new m) :
    Triple (Holding Good dir C) (syscall call event : Srv Fs Cwd α)
      (fun _ => Holding Good dir (Function.update C n new)) fun _ => False := by
  constructor
  rintro s ⟨hcwd, hstores⟩
  obtain ⟨hgood, hread⟩ := hcall s.fs hstores
  rw [← hcwd] at hgood hread
  refine ⟨hcwd, hgood, fun m hm => ?_⟩
  rw [← hcwd]
  refine (hread m hm).trans ?_
  by_cases hmn : m = n
  · subst hmn
    rw [Function.update_self, Function.update_self]
  · rw [Function.update_of_ne hmn, Function.update_of_ne hmn, hcwd]
    exact hstores.read m hm

variable (hkeeps : Keeps Good dir)
include hkeeps

theorem holding_unlink {n : ByteString} (hn : n ∈ accessFiles) :
    Triple (Holding Good dir C) (unlink n : Srv Fs Cwd Bool)
      (fun _ => Holding Good dir (Function.update C n none)) fun _ => False :=
  holding_syscall fun fs hs => hkeeps.unlink fs hs.good n hn

theorem holding_touch {n : ByteString} (hn : n ∈ accessFiles) :
    Triple (Holding Good dir C) (touch n : Srv Fs Cwd Unit)
      (fun _ => Holding Good dir (Function.update C n (some ((C n).getD [])))) fun _ => False := by
  apply holding_syscall
  intro fs hs
  rw [← hs.read n hn]
  exact hkeeps.creat fs hs.good n hn

theorem holding_writeFile {n data : ByteString} (hn : n ∈ accessFiles) :
    Triple (Holding Good dir C) (writeFile n data : Srv Fs Cwd Unit)
      (fun _ => Holding Good dir (Function.update C n (some data))) fun _ => False :=
  holding_syscall fun fs hs => hkeeps.writeFile fs hs.good n hn data

theorem holding_savePasswordIf {n : ByteString} (hn : n ∈ accessFiles)
    (password : Option ByteString) :
    Triple (Holding Good dir C) (savePasswordIf n password : Srv Fs Cwd Unit)
      (fun _ => Holding Good dir (withPassword n password C)) fun _ => False := by
  cases password with
  | none => exact triple_pure fun _ hs => hs
  | some password => exact holding_writeFile hkeeps hn

/-- All access files are removed. -/
theorem holding_unlinkAll :
    Triple (Holding Good dir C) (accessFiles.forM fun file => do
        let _ ← (unlink file : Srv Fs Cwd Bool)
        pure ())
      (fun _ => Holding Good dir (emptyFiles [])) fun _ => False := by
  have hloop := triple_forM (l := accessFiles) (E := fun _ : Server Fs Cwd => False)
    (I := fun before => Holding Good dir fun n => if n ∈ before then none else C n)
    (f := fun file => do
      let _ ← (unlink file : Srv Fs Cwd Bool)
      pure ()) fun before n hn => by
        apply triple_seq (holding_unlink hkeeps hn)
        intro _
        apply triple_pure
        rintro s ⟨hcwd, hstores⟩
        refine ⟨hcwd, hstores.congr fun m _ => ?_⟩
        by_cases hmn : m = n
        · simp [hmn]
        · simp [hmn]
  apply triple_mono hloop
  · rintro s ⟨hcwd, hstores⟩
    exact ⟨hcwd, hstores.congr fun m _ => by simp⟩
  · rintro _ s ⟨hcwd, hstores⟩
    refine ⟨hcwd, hstores.congr fun m hm => ?_⟩
    rw [if_pos hm]
    rfl
  · exact fun _ h => h

/-- The flag files are created. -/
theorem holding_touchAll {files : List ByteString} (hfiles : ∀ n ∈ files, n ∈ accessFiles) :
    Triple (Holding Good dir (emptyFiles [])) (files.forM touch : Srv Fs Cwd PUnit)
      (fun _ => Holding Good dir (emptyFiles files)) fun _ => False := by
  apply triple_forM (I := fun before => Holding Good dir (emptyFiles before))
  intro before n hn
  apply triple_mono (holding_touch hkeeps (hfiles n hn)) (fun _ hs => hs)
  · rintro _ s ⟨hcwd, hstores⟩
    refine ⟨hcwd, hstores.congr fun m _ => ?_⟩
    by_cases hmn : m = n
    · by_cases hbefore : n ∈ before <;> simp [emptyFiles, hmn, hbefore]
    · simp [emptyFiles, hmn]
  · exact fun _ h => h

/-- `save_access_rights` -/
theorem holding_saveAccessRights (d : DirInfo) :
    Triple (Holding Good dir C) (saveAccessRights cfg d : Srv Fs Cwd Unit)
      (fun _ => Holding Good dir (savedContents cfg d)) fun _ => False := by
  apply triple_seq (holding_unlinkAll hkeeps)
  intro _
  unfold savedContents
  split
  · apply triple_seq (holding_touchAll hkeeps fun n hn => mem_accessFiles_of_mem_flagFiles hn)
    intro _
    apply triple_seq (holding_savePasswordIf hkeeps (by decide) _)
    intro _
    apply triple_seq (holding_savePasswordIf hkeeps (by decide) _)
    intro _
    dsimp only
    split
    · exact holding_writeFile hkeeps (by decide)
    · exact triple_pure fun _ hs => hs
  · exact triple_pure fun _ hs => hs

/-! ## Loading -/

omit hkeeps in
/-- Looking at the system does not change it. -/
theorem holding_stat (path : ByteString) :
    Triple (Holding Good dir C) (stat path : Srv Fs Cwd (Option Stat))
      (fun sb s => Holding Good dir C s ∧ sb = Posix.stat s.fs s.cwd path) fun _ => False :=
  ⟨fun _ hs => ⟨hs, rfl⟩⟩

omit hkeeps in
theorem holding_query {α : Type} (call : Fs → Cwd → α) :
    Triple (Holding Good dir C) (query call : Srv Fs Cwd α)
      (fun a s => Holding Good dir C s ∧ a = call s.fs s.cwd) fun _ => False :=
  ⟨fun _ hs => ⟨hs, rfl⟩⟩

omit hkeeps in
theorem holding_readFile {n : ByteString} (hn : n ∈ accessFiles) :
    Triple (Holding Good dir C) (readFile n : Srv Fs Cwd (Option ByteString))
      (fun content s => Holding Good dir C s ∧ content = C n) fun _ => False := by
  apply triple_mono (holding_query _) (fun _ hs => hs) _ fun _ h => h
  rintro _ s ⟨hs, rfl⟩
  refine ⟨hs, ?_⟩
  rw [hs.1]
  exact hs.2.read n hn

/-- A password is looked for in a file that is not empty. -/
theorem holding_loadPasswordFile {n : ByteString} (hn : n ∈ accessFiles) :
    Triple (Holding Good dir C) (loadPasswordFile n : Srv Fs Cwd (Option ByteString))
      (fun password s => Holding Good dir C s ∧ password = (C n).bind scanPassword)
      fun _ => False := by
  have hsize : Triple (Holding Good dir C) (stat n : Srv Fs Cwd (Option Stat))
      (fun sb s => Holding Good dir C s ∧ sb.map Stat.size = (C n).map List.length)
      fun _ => False := by
    apply triple_mono (holding_stat n) (fun _ hs => hs) _ fun _ h => h
    rintro _ s ⟨hs, rfl⟩
    refine ⟨hs, ?_⟩
    rw [hs.1, hkeeps.size s.fs hs.2.good n hn, hs.2.read n hn]
  apply triple_seq hsize
  intro sb
  constructor
  rintro s ⟨hs, hmap⟩
  cases hcontent : C n with
  | none =>
      rw [hcontent] at hmap
      obtain rfl := Option.map_eq_none_iff.mp hmap
      exact ⟨hs, rfl⟩
  | some content =>
      rw [hcontent] at hmap
      obtain ⟨sf, rfl, hlength⟩ := Option.map_eq_some_iff.mp hmap
      dsimp only
      split
      · apply wp_seq ((holding_readFile hn).run s hs)
        rintro _ s' ⟨hs', rfl⟩
        rw [hcontent]
        exact ⟨hs', rfl⟩
      · rename_i hempty
        rw [hlength, Nat.not_lt, Nat.le_zero, List.length_eq_zero_iff] at hempty
        subst hempty
        exact ⟨hs, rfl⟩

theorem holding_loadProtection (p : UInt8) :
    Triple (Holding Good dir C) (loadProtection p : Srv Fs Cwd UInt8)
      (fun q s => Holding Good dir C s ∧ q = loadedProtection (fun n => (C n).isSome) p)
      fun _ => False := by
  constructor
  intro s hs
  have hpresent : ∀ n ∈ accessFiles, Posix.access s.fs s.cwd n = (C n).isSome := by
    intro n hn
    rw [hs.1, hkeeps.access s.fs hs.2.good n hn, hs.2.read n hn]
  have hrun : loadProtection p s = .ok (loadedProtection (Posix.access s.fs s.cwd) p) s := rfl
  unfold wp
  rw [hrun]
  refine ⟨hs, ?_⟩
  unfold loadedProtection
  rw [hpresent fspNoget (by decide), hpresent fspDel (by decide), hpresent fspAdd (by decide),
    hpresent fspMkdir (by decide), hpresent fspRename (by decide), hpresent fspNolist (by decide)]

/-- The owner table and the password of the owners, which is not looked for without owner file. -/
theorem holding_loadOwner :
    Triple (Holding Good dir C) (loadOwner : Srv Fs Cwd (List IPrange × Option ByteString))
      (fun owner s => Holding Good dir C s ∧
        (∃ gethostbyname, loadedOwner gethostbyname (C fspOwner) = some owner.1) ∧
        owner.2 = (C fspOwner).bind fun _ => (C fspOwnerpassword).bind scanPassword)
      fun _ => ∃ gethostbyname, loadedOwner gethostbyname (C fspOwner) = none := by
  apply triple_seq (triple_of_total (holding_readFile (by decide)))
  intro content
  cases content with
  | none =>
      apply triple_pure
      rintro s ⟨hs, hcontent⟩
      rw [← hcontent]
      exact ⟨hs, ⟨fun _ => none, rfl⟩, rfl⟩
  | some content =>
      constructor
      rintro s ⟨hs, hcontent⟩
      apply wp_seq ((triple_of_total (holding_query _)).run s hs)
      rintro gethostbyname s' ⟨hs', -⟩
      cases howner : addIplines gethostbyname (ownerLines content.length content) [] with
      | none =>
          refine ⟨gethostbyname, ?_⟩
          rw [← hcontent]
          exact howner
      | some owner =>
          apply wp_seq ((triple_of_total (holding_loadPasswordFile hkeeps (by decide))).run s' hs')
          rintro password s'' ⟨hs'', rfl⟩
          rw [← hcontent]
          exact ⟨hs'', ⟨gethostbyname, howner⟩, rfl⟩

/-- `load_access_rights` -/
theorem holding_loadAccessRights (huse : cfg.useAccessFiles = true) (d₀ : DirInfo) :
    Triple (Holding Good dir C) (loadAccessRights cfg d₀ : Srv Fs Cwd DirInfo)
      (fun d s => Holding Good dir C s ∧ Loaded C d)
      fun _ => ∃ gethostbyname, loadedOwner gethostbyname (C fspOwner) = none := by
  have hreadme : Triple (Holding Good dir C) (loadReadme cfg : Srv Fs Cwd (Option ByteString))
      (fun _ => Holding Good dir C)
      fun _ => ∃ gethostbyname, loadedOwner gethostbyname (C fspOwner) = none := by
    apply triple_seq (triple_of_total (holding_stat _))
    intro sb
    cases sb with
    | none => exact triple_pure fun _ h => h.1
    | some sf =>
        constructor
        rintro s ⟨hs, -⟩
        apply wp_seq ((triple_of_total (holding_query _)).run s hs)
        rintro content s' ⟨hs', -⟩
        cases content with
        | none => exact hs'
        | some content => exact hs'
  apply triple_seq hreadme
  intro readme
  rw [if_pos huse]
  constructor
  intro s hs
  apply wp_seq ((triple_of_total (holding_loadProtection hkeeps _)).run s hs)
  rintro p s₁ ⟨hs₁, hp⟩
  apply wp_seq ((triple_of_total (holding_loadPasswordFile hkeeps (by decide))).run s₁ hs₁)
  rintro publicPassword s₂ ⟨hs₂, hpublic⟩
  apply wp_seq ((holding_loadOwner hkeeps).run s₂ hs₂)
  rintro owner s₃ ⟨hs₃, howner, hpassword⟩
  refine ⟨hs₃, ?_, hpublic, howner, hpassword⟩
  intro f hf
  show permits p f.1 = _
  rw [hp]
  apply permits_loadedProtection
  · by_cases hreadme : readme.isSome
    · rw [if_pos hreadme]
      exact Or.inr rfl
    · rw [if_neg hreadme]
      exact Or.inl rfl
  · exact hf

/-! ## Saving and loading again -/

/-- In a directory that keeps access files, rights are loaded as they were saved exactly if the
owner table has one entry at most, and there is no end of line in its text. -/
theorem loadsBack_iff (huse : cfg.useAccessFiles = true) {d d₀ : DirInfo} (hd : Savable d)
    {s : Server Fs Cwd} (hcwd : s.cwd = dir) (hgood : Good s.fs) :
    LoadsBack cfg d d₀ s ↔ d.owner.length ≤ 1 ∧ ∀ r ∈ d.owner, OneLine r := by
  have hstart : Holding Good dir (Posix.readFile s.fs dir) s := ⟨hcwd, hgood, fun _ _ => rfl⟩
  have hload : Triple (Holding Good dir (Posix.readFile s.fs dir))
      (saveThenLoad cfg d d₀ : Srv Fs Cwd DirInfo)
      (fun d' s' => Holding Good dir (savedContents cfg d) s' ∧ Loaded (savedContents cfg d) d')
      fun _ => ∃ gethostbyname, loadedOwner gethostbyname (savedContents cfg d fspOwner) = none := by
    apply triple_seq (triple_of_total (holding_saveAccessRights hkeeps d))
    intro _
    exact holding_loadAccessRights hkeeps huse d₀
  have howner : ∀ gethostbyname,
      loadedOwner gethostbyname (savedContents cfg d fspOwner) = some d.owner ↔
        d.owner.length ≤ 1 ∧ ∀ r ∈ d.owner, OneLine r := by
    intro gethostbyname
    rw [savedContents_owner huse]
    apply loadedOwner_dumpIptab_iff gethostbyname _ hd.length_le
    intro r hr
    obtain ⟨_, line, hline, hparse⟩ := hd.parsed r hr
    exact (hostText_parseIpline hparse hline).1
  constructor
  · rintro ⟨d', s', hok, hsame⟩
    obtain ⟨-, hloaded⟩ := hload.of_ok hstart hok
    obtain ⟨gethostbyname, hloaded⟩ := hloaded.owner
    rw [hsame.owner] at hloaded
    exact (howner gethostbyname).mp hloaded
  · intro hone
    rcases hload.cases hstart with ⟨d', s', hok, -, hloaded⟩ | ⟨_, _, -, gethostbyname, hnone⟩
    · exact ⟨d', s', hok, sameRights_of_loaded huse hd
        (fun gethostbyname => (howner gethostbyname).mpr hone) hloaded⟩
    · rw [(howner gethostbyname).mpr hone] at hnone
      cases hnone

end

/-! ## Disks -/

/-- On a disk, access files are kept in a directory where no directory has one of their names.  There
may be a home directory as well. -/
def KeptOn (home dir : Path) (d : Disk) : Prop :=
  (d.isDir home = true ∧ d.isDir dir = true) ∧ ∀ n ∈ accessFiles, d.isDir (dir ++ [n]) = false

instance (home dir : Path) (d : Disk) : Decidable (KeptOn home dir d) :=
  inferInstanceAs (Decidable (_ ∧ _))

theorem resolve_accessFile (dir : Path) {n : ByteString} (hn : n ∈ accessFiles) :
    Disk.resolve dir n = dir ++ [n] := by
  have hnames : ∀ n ∈ accessFiles, n.head? ≠ some 0x2F ∧ Disk.names n = [n] := by decide +kernel
  obtain ⟨hhead, hname⟩ := hnames n hn
  rw [Disk.resolve, if_neg hhead, hname]

/-- What an object in the place of a file contains. -/
def contentOf : Option Node → Option ByteString
  | some (.file content) => some content
  | _ => none

theorem readFile_disk (d : Disk) (dir : Path) {n : ByteString} (hn : n ∈ accessFiles) :
    Posix.readFile d dir n = contentOf (d.node (dir ++ [n])) := by
  show (match d.node (Disk.resolve dir n) with
    | some (.file content) => some content
    | _ => none) = _
  rw [resolve_accessFile dir hn]
  rfl

theorem KeptOn.node_ne {home dir : Path} {d : Disk} (h : KeptOn home dir d) {n : ByteString}
    (hn : n ∈ accessFiles) : d.node (dir ++ [n]) ≠ some .dir := by
  intro hdir
  have hfile := h.2 n hn
  rw [Disk.isDir, hdir] at hfile
  exact absurd hfile (by decide)

/-- A change of one access file, seen from the others. -/
theorem KeptOn.change {home dir : Path} {d d' : Disk} (h : KeptOn home dir d) {n : ByteString}
    (hn : n ∈ accessFiles) (new : Option Node) (hnew : new ≠ some .dir)
    (hnode : ∀ q, d'.node q = if q = dir ++ [n] then new else d.node q) :
    KeptOn home dir d' ∧ ∀ m ∈ accessFiles, Posix.readFile d' dir m =
      Function.update (Posix.readFile d dir) n (contentOf new) m := by
  have hdirs : ∀ q, d.isDir q = true → d'.isDir q = true := by
    intro q hq
    have hne : q ≠ dir ++ [n] := by
      rintro rfl
      rw [h.2 n hn] at hq
      cases hq
    rw [Disk.isDir, hnode, if_neg hne]
    exact hq
  refine ⟨⟨⟨hdirs _ h.1.1, hdirs _ h.1.2⟩, ?_⟩, ?_⟩
  · intro m hm
    rw [Disk.isDir, hnode]
    split
    · simpa using hnew
    · exact h.2 m hm
  · intro m hm
    rw [readFile_disk d' dir hm, hnode]
    by_cases hmn : m = n
    · subst hmn
      rw [if_pos rfl, Function.update_self]
    · rw [if_neg (by simpa using hmn), Function.update_of_ne hmn, readFile_disk d dir hm]

/-- What stands on the disk after an access file was removed, created or written. -/
theorem KeptOn.node_unlink {home dir : Path} {d : Disk} (h : KeptOn home dir d) {n : ByteString}
    (hn : n ∈ accessFiles) (q : Path) :
    (Posix.unlink d dir n).2.node q = if q = dir ++ [n] then none else d.node q := by
  have hne : dir ++ [n] ≠ [] := by simp
  show (d.whenNode _ (d.erase (Disk.resolve dir n))).2.node q = _
  rw [resolve_accessFile dir hn, h.2 n hn]
  cases hobject : d.node (dir ++ [n]) with
  | none =>
      show d.node q = _
      split
      · rw [← hobject]
        congr
      · rfl
  | some object =>
      show (d.erase (dir ++ [n])).node q = _
      exact d.node_erase hne q

theorem KeptOn.node_creat {home dir : Path} {d : Disk} (h : KeptOn home dir d) {n : ByteString}
    (hn : n ∈ accessFiles) (q : Path) :
    (Posix.creat d dir n).node q =
      if q = dir ++ [n] then some (.file ((contentOf (d.node (dir ++ [n]))).getD []))
      else d.node q := by
  have hne : dir ++ [n] ≠ [] := by simp
  have hparent : (dir ++ [n]).dropLast = dir := by simp
  have hcreat : Posix.creat d dir n =
      if (d.node (dir ++ [n])).isNone then d.write (dir ++ [n]) (.file []) else d := by
    show (if (d.node (Disk.resolve dir n)).isNone ∧ d.isDir (Disk.resolve dir n).dropLast then
      d.write (Disk.resolve dir n) (.file []) else d) = _
    simp only [resolve_accessFile dir hn, hparent, h.1.2, and_true]
  rw [hcreat]
  cases hobject : d.node (dir ++ [n]) with
  | none => exact d.node_write hne _ q
  | some object =>
      cases object with
      | dir => exact absurd hobject (h.node_ne hn)
      | file content =>
          show d.node q = _
          split
          · rename_i hq
            rw [hq]
            exact hobject
          · rfl

theorem KeptOn.node_writeFile {home dir : Path} {d : Disk} (h : KeptOn home dir d)
    {n : ByteString} (hn : n ∈ accessFiles) (data : ByteString) (q : Path) :
    (Posix.writeFile d dir n data).node q =
      if q = dir ++ [n] then some (.file data) else d.node q := by
  have hne : dir ++ [n] ≠ [] := by simp
  have hparent : (dir ++ [n]).dropLast = dir := by simp
  have hwrite : Posix.writeFile d dir n data = d.write (dir ++ [n]) (.file data) := by
    show (if ¬ d.isDir (Disk.resolve dir n) ∧ d.isDir (Disk.resolve dir n).dropLast then
      d.write (Disk.resolve dir n) (.file data) else d) = _
    rw [resolve_accessFile dir hn, hparent, h.1.2, h.2 n hn]
    exact if_pos ⟨Bool.false_ne_true, rfl⟩
  rw [hwrite]
  exact d.node_write hne _ q

theorem keeps_disk (home dir : Path) : Keeps (KeptOn home dir) dir := by
  constructor
  · intro d h n hn
    show (d.node (Disk.resolve dir n)).isSome = _
    rw [readFile_disk d dir hn, resolve_accessFile dir hn]
    have hnode := h.node_ne hn
    cases hobject : d.node (dir ++ [n]) with
    | none => rfl
    | some object =>
        cases object with
        | dir => exact absurd hobject hnode
        | file content => rfl
  · intro d h n hn
    show ((d.node (Disk.resolve dir n)).map Disk.statNode).map Stat.size = _
    rw [readFile_disk d dir hn, resolve_accessFile dir hn]
    have hnode := h.node_ne hn
    cases hobject : d.node (dir ++ [n]) with
    | none => rfl
    | some object =>
        cases object with
        | dir => exact absurd hobject hnode
        | file content => rfl
  · intro d h n hn
    exact h.change hn none (by simp) (h.node_unlink hn)
  · intro d h n hn
    rw [readFile_disk d dir hn]
    exact h.change hn _ (by simp) (h.node_creat hn)
  · intro d h n hn data
    exact h.change hn (some (.file data)) (by simp) (h.node_writeFile hn data)

/-! ### Two directories -/

/-- The server in its home directory, where there is one of each kind of access file. -/
def storedStart : Server Disk Path :=
  Scenario.start Scenario.config [("h/.FSP_OK_DEL", Scenario.emptyFile),
    ("h/.FSP_OK_PASSWORD", .file (text "word")), ("h/.FSP_OWNER", .file (text "127.0.0.1 N"))]

/-- The record of an owner at the given address. -/
def ownerRecord (host : UInt8) : IPrange :=
  ⟨fun j => if j = 0 then host else 10, fun j => if j = 0 then host else 10, text "OMe"⟩

/-- Rights to add and to list, passwords, and owners. -/
def storedRights (hosts : List UInt8) : DirInfo :=
  { (default : DirInfo) with
    owner := hosts.map ownerRecord
    protection := dirAdd ||| dirList
    publicPassword := some (text "hello")
    ownerPassword := some (text "secret") }

theorem savable_storedRights {hosts : List UInt8} (hhosts : ∀ host ∈ hosts, host = 1 ∨ host = 2)
    (hne : hosts ≠ []) : Savable (storedRights hosts) := by
  have hpassword : ∀ p ∈ [text "hello", text "secret"], p ≠ [] ∧ p.length ≤ 79 ∧
      (∀ c ∈ p, isSpace c = false) ∧ (0 : UInt8) ∉ p := by decide +kernel
  have hsavable : ∀ p ∈ [text "hello", text "secret"], Password p := fun p hp =>
    let ⟨h₁, h₂, h₃, h₄⟩ := hpassword p hp
    ⟨⟨h₂, h₃, h₄⟩, h₁⟩
  have hrecord : ∀ host : UInt8, host = 1 ∨ host = 2 →
      HostText (ownerRecord host).text ∧ (0 : UInt8) ∉ dumpRecord (ownerRecord host) ∧
        (dumpRecord (ownerRecord host)).length ≤ 255 := by
    intro host hhost
    have hzero : (0 : UInt8) ∉ text "OMe" := by decide
    refine ⟨⟨0x4F, text "Me", rfl, by decide, by decide, ⟨by decide, by decide⟩, hzero⟩, ?_⟩
    rcases hhost with rfl | rfl <;> decide +kernel
  have howner : ∀ r ∈ (storedRights hosts).owner, ∃ host, (host = 1 ∨ host = 2) ∧
      ownerRecord host = r := by
    intro r hr
    obtain ⟨host, hhost, rfl⟩ := List.mem_map.mp hr
    exact ⟨host, hhosts host hhost, rfl⟩
  refine ⟨?_, ?_, ?_, ?_, ?_⟩
  · rintro p ⟨⟩
    exact hsavable _ (by simp)
  · rintro p ⟨⟩
    exact hsavable _ (by simp)
  · intro r hr
    obtain ⟨host, hhost, rfl⟩ := howner r hr
    obtain ⟨htext, hzero, -⟩ := hrecord host hhost
    exact ⟨fun _ => none, _, hzero, parseIpline_dumpRecord _ htext⟩
  · intro r hr
    obtain ⟨host, hhost, rfl⟩ := howner r hr
    exact (hrecord host hhost).2.2
  · intro _ hnil
    exact hne (List.map_eq_nil_iff.mp hnil)

theorem keptOn_storedStart : KeptOn [text "h"] [text "h"] storedStart.fs := by decide +kernel

/-- A single owner is kept. -/
theorem loadsBack_storedRights :
    LoadsBack Scenario.config (storedRights [1]) default storedStart := by
  have hlines : ∀ r ∈ (storedRights [1]).owner, OneLine r := by
    intro r hr
    obtain rfl := List.mem_singleton.mp hr
    have hends : ∀ c ∈ text "OMe", ¬ EndsLine c := by decide +kernel
    exact hends
  exact (loadsBack_iff (keeps_disk [text "h"] [text "h"]) rfl (savable_storedRights (by simp) (by simp)) rfl
    keptOn_storedStart).mpr ⟨le_rfl, hlines⟩

/-- Of two owners, one is lost. -/
theorem storedRights_not_loadsBack : Savable (storedRights [1, 2]) ∧
    ¬ LoadsBack Scenario.config (storedRights [1, 2]) default storedStart := by
  refine ⟨savable_storedRights (by simp) (by simp), ?_⟩
  rintro ⟨d', s', hok, hsame⟩
  have hlost : (match saveThenLoad Scenario.config (storedRights [1, 2]) default storedStart with
    | .ok d _ => d.owner.length
    | .error _ _ => 0) = 1 := by decide +kernel
  rw [hok] at hlost
  have htwo : d'.owner.length = 2 := by
    rw [hsame.owner]
    rfl
  simp only at hlost
  omega

end Fsp
