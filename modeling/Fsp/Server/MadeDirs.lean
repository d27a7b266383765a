import Fsp.Server.HostMask
import Fsp.Server.Refused

/-!
# The cache entry of a new directory

`server_make_dir` copies the directory information of the parent for the new directory, adds an owner,
writes the access files, and puts the copy into the cache.  Once the entry is gone, `validate_path`
builds another one from what is on disk.  The two are the same exactly if access files are used at
all, if neither the parent nor the new directory has a readme, and if no password of the parent is
empty: the copy keeps the bit that says that there is a readme, an empty password is saved as one
that `load_password` does not find, and without access files the owner is nowhere but in the cache.
-/

namespace Fsp

open Bytes Effect

variable {Fs Cwd : Type} {cfg : Config}

/-! ## The creator -/

/-- The address in the owner record of a new directory, octet 3 being the most significant one. -/
def creatorOctets (bigEndian : Bool) (inetNum : UInt32) (j : Fin 4) : UInt8 :=
  if bigEndian then 0 else octet inetNum (3 - j)

/-- The owner record of a new directory, as it is read. -/
def creatorRecord (bigEndian : Bool) (inetNum : UInt32) : IPrange :=
  ⟨creatorOctets bigEndian inetNum, creatorOctets bigEndian inetNum, text "OCreator"⟩

theorem dottedQuad_eq (bigEndian : Bool) (inetNum : UInt32) :
    dottedQuad bigEndian inetNum = dottedDecimal (creatorOctets bigEndian inetNum) := by
  have hbyte : ∀ j, decimal (if bigEndian then 0 else (octet inetNum j).toNat) =
      decimal (if bigEndian then 0 else octet inetNum j).toNat := by
    intro j
    cases bigEndian <;> rfl
  simp only [dottedQuad, hbyte, dottedDecimal, writeMask, writeMore, List.flatMap_cons,
    List.flatMap_nil, MaskComponent.write, octetDigits, creatorOctets, List.append_assoc,
    List.append_nil]
  rfl

/-- The line is accepted, whatever the address. -/
theorem parseIpline_creatorLine (gethostbyname : ByteString → Option UInt32) (bigEndian : Bool)
    (inetNum : UInt32) :
    parseIpline gethostbyname (creatorLine bigEndian inetNum) =
      some (creatorRecord bigEndian inetNum) := by
  set quad := dottedDecimal (creatorOctets bigEndian inetNum)
  have hline : creatorLine bigEndian inetNum = quad ++ text " O Creator\n" := by
    rw [creatorLine, dottedQuad_eq]
  have hquad : ∀ c ∈ quad, (!isSpace c) = true := by
    intro c hc
    rw [not_isSpace_writeMask _ c hc]
    rfl
  obtain ⟨c, digits, hcons, hc⟩ : ∃ c digits, quad = c :: digits ∧ isDigit c = true := by
    obtain ⟨c, digits, hdigits, hc⟩ :=
      (octetDigits (creatorOctets bigEndian inetNum 3)).exists_cons
    obtain ⟨rest, hrest⟩ : ∃ rest,
        quad = (octetDigits (creatorOctets bigEndian inetNum 3)).val ++ rest := ⟨_, rfl⟩
    exact ⟨c, digits ++ rest, by rw [hrest, hdigits, List.cons_append], hc⟩
  have hskip : skipWhitespace (quad ++ text " O Creator\n") = quad ++ text " O Creator\n" := by
    rw [hcons, List.cons_append, skipWhitespace, List.dropWhile_cons, isSpace_of_isDigit hc]
    rfl
  have hhash : c ≠ 0x23 := by
    rintro rfl
    exact absurd hc (by decide)
  rw [parseIpline_eq_some]
  refine ⟨c, 0x4F, text " Creator\n",
    (creatorOctets bigEndian inetNum, creatorOctets bigEndian inetNum), ?_, hhash, ?_, by decide,
    ?_, ?_⟩
  · rw [hostField, hline, hskip, List.takeWhile_append_of_pos hquad, hcons]
    rfl
  · rw [behindField, hline, hskip, List.dropWhile_append_of_pos hquad]
    rfl
  · rw [if_pos (Or.inr hc), hline, hskip]
    exact parseIpnumber_dottedDecimal _ ⟨0x20, text "O Creator\n", rfl, rfl⟩
  · rfl

/-- The owner table of a new directory. -/
theorem addIpline_creatorLine (gethostbyname : ByteString → Option UInt32) (bigEndian : Bool)
    (inetNum : UInt32) :
    addIpline gethostbyname (creatorLine bigEndian inetNum) [] =
      some [creatorRecord bigEndian inetNum] := by
  rw [addIpline, parseIpline_creatorLine]
  rfl

theorem length_dumpRecord_creator_le (bigEndian : Bool) (inetNum : UInt32) :
    (dumpRecord (creatorRecord bigEndian inetNum)).length ≤ 255 := by
  have hdecimal : ∀ n < 256, (decimal n).length ≤ 3 := by decide +kernel
  have hrange : ∀ b : UInt8, (dumpRange b b).length ≤ 7 := by
    intro b
    have hb := hdecimal b.toNat b.toNat_lt
    have hminus : (text "-").length = 1 := rfl
    simp only [dumpRange, List.length_append, hminus]
    omega
  have h₀ := hrange (creatorOctets bigEndian inetNum 0)
  have h₁ := hrange (creatorOctets bigEndian inetNum 1)
  have h₂ := hrange (creatorOctets bigEndian inetNum 2)
  have h₃ := hrange (creatorOctets bigEndian inetNum 3)
  have hdot : (text ".").length = 1 := rfl
  have hspaces : (text "  ").length = 2 := rfl
  have htype : ((text "OCreator").take 1).length = 1 := rfl
  have hmessage : ((text "OCreator").drop 1).length = 7 := rfl
  simp only [dumpRecord, dumpRanges, creatorRecord, List.length_append, hdot, hspaces, htype,
    hmessage]
  omega

theorem hostText_creator (bigEndian : Bool) (inetNum : UInt32) :
    HostText (creatorRecord bigEndian inetNum).text := by
  have hzero : (0 : UInt8) ∉ text "OCreator" := by decide
  exact ⟨0x4F, text "Creator", rfl, by decide, by decide, ⟨by decide, by decide⟩, hzero⟩

/-- The owner of a new directory is saved and loaded again. -/
theorem loadedOwner_creator (gethostbyname : ByteString → Option UInt32) (bigEndian : Bool)
    (inetNum : UInt32) :
    loadedOwner gethostbyname (some (dumpIptab [creatorRecord bigEndian inetNum])) =
      some [creatorRecord bigEndian inetNum] := by
  have hline : ∀ c ∈ text "OCreator", ¬ EndsLine c := by decide +kernel
  set r := creatorRecord bigEndian inetNum
  have hmem : ∀ r' ∈ [r], r' = r := fun r' hr => List.mem_singleton.mp hr
  have hiff := @loadedOwner_dumpIptab_iff gethostbyname [r]
    (fun r' hr => by rw [hmem r' hr]; exact hostText_creator bigEndian inetNum)
    (fun r' hr => by rw [hmem r' hr]; exact length_dumpRecord_creator_le bigEndian inetNum)
  rw [if_neg (List.cons_ne_nil r [])] at hiff
  exact hiff.mpr ⟨le_rfl, fun r' hr => by rw [hmem r' hr]; exact hline⟩

/-! ## What is loaded -/

/-- The readme of a directory, from what `stat` says about the file and what is in it. -/
def readmeOf (cfg : Config) : Option Stat → Option ByteString → Option ByteString
  | some sf, some content =>
      some (cstr (content.take (min (cfg.packetsize.toNat - proBytes - 1) (sf.size % 2 ^ 32))))
  | _, _ => none

/-- The protection of a directory without access files. -/
def plainProtection (readme : Option ByteString) : UInt8 :=
  if readme.isSome then (dirList ||| dirGet) ||| dirReadme else dirList ||| dirGet

/-- How the protection comes about, and what there is without access files. -/
structure Built (cfg : Config) (d : DirInfo) : Prop where
  protection : ∃ present, d.protection = loadedProtection present (plainProtection d.readme)
  unused : cfg.useAccessFiles = false →
    d.owner = [] ∧ d.publicPassword = none ∧ d.ownerPassword = none

/-- The bits of a protection that no flag file stands for. -/
theorem permits_plain (present : ByteString → Bool) (readme : Option ByteString) :
    permits (loadedProtection present (plainProtection readme)) dirReadme = readme.isSome ∧
      permits (loadedProtection present (plainProtection readme)) dirOwner = false := by
  have hbits : ∀ noget del add mkdir rename nolist isReadme : Bool,
      let p := if isReadme then (dirList ||| dirGet) ||| dirReadme else dirList ||| dirGet
      let p := if noget then p ^^^ dirGet else p
      let p := if del then p ||| dirDel else p
      let p := if add then p ||| dirAdd else p
      let p := if mkdir then p ||| dirMkdir else p
      let p := if rename then p ||| dirRename else p
      let p := if nolist then p ^^^ dirList else p
      permits p dirReadme = isReadme ∧ permits p dirOwner = false := by
    decide
  exact hbits _ _ _ _ _ _ _

/-- A protection is made of its bits. -/
theorem protection_eq_of_permits {p q : UInt8}
    (hflags : ∀ f ∈ flagTable, permits p f.1 = permits q f.1)
    (hreadme : permits p dirReadme = permits q dirReadme)
    (howner : permits p dirOwner = permits q dirOwner) : p = q := by
  have hsum : ∀ p : UInt8, p =
      ([dirGet, dirDel, dirAdd, dirMkdir, dirRename, dirList, dirReadme, dirOwner].map fun b =>
        if permits p b then b else 0).foldl (· ||| ·) 0 :=
    forall_byte (by decide +kernel)
  have hget : permits p dirGet = permits q dirGet := hflags (dirGet, fspNoget, false) (by decide)
  have hdel : permits p dirDel = permits q dirDel := hflags (dirDel, fspDel, true) (by decide)
  have hadd : permits p dirAdd = permits q dirAdd := hflags (dirAdd, fspAdd, true) (by decide)
  have hmkdir : permits p dirMkdir = permits q dirMkdir :=
    hflags (dirMkdir, fspMkdir, true) (by decide)
  have hrename : permits p dirRename = permits q dirRename :=
    hflags (dirRename, fspRename, true) (by decide)
  have hlist : permits p dirList = permits q dirList :=
    hflags (dirList, fspNolist, false) (by decide)
  rw [hsum p, hsum q]
  simp only [List.map_cons, List.map_nil, hget, hdel, hadd, hmkdir, hrename, hlist, hreadme, howner]

section

variable [Posix Fs Cwd]

/-- The readme that is found in a directory. -/
def readmeIn (cfg : Config) (fs : Fs) (dir : Cwd) : Option ByteString :=
  readmeOf cfg (Posix.stat fs dir cfg.readmeFile) (Posix.readFile fs dir cfg.readmeFile)

theorem wp_loadReadme (s : Server Fs Cwd) :
    wp (loadReadme cfg) (fun readme _ => readme = readmeIn cfg s.fs s.cwd) (fun _ => False) s := by
  have hstat : wp (stat cfg.readmeFile) (fun sb s' => sb = Posix.stat s.fs s.cwd cfg.readmeFile ∧
      s'.fs = s.fs ∧ s'.cwd = s.cwd) (fun _ => False) s := ⟨rfl, rfl, rfl⟩
  apply wp_seq hstat
  rintro sb s' ⟨hsb, hfs, hcwd⟩
  unfold readmeIn
  rw [← hsb]
  cases sb with
  | none => rfl
  | some sf =>
      have hread : wp (readFile cfg.readmeFile)
          (fun content _ => content = Posix.readFile s.fs s.cwd cfg.readmeFile) (fun _ => False)
          s' := by
        show Posix.readFile s'.fs s'.cwd cfg.readmeFile = _
        rw [hfs, hcwd]
      apply wp_seq hread
      intro content s'' hcontent
      rw [← hcontent]
      cases content with
      | none => rfl
      | some content => rfl

theorem returns_loadProtection (p : UInt8) :
    Returns (fun q => ∃ present, q = loadedProtection present p)
      (loadProtection p : Srv Fs Cwd UInt8) := by
  constructor
  intro s
  have hrun : loadProtection p s = .ok (loadedProtection (Posix.access s.fs s.cwd) p) s := rfl
  unfold wp
  rw [hrun]
  exact ⟨_, rfl⟩

/-- What any directory information that was loaded is made of. -/
theorem wp_loadAccessRights_built (d₀ : DirInfo) (s : Server Fs Cwd) :
    wp (loadAccessRights cfg d₀) (fun d _ => d.readme = readmeIn cfg s.fs s.cwd ∧ Built cfg d)
      (fun _ => True) s := by
  apply wp_seq_of_total (wp_loadReadme s)
  intro readme s' hreadme
  apply Returns.run
  apply returns_ite
  · intro huse
    apply returns_bind (returns_loadProtection _)
    intro protection hprotection
    apply returns_bind (returns_true _)
    intro publicPassword _
    apply returns_bind (returns_true _)
    intro owner _
    refine returns_pure ⟨hreadme, hprotection, fun hoff => ?_⟩
    rw [huse] at hoff
    cases hoff
  · intro _
    exact returns_pure ⟨hreadme, ⟨fun _ => false, rfl⟩, fun _ => ⟨rfl, rfl, rfl⟩⟩

/-! ## The readme file -/

/-- The file is as it was. -/
structure SameFile (file : ByteString) (dir : Cwd) (fs fs' : Fs) : Prop where
  stat : Posix.stat fs' dir file = Posix.stat fs dir file
  readFile : Posix.readFile fs' dir file = Posix.readFile fs dir file

/-- No change of an access file in `dir` changes the file. -/
structure Apart (Good : Fs → Prop) (dir : Cwd) (file : ByteString) : Prop where
  unlink : ∀ fs, Good fs → ∀ n ∈ accessFiles, SameFile file dir fs (Posix.unlink fs dir n).2
  creat : ∀ fs, Good fs → ∀ n ∈ accessFiles, SameFile file dir fs (Posix.creat fs dir n)
  writeFile : ∀ fs, Good fs → ∀ n ∈ accessFiles, ∀ data,
    SameFile file dir fs (Posix.writeFile fs dir n data)

/-- What a name stands for in `dir`: an access file, or a file apart from them. -/
def StandsFor (Good : Fs → Prop) (dir : Cwd) (file : ByteString) : Option ByteString → Prop
  | some n => n ∈ accessFiles ∧ ∀ fs, Good fs → Posix.stat fs dir file = Posix.stat fs dir n ∧
      Posix.readFile fs dir file = Posix.readFile fs dir n
  | none => Apart Good dir file

variable {Good : Fs → Prop} {dir : Cwd}

/-- What is known of a file apart stays known. -/
theorem Apart.keeps {file : ByteString} (h : Apart Good dir file) (hkeeps : Keeps Good dir)
    (sb : Option Stat) (content : Option ByteString) :
    Keeps (fun fs => Good fs ∧ Posix.stat fs dir file = sb ∧ Posix.readFile fs dir file = content)
      dir where
  access fs hfs n hn := hkeeps.access fs hfs.1 n hn
  size fs hfs n hn := hkeeps.size fs hfs.1 n hn
  unlink fs hfs n hn := by
    obtain ⟨hgood, hread⟩ := hkeeps.unlink fs hfs.1 n hn
    have hsame := h.unlink fs hfs.1 n hn
    exact ⟨⟨hgood, hsame.stat.trans hfs.2.1, hsame.readFile.trans hfs.2.2⟩, hread⟩
  creat fs hfs n hn := by
    obtain ⟨hgood, hread⟩ := hkeeps.creat fs hfs.1 n hn
    have hsame := h.creat fs hfs.1 n hn
    exact ⟨⟨hgood, hsame.stat.trans hfs.2.1, hsame.readFile.trans hfs.2.2⟩, hread⟩
  writeFile fs hfs n hn data := by
    obtain ⟨hgood, hread⟩ := hkeeps.writeFile fs hfs.1 n hn data
    have hsame := h.writeFile fs hfs.1 n hn data
    exact ⟨⟨hgood, hsame.stat.trans hfs.2.1, hsame.readFile.trans hfs.2.2⟩, hread⟩

/-! ## Making a directory -/

/-- A directory is made, and the server can change into it. -/
structure Makes (Good : Fs → Prop) (dir : Cwd) (fullp : ByteString) (fs : Fs) (cwd : Cwd) :
    Prop where
  mkdir : (Posix.mkdir fs cwd fullp).1 = true
  chdir : Posix.chdir (Posix.mkdir fs cwd fullp).2 cwd fullp = some dir
  good : Good (Posix.mkdir fs cwd fullp).2

/-- The directory information of a new directory in the directory `d`. -/
structure CopyOf (cfg : Config) (inetNum : UInt32) (d e : DirInfo) : Prop where
  owner : e.owner = [creatorRecord cfg.bigEndian inetNum]
  protection : e.protection = d.protection
  publicPassword : e.publicPassword = d.publicPassword
  ownerPassword : e.ownerPassword = d.ownerPassword
  readme : e.readme = none

/-- The access files of a new directory in the directory `d`. -/
def newContents (cfg : Config) (inetNum : UInt32) (d : DirInfo) : Contents :=
  savedContents cfg { d with owner := [creatorRecord cfg.bigEndian inetNum] }

omit [Posix Fs Cwd] in
theorem copyOf_creatorInfo (gethostbyname : ByteString → Option UInt32) (inetNum : UInt32)
    (d : DirInfo) (t : ℤ) :
    CopyOf cfg inetNum d
      (creatorInfo gethostbyname (creatorLine cfg.bigEndian inetNum) d t) := by
  constructor <;> simp only [creatorInfo, addIpline_creatorLine, Option.getD_some]

omit [Posix Fs Cwd] in
theorem CopyOf.named {inetNum : UInt32} {d e : DirInfo} (h : CopyOf cfg inetNum d e)
    (realname : ByteString) : CopyOf cfg inetNum d { e with realname } :=
  ⟨h.owner, h.protection, h.publicPassword, h.ownerPassword, h.readme⟩

omit [Posix Fs Cwd] in
theorem savedContents_copyOf {inetNum : UInt32} {d e : DirInfo} (h : CopyOf cfg inetNum d e) :
    savedContents cfg e = newContents cfg inetNum d := by
  unfold newContents savedContents
  rw [h.owner, h.protection, h.publicPassword, h.ownerPassword]

/-- The end of `server_make_dir`: the rights are saved, and put into the cache. -/
theorem triple_saveNew {C : Contents} (hkeeps : Keeps Good dir) (newdir : DirInfo)
    (fullp line : ByteString) :
    Triple (Holding Good dir C) (do
        saveAccessRights cfg newdir
        let cwd ← getcwd
        let _ ← chdir cfg.homeDir
        let slot ← putDirInfo fullp { newdir with realname := cwd.getD line }
        pure (.ok slot) : Srv Fs Cwd (Except ByteString ℕ))
      (fun r s => ∃ slot realname, r = .ok slot ∧ Stores Good dir (savedContents cfg newdir) s.fs ∧
        s.dirStatCache.entry slot = { newdir with realname })
      fun _ => False := by
  apply triple_seq (holding_saveAccessRights hkeeps newdir)
  intro _
  apply triple_seq (holding_query _)
  intro cwd
  have hback : Triple (fun s => Holding Good dir (savedContents cfg newdir) s ∧
        cwd = Posix.getcwd s.fs s.cwd) (chdir cfg.homeDir : Srv Fs Cwd Bool)
      (fun _ s => Stores Good dir (savedContents cfg newdir) s.fs) fun _ => False := by
    constructor
    rintro s ⟨hs, -⟩
    unfold wp chdir
    cases Posix.chdir s.fs s.cwd cfg.homeDir with
    | none => exact hs.2
    | some home => exact hs.2
  apply triple_seq hback
  intro _
  constructor
  intro s hs
  exact ⟨_, cwd.getD line, rfl, hs, FifoCache.entry_fCachePut fullp _⟩

/-- All that was done since `s` is that a directory was made. -/
def JustMade (fullp : ByteString) (s s' : Server Fs Cwd) : Prop :=
  s'.fs = (Posix.mkdir s.fs s.cwd fullp).2 ∧ s'.cwd = s.cwd ∧ s'.dirStatCache = s.dirStatCache

/-- `server_make_dir` saves the rights that it puts into the cache. -/
theorem triple_serverMakeDir_saves (hkeeps : Keeps Good dir) {s : Server Fs Cwd} {pp : PPath}
    (hmakes : Makes Good dir pp.fullp s.fs s.cwd) (inetNum : UInt32) (di : ℕ) :
    Triple (fun s' => s' = s) (serverMakeDir cfg pp inetNum di)
      (fun r s' => ∃ slot, r = .ok slot ∧
        Stores Good dir (newContents cfg inetNum (s.dirStatCache.entry di)) s'.fs ∧
        CopyOf cfg inetNum (s.dirStatCache.entry di) (s'.dirStatCache.entry slot))
      fun _ => False := by
  have hmkdir : Triple (fun s' => s' = s) (mkdir pp.fullp)
      (fun ok s' => JustMade pp.fullp s s' ∧ ok = true) fun _ => False := by
    constructor
    rintro _ rfl
    exact ⟨⟨rfl, rfl, rfl⟩, hmakes.mkdir⟩
  apply triple_seq hmkdir
  intro ok
  apply triple_fact
  rintro rfl
  apply triple_ite _ fun h => absurd rfl h
  intro _
  have hdir : Triple (JustMade pp.fullp s) (dirInfo di)
      (fun d s' => JustMade pp.fullp s s' ∧ d = s.dirStatCache.entry di) fun _ => False := by
    constructor
    rintro s' ⟨hfs, hcwd, hcache⟩
    exact ⟨⟨hfs, hcwd, hcache⟩, by rw [hcache]⟩
  apply triple_seq hdir
  intro d
  apply triple_fact
  rintro rfl
  have hget : Triple (JustMade pp.fullp s) (get : Srv Fs Cwd (Server Fs Cwd))
      (fun _ => JustMade pp.fullp s) fun _ => False := ⟨fun _ hs => hs⟩
  apply triple_seq hget
  intro now
  have hquery : Triple (JustMade pp.fullp s) (query fun (fs : Fs) _ => Posix.gethostbyname fs)
      (fun _ => JustMade pp.fullp s) fun _ => False := ⟨fun _ hs => hs⟩
  apply triple_seq hquery
  intro gethostbyname
  have hchdir : Triple (JustMade pp.fullp s) (chdir pp.fullp)
      (fun _ => Holding Good dir (Posix.readFile (Posix.mkdir s.fs s.cwd pp.fullp).2 dir))
      fun _ => False := by
    constructor
    rintro s' ⟨hfs, hcwd, -⟩
    unfold wp chdir
    rw [hfs, hcwd, hmakes.chdir]
    exact ⟨rfl, hmakes.good, fun _ _ => rfl⟩
  apply triple_seq hchdir
  intro _
  have hcopy : CopyOf cfg inetNum (s.dirStatCache.entry di) (creatorInfo gethostbyname
      (creatorLine cfg.bigEndian inetNum) (s.dirStatCache.entry di) now.curTime) :=
    copyOf_creatorInfo gethostbyname inetNum _ _
  apply triple_mono (triple_saveNew hkeeps _ _ _) (fun _ hs => hs) _ fun _ h => h
  rintro r s' ⟨slot, realname, hr, hstores, hentry⟩
  refine ⟨slot, hr, ?_, ?_⟩
  · rw [← savedContents_copyOf hcopy]
    exact hstores
  · rw [hentry]
    exact hcopy.named realname

/-- `load_access_rights` can make this of some directory. -/
def LoadedRecord (Fs : Type) {Cwd : Type} [Posix Fs Cwd] (cfg : Config) (d : DirInfo) : Prop :=
  ∃ (t t' : Server Fs Cwd) (d₀ : DirInfo), loadAccessRights cfg d₀ t = .ok d t'

end

/-! ## Disks -/

/-- What a name stands for on a disk is all that is known about it. -/
theorem sameFile_disk {d d' : Disk} {dir : Path} {file : ByteString}
    (h : d'.node (Disk.resolve dir file) = d.node (Disk.resolve dir file)) :
    SameFile file dir d d' := by
  have hread : ∀ d : Disk, Posix.readFile d dir file = contentOf (d.node (Disk.resolve dir file)) :=
    fun _ => rfl
  constructor
  · show (d'.node (Disk.resolve dir file)).map Disk.statNode = _
    rw [h]
    rfl
  · rw [hread, hread, h]

/-- On a disk, every name stands for an access file or for a file apart. -/
theorem standsFor_disk (home dir : Path) (file : ByteString) :
    StandsFor (KeptOn home dir) dir file
      (accessFiles.find? fun n => Disk.resolve dir file = dir ++ [n]) := by
  cases hfind : accessFiles.find? fun n => Disk.resolve dir file = dir ++ [n] with
  | none =>
      have hne : ∀ n ∈ accessFiles, Disk.resolve dir file ≠ dir ++ [n] := by
        simpa using hfind
      constructor
      · intro d hd n hn
        exact sameFile_disk (by rw [hd.node_unlink hn, if_neg (hne n hn)])
      · intro d hd n hn
        exact sameFile_disk (by rw [hd.node_creat hn, if_neg (hne n hn)])
      · intro d hd n hn data
        exact sameFile_disk (by rw [hd.node_writeFile hn, if_neg (hne n hn)])
  | some n =>
      have hn : n ∈ accessFiles := List.mem_of_find?_eq_some hfind
      have heq : Disk.resolve dir file = Disk.resolve dir n := by
        rw [resolve_accessFile dir hn]
        simpa using List.find?_some hfind
      refine ⟨hn, fun d _ => ⟨?_, ?_⟩⟩
      · show (d.node (Disk.resolve dir file)).map Disk.statNode = _
        rw [heq]
        rfl
      · show contentOf (d.node (Disk.resolve dir file)) = contentOf (d.node (Disk.resolve dir n))
        rw [heq]

/-- On the disk, the readme of a new directory is a file apart. -/
theorem standsFor_readme : StandsFor (KeptOn [text "h"] [text "h", text "new"])
    [text "h", text "new"] Scenario.config.readmeFile none := by
  have hfind : (accessFiles.find? fun n => Disk.resolve [text "h", text "new"]
      Scenario.config.readmeFile = [text "h", text "new"] ++ [n]) = none := by decide +kernel
  have hstands := standsFor_disk [text "h"] [text "h", text "new"] Scenario.config.readmeFile
  rwa [hfind] at hstands

/-! ### A new directory -/

/-- Whether a run ends normally. -/
def endsWell {α : Type} : EStateM.Result Halt (Server Disk Path) α → Bool
  | .ok _ _ => true
  | .error _ _ => false

/-- What is loaded where the server is. -/
def loadedHere (s : Server Disk Path) : DirInfo :=
  match loadAccessRights Scenario.config default s with
  | .ok d _ => d
  | .error _ _ => default

/-- The server in its home directory, about which it knows what is found there. -/
def makingStart (nodes : List (String × Node)) : Server Disk Path :=
  let s := Scenario.start Scenario.config nodes
  { s with dirStatCache := s.dirStatCache.setEntry 0 (loadedHere s) }

/-- What is loaded there was loaded. -/
theorem loadedRecord_makingStart {nodes : List (String × Node)}
    (h : endsWell (loadAccessRights Scenario.config default
      (Scenario.start Scenario.config nodes)) = true) :
    LoadedRecord Disk Scenario.config ((makingStart nodes).dirStatCache.entry 0) := by
  have hentry : (makingStart nodes).dirStatCache.entry 0 =
      loadedHere (Scenario.start Scenario.config nodes) :=
    FifoCache.entry_setEntry_self (Nat.zero_lt_of_lt (FifoCache.eNext_lt_cachesize _)) _
  rw [hentry]
  unfold loadedHere
  split
  · exact ⟨_, _, _, ‹_›⟩
  · rename_i herror
    rw [herror] at h
    cases h

/-- `new` -/
def newPath : PPath := ⟨text "new", text "new", 3, text ".", 1, none⟩

example : parsePath (Scenario.path "new") = .ok newPath := by decide

section

variable [Posix Fs Cwd] {Good : Fs → Prop} {dir : Cwd}

/-! ## The entry and the files -/

/-- Two directory information with the same rights and the same readme. -/
structure SameRecord (d e : DirInfo) : Prop where
  protection : d.protection = e.protection
  publicPassword : d.publicPassword = e.publicPassword
  ownerPassword : d.ownerPassword = e.ownerPassword
  owner : d.owner = e.owner
  readme : d.readme = e.readme

omit [Posix Fs Cwd] in
/-- Access decisions depend on the rights. -/
theorem SameRecord.requireAccessRights_eq {d e : DirInfo} (h : SameRecord d e) (rights : UInt8)
    (ipAddr : UInt32) (passwd : Option ByteString) :
    requireAccessRights cfg d rights ipAddr passwd =
      requireAccessRights cfg e rights ipAddr passwd := by
  unfold requireAccessRights requirePublicRights
  rw [h.protection, h.publicPassword, h.ownerPassword, h.owner]

/-- The same rights and the same readme, and therefore the same decisions. -/
def SameDecisions (cfg : Config) (d e : DirInfo) : Prop :=
  SameRecord d e ∧ ∀ rights ipAddr passwd, requireAccessRights cfg d rights ipAddr passwd =
    requireAccessRights cfg e rights ipAddr passwd

/-- Whenever the rights in `dir` are loaded they are those of `d`, also by `validate_path`. -/
structure FoundAgain (cfg : Config) (fs : Fs) (dir : Cwd) (d : DirInfo) : Prop where
  load : ∀ (t : Server Fs Cwd) (d₀ : DirInfo), t.fs = fs → t.cwd = dir →
    ∃ e t', loadAccessRights cfg d₀ t = .ok e t' ∧ SameDecisions cfg d e
  build : ∀ (t t' : Server Fs Cwd) (work : ByteString) (sd : Stat) (slot : ℕ), t.fs = fs →
    Posix.chdir t.fs t.cwd work = some dir → buildDirInfo cfg work sd t = .ok (.ok slot) t' →
    SameDecisions cfg d (t'.dirStatCache.entry slot)

/-- What `validate_path` builds is what is loaded. -/
theorem foundAgain_of_load {fs : Fs} {d : DirInfo}
    (h : ∀ (t : Server Fs Cwd) (d₀ : DirInfo), t.fs = fs → t.cwd = dir →
      ∃ e t', loadAccessRights cfg d₀ t = .ok e t' ∧ SameDecisions cfg d e) :
    FoundAgain cfg fs dir d := by
  refine ⟨h, ?_⟩
  intro t t' work sd slot hfs hchdir hbuild
  suffices hwp : wp (buildDirInfo cfg work sd) (fun r s => ∀ slot, r = .ok slot →
      SameDecisions cfg d (s.dirStatCache.entry slot)) (fun _ => True) t from
    wp_of_ok hwp hbuild slot rfl
  have hinto : wp (chdir work) (fun _ s => s.fs = fs ∧ s.cwd = dir) (fun _ => True) t := by
    unfold wp chdir
    rw [hchdir]
    exact ⟨hfs, rfl⟩
  have herror : ∀ (err : ByteString) (s : Server Fs Cwd) (slot : ℕ),
      (.error err : Except ByteString ℕ) = .ok slot →
        SameDecisions cfg d (s.dirStatCache.entry slot) := nofun
  apply wp_seq hinto
  intro ok s₁ hs₁
  refine wp_ite (fun _ => ?_) fun _ => herror _ _
  have hgetcwd : wp getcwd (fun _ s => s.fs = fs ∧ s.cwd = dir) (fun _ => True) s₁ := hs₁
  apply wp_seq hgetcwd
  intro realname s₂ hs₂
  cases realname with
  | none => exact wp_seq ((returns_true _).run s₂) fun _ _ _ => herror _ _
  | some realname =>
      apply wp_ite
      · intro _
        exact wp_seq ((returns_true _).run s₂) fun _ _ _ => herror _ _
      · intro _
        have hget : wp (get : Srv Fs Cwd (Server Fs Cwd)) (fun _ s => s.fs = fs ∧ s.cwd = dir)
            (fun _ => True) s₂ := hs₂
        apply wp_seq hget
        intro now s₃ hs₃
        have hload : ∀ d₀, wp (loadAccessRights cfg d₀) (fun e _ => SameDecisions cfg d e)
            (fun _ => True) s₃ := by
          intro d₀
          obtain ⟨e, s', hrun, hsame⟩ := h s₃ d₀ hs₃.1 hs₃.2
          unfold wp
          rw [hrun]
          exact hsame
        apply wp_seq (hload _)
        intro newdir s₄ hnewdir
        apply wp_seq ((returns_true _).run s₄)
        intro _ s₅ _
        have hput : wp (putDirInfo work newdir) (fun slot s => s.dirStatCache.entry slot = newdir)
            (fun _ => True) s₅ := FifoCache.entry_fCachePut work newdir
        apply wp_seq hput
        rintro slot s₆ hslot _ ⟨⟩
        rw [hslot]
        exact hnewdir

omit [Posix Fs Cwd] in
/-- The rights of a new directory can be saved if no password is empty. -/
theorem savable_new {d : DirInfo} (hclean : Clean d) (hpublic : d.publicPassword ≠ some [])
    (hpassword : d.ownerPassword ≠ some []) (inetNum : UInt32) :
    Savable { d with owner := [creatorRecord cfg.bigEndian inetNum] } := by
  have hmem : ∀ r ∈ [creatorRecord cfg.bigEndian inetNum],
      r = creatorRecord cfg.bigEndian inetNum := fun r hr => List.mem_singleton.mp hr
  have htext := hostText_creator cfg.bigEndian inetNum
  refine ⟨?_, ?_, ?_, ?_, fun _ => List.cons_ne_nil _ _⟩
  · intro p hp
    refine ⟨hclean.publicPassword p hp, ?_⟩
    rintro rfl
    exact hpublic hp
  · intro p hp
    refine ⟨hclean.ownerPassword p hp, ?_⟩
    rintro rfl
    exact hpassword hp
  · intro r hr
    rw [hmem r hr]
    exact ⟨fun _ => none, _, zero_notMem_dumpRecord htext, parseIpline_dumpRecord _ htext⟩
  · intro r hr
    rw [hmem r hr]
    exact length_dumpRecord_creator_le _ _

omit [Posix Fs Cwd] in
/-- There is always an owner file. -/
theorem newContents_owner (huse : cfg.useAccessFiles = true) (inetNum : UInt32) (d : DirInfo) :
    newContents cfg inetNum d fspOwner =
      some (dumpIptab [creatorRecord cfg.bigEndian inetNum]) := by
  rw [newContents, savedContents_owner huse, if_neg (List.cons_ne_nil _ _)]

omit [Posix Fs Cwd] in
/-- The bit for the readme, and that of the owner, which is never set. -/
theorem Built.permits {d : DirInfo} (h : Built cfg d) :
    permits d.protection dirReadme = d.readme.isSome ∧ permits d.protection dirOwner = false := by
  obtain ⟨present, hpresent⟩ := h.protection
  rw [hpresent]
  exact permits_plain present d.readme

/-- What is in the cache for the new directory is what is found in its files. -/
theorem foundAgain_of_copyOf (hkeeps : Keeps Good dir) (huse : cfg.useAccessFiles = true)
    {inetNum : UInt32} {d e : DirInfo} (hclean : Clean d) (hbuilt : Built cfg d)
    (hcopy : CopyOf cfg inetNum d e) {fs : Fs}
    (hstores : Stores Good dir (newContents cfg inetNum d) fs)
    (hparent : d.readme = none) (hreadme : readmeIn cfg fs dir = none)
    (hpublic : d.publicPassword ≠ some []) (hpassword : d.ownerPassword ≠ some []) :
    FoundAgain cfg fs dir e := by
  apply foundAgain_of_load
  intro t d₀ hfs hcwd
  subst hfs hcwd
  have hholding : Holding Good t.cwd (newContents cfg inetNum d) t := ⟨rfl, hstores⟩
  rcases (holding_loadAccessRights hkeeps huse d₀).cases hholding with
    ⟨d', t', hok, -, hloaded⟩ | ⟨-, -, -, gethostbyname, hnone⟩
  · have hsame := sameRights_of_loaded huse (savable_new hclean hpublic hpassword inetNum)
      (fun gethostbyname => by
        show loadedOwner gethostbyname (newContents cfg inetNum d fspOwner) = _
        rw [newContents_owner huse]
        exact loadedOwner_creator gethostbyname cfg.bigEndian inetNum) hloaded
    obtain ⟨hreadme', hbuilt'⟩ := wp_of_ok (wp_loadAccessRights_built d₀ t) hok
    have hnone' : d'.readme = none := hreadme'.trans hreadme
    have hrecord : SameRecord e d' := by
      refine ⟨?_, ?_, ?_, ?_, ?_⟩
      · rw [hcopy.protection]
        apply protection_eq_of_permits
        · exact fun f hf => (hsame.flags f hf).symm
        · rw [hbuilt.permits.1, hbuilt'.permits.1, hparent, hnone']
        · rw [hbuilt.permits.2, hbuilt'.permits.2]
      · rw [hcopy.publicPassword, hsame.publicPassword]
      · rw [hcopy.ownerPassword, hsame.ownerPassword]
      · rw [hcopy.owner, hsame.owner]
      · rw [hcopy.readme, hnone']
    exact ⟨d', t', hok, hrecord, hrecord.requireAccessRights_eq⟩
  · have howner : loadedOwner gethostbyname (newContents cfg inetNum d fspOwner) = none := hnone
    rw [newContents_owner huse, loadedOwner_creator] at howner
    cases howner

/-- An empty password is saved, but not found again. -/
theorem scanPassword_newline : scanPassword ([] ++ text "\n") = none := by decide

/-- It is so only if nothing was lost. -/
theorem of_foundAgain (hkeeps : Keeps Good dir) {inetNum : UInt32} {d e : DirInfo}
    (hbuilt : Built cfg d) (hcopy : CopyOf cfg inetNum d e) (t : Server Fs Cwd)
    (hstores : Stores Good dir (newContents cfg inetNum d) t.fs)
    (h : FoundAgain cfg t.fs dir e) :
    cfg.useAccessFiles = true ∧ d.readme = none ∧ readmeIn cfg t.fs dir = none ∧
      d.publicPassword ≠ some [] ∧ d.ownerPassword ≠ some [] := by
  obtain ⟨d', t', hok, hsame, -⟩ := h.load { t with cwd := dir } default rfl rfl
  obtain ⟨hreadme, hbuilt'⟩ := wp_of_ok (wp_loadAccessRights_built default _) hok
  have hnone : d'.readme = none := hsame.readme.symm.trans hcopy.readme
  have huse : cfg.useAccessFiles = true := by
    by_contra hoff
    obtain ⟨hnil, -, -⟩ := hbuilt'.unused (Bool.not_eq_true _ ▸ hoff)
    rw [← hsame.owner, hcopy.owner] at hnil
    cases hnil
  have hholding : Holding Good dir (newContents cfg inetNum d) { t with cwd := dir } :=
    ⟨rfl, hstores⟩
  obtain ⟨-, hloaded⟩ := (holding_loadAccessRights hkeeps huse default).of_ok hholding hok
  have hlost : ∀ password : Option ByteString, password =
      (password.map fun password => password ++ text "\n").bind scanPassword →
      password ≠ some [] := by
    rintro _ hpassword rfl
    rw [Option.map_some, Option.bind_some, scanPassword_newline] at hpassword
    cases hpassword
  refine ⟨huse, ?_, hreadme.symm.trans hnone, ?_, ?_⟩
  · have hbit : permits d.protection dirReadme = permits d'.protection dirReadme := by
      rw [← hcopy.protection, hsame.protection]
    rw [hbuilt.permits.1, hbuilt'.permits.1, hnone] at hbit
    exact Option.not_isSome_iff_eq_none.mp (by rw [hbit]; exact Bool.false_ne_true)
  · apply hlost
    have hpublic := hloaded.publicPassword
    rw [newContents, savedContents_password huse] at hpublic
    rw [← hpublic, ← hsame.publicPassword, hcopy.publicPassword]
  · apply hlost
    have hpassword := hloaded.ownerPassword
    rw [newContents_owner huse, Option.bind_some, newContents,
      savedContents_ownerpassword huse] at hpassword
    rw [← hpassword, ← hsame.ownerPassword, hcopy.ownerPassword]

/-- No readme is found in a new directory in the directory `d`: not in the place of an access file,
or not with the files as they are once the directory is made. -/
def NoReadme (cfg : Config) (inetNum : UInt32) (d : DirInfo) (fs : Fs) (dir : Cwd) :
    Option ByteString → Prop
  | some n => newContents cfg inetNum d n = none
  | none => readmeIn cfg fs dir = none

/-- Nothing of the directory `d` gets lost between the cache entry of a new directory in it and the
files there. -/
structure Lossless (cfg : Config) (inetNum : UInt32) (d : DirInfo) (fs : Fs) (dir : Cwd)
    (readme : Option ByteString) : Prop where
  used : cfg.useAccessFiles = true
  parent : d.readme = none
  readme : NoReadme cfg inetNum d fs dir readme
  publicPassword : d.publicPassword ≠ some []
  ownerPassword : d.ownerPassword ≠ some []

/-- The readme that is found once the access files are saved. -/
theorem triple_serverMakeDir_readme (hkeeps : Keeps Good dir) {readme : Option ByteString}
    (hreadme : StandsFor Good dir cfg.readmeFile readme) {s : Server Fs Cwd} {pp : PPath}
    (hmakes : Makes Good dir pp.fullp s.fs s.cwd) (inetNum : UInt32) (di : ℕ) :
    Triple (fun s' => s' = s) (serverMakeDir cfg pp inetNum di)
      (fun r s' => ∃ slot, r = .ok slot ∧
        Stores Good dir (newContents cfg inetNum (s.dirStatCache.entry di)) s'.fs ∧
        CopyOf cfg inetNum (s.dirStatCache.entry di) (s'.dirStatCache.entry slot) ∧
        (readmeIn cfg s'.fs dir = none ↔ NoReadme cfg inetNum (s.dirStatCache.entry di)
          (Posix.mkdir s.fs s.cwd pp.fullp).2 dir readme))
      fun _ => False := by
  cases readme with
  | none =>
      -- the readme stays as it is while the access files are saved
      have hkeeps' := hreadme.keeps hkeeps
        (Posix.stat (Posix.mkdir s.fs s.cwd pp.fullp).2 dir cfg.readmeFile)
        (Posix.readFile (Posix.mkdir s.fs s.cwd pp.fullp).2 dir cfg.readmeFile)
      apply triple_mono (triple_serverMakeDir_saves hkeeps'
        ⟨hmakes.mkdir, hmakes.chdir, hmakes.good, rfl, rfl⟩ inetNum di) (fun _ hs => hs) _
        fun _ h => h
      rintro r s' ⟨slot, hr, hstores, hcopy⟩
      obtain ⟨hgood, hstat, hread⟩ := hstores.good
      refine ⟨slot, hr, ⟨hgood, hstores.read⟩, hcopy, ?_⟩
      show _ ↔ readmeIn cfg (Posix.mkdir s.fs s.cwd pp.fullp).2 dir = none
      unfold readmeIn
      rw [hstat, hread]
  | some n =>
      obtain ⟨hn, hsame⟩ := hreadme
      apply triple_mono (triple_serverMakeDir_saves hkeeps hmakes inetNum di) (fun _ hs => hs) _
        fun _ h => h
      rintro r s' ⟨slot, hr, hstores, hcopy⟩
      refine ⟨slot, hr, hstores, hcopy, ?_⟩
      obtain ⟨hstat, hread⟩ := hsame s'.fs hstores.good
      have hsize := hkeeps.size s'.fs hstores.good n hn
      show _ ↔ newContents cfg inetNum (s.dirStatCache.entry di) n = none
      unfold readmeIn
      rw [hstat, hread, ← hstores.read n hn]
      cases hcontent : Posix.readFile s'.fs dir n with
      | none =>
          cases Posix.stat s'.fs dir n <;> exact iff_of_true rfl rfl
      | some content =>
          rw [hcontent] at hsize
          obtain ⟨sf, hsf, -⟩ := Option.map_eq_some_iff.mp hsize
          rw [hsf]
          exact iff_of_false nofun nofun

/-- For every directory information that `load_access_rights` can produce for the parent, and every
address: `server_make_dir` puts into the cache what `load_access_rights` finds in the new directory
exactly if nothing gets lost on the way. -/
theorem serverMakeDir_foundAgain_iff (hkeeps : Keeps Good dir) {readme : Option ByteString}
    (hreadme : StandsFor Good dir cfg.readmeFile readme) {s : Server Fs Cwd} {di : ℕ}
    (hparent : LoadedRecord Fs cfg (s.dirStatCache.entry di)) {pp : PPath}
    (hmakes : Makes Good dir pp.fullp s.fs s.cwd) (inetNum : UInt32) :
    ∃ slot s', serverMakeDir cfg pp inetNum di s = .ok (.ok slot) s' ∧
      (FoundAgain cfg s'.fs dir (s'.dirStatCache.entry slot) ↔
        Lossless cfg inetNum (s.dirStatCache.entry di) (Posix.mkdir s.fs s.cwd pp.fullp).2 dir
          readme) := by
  obtain ⟨t, t', d₀, hload⟩ := hparent
  have hclean : Clean (s.dirStatCache.entry di) :=
    wp_of_ok ((clean_loadAccessRights d₀).run t) hload
  have hbuilt : Built cfg (s.dirStatCache.entry di) :=
    (wp_of_ok (wp_loadAccessRights_built d₀ t) hload).2
  rcases (triple_serverMakeDir_readme hkeeps hreadme hmakes inetNum di).cases rfl with
    ⟨_, s', hok, slot, rfl, hstores, hcopy, hnone⟩ | ⟨-, -, -, hfalse⟩
  · refine ⟨slot, s', hok, ?_⟩
    constructor
    · intro hfound
      obtain ⟨huse, hparent, hreadme, hpublic, hpassword⟩ :=
        of_foundAgain hkeeps hbuilt hcopy s' hstores hfound
      exact ⟨huse, hparent, hnone.mp hreadme, hpublic, hpassword⟩
    · rintro ⟨huse, hparent, hreadme, hpublic, hpassword⟩
      exact foundAgain_of_copyOf hkeeps huse hclean hbuilt hcopy hstores hparent
        (hnone.mpr hreadme) hpublic hpassword
  · exact hfalse.elim

end

/-- A home directory with rights, passwords and an owner. -/
def guardedHome : List (String × Node) :=
  [("h/.FSP_OK_MKDIR", Scenario.emptyFile), ("h/.FSP_OK_DEL", Scenario.emptyFile),
    ("h/.FSP_NO_GET", Scenario.emptyFile), ("h/.FSP_OK_PASSWORD", .file (text "word")),
    ("h/.FSP_OWNER", .file (text "10.0.0.1 O You")), ("h/.FSP_OWNER_PASSWORD", .file (text "mine"))]

/-- A new directory in it is found again as it is cached. -/
theorem serverMakeDir_foundAgain_guarded :
    ((makingStart guardedHome).dirStatCache.entry 0).protection = dirList ||| dirMkdir ||| dirDel ∧
    ((makingStart guardedHome).dirStatCache.entry 0).publicPassword = some (text "word") ∧
    ((makingStart guardedHome).dirStatCache.entry 0).ownerPassword = some (text "mine") ∧
    ∃ slot s', serverMakeDir Scenario.config newPath Scenario.client.addr 0
        (makingStart guardedHome) = .ok (.ok slot) s' ∧
      FoundAgain Scenario.config s'.fs [text "h", text "new"] (s'.dirStatCache.entry slot) := by
  refine ⟨by decide +kernel, by decide +kernel, by decide +kernel, ?_⟩
  have hmakes : Makes (KeptOn [text "h"] [text "h", text "new"]) [text "h", text "new"]
      newPath.fullp (makingStart guardedHome).fs (makingStart guardedHome).cwd :=
    ⟨by decide +kernel, by decide +kernel, by decide +kernel⟩
  obtain ⟨slot, s', hmade, hiff⟩ := serverMakeDir_foundAgain_iff
    (keeps_disk [text "h"] [text "h", text "new"]) standsFor_readme
    (loadedRecord_makingStart (by decide +kernel)) hmakes Scenario.client.addr
  refine ⟨slot, s', hmade, hiff.mpr ⟨rfl, by decide +kernel, ?_, by decide +kernel,
    by decide +kernel⟩⟩
  show readmeIn _ _ _ = none
  decide +kernel

/-- The protection of a new directory in the cache, and as it is loaded from the disk. -/
def newProtections (nodes : List (String × Node)) : Option (UInt8 × UInt8) :=
  match serverMakeDir Scenario.config newPath Scenario.client.addr 0 (makingStart nodes) with
  | .ok (.ok slot) s =>
      match loadAccessRights Scenario.config default
          { s with cwd := [text "h", text "new"] } with
      | .ok d _ => some ((s.dirStatCache.entry slot).protection, d.protection)
      | .error _ _ => none
  | _ => none

/-- A home directory in which everybody may make directories, with a readme. -/
def welcomeHome : List (String × Node) :=
  [("h/.FSP_OK_MKDIR", Scenario.emptyFile), ("h/.README", .file (text "Welcome"))]

/-- What the server does about a request for a new directory there. -/
def welcomeRound : Server Disk Path :=
  final (serverRound Scenario.config
    (Scenario.arrival 100 7 (Scenario.datagram .makeDir 5 0 (Scenario.path "new") [] (by decide)))
    (Scenario.start Scenario.config welcomeHome))

/-- The cache says that a directory has a readme which was made in one with a readme.  This is what is
cached once the server has made the directory that a client has asked for. -/
theorem readme_bit_copied :
    (.mkdir (text "new") true ∈ welcomeRound.trace ∧
      (welcomeRound.dirStatCache.fCacheFind (text "new")).map (fun di =>
        (welcomeRound.dirStatCache.entry di).protection) =
          some (dirList ||| dirGet ||| dirMkdir ||| dirReadme)) ∧
    LoadedRecord Disk Scenario.config ((makingStart welcomeHome).dirStatCache.entry 0) ∧
    ∃ slot s', serverMakeDir Scenario.config newPath Scenario.client.addr 0
        (makingStart welcomeHome) = .ok (.ok slot) s' ∧
      ¬ FoundAgain Scenario.config s'.fs [text "h", text "new"] (s'.dirStatCache.entry slot) := by
  refine ⟨⟨by decide +kernel, by decide +kernel⟩, loadedRecord_makingStart (by decide +kernel), ?_⟩
  have hprotections : newProtections welcomeHome =
      some (dirList ||| dirGet ||| dirMkdir ||| dirReadme, dirList ||| dirGet ||| dirMkdir) := by
    decide +kernel
  unfold newProtections at hprotections
  split at hprotections
  · rename_i slot s' hmade
    refine ⟨slot, s', hmade, fun hfound => ?_⟩
    obtain ⟨d, t', hload, hsame, -⟩ :=
      hfound.load { s' with cwd := [text "h", text "new"] } default rfl rfl
    rw [hload] at hprotections
    obtain ⟨hcached, hloaded⟩ := Prod.mk.inj (Option.some.inj hprotections)
    have heq := hsame.protection
    rw [hcached, hloaded] at heq
    exact absurd heq (by decide)
  · cases hprotections

end Fsp
