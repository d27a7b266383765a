import Fsp.Protocol.ListedReads

/-!
# What a client is told about an object

`util_stat` asks the server about an object, or it looks for the object in a listing, which may be
cached.  Both should tell the client the same.

They do so exactly if the size is below 4 GB, or happens to be truncated to what it is clipped to
(`ExactSize`), and the client looks where the object is listed (`SearchesRight`): `agrees_iff`.
-/

namespace Fsp

open Bytes Effect

/-! ## Objects that are shown -/

/-- The server accepts the path of the object `sb`, whose parts are `pp`, and shows the object: it
gives it a type, and the object stands in the directory it is in and, if it is a directory, as a dot in
its own.  The listings that the client asks for can be read. -/
structure Shows (site : ListedSite) (env : ClientEnv) (path : ByteString) (pp : PPath) (sb : Stat) :
    Prop where
  cstring : (0 : UInt8) ∉ utilAbsPath env path
  fits : (statField env path).length ≤ ubufMaxspace
  listFits : (listField env path).length + env.netLen.length ≤ ubufMaxspace
  parsed : parsePath (statField env path) = .ok pp
  found : site.files pp.fullp = some sb
  visible : site.statType (cutPassword (statField env path)) sb.kind ≠ 0
  listed : ∃ d, site.dirInfo (directoryPart pp false).work = .ok d ∧ site.Lists d pp.fPtr sb
  itself : sb.kind = .dir →
    ∃ d, site.dirInfo (directoryPart pp true).work = .ok d ∧ site.Lists d [dot] sb
  opens : ∀ pp d, site.validatePath (listField env path) true = .ok (pp, d) →
    site.Readable d ∧ LetsPass (requireAccessRights site.cfg d dirList site.inetNum pp.passwd)

/-- Every client is told the same, however it asks and whatever listings of the server it holds. -/
def Agrees (site : ListedSite) (env : ClientEnv) (path : ByteString) : Prop :=
  ∃ told, ∀ c, site.Heard env c → ∃ c', utilStat site.net env path c = .ok told c'

/-- The size is the same when it is truncated to 32 bits and when it is clipped. -/
def ExactSize (sb : Stat) : Prop := sb.size < 4294967296 ∨ sb.size % 4294967296 = 4294967295

/-- The client looks for the object where it is listed. -/
def SearchesRight (env : ClientEnv) (path : ByteString) (sb : Stat) : Prop :=
  if SearchesItself env path then sb.kind = .dir else newline ∉ utilAbsPath env path

/-! ## The two answers -/

/-- What a reply to `CC_STAT` tells about an object. -/
def statTold (sb : Stat) : StatBuf :=
  ⟨UInt32.ofNat (sb.mtime % 4294967296).toNat, UInt32.ofNat sb.size, sb.kind = .dir⟩

/-- What an entry in a listing tells about it. -/
def listTold (sb : Stat) : StatBuf :=
  ⟨UInt32.ofNat (sb.mtime % 4294967296).toNat, UInt32.ofNat (min sb.size 0xFFFFFFFF),
    sb.kind = .dir⟩

theorem statTold_eq_iff {sb : Stat} : statTold sb = listTold sb ↔ ExactSize sb := by
  have hmin : ∀ n : ℕ, UInt32.ofNat n = UInt32.ofNat (min n 4294967295) ↔
      n < 4294967296 ∨ n % 4294967296 = 4294967295 := by
    intro n
    rw [← UInt32.toNat_inj, UInt32.toNat_ofNat', UInt32.toNat_ofNat']
    omega
  unfold ExactSize
  rw [← hmin]
  simp [statTold, listTold]

/-- What the client reads in the data of a reply to `CC_STAT`. -/
theorem read_statBytes (mtime : ℤ) (size : UInt32) (type : UInt8) :
    long (statBytes mtime size type) 0 = UInt32.ofNat (mtime % 4294967296).toNat ∧
      long (statBytes mtime size type) 4 = size ∧ (statBytes mtime size type).getD 8 0 = type :=
  ⟨ofBe32_be32 _, ofBe32_be32 _, rfl⟩

section

variable {site : ListedSite} {env : ClientEnv} {path : ByteString} {pp : PPath} {sb : Stat}
  {c : ClientState}

/-- The request for information about the object. -/
def askCall (env : ClientEnv) (path : ByteString) : Call := pathCall .stat 0 (utilAbsPath env path) []

theorem Shows.kind_ne (h : Shows site env path pp sb) : sb.kind ≠ .other := by
  obtain ⟨d, -, -, -, hkind, -⟩ := h.listed
  exact hkind

/-- The directory of an object that is shown is found. -/
theorem Shows.isOk (h : Shows site env path pp sb) :
    (site.validatePath (cutPassword (statField env path)) (sb.kind == .dir)).isOk := by
  have hvisible := h.visible
  rw [site.statType_eq h.kind_ne] at hvisible
  by_contra hnot
  exact hvisible (if_neg hnot)

/-- The data of the reply to `CC_STAT`. -/
theorem Shows.serverStat (h : Shows site env path pp sb) :
    site.serverStat (askCall env path).ubuf.data = statBytes sb.mtime (UInt32.ofNat sb.size)
      (if sb.kind = .dir then rdtypeDir else rdtypeFile) := by
  have hdata : (askCall env path).ubuf.data = statField env path :=
    data_pathCall (utilAbsPath_ne_nil env path) h.fits _ _ _
  have hshort : (if (statField env path).length < 2 then [0] else statField env path) =
      statField env path := by
    split_ifs with hlen
    · have htail : (utilAbsPath env path).tail = [] := by
        rw [List.length_append, List.length_singleton] at hlen
        exact List.length_eq_zero_iff.mp (by omega)
      rw [statField, htail]
      rfl
    · rfl
  unfold UploadSite.serverStat
  rw [hdata]
  simp only [hshort, h.parsed, h.found]
  rw [site.statType_eq h.kind_ne, if_pos h.isOk]

/-- A client that asks the server about the object. -/
theorem Shows.utilStat_asked (h : Shows site env path pp sb)
    (hasks : c.statworks = true ∧ (c.ddroot.lookup (searchedAt env path).1).isNone = true) :
    ∃ c', utilStat site.net env path c = .ok (some (statTold sb)) c' := by
  have hanswer : site.answer (askCall env path) = some (replyTo (askCall env path).ubuf
      (site.serverStat (askCall env path).ubuf.data) []) := rfl
  have htakes : (askCall env path).Takes (replyTo (askCall env path).ubuf
      (site.serverStat (askCall env path).ubuf.data) []) :=
    UploadSite.takes_replyTo _ _ (Or.inl rfl) fun h => by cases h
  have hnet : site.net c.trace (askCall env path) = replyTo (askCall env path).ubuf
      (site.serverStat (askCall env path).ubuf.data) [] := by
    show (site.answer _).getD _ = _
    rw [hanswer, Option.getD_some]
  have hbuf : (replyTo (askCall env path).ubuf (site.serverStat (askCall env path).ubuf.data) []).buf =
      statBytes sb.mtime (UInt32.ofNat sb.size) (if sb.kind = .dir then rdtypeDir else rdtypeFile) := by
    rw [← h.serverStat]
    exact List.append_nil _
  have hfits : (askCall env path).p1.length + (askCall env path).p2.length ≤ ubufMaxspace := h.fits
  have htakes' : (askCall env path).Takes (site.net c.trace (askCall env path)) := hnet.symm ▸ htakes
  obtain ⟨c', hcall⟩ : ∃ c', clientInteract site.net (askCall env path) c =
      .ok (replyTo (askCall env path).ubuf (site.serverStat (askCall env path).ubuf.data) []) c' := by
    rw [clientInteract_of_takes hfits htakes', hnet]
    exact ⟨_, rfl⟩
  have hcode : (replyTo (askCall env path).ubuf
      (site.serverStat (askCall env path).ubuf.data) []).cmd = Command.stat.code := rfl
  refine ⟨c', ?_⟩
  show (if c.statworks = true ∧ (c.ddroot.lookup (searchedAt env path).1).isNone = true then _
    else _ : Client (Option StatBuf)) c = _
  rw [if_pos hasks]
  show (clientInteract site.net (askCall env path) >>= _) c = _
  rw [bind_of_ok hcall, if_pos hcode, hbuf]
  obtain ⟨htime, hsize, htype⟩ := read_statBytes sb.mtime (UInt32.ofNat sb.size)
    (if sb.kind = .dir then rdtypeDir else rdtypeFile)
  rw [htime, hsize, htype]
  unfold statTold
  by_cases hdir : sb.kind = .dir
  · simp only [hdir, if_true]
    rw [if_neg (by decide)]
    rfl
  · simp only [hdir, if_false]
    rw [if_neg (by decide)]
    rfl

/-- What `util_stat` makes of an entry. -/
def entryTold (e : Rdirent) : StatBuf := ⟨e.time, e.size, e.type = rdtypeDir⟩

/-- The search of a client in a listing. -/
def search (dep : Option (List Rdirent)) (pfile : ByteString) : Option StatBuf :=
  dep.bind fun dep => (dep.find? fun e => e.name = pfile).map entryTold

/-- A client that does not ask the server about the object looks for it in a listing. -/
theorem utilStat_searched (hheard : site.Heard env c)
    (hsearches : ¬ (c.statworks = true ∧ (c.ddroot.lookup (searchedAt env path).1).isNone = true))
    {dep : Option (List Rdirent)}
    (hreads : ∀ s, ∃ s', readBlocks site.net
      (dirCall env (utilAbsPath env (searchedAt env path).1)) listingFuel
      ⟨0, false, 0, List.replicate nbsize 0, 0, []⟩ s = .ok dep s') :
    ∃ c', utilStat site.net env path c = .ok (search dep (searchedAt env path).2) c' := by
  obtain ⟨c', hopen⟩ := ListedSite.utilOpendir_of_reads hheard hreads
  refine ⟨c', ?_⟩
  show (if c.statworks = true ∧ (c.ddroot.lookup (searchedAt env path).1).isNone = true then _
    else _ : Client (Option StatBuf)) c = _
  rw [if_neg hsearches]
  show statListed site.net env (searchedAt env path).1 (searchedAt env path).2 c = _
  unfold statListed
  rw [bind_of_ok hopen]
  cases dep <;> rfl

/-- What it reads. -/
theorem Shows.reads (h : Shows site env path pp sb) {pp' : PPath} {d : DirInfo}
    (hvalid : site.validatePath (listField env path) true = .ok (pp', d)) (s : ClientState) :
    ∃ s', readBlocks site.net (dirCall env (utilAbsPath env (searchedAt env path).1)) listingFuel
      ⟨0, false, 0, List.replicate nbsize 0, 0, []⟩ s =
        .ok (some (visibleDirents (site.entries d))) s' := by
  obtain ⟨hreadable, hpass⟩ := h.opens pp' d hvalid
  exact ListedSite.readBlocks_listed ⟨h.listFits, ⟨pp', hvalid, hpass⟩, hreadable⟩ _ s

/-- The search finds an object that stands in the directory. -/
theorem search_of_lists {d : DirInfo} {pfile : ByteString} (h : site.Lists d pfile sb) :
    search (some (visibleDirents (site.entries d))) pfile = some (listTold sb) := by
  show ((visibleDirents (site.entries d)).find? fun e => e.name = pfile).map entryTold = _
  rw [ListedSite.find_visibleDirents h]
  unfold entryTold listTold rdirent
  by_cases hdir : sb.kind = .dir
  · simp only [hdir, if_true, Option.map_some]
  · simp only [hdir, if_false, Option.map_some]
    rw [decide_eq_false (by decide)]
    rfl

/-- All clients are told the same if what they are told in a listing is what the server tells them. -/
theorem Shows.agrees_iff_search (h : Shows site env path pp sb) {dep : Option (List Rdirent)}
    (hreads : ∀ s, ∃ s', readBlocks site.net
      (dirCall env (utilAbsPath env (searchedAt env path).1)) listingFuel
      ⟨0, false, 0, List.replicate nbsize 0, 0, []⟩ s = .ok dep s') :
    Agrees site env path ↔ search dep (searchedAt env path).2 = some (statTold sb) := by
  constructor
  · intro ⟨told, htold⟩
    -- a client that asks the server, and one that does not
    have hasker := ListedSite.heard_newClient site env
    have hsearcher : site.Heard env { newClient with statworks := false } := hasker
    obtain ⟨c₁, hc₁⟩ := htold newClient hasker
    obtain ⟨c₂, hc₂⟩ := htold _ hsearcher
    obtain ⟨c₃, hc₃⟩ : ∃ c', utilStat site.net env path newClient =
        .ok (some (statTold sb)) c' := h.utilStat_asked ⟨rfl, rfl⟩
    obtain ⟨c₄, hc₄⟩ : ∃ c', utilStat site.net env path { newClient with statworks := false } =
        .ok (search dep (searchedAt env path).2) c' :=
      utilStat_searched hsearcher (fun h => by cases h.1) hreads
    rw [hc₁] at hc₃
    rw [hc₂] at hc₄
    injection hc₃ with hasked _
    injection hc₄ with hsearched _
    rw [← hsearched, hasked]
  · intro heq
    refine ⟨some (statTold sb), fun c hheard => ?_⟩
    by_cases hasks : c.statworks = true ∧ (c.ddroot.lookup (searchedAt env path).1).isNone = true
    · exact h.utilStat_asked hasks
    · rw [← heq]
      exact utilStat_searched hheard hasks hreads

theorem validatePath_eq_ok_iff {bytes : ByteString} {wantDirectory : Bool} {pp' : PPath}
    {d : DirInfo} : site.validatePath bytes wantDirectory = .ok (pp', d) ↔
      ∃ pp₀, parsePath bytes = .ok pp₀ ∧ directoryPart pp₀ wantDirectory = pp' ∧
        site.dirInfo pp'.work = .ok d := by
  unfold UploadSite.validatePath
  cases hparse : parsePath bytes with
  | error pe =>
      simp only
      exact iff_of_false (fun h => by cases h) fun ⟨_, h, _⟩ => by cases h
  | ok pp₀ =>
      simp only
      cases hd : site.dirInfo (directoryPart pp₀ wantDirectory).work with
      | error pe =>
          refine iff_of_false (fun h => by cases h) ?_
          rintro ⟨_, h, rfl, hd'⟩
          rw [← Except.ok.inj h, hd] at hd'
          cases hd'
      | ok d' =>
          constructor
          · intro h
            obtain ⟨rfl, rfl⟩ := Prod.mk.inj (Except.ok.inj h)
            exact ⟨pp₀, rfl, rfl, hd⟩
          · rintro ⟨_, h, rfl, hd'⟩
            rw [← Except.ok.inj h, hd] at hd'
            rw [← Except.ok.inj h, Except.ok.inj hd']

/-- A client that looks where the object is listed finds it. -/
theorem Shows.lists (h : Shows site env path pp sb) (hright : SearchesRight env path sb) :
    ∃ pp' d, site.validatePath (listField env path) true = .ok (pp', d) ∧
      site.Lists d (searchedAt env path).2 sb := by
  unfold SearchesRight at hright
  by_cases hself : SearchesItself env path
  · rw [if_pos hself] at hright
    obtain ⟨hname, hcut⟩ := hself.cut
    obtain ⟨pp', hparse, hwork⟩ := searchedAt_self hcut h.parsed
    obtain ⟨d, hd, hlists⟩ := h.itself hright
    rw [← hwork] at hd
    rw [hname]
    exact ⟨_, d, validatePath_eq_ok_iff.mpr ⟨pp', hparse, rfl, hd⟩, hlists⟩
  · rw [if_neg hself] at hright
    have hdir : utilAbsPath env path ≠ env.envDir := fun hdir => hself (Or.inl hdir)
    obtain ⟨hname, pp', hparse, hwork⟩ := searchedAt_plain hdir h.cstring hright h.parsed
    obtain ⟨d, hd, hlists⟩ := h.listed
    rw [← hwork] at hd
    rw [hname]
    exact ⟨_, d, validatePath_eq_ok_iff.mpr ⟨pp', hparse, rfl, hd⟩, hlists⟩

/-- Where the clients look for the object where it is listed, only its size can make a difference. -/
theorem Shows.agrees_iff_exactSize (h : Shows site env path pp sb)
    (hright : SearchesRight env path sb) : Agrees site env path ↔ ExactSize sb := by
  obtain ⟨pp', d, hvalid, hlists⟩ := h.lists hright
  rw [h.agrees_iff_search (h.reads hvalid), search_of_lists hlists, ← statTold_eq_iff,
    Option.some_inj, eq_comm]

end

/-! ## A server where the search fails

There is nothing on it but the object: the directory that it is in holds its name only, and where it
is a directory there is a dot in it. -/

/-- A directory that the public may read. -/
def openDir (realname : ByteString) : DirInfo :=
  ⟨realname, [], dirList ||| dirGet, none, none, none, 0, 0⟩

theorem letsPass_openDir (realname : ByteString) (passwd : Option ByteString) :
    LetsPass (requireAccessRights Scenario.config (openDir realname) dirList 0 passwd) := by
  have hpublic : requireAccessRights Scenario.config (openDir realname) dirList 0 passwd =
      requirePublicRights (openDir realname) dirList passwd := rfl
  have hlist : permits (openDir realname).protection dirList = true := by
    show permits (dirList ||| dirGet) dirList = true
    decide
  have hrights : permits dirOwner dirList = false := by decide
  rw [hpublic]
  rcases head?_requirePublicRights hrights (openDir realname) passwd with
    ⟨-, -, hhead⟩ | ⟨hnot, -⟩
  · exact ⟨by rw [hhead]; decide, by rw [hhead]; decide⟩
  · exact absurd ⟨Or.inl rfl, Or.inl hlist⟩ hnot

def soleDirInfo (pp : PPath) (sb : Stat) (work : ByteString) : Except ByteString DirInfo :=
  if work = (directoryPart pp false).work then .ok (openDir (text "r"))
  else if work = (directoryPart pp true).work ∧ sb.kind = .dir then .ok (openDir (text "q"))
  else .error (text "Invalid path")

def soleFiles (sb : Stat) (path : ByteString) : Option Stat :=
  if path = [dot] ∧ sb.kind ≠ .dir then none else some sb

def soleDirents (pp : PPath) (realname : ByteString) : List Dirent :=
  if realname = text "r" then [⟨1, pp.fPtr⟩]
  else if realname = text "q" then [⟨1, [dot]⟩]
  else []

section

variable {pp : PPath} {sb : Stat}

theorem openDir_of_soleDirInfo {work : ByteString} {d : DirInfo} (h : soleDirInfo pp sb work = .ok d) :
    work = (directoryPart pp false).work ∧ d = openDir (text "r") ∨
      work = (directoryPart pp true).work ∧ sb.kind = .dir ∧ d = openDir (text "q") := by
  unfold soleDirInfo at h
  split_ifs at h with hparent hself
  · exact Or.inl ⟨hparent, (Except.ok.inj h).symm⟩
  · exact Or.inr ⟨hself.1, hself.2, (Except.ok.inj h).symm⟩

theorem loaded_soleDirInfo (work : ByteString) (d : DirInfo) (h : soleDirInfo pp sb work = .ok d) :
    d.Loaded := by
  have hloaded : ∀ realname, (openDir realname).Loaded := by
    intro realname
    have hpermits : permits (dirList ||| dirGet) dirOwner = false := by decide
    exact ⟨hpermits, fun _ h => by cases h⟩
  rcases openDir_of_soleDirInfo h with ⟨-, rfl⟩ | ⟨-, -, rfl⟩
  · exact hloaded _
  · exact hloaded _

theorem proper_soleDirents (hname : ProperName pp.fPtr) (realname : ByteString) (dp : Dirent)
    (h : dp ∈ soleDirents pp realname) : ProperName dp.name := by
  unfold soleDirents at h
  split_ifs at h
  · rw [List.mem_singleton.mp h]
    exact hname
  · rw [List.mem_singleton.mp h]
    exact ⟨by decide, by decide⟩
  · cases h

theorem mem_soleDirents_r {dp : Dirent} :
    dp ∈ soleDirents pp (text "r") ↔ dp = ⟨1, pp.fPtr⟩ := by
  unfold soleDirents
  rw [if_pos rfl, List.mem_singleton]

theorem mem_soleDirents_q {dp : Dirent} :
    dp ∈ soleDirents pp (text "q") ↔ dp = ⟨1, [dot]⟩ := by
  unfold soleDirents
  rw [if_neg (by decide), if_pos rfl, List.mem_singleton]

theorem home_soleFiles (sb' : Stat) (h : soleFiles sb [dot] = some sb') : sb'.kind = .dir := by
  unfold soleFiles at h
  split_ifs at h with hdir
  rw [← Option.some.inj h]
  by_contra hkind
  exact hdir ⟨rfl, hkind⟩

end

/-- The server. -/
def soleSite (pp : PPath) (sb : Stat) (hname : ProperName pp.fPtr) : ListedSite where
  cfg := Scenario.config
  inetNum := 0
  dirInfo := soleDirInfo pp sb
  files := soleFiles sb
  junk := 0
  dirents := soleDirents pp
  loaded := loaded_soleDirInfo
  proper := proper_soleDirents hname
  home := home_soleFiles

section

variable {site : ListedSite} {env : ClientEnv} {path : ByteString} {pp : PPath} {sb : Stat}
  {d : DirInfo} {hname : ProperName pp.fPtr}

/-- A directory with one entry can be read. -/
theorem readable_soleSite (d : DirInfo) : (soleSite pp sb hname).Readable d := by
  have hsize : dirblocksize Scenario.config = 1024 := rfl
  refine ⟨?_, ?_⟩
  · show Packs (dirblocksize Scenario.config) 0 _
    rw [hsize]
    refine packs_of_size (by decide) (by decide) ?_ (by decide)
    intro e he
    exact (properName_of_visible ((soleSite pp sb hname).proper_entries d) e he).length_le
  · intro listing hbuild
    have hlen := length_buildDirListing_le hbuild
    have hspace : ubufSpace = 1024 := rfl
    have hcount : ((soleSite pp sb hname).entries d).length ≤ 1 := by
      show (List.map _ (soleDirents pp d.realname)).length ≤ 1
      rw [List.length_map]
      unfold soleDirents
      split_ifs <;> simp
    rw [hspace] at hlen
    omega

/-- What stands in its directories. -/
theorem lists_soleSite {realname name : ByteString} (hkind : sb.kind ≠ .other)
    (hmem : ⟨1, name⟩ ∈ soleDirents pp realname) (hne : realname ≠ [])
    (hhidden : hiddenName name = false) :
    (soleSite pp sb hname).Lists (openDir realname) name sb := by
  refine ⟨⟨⟨1, name⟩, hmem, rfl, Nat.one_ne_zero⟩, hhidden, hkind, ?_⟩
  apply if_neg
  intro ⟨hdot, _⟩
  have hlen := congrArg List.length hdot
  have hpos := List.length_pos_iff.mpr hne
  simp only [openDir, List.length_append, List.length_singleton] at hlen
  omega

/-- Its directories are open to all. -/
theorem opens_soleSite {bytes : ByteString} {pp' : PPath}
    (hvalid : (soleSite pp sb hname).validatePath bytes true = .ok (pp', d)) :
    (soleSite pp sb hname).Readable d ∧
      LetsPass (requireAccessRights Scenario.config d dirList 0 pp'.passwd) := by
  obtain ⟨pp₀, -, -, hd⟩ := validatePath_eq_ok_iff.mp hvalid
  refine ⟨readable_soleSite d, ?_⟩
  rcases openDir_of_soleDirInfo hd with ⟨-, rfl⟩ | ⟨-, -, rfl⟩
  · exact letsPass_openDir _ _
  · exact letsPass_openDir _ _

/-- The server shows the object as well. -/
theorem Shows.sole (h : Shows site env path pp sb) (hname : ProperName pp.fPtr) :
    Shows (soleSite pp sb hname) env path pp sb := by
  have hown := work_statField h.parsed
  have hparent := work_file h.parsed
  have hhidden : hiddenName pp.fPtr = false := by
    obtain ⟨d, -, -, hhidden, -⟩ := h.listed
    exact hhidden
  have hr : (⟨1, pp.fPtr⟩ : Dirent) ∈ soleDirents pp (text "r") := mem_soleDirents_r.mpr rfl
  have hhome : pp.fullp = [dot] → sb.kind = .dir := by
    intro hfullp
    have hfound := h.found
    rw [hfullp] at hfound
    exact site.home sb hfound
  have hdirInfo : soleDirInfo pp sb (directoryPart pp false).work = .ok (openDir (text "r")) := if_pos rfl
  -- the directory of a directory is another one, unless it is the home directory
  have hitself : sb.kind = .dir → ∃ d, soleDirInfo pp sb (directoryPart pp true).work = .ok d ∧
      (soleSite pp sb hname).Lists d [dot] sb := by
    intro hkind
    by_cases heq : (directoryPart pp true).work = (directoryPart pp false).work
    · have hfPtr : pp.fPtr = [dot] := by
        apply fPtr_of_home h.parsed
        by_contra hne
        apply parentPart_ne h.parsed hne
        rw [← hparent, ← heq, hown]
      rw [heq]
      refine ⟨_, hdirInfo, ?_⟩
      rw [hfPtr] at hr
      exact lists_soleSite h.kind_ne hr (by decide) (by decide)
    · refine ⟨openDir (text "q"), ?_, ?_⟩
      · unfold soleDirInfo
        rw [if_neg heq, if_pos ⟨rfl, hkind⟩]
      · have hq : (⟨1, [dot]⟩ : Dirent) ∈ soleDirents pp (text "q") := mem_soleDirents_q.mpr rfl
        exact lists_soleSite h.kind_ne hq (by decide) (by decide)
  refine ⟨h.cstring, h.fits, h.listFits, h.parsed, ?_, ?_, ?_, hitself, ?_⟩
  · apply if_neg
    intro ⟨hdot, hkind⟩
    exact hkind (hhome hdot)
  · obtain ⟨pp₂, hparse⟩ : ∃ pp₂, parsePath (cutPassword (statField env path)) = .ok pp₂ := by
      have hok := h.isOk
      cases hvalid : site.validatePath (cutPassword (statField env path)) (sb.kind == .dir) with
      | error pe =>
          rw [hvalid] at hok
          cases hok
      | ok found =>
          obtain ⟨pp₂, hparse, -⟩ := validatePath_eq_ok_iff.mp hvalid
          exact ⟨pp₂, hparse⟩
    have hwork := work_of_pathText_eq h.parsed hparse (pathText_cutPassword _) (sb.kind == .dir)
    have hok : ∃ d, soleDirInfo pp sb (directoryPart pp₂ (sb.kind == .dir)).work = .ok d := by
      rw [hwork]
      cases hkind : sb.kind with
      | other => exact absurd hkind h.kind_ne
      | reg => exact ⟨_, hdirInfo⟩
      | dir =>
          obtain ⟨d, hd, -⟩ := hitself hkind
          exact ⟨d, hd⟩
    obtain ⟨d, hd⟩ := hok
    have hvalid : (soleSite pp sb hname).validatePath (cutPassword (statField env path))
        (sb.kind == .dir) = .ok (directoryPart pp₂ (sb.kind == .dir), d) :=
      validatePath_eq_ok_iff.mpr ⟨pp₂, hparse, rfl, hd⟩
    rw [UploadSite.statType_eq _ h.kind_ne, hvalid]
    show (if sb.kind = .dir then rdtypeDir else rdtypeFile) ≠ 0
    split_ifs
    · decide
    · decide
  · exact ⟨_, hdirInfo, lists_soleSite h.kind_ne hr (by decide) hhidden⟩
  · exact fun _ _ hvalid => opens_soleSite hvalid

/-- The object is not under the name that the client looks for, where it looks for it. -/
theorem Shows.not_listed (h : Shows site env path pp sb) (hwrong : ¬ SearchesRight env path sb)
    {pp' : PPath}
    (hvalid : (soleSite pp sb hname).validatePath (listField env path) true = .ok (pp', d)) :
    ∀ dp ∈ soleDirents pp d.realname, dp.name ≠ (searchedAt env path).2 := by
  have hown := work_statField h.parsed
  have hparent := work_file h.parsed
  -- only the home directory is its own directory
  have hhome : (directoryPart pp true).work = (directoryPart pp false).work → pp.fullp = [dot] := by
    intro heq
    by_contra hne
    apply parentPart_ne h.parsed hne
    rw [← hparent, ← heq, hown]
  obtain ⟨pp₀, hparse, rfl, hd⟩ := validatePath_eq_ok_iff.mp hvalid
  have hd' := openDir_of_soleDirInfo hd
  have hcut : (utilAbsPath env path = env.envDir ∨
      newline ∈ utilAbsPath env path ∧ newline ∉ (searchedAt env path).2) →
      (directoryPart pp₀ true).work = (directoryPart pp true).work := by
    intro hself
    obtain ⟨pp'', hparse', hwork⟩ := searchedAt_self hself h.parsed
    rw [hparse] at hparse'
    rw [Except.ok.inj hparse', hwork]
  unfold SearchesRight at hwrong
  by_cases hself : SearchesItself env path
  · rw [if_pos hself] at hwrong
    have hkind : pp.fullp = [dot] → sb.kind = .dir := by
      intro hfullp
      have hfound := h.found
      rw [hfullp] at hfound
      exact site.home sb hfound
    rcases hd' with ⟨hwork, -⟩ | ⟨-, hdir, -⟩
    · rw [hcut hself.cut.2] at hwork
      exact absurd (hkind (hhome hwork)) hwrong
    · exact absurd hdir hwrong
  · rw [if_neg hself, not_not] at hwrong
    by_cases hname : newline ∈ (searchedAt env path).2
    · have hne : ∀ {name : ByteString}, newline ∉ name → name ≠ (searchedAt env path).2 := by
        rintro name hnot rfl
        exact hnot hname
      rcases hd' with ⟨-, rfl⟩ | ⟨-, -, rfl⟩
      · intro dp hdp
        rw [mem_soleDirents_r.mp hdp]
        exact hne (newline_notMem_fPtr h.parsed)
      · intro dp hdp
        rw [mem_soleDirents_q.mp hdp]
        exact hne (by decide)
    · have hdot : [dot] ≠ (searchedAt env path).2 := fun heq =>
        hself (Or.inr ⟨hwrong, heq.symm⟩)
      rcases hd' with ⟨hwork, rfl⟩ | ⟨-, -, rfl⟩
      · rw [hcut (Or.inr ⟨hwrong, hname⟩)] at hwork
        intro dp hdp
        rw [mem_soleDirents_r.mp hdp, fPtr_of_home h.parsed (hhome hwork)]
        exact hdot
      · intro dp hdp
        rw [mem_soleDirents_q.mp hdp]
        exact hdot

/-- There the clients are not told the same. -/
theorem Shows.not_agrees (h : Shows site env path pp sb) (hname : ProperName pp.fPtr)
    (hwrong : ¬ SearchesRight env path sb) : ¬ Agrees (soleSite pp sb hname) env path := by
  have hsole := h.sole hname
  have hnone : ∀ {dep : Option (List Rdirent)}, search dep (searchedAt env path).2 = none →
      (∀ s, ∃ s', readBlocks (soleSite pp sb hname).net
        (dirCall env (utilAbsPath env (searchedAt env path).1)) listingFuel
        ⟨0, false, 0, List.replicate nbsize 0, 0, []⟩ s = .ok dep s') →
      ¬ Agrees (soleSite pp sb hname) env path := by
    intro dep hsearch hreads hagrees
    rw [hsole.agrees_iff_search hreads, hsearch] at hagrees
    cases hagrees
  cases hvalid : (soleSite pp sb hname).validatePath (listField env path) true with
  | error pe =>
      exact hnone rfl (ListedSite.readBlocks_refused h.listFits hvalid _)
  | ok found =>
      obtain ⟨pp', d⟩ := found
      apply hnone _ (hsole.reads hvalid)
      show ((visibleDirents _).find? _).map entryTold = none
      rw [ListedSite.find_visibleDirents_none (h.not_listed hwrong hvalid), Option.map_none]

end

/-- Exactly if the size is the same truncated and clipped and the clients look for the object where
it is listed, they are told the same on every server that shows the object; and where they look for
it there, the size decides on each server. -/
theorem agrees_iff (site : ListedSite) (env : ClientEnv) (path : ByteString) (pp : PPath) (sb : Stat)
    (h : Shows site env path pp sb) :
    ((∀ site, Shows site env path pp sb → Agrees site env path) ↔
      ExactSize sb ∧ SearchesRight env path sb) ∧
    (SearchesRight env path sb → (Agrees site env path ↔ ExactSize sb)) := by
  refine ⟨⟨?_, ?_⟩, h.agrees_iff_exactSize⟩
  · intro hagrees
    have hright : SearchesRight env path sb := by
      by_contra hwrong
      obtain ⟨d, -, ⟨dp, hdp, hname, -⟩, -⟩ := h.listed
      have hproper : ProperName pp.fPtr := hname ▸ site.proper _ dp hdp
      exact h.not_agrees hproper hwrong (hagrees _ (h.sole hproper))
    exact ⟨(h.agrees_iff_exactSize hright).mp (hagrees site h), hright⟩
  · intro ⟨hexact, hright⟩ site' h'
    exact (h'.agrees_iff_exactSize hright).mpr hexact

/-! ### A file in the home directory -/

/-- The parts of `"f"`. -/
def filePath : PPath := ⟨plainPath, plainPath, 1, [dot], 1, none⟩

theorem properName_filePath : ProperName filePath.fPtr := ⟨by decide, by decide⟩

/-- A file of that size. -/
def fileOfSize (size : ℕ) : Stat := ⟨.reg, size, 0⟩

/-- The server with the file. -/
def fileSite (size : ℕ) : ListedSite := soleSite filePath (fileOfSize size) properName_filePath

theorem statField_plainPath : statField (plainEnv 1024) plainPath = plainPath ++ [0] := by
  rw [statField, utilAbsPath_plainEnv]
  rfl

theorem searchedAt_plainPath :
    searchedAt (plainEnv 1024) plainPath = ([slash], plainPath) := by
  unfold searchedAt
  simp only
  rw [utilAbsPath_plainEnv]
  rfl

theorem searchesRight_fileOfSize (size : ℕ) :
    SearchesRight (plainEnv 1024) plainPath (fileOfSize size) := by
  have hself : ¬ SearchesItself (plainEnv 1024) plainPath := by
    unfold SearchesItself
    rw [utilAbsPath_plainEnv]
    decide
  unfold SearchesRight
  rw [if_neg hself, utilAbsPath_plainEnv]
  decide

theorem shows_fileSite (size : ℕ) :
    Shows (fileSite size) (plainEnv 1024) plainPath filePath (fileOfSize size) := by
  have hr : (⟨1, plainPath⟩ : Dirent) ∈ soleDirents filePath (text "r") := mem_soleDirents_r.mpr rfl
  have hparsed : parsePath (plainPath ++ [0]) = .ok filePath := rfl
  have hkind : (fileOfSize size).kind ≠ .dir := fun h => by cases h
  have hdirInfo : soleDirInfo filePath (fileOfSize size) (directoryPart filePath false).work =
      .ok (openDir (text "r")) := if_pos rfl
  have hlists : (fileSite size).Lists (openDir (text "r")) plainPath (fileOfSize size) :=
    lists_soleSite (fun h => by cases h) hr (by decide) (by decide)
  refine ⟨?_, ?_, ?_, ?_, rfl, ?_, ⟨_, hdirInfo, hlists⟩, fun h => absurd h hkind,
    fun _ _ hvalid => opens_soleSite hvalid⟩
  · rw [utilAbsPath_plainEnv]
    decide
  · rw [statField_plainPath]
    decide
  · have hlisted : listedPath (plainEnv 1024) [slash] = [slash] :=
      listedPath_spelled (Or.inl rfl) (Or.inl rfl)
    rw [listField, searchedAt_plainPath, hlisted]
    decide
  · rw [statField_plainPath]
    exact hparsed
  · have hvalid : (fileSite size).validatePath (cutPassword (plainPath ++ [0])) false =
        .ok (filePath, openDir (text "r")) :=
      validatePath_eq_ok_iff.mpr ⟨filePath, rfl, rfl, hdirInfo⟩
    rw [statField_plainPath, UploadSite.statType_eq _ fun h => by cases h]
    show (if ((fileSite size).validatePath (cutPassword (plainPath ++ [0])) false).isOk then
      rdtypeFile else 0) ≠ 0
    rw [hvalid]
    decide

/-- A file of three bytes. -/
theorem agrees_fileSite_three :
    Shows (fileSite 3) (plainEnv 1024) plainPath filePath (fileOfSize 3) ∧
      Agrees (fileSite 3) (plainEnv 1024) plainPath :=
  have h := agrees_iff (fileSite 3) (plainEnv 1024) plainPath filePath (fileOfSize 3)
    (shows_fileSite 3)
  ⟨shows_fileSite 3, (h.2 (searchesRight_fileOfSize 3)).mpr (Or.inl (by decide))⟩

/-- Of a file of 4 GB the server says that it is empty, and the listing that it has one byte less. -/
theorem not_agrees_fileSite_fourGigs :
    Shows (fileSite 4294967296) (plainEnv 1024) plainPath filePath (fileOfSize 4294967296) ∧
      (∃ c', utilStat (fileSite 4294967296).net (plainEnv 1024) plainPath newClient =
        .ok (some ⟨0, 0, false⟩) c') ∧
      (∃ c', utilStat (fileSite 4294967296).net (plainEnv 1024) plainPath
        { newClient with statworks := false } = .ok (some ⟨0, 4294967295, false⟩) c') ∧
      ¬ Agrees (fileSite 4294967296) (plainEnv 1024) plainPath := by
  have hshows := shows_fileSite 4294967296
  have hright := searchesRight_fileOfSize 4294967296
  have hinexact : ¬ ExactSize (fileOfSize 4294967296) := by
    unfold ExactSize
    decide
  refine ⟨hshows, hshows.utilStat_asked ⟨rfl, rfl⟩, ?_, fun hagrees =>
    hinexact ((hshows.agrees_iff_exactSize hright).mp hagrees)⟩
  obtain ⟨pp', d, hvalid, hlists⟩ := hshows.lists hright
  have hheard : (fileSite 4294967296).Heard (plainEnv 1024) { newClient with statworks := false } :=
    ListedSite.heard_newClient _ _
  have hsearched := utilStat_searched hheard (fun h => by cases h.1) (hshows.reads hvalid)
  rw [search_of_lists hlists] at hsearched
  exact hsearched

end Fsp
