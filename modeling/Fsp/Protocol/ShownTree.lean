import Fsp.Client.Tree
import Fsp.Protocol.StatListed

/-!
# A tree on a server

What stands below a path on a `ListedSite` is a tree that its network shows, so that what is proved of
going through trees holds of this server, with all that a client may hold of its listings.

`Remote.StoredOn` says that the tree is that of the server: each object is told as the server tells
it, and the entries of a directory are those of its listing.  A client may be told of an object by the
server or in a listing, so the objects are those of which both tell the same (`agrees_iff`).  Where
that is so, `gives_utilStat` and `gives_utilOpendir` are the two calls of `util_process_file`: they
have the same result in every state in which the client has heard only this server, and leave it in
one (`heard_utilStat`, `heard_utilOpendir`).  `Remote.shown_of_storedOn` puts them together along the
tree.

The site at the end has a file in its home directory.
-/

namespace Fsp

open Bytes Effect

/-! ## Trees that are stored -/

section

variable (site : ListedSite) (env : ClientEnv)

/-- The object at the path is shown, and every client is told the same of it. -/
structure Tells (path : ByteString) (sb : Stat) : Prop where
  shows : ∃ pp, Shows site env path pp sb
  exact : ExactSize sb
  right : SearchesRight env path sb

mutual

/-- The tree stands on the server below the path. -/
def Remote.StoredOn (path : ByteString) : Remote → Prop
  | .missing => False
  | .file sb => ∃ st, Tells site env path st ∧ st.kind ≠ .dir ∧ sb = statTold st
  | .locked _ => False
  | .dir sb entries =>
      (∃ st, Tells site env path st ∧ st.kind = .dir ∧ sb = statTold st) ∧
        (∃ d, site.Opens env (utilAbsPath env path) d ∧
          entries.listing = visibleDirents (site.entries d)) ∧
        entries.StoredOn path

def Entries.StoredOn (path : ByteString) : Entries → Prop
  | .nil => True
  | .cons rde object rest =>
      (skipped rde.name = false → object.StoredOn (childPath path rde.name)) ∧ rest.StoredOn path

end

end

/-! ## They are shown -/

section

variable {site : ListedSite} {env : ClientEnv} {path : ByteString}

/-- Where the result is the same for all that the client may have heard, and no call of the program
brings it listings of other servers, it gives that result. -/
theorem gives_of_preserves {ok : ClientState → Prop} {α : Type} {m : Client α} {a : α}
    (hres : ∀ s, ok s → ∃ s', m s = .ok a s') (hkeeps : Preserves ok m) : Gives ok m a := by
  intro s hs
  obtain ⟨s', hrun⟩ := hres s hs
  have hkept := hkeeps s hs
  rw [hrun] at hkept
  exact ⟨s', hrun, hkept⟩

theorem gives_utilStat {sb : Stat} (h : Tells site env path sb) :
    Gives (site.Heard env) (utilStat site.net env path) (some (statTold sb)) := by
  obtain ⟨pp, hshows⟩ := h.shows
  obtain ⟨told, hagrees⟩ := (hshows.agrees_iff_exactSize h.right).mpr h.exact
  -- a new client asks the server
  obtain ⟨s₁, hnew⟩ := hagrees newClient (ListedSite.heard_newClient site env)
  obtain ⟨s₂, hasked⟩ : ∃ s', utilStat site.net env path newClient = .ok (some (statTold sb)) s' :=
    hshows.utilStat_asked ⟨rfl, rfl⟩
  rw [hnew] at hasked
  injection hasked with htold _
  rw [← htold]
  exact gives_of_preserves hagrees (ListedSite.heard_utilStat site env path)

theorem gives_utilOpendir {d : DirInfo} (h : site.Opens env (utilAbsPath env path) d) :
    Gives (site.Heard env) (utilOpendir site.net env path)
      (some (visibleDirents (site.entries d))) := by
  refine gives_of_preserves (fun s hs => ?_) (ListedSite.heard_utilOpendir site env path)
  exact ListedSite.utilOpendir_of_reads hs fun s => ListedSite.readBlocks_listed h _ s

mutual

/-- The network of a server shows the trees that stand on it, by induction on the tree. -/
theorem Remote.shown_of_storedOn (tree : Remote) (path : ByteString)
    (h : tree.StoredOn site env path) : tree.Shown site.net env (site.Heard env) path := by
  cases tree with
  | missing => exact h.elim
  | locked sb => exact h.elim
  | file sb =>
      obtain ⟨st, htells, hkind, rfl⟩ := h
      exact ⟨decide_eq_false hkind, gives_utilStat htells⟩
  | dir sb entries =>
      obtain ⟨⟨st, htells, hkind, rfl⟩, ⟨d, hopens, hlisting⟩, hentries⟩ := h
      have hopendir := gives_utilOpendir hopens
      rw [← hlisting] at hopendir
      exact ⟨decide_eq_true hkind, gives_utilStat htells, hopendir,
        Entries.shown_of_storedOn entries path hentries⟩

theorem Entries.shown_of_storedOn (entries : Entries) (path : ByteString)
    (h : entries.StoredOn site env path) : entries.Shown site.net env (site.Heard env) path := by
  cases entries with
  | nil => trivial
  | cons rde object rest =>
      obtain ⟨hobject, hrest⟩ := h
      exact ⟨fun hskip => Remote.shown_of_storedOn object _ (hobject hskip),
        Entries.shown_of_storedOn rest path hrest⟩

end

end

/-! ## A file in the home directory -/

/-- The home directory. -/
def homeStat : Stat := ⟨.dir, 0, 9⟩

/-- A file of five bytes. -/
def fileStat : Stat := ⟨.reg, 5, 7⟩

def homeDirInfo (work : ByteString) : Except ByteString DirInfo :=
  if work = [dot] then .ok (openDir (text "r")) else .error (text "Invalid path")

def homeFiles (path : ByteString) : Option Stat :=
  if path = [dot] ∨ path = text "r" ++ [slash] ++ [dot] then some homeStat
  else if path = plainPath ∨ path = text "r" ++ [slash] ++ plainPath then some fileStat
  else none

def homeDirents (realname : ByteString) : List Dirent :=
  if realname = text "r" then [⟨1, [dot]⟩, ⟨2, plainPath⟩] else []

theorem eq_openDir_of_homeDirInfo {work : ByteString} {d : DirInfo} (h : homeDirInfo work = .ok d) :
    d = openDir (text "r") := by
  unfold homeDirInfo at h
  split_ifs at h
  exact (Except.ok.inj h).symm

/-- The server. -/
def homeSite : ListedSite where
  cfg := Scenario.config
  inetNum := 0
  dirInfo := homeDirInfo
  files := homeFiles
  junk := 0
  dirents := homeDirents
  loaded work d h := by
    rw [eq_openDir_of_homeDirInfo h]
    have hpermits : permits (dirList ||| dirGet) dirOwner = false := by decide
    exact ⟨hpermits, fun _ h => by cases h⟩
  proper realname dp h := by
    unfold homeDirents at h
    split_ifs at h
    · rcases List.mem_cons.mp h with rfl | h
      · exact ⟨by decide, by decide⟩
      · rw [List.mem_singleton.mp h]
        exact ⟨by decide, by decide⟩
    · cases h
  home sb h := by
    rw [← Option.some.inj ((if_pos (Or.inl rfl)).symm.trans h)]
    rfl

/-- The tree of the home directory, with the entry for itself. -/
def homeTree : Remote :=
  .dir (statTold homeStat)
    (.cons (rdirent ([dot], homeStat)) .missing
      (.cons (rdirent (plainPath, fileStat)) (.file (statTold fileStat)) .nil))

theorem readable_homeSite (d : DirInfo) : homeSite.Readable d := by
  have hsize : dirblocksize Scenario.config = 1024 := rfl
  refine ⟨?_, ?_⟩
  · show Packs (dirblocksize Scenario.config) 0 _
    rw [hsize]
    refine packs_of_size (by decide) (by decide) ?_ (by decide)
    intro e he
    exact (properName_of_visible (homeSite.proper_entries d) e he).length_le
  · intro listing hbuild
    have hlen := length_buildDirListing_le hbuild
    have hspace : ubufSpace = 1024 := rfl
    have hcount : (homeSite.entries d).length ≤ 2 := by
      show (List.map _ (homeDirents d.realname)).length ≤ 2
      rw [List.length_map]
      unfold homeDirents
      split_ifs <;> simp
    rw [hspace] at hlen
    omega

/-- Its directory is open to all. -/
theorem opens_homeSite {bytes : ByteString} {pp : PPath} {d : DirInfo}
    (hvalid : homeSite.validatePath bytes true = .ok (pp, d)) :
    homeSite.Readable d ∧ LetsPass (requireAccessRights Scenario.config d dirList 0 pp.passwd) := by
  obtain ⟨pp₀, -, -, hd⟩ := validatePath_eq_ok_iff.mp hvalid
  refine ⟨readable_homeSite d, ?_⟩
  rw [eq_openDir_of_homeDirInfo hd]
  exact letsPass_openDir _ _

/-- The path `"."`, and `"./f"`. -/
theorem utilAbsPath_home : utilAbsPath (plainEnv 1024) [dot] = [slash] ∧
    utilAbsPath (plainEnv 1024) (childPath [dot] plainPath) = slash :: plainPath := by
  have hpassword : (plainEnv 1024).envPasswd = [] := rfl
  have hhome : absLoop [] (rawPath (plainEnv 1024) [dot]) = ⟨[slash], false⟩ := by decide +kernel
  have hfile : absLoop [] (rawPath (plainEnv 1024) (childPath [dot] plainPath)) =
      ⟨slash :: plainPath, false⟩ := by
    decide +kernel
  constructor
  · rw [utilAbsPath_of_no_password hpassword, canonicalPath, hhome]
  · rw [utilAbsPath_of_no_password hpassword, canonicalPath, hfile]

theorem listedPath_slash : listedPath (plainEnv 1024) [slash] = [slash] :=
  listedPath_spelled (Or.inl rfl) (Or.inl rfl)

/-- The parts of `""`, which stand for the home directory. -/
def homePath : PPath := ⟨[dot], [dot], 1, [dot], 1, none⟩

theorem tells_home : Tells homeSite (plainEnv 1024) [dot] homeStat := by
  have habs := utilAbsPath_home.1
  have hfield : statField (plainEnv 1024) [dot] = [0] := by
    rw [statField, habs]
    rfl
  have hsearched : searchedAt (plainEnv 1024) [dot] = ([slash], [dot]) := by
    unfold searchedAt
    simp only
    rw [habs]
    rfl
  have hdirInfo : homeDirInfo [dot] = .ok (openDir (text "r")) := if_pos rfl
  have hfound : homeFiles (text "r" ++ [slash] ++ [dot]) = some homeStat := if_pos (Or.inr rfl)
  have hlists : homeSite.Lists (openDir (text "r")) [dot] homeStat :=
    ⟨⟨⟨1, [dot]⟩, List.mem_cons_self, rfl, Nat.one_ne_zero⟩, by decide, (fun h => by cases h), hfound⟩
  have hvalid : homeSite.validatePath (cutPassword [0]) true =
      .ok (directoryPart homePath true, openDir (text "r")) :=
    validatePath_eq_ok_iff.mpr ⟨homePath, rfl, rfl, hdirInfo⟩
  have hhome : homeFiles [dot] = some homeStat := if_pos (Or.inl rfl)
  have hself : SearchesItself (plainEnv 1024) [dot] := Or.inl habs
  refine ⟨⟨homePath, ?_, ?_, ?_, ?_, hhome, ?_, ⟨_, hdirInfo, hlists⟩,
    fun _ => ⟨_, hdirInfo, hlists⟩, fun _ _ h => opens_homeSite h⟩, Or.inl (by decide), ?_⟩
  · rw [habs]
    decide
  · rw [hfield]
    decide
  · rw [listField, hsearched, listedPath_slash]
    decide
  · rw [hfield]
    rfl
  · rw [hfield, UploadSite.statType_eq _ fun h => by cases h]
    show (if (homeSite.validatePath (cutPassword [0]) true).isOk then rdtypeDir else 0) ≠ 0
    rw [hvalid]
    decide
  · unfold SearchesRight
    rw [if_pos hself]
    rfl

theorem tells_file : Tells homeSite (plainEnv 1024) (childPath [dot] plainPath) fileStat := by
  have habs := utilAbsPath_home.2
  have hfield : statField (plainEnv 1024) (childPath [dot] plainPath) = plainPath ++ [0] := by
    rw [statField, habs]
    rfl
  have hsearched : searchedAt (plainEnv 1024) (childPath [dot] plainPath) = ([slash], plainPath) := by
    unfold searchedAt
    simp only
    rw [habs]
    rfl
  have hself : ¬ SearchesItself (plainEnv 1024) (childPath [dot] plainPath) := by
    unfold SearchesItself
    rw [habs]
    decide
  have hdirInfo : homeDirInfo [dot] = .ok (openDir (text "r")) := if_pos rfl
  have hmem : (⟨2, plainPath⟩ : Dirent) ∈ homeDirents (text "r") :=
    List.mem_cons_of_mem _ List.mem_cons_self
  have hlisted : homeFiles (text "r" ++ [slash] ++ plainPath) = some fileStat := by decide +kernel
  have hlists : homeSite.Lists (openDir (text "r")) plainPath fileStat :=
    ⟨⟨_, hmem, rfl, Nat.succ_ne_zero 1⟩, by decide, (fun h => by cases h), hlisted⟩
  have hfound : homeFiles plainPath = some fileStat := by decide +kernel
  have hvalid : homeSite.validatePath (cutPassword (plainPath ++ [0])) false =
      .ok (filePath, openDir (text "r")) :=
    validatePath_eq_ok_iff.mpr ⟨filePath, rfl, rfl, hdirInfo⟩
  refine ⟨⟨filePath, ?_, ?_, ?_, ?_, hfound, ?_, ⟨_, hdirInfo, hlists⟩,
    (fun h => by cases h), fun _ _ h => opens_homeSite h⟩, Or.inl (by decide), ?_⟩
  · rw [habs]
    decide
  · rw [hfield]
    decide
  · rw [listField, hsearched, listedPath_slash]
    decide
  · rw [hfield]
    rfl
  · rw [hfield, UploadSite.statType_eq _ fun h => by cases h]
    show (if (homeSite.validatePath (cutPassword (plainPath ++ [0])) false).isOk then
      rdtypeFile else 0) ≠ 0
    rw [hvalid]
    decide
  · unfold SearchesRight
    rw [if_neg hself, habs]
    decide

/-- The server shows a directory with a file. -/
theorem shown_homeTree :
    homeTree.Shown homeSite.net (plainEnv 1024) (homeSite.Heard (plainEnv 1024)) [dot] := by
  apply Remote.shown_of_storedOn
  have habs : utilAbsPath (plainEnv 1024) (utilAbsPath (plainEnv 1024) [dot]) = [slash] := by
    rw [utilAbsPath_home.1]
    have hloop : absLoop [] (rawPath (plainEnv 1024) [slash]) = ⟨[slash], false⟩ := by decide +kernel
    rw [utilAbsPath_of_no_password rfl, canonicalPath, hloop]
  have hdirInfo : homeDirInfo [dot] = .ok (openDir (text "r")) := if_pos rfl
  have hvalid : homeSite.validatePath [0] true =
      .ok (directoryPart homePath true, openDir (text "r")) :=
    validatePath_eq_ok_iff.mpr ⟨homePath, rfl, rfl, hdirInfo⟩
  have hopens : homeSite.Opens (plainEnv 1024) (utilAbsPath (plainEnv 1024) [dot])
      (openDir (text "r")) := by
    refine ⟨?_, ⟨directoryPart homePath true, ?_, (opens_homeSite hvalid).2⟩, readable_homeSite _⟩
    · rw [habs]
      decide
    · rw [habs]
      exact hvalid
  refine ⟨⟨homeStat, tells_home, rfl, rfl⟩, ⟨_, hopens, by decide +kernel⟩, ?_, ?_, trivial⟩
  · -- the entry for the directory itself is not gone into
    intro hskip
    exact absurd hskip (by decide)
  · exact fun _ => ⟨fileStat, tells_file, (fun h => by cases h), rfl⟩

theorem joins_homeTree : homeTree.Joins [dot] :=
  homeTree.joins_of_named (by decide) ⟨by decide, by decide, trivial, by decide, by decide, trivial,
    trivial⟩

end Fsp
