import Fsp.Scenario
import Fsp.Server.PathParts
import Fsp.Server.Steps

/-!
# The directory an access decision is about

`validate_path` looks up a directory string, and if it has to, it stats that string, changes into
it and loads the access rights there.  `DecidesOn` says that all this is about one directory, up to
the lengths of runs of slashes.  That directory should be the one the request then operates on:
the whole path when a directory is wanted, its parent part otherwise.
-/

namespace Fsp

open Bytes Effect

variable {Fs Cwd : Type} [Posix Fs Cwd] {cfg : Config}

/-! ## The cache entry of a directory -/

omit [Posix Fs Cwd] in
theorem wp_setDirInfo_key {s : Server Fs Cwd} {di : ℕ} {f : DirInfo → DirInfo} {key : ByteString}
    (h : s.dirStatCache.fCacheGetKey di = some key) :
    wp (setDirInfo di f) (fun _ s' => s'.dirStatCache.fCacheGetKey di = some key)
      (fun _ => True) s := by
  show (s.dirStatCache.setEntry di _).fCacheGetKey di = some key
  rw [FifoCache.key_setEntry, h]

omit [Posix Fs Cwd] in
theorem wp_putDirInfo_key (s : Server Fs Cwd) (key : ByteString) (d : DirInfo) :
    wp (putDirInfo key d) (fun di s' => s'.dirStatCache.fCacheGetKey di = some key)
      (fun _ => True) s := by
  exact FifoCache.key_fCachePut_self key d

/-- The result `r` is an error or the number of a slot with the key `work`. -/
def KeyOf (work : ByteString) (r : Except ByteString ℕ) (s : Server Fs Cwd) : Prop :=
  ∀ di, r = .ok di → s.dirStatCache.fCacheGetKey di = some work

theorem keyOf_buildDirInfo (s : Server Fs Cwd) (work : ByteString) (sd : Stat) :
    wp (buildDirInfo cfg work sd) (KeyOf work) (fun _ => True) s := by
  have herror : ∀ (err : ByteString) (s' : Server Fs Cwd), KeyOf work (.error err) s' := by
    intro err s' di hdi
    cases hdi
  refine wp_seq ((returns_true _).run s) fun ok s₁ _ => wp_ite (fun _ => ?_) fun _ => herror _ _
  refine wp_seq ((returns_true _).run s₁) fun realname s₂ _ => ?_
  cases realname with
  | none => exact wp_seq ((returns_true _).run s₂) fun _ _ _ => herror _ _
  | some realname =>
      refine wp_ite (fun _ => wp_seq ((returns_true _).run s₂) fun _ _ _ => herror _ _) fun _ => ?_
      refine wp_seq ((returns_true _).run s₂) fun _ s₃ _ => ?_
      refine wp_seq ((returns_true _).run s₃) fun newdir s₄ _ => ?_
      refine wp_seq ((returns_true _).run s₄) fun _ s₅ _ => ?_
      refine wp_seq (wp_putDirInfo_key s₅ work newdir) fun di s₆ hkey => ?_
      rintro di' ⟨⟩
      exact hkey

theorem keyOf_recheckDirInfo (s : Server Fs Cwd) (work : ByteString) (di : Option ℕ)
    (hdi : ∀ i ∈ di, s.dirStatCache.fCacheGetKey i = some work) :
    wp (recheckDirInfo cfg work di) (KeyOf work) (fun _ => True) s := by
  have hstat : wp (stat work) (fun _ s' => s'.dirStatCache = s.dirStatCache) (fun _ => True) s :=
    rfl
  refine wp_seq hstat fun sd s₁ hs₁ => ?_
  cases sd with
  | none => rintro di ⟨⟩
  | some sd =>
      refine wp_ite (fun _ => by rintro di ⟨⟩) fun _ => ?_
      cases di with
      | none => exact keyOf_buildDirInfo s₁ work sd
      | some di =>
          have hkey : s₁.dirStatCache.fCacheGetKey di = some work := hs₁ ▸ hdi di rfl
          refine wp_seq (R := fun _ s' => s' = s₁) rfl fun s' s₂ hs₂ => ?_
          subst hs₂
          refine wp_ite (fun _ => ?_) fun _ => ?_
          · refine wp_seq (wp_setDirInfo_key hkey) fun _ s₃ hkey => ?_
            rintro di' ⟨⟩
            exact hkey
          · exact wp_seq ((returns_true _).run s₂) fun _ s₃ _ => keyOf_buildDirInfo s₃ work sd

theorem keyOf_findDirInfo (s : Server Fs Cwd) (work : ByteString) :
    wp (findDirInfo cfg work) (KeyOf work) (fun _ => True) s := by
  refine wp_seq (R := fun r s' => r = s ∧ s' = s) ⟨rfl, rfl⟩ ?_
  rintro _ _ ⟨rfl, rfl⟩
  split
  · rename_i di hdi
    have hkey := FifoCache.key_of_fCacheFind hdi
    refine wp_ite (fun _ => ?_) fun _ => keyOf_recheckDirInfo _ work _ ?_
    · rintro di' ⟨⟩
      exact hkey
    · rintro i ⟨⟩
      exact hkey
  · exact keyOf_recheckDirInfo _ work none (by simp)

/-! ## The directory -/

/-- An entry that is about no directory but `d`, apart from the way back to the home directory and
the files that hold the rights. -/
def Consults (cfg : Config) (d : ByteString) : Event → Prop
  | .lookup dir => collapse dir = d
  | .stat path _ => collapse path = d ∨ path ∈ statNames cfg
  | .chdir path _ => collapse path = d ∨ path = cfg.homeDir
  | .validated _ _ _ => True
  | _ => False

/-- `validate_path` decides on the directory `d`: it looks up, stats and changes into no other
directory, and a directory information it returns is stored under a name of `d`. -/
structure DecidesOn (cfg : Config) (fullp : ByteString) (wantDirectory : Bool) (d : ByteString)
    (s : Server Fs Cwd) : Prop where
  consults : Appends (Consults cfg d) s (final (validatePath cfg fullp wantDirectory s))
  key : ∀ pp di s', validatePath cfg fullp wantDirectory s = .ok (.ok (pp, di)) s' →
    ∃ key, s'.dirStatCache.fCacheGetKey di = some key ∧ collapse key = d

variable {fullp : ByteString} {wantDirectory : Bool} {pp : PPath} {s : Server Fs Cwd}

/-- What `validate_path` does once the path is parsed. -/
theorem does_validated (work : ByteString) : Does (Acts fun _ => True) (do
    match ← (findDirInfo cfg work : Srv Fs Cwd (Except ByteString ℕ)) with
    | .error err => pure (.error err)
    | .ok di => do
        let d ← dirInfo di
        emit (.validated (directoryPart pp wantDirectory) di d.realname)
        pure (.ok (directoryPart pp wantDirectory, di)) :
      Srv Fs Cwd (Except ByteString (PPath × ℕ))) := by
  have hprims := @primitives_acts Fs Cwd _ fun _ => True
  refine does_bind (does_findDirInfo hprims.toSteps ⟨trivial, fun _ => trivial, fun _ _ _ => trivial,
    fun _ => trivial, fun _ => trivial⟩ returns_loadAccessRights) fun di => ?_
  cases di with
  | error err => exact does_pure _
  | ok di =>
      exact does_bind (does_dirInfo _) fun d => does_bind (hprims.emit _ trivial) fun _ =>
        does_pure _

/-- The directory is looked up in any case. -/
theorem lookup_validatePath (h : parsePath fullp = .ok pp) :
    ∃ new, log (final (validatePath cfg fullp wantDirectory s)) =
      log s ++ .lookup (directoryPart pp wantDirectory).work :: new := by
  obtain ⟨new, hnew, -⟩ := (does_validated (directoryPart pp wantDirectory).work
    { s with trace := s.trace ++ [.lookup (directoryPart pp wantDirectory).work] }).1
  refine ⟨new, ?_⟩
  unfold validatePath
  rw [h]
  refine hnew.trans ?_
  simp

/-- What is looked up decides what the decision is about. -/
theorem decidesOn_iff {d : ByteString} (h : parsePath fullp = .ok pp) :
    DecidesOn cfg fullp wantDirectory d s ↔
      collapse (directoryPart pp wantDirectory).work = d := by
  constructor
  · intro hd
    obtain ⟨new, hnew, hall⟩ := hd.consults
    obtain ⟨new', hnew'⟩ : ∃ new, log (final (validatePath cfg fullp wantDirectory s)) =
        log s ++ .lookup (directoryPart pp wantDirectory).work :: new := lookup_validatePath h
    rw [hnew] at hnew'
    have := List.append_cancel_left hnew'
    exact hall (.lookup _) (by rw [this]; exact List.mem_cons_self)
  · intro hd
    constructor
    · refine (does_validatePath (primitives_acts (Consults cfg d)).toSteps ?_ (fun _ _ _ => trivial)
        returns_loadAccessRights s).1
      intro pp' hpp'
      rw [h] at hpp'
      injection hpp' with hpp'
      subst hpp'
      exact ⟨hd, fun _ => Or.inl hd, fun _ hfile _ => Or.inr hfile, fun _ => Or.inl hd,
        fun _ => Or.inr rfl⟩
    · intro pp' di s' hrun
      have hkey : wp (validatePath cfg fullp wantDirectory)
          (fun r s' => ∀ pp' di, r = .ok (pp', di) →
            s'.dirStatCache.fCacheGetKey di = some (directoryPart pp wantDirectory).work)
          (fun _ => True) s := by
        unfold validatePath
        rw [h]
        refine wp_seq ((returns_true _).run s) fun _ s₁ _ => ?_
        refine wp_seq (keyOf_findDirInfo s₁ _) fun r s₂ hkey => ?_
        cases r with
        | error err => rintro pp' di ⟨⟩
        | ok di =>
            rintro pp' di' ⟨⟩
            exact hkey di rfl
      exact ⟨_, wp_of_ok hkey hrun pp' di rfl, hd⟩

/-- The directory a request operates on: the whole path when a directory is wanted, the parent
part of the path otherwise. -/
def operatedOn (path : ByteString) (wantDirectory : Bool) : ByteString :=
  collapse (if wantDirectory then path else parentPart path)

/-- `validate_path` decides on the directory that is operated on, unless it wants the whole path as
a directory and that path has a doubled slash before its last component. -/
theorem validatePath_decidesOn_operatedOn_iff (cfg : Config) (s : Server Fs Cwd)
    (wantDirectory : Bool) (h : parsePath fullp = .ok pp) :
    DecidesOn cfg fullp wantDirectory (operatedOn pp.fullp wantDirectory) s ↔
      ¬ (wantDirectory = true ∧ DoubledLast pp.fullp) := by
  rw [decidesOn_iff h]
  cases wantDirectory with
  | false =>
      rw [work_file h]
      simp [operatedOn]
  | true =>
      simp only [operatedOn, if_true, true_and]
      exact collapse_work_iff h

theorem validatePath_decidesOn_operatedOn_iff_nested :
    DecidesOn Scenario.config (Scenario.path "/a/b//") true (operatedOn (text "a/b//") true)
        (Scenario.start Scenario.config []) ↔
      ¬ (true = true ∧ DoubledLast (text "a/b//")) :=
  validatePath_decidesOn_operatedOn_iff Scenario.config _ true
    (show parsePath _ = .ok ⟨text "a/b//", text ".", 1, text "a/b//", 3, none⟩ by decide)

/-- A request to delete `a//b`, by anyone.  Only in `a` is everyone allowed to delete. -/
def doubledDelete : List Event :=
  (Scenario.traces Scenario.config
    (Scenario.start Scenario.config
      [("h/a", .dir), ("h/a/.FSP_OK_DEL", Scenario.emptyFile), ("h/a/b", .dir)])
    [Scenario.arrival 100 7
      (Scenario.datagram .delDir 5 0 (Scenario.path "a//b") [])]).flatten

/-- The request is decided on `a` instead of `a/b`, and then deletes `a/b`. -/
theorem doubledDelete_decided_on_parent :
    parsePath (Scenario.path "a//b") = .ok ⟨text "a//b", text "b", 1, text "a//b", 1, none⟩ ∧
    ¬ DecidesOn Scenario.config (Scenario.path "a//b") true (operatedOn (text "a//b") true)
      (Scenario.start Scenario.config []) ∧
    .validated ⟨text "a//b", text "b", 1, text "a//b", 3, none⟩ 0 (text "/h/a") ∈ doubledDelete ∧
    .rmdir (text "a//b") true ∈ doubledDelete := by
  refine ⟨by decide, ?_, by decide +kernel, by decide +kernel⟩
  have hparse : parsePath (Scenario.path "a//b") =
      .ok ⟨text "a//b", text "b", 1, text "a//b", 1, none⟩ := by decide
  rw [decidesOn_iff hparse]
  decide

end Fsp
