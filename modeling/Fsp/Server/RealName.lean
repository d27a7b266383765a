import Fsp.Server.Phases

/-!
# The name of a directory

`validate_path` keeps the name that `getcwd` has reported for a directory, and the operations change
into the directory under that name later on.  When the directory information is new, the name is
that of the directory which the path leads to at the time of the request (`realNameAt`).  When it was
kept from an earlier request, it need not be: a link may lead elsewhere since then, or the directory
may be gone.  What `validate_path` looks at before it keeps an entry is its age, or the time of
modification of the directory (`Server.keeps`).

`named_findDirInfo` puts these together: the name in use is that of the directory, if it is so for
the one entry that may be kept (`Server.RecordsWell`).
-/

namespace Fsp

open Effect

variable {Fs Cwd : Type} [Posix Fs Cwd] {cfg : Config} {s : Server Fs Cwd}

/-- The name that the system has for the directory a path leads to. -/
def realNameAt (fs : Fs) (cwd : Cwd) (path : ByteString) : Option ByteString :=
  (Posix.chdir fs cwd path).bind (Posix.getcwd fs)

/-- `validate_path` goes on using the entry `di` for the directory `work`: it was checked not long
ago, or the directory has not changed since. -/
def Server.keeps (s : Server Fs Cwd) (cfg : Config) (work : ByteString) (di : ℕ) : Prop :=
  s.fresh cfg di = true ∨ cfg.useDirectoryMtime = true ∧ ∃ sd, Posix.stat s.fs s.cwd work = some sd ∧
    sd.kind = .dir ∧ sd.mtime = (s.dirStatCache.entry di).mtime

/-- An entry that is kept for the directory `work` has the name of the directory. -/
def Server.RecordsWell (s : Server Fs Cwd) (cfg : Config) (work : ByteString) : Prop :=
  ∀ di, s.dirStatCache.fCacheFind work = some di → s.keeps cfg work di →
    realNameAt s.fs s.cwd work = some (s.dirStatCache.entry di).realname

/-- Loading the access rights does not change the name of the directory. -/
theorem realname_loadAccessRights (d : DirInfo) :
    Returns (fun d' => d'.realname = d.realname)
      (loadAccessRights cfg d : Srv Fs Cwd DirInfo) := by
  apply returns_bind (returns_true _)
  intro readme _
  apply returns_ite
  · intro _
    apply returns_bind (returns_true _)
    intro protection _
    apply returns_bind (returns_true _)
    intro publicPassword _
    apply returns_bind (returns_true _)
    exact fun owner _ => returns_pure rfl
  · exact fun _ => returns_pure rfl

theorem chdir_of_some {path : ByteString} {c : Cwd} (h : Posix.chdir s.fs s.cwd path = some c) :
    chdir path s = .ok true { s with cwd := c, trace := s.trace ++ [.chdir path true] } := by
  unfold chdir
  rw [h]

theorem chdir_of_none {path : ByteString} (h : Posix.chdir s.fs s.cwd path = none) :
    chdir path s = .ok false { s with trace := s.trace ++ [.chdir path false] } := by
  unfold chdir
  rw [h]

/-! ## The name in use -/

/-- The result is an error, or the number of an entry with the name of the directory `work`. -/
def Named (fs : Fs) (cwd : Cwd) (work : ByteString) (res : Except ByteString ℕ)
    (s : Server Fs Cwd) : Prop :=
  ∀ di, res = .ok di → realNameAt fs cwd work = some (s.dirStatCache.entry di).realname

theorem named_error {fs : Fs} {cwd : Cwd} {work err : ByteString} :
    Named fs cwd work (.error err) s := by
  intro di hdi
  cases hdi

/-- A new directory information has the name that `getcwd` reports behind the path. -/
theorem named_buildDirInfo (s : Server Fs Cwd) (work : ByteString) (sd : Stat) :
    wp (buildDirInfo cfg work sd) (Named s.fs s.cwd work) (fun _ => True) s := by
  have henter : wp (chdir work : Srv Fs Cwd Bool)
      (fun ok s' => ok = true → s'.fs = s.fs ∧ Posix.chdir s.fs s.cwd work = some s'.cwd)
      (fun _ => True) s := by
    unfold wp
    cases hchdir : Posix.chdir s.fs s.cwd work with
    | none =>
        rw [chdir_of_none hchdir]
        exact fun h => absurd h (by decide)
    | some c =>
        rw [chdir_of_some hchdir]
        exact fun _ => ⟨rfl, rfl⟩
  refine wp_seq henter fun ok s₁ hs₁ => wp_ite (fun hok => ?_) fun _ => named_error
  obtain ⟨hfs, hcwd⟩ := hs₁ hok
  have hgetcwd : wp (getcwd : Srv Fs Cwd (Option ByteString))
      (fun name _ => name = realNameAt s.fs s.cwd work) (fun _ => True) s₁ := by
    show Posix.getcwd s₁.fs s₁.cwd = realNameAt s.fs s.cwd work
    rw [realNameAt, hcwd, Option.bind_some, hfs]
  refine wp_seq hgetcwd fun realname s₂ hname => ?_
  cases realname with
  | none => exact wp_seq ((returns_true _).run s₂) fun _ _ _ => named_error
  | some realname =>
      refine wp_ite (fun _ => wp_seq ((returns_true _).run s₂) fun _ _ _ => named_error) fun _ => ?_
      refine wp_seq ((returns_true _).run s₂) fun now s₃ _ => ?_
      refine wp_seq ((realname_loadAccessRights _).run s₃) fun newdir s₄ hnewdir => ?_
      refine wp_seq ((returns_true _).run s₄) fun _ s₅ _ => ?_
      have hput : wp (putDirInfo work newdir)
          (fun slot s => s.dirStatCache.entry slot = newdir) (fun _ => True) s₅ :=
        FifoCache.entry_fCachePut work newdir
      refine wp_seq hput fun slot s₆ hslot => ?_
      rintro _ ⟨⟩
      rw [← hname, hslot]
      exact congrArg some hnewdir.symm

omit [Posix Fs Cwd] in
/-- A change to an entry that leaves its name alone. -/
theorem realname_setDirInfo {di : ℕ} {f : DirInfo → DirInfo} (hf : ∀ d, (f d).realname = d.realname) :
    wp (setDirInfo di f)
      (fun _ s' => (s'.dirStatCache.entry di).realname = (s.dirStatCache.entry di).realname)
      (fun _ => True) s := by
  show ((s.dirStatCache.setEntry di _).slot di).entry.realname = _
  rw [FifoCache.slot_setEntry]
  split
  · exact hf _
  · rfl

theorem named_recheckDirInfo {work : ByteString} (hwell : s.RecordsWell cfg work) {di : Option ℕ}
    (hdi : ∀ i ∈ di, s.dirStatCache.fCacheFind work = some i) :
    wp (recheckDirInfo cfg work di) (Named s.fs s.cwd work) (fun _ => True) s := by
  have hstat : wp (stat work) (fun sd s' => sd = Posix.stat s.fs s.cwd work ∧ s'.fs = s.fs ∧
      s'.cwd = s.cwd ∧ s'.dirStatCache = s.dirStatCache) (fun _ => True) s := ⟨rfl, rfl, rfl, rfl⟩
  apply wp_seq hstat
  rintro sd s₁ ⟨hsd, hfs, hcwd, hcache⟩
  have hbuild : ∀ (sd : Stat) (s₂ : Server Fs Cwd), s₂.fs = s₁.fs → s₂.cwd = s₁.cwd →
      wp (buildDirInfo cfg work sd) (Named s.fs s.cwd work) (fun _ => True) s₂ := by
    intro sd s₂ hfs₂ hcwd₂
    rw [← hfs, ← hcwd, ← hfs₂, ← hcwd₂]
    exact named_buildDirInfo s₂ work sd
  cases sd with
  | none => exact named_error
  | some sd =>
      refine wp_ite (fun _ => named_error) fun hkind => ?_
      cases di with
      | none => exact hbuild sd s₁ rfl rfl
      | some di =>
          refine wp_seq (R := fun r s' => r = s₁ ∧ s' = s₁) ⟨rfl, rfl⟩ ?_
          rintro _ s₂ ⟨rfl, rfl⟩
          refine wp_ite (fun hsame => ?_) fun _ => ?_
          · -- the entry is kept, so it is the one the hypothesis is about
            have hkeeps : s.keeps cfg work di := by
              refine Or.inr ⟨hsame.1, sd, hsd.symm, not_not.mp hkind, ?_⟩
              rw [← hcache]
              exact hsame.2
            refine wp_seq (realname_setDirInfo fun _ => rfl) fun _ s₃ hname => ?_
            rintro _ ⟨⟩
            rw [hname, hcache]
            exact hwell di (hdi di rfl) hkeeps
          · have hdelete : wp (deleteDirInfo di) (fun _ s' => s'.fs = s₂.fs ∧ s'.cwd = s₂.cwd)
                (fun _ => True) s₂ := ⟨rfl, rfl⟩
            exact wp_seq hdelete fun _ s₃ hs₃ => hbuild sd s₃ hs₃.1 hs₃.2

theorem named_findDirInfo {work : ByteString} (hwell : s.RecordsWell cfg work) :
    wp (findDirInfo cfg work) (Named s.fs s.cwd work) (fun _ => True) s := by
  refine wp_seq (R := fun r s' => r = s ∧ s' = s) ⟨rfl, rfl⟩ ?_
  rintro _ _ ⟨rfl, rfl⟩
  split
  · rename_i di hdi
    refine wp_ite (fun hfresh => ?_) fun _ => named_recheckDirInfo hwell ?_
    · rintro _ ⟨⟩
      exact hwell di hdi (Or.inl hfresh)
    · rintro i ⟨⟩
      exact hdi
  · exact named_recheckDirInfo hwell (by simp)

/-- The directory information that `validate_path` returns has the name of the directory. -/
theorem named_validatePath {fullp : ByteString} (wantDirectory : Bool)
    (hwell : ∀ pp, parsePath fullp = .ok pp →
      s.RecordsWell cfg (directoryPart pp wantDirectory).work) :
    wp (validatePath cfg fullp wantDirectory)
      (fun res s' => ∀ pp di, res = .ok (pp, di) →
        realNameAt s.fs s.cwd pp.work = some (s'.dirStatCache.entry di).realname)
      (fun _ => True) s := by
  unfold validatePath
  split
  · rintro pp di ⟨⟩
  · rename_i pp hpp
    have hemit : wp (emit (.lookup (directoryPart pp wantDirectory).work))
        (fun _ s' => s'.fs = s.fs ∧ s'.cwd = s.cwd ∧
          s'.RecordsWell cfg (directoryPart pp wantDirectory).work) (fun _ => True) s :=
      ⟨rfl, rfl, hwell pp hpp⟩
    apply wp_seq hemit
    rintro _ s₁ ⟨hfs, hcwd, hwell₁⟩
    refine wp_seq (named_findDirInfo hwell₁) fun res s₂ hnamed => ?_
    cases res with
    | error err => rintro pp di ⟨⟩
    | ok di =>
        rintro _ _ ⟨⟩
        rw [← hfs, ← hcwd]
        exact hnamed di rfl

end Fsp
