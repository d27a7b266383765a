import Fsp.Server.Rounds

/-!
# The two phases of a request

While a request is served, `validate_path` and the access check come first, and the one operation that
may change files comes after them.  What is known about the files when a request arrives (`J`) is
therefore still known when that operation starts, and an invariant `K` of the whole server only has to
be kept by the operations from there on.  `Phases.serve` is the walk through all commands.
-/

namespace Fsp

open Effect

variable {Fs Cwd : Type} [Posix Fs Cwd] {cfg : Config}

/-- The paths that a request has looked up, unless it is refused before, each with whether the whole
path is taken for a directory.  A status request looks up its path as one or the other. -/
def Request.lookups (cfg : Config) (r : Request) : List (ByteString × Bool) :=
  let statPath := cutPassword (if r.s1.length < 2 then [0] else r.s1)
  match Command.ofByte r.ub.cmd with
  | .getDir | .getPro => [(r.s1, true)]
  | .getFile => [(r.s1, false)]
  | .delFile | .install => if cfg.readOnly ∨ r.old then [] else [(r.s1, false)]
  | .delDir => if cfg.readOnly ∨ r.old then [] else [(r.s1, true)]
  | .makeDir => if cfg.readOnly then [] else [(r.s1, false)]
  | .setPro => if cfg.readOnly then [] else [(r.s1, true)]
  | .grabFile => if cfg.readOnly ∨ ¬ cfg.grabEnabled then [] else [(r.s1, false)]
  | .grabDone => if cfg.readOnly ∨ ¬ cfg.grabEnabled ∨ r.old then [] else [(r.s1, false)]
  | .stat => [(statPath, true), (statPath, false)]
  | .rename =>
      if cfg.readOnly ∨ r.old then [] else [(r.s1, false), (r.s2, true), (r.s2, false)]
  | _ => []

/-- Looking for directories and checking access keeps `J`, and what a command does next leads from `J`
to `K`; sending replies and using streams keeps `K`. -/
structure Phases (J K : Server Fs Cwd → Prop) (cfg : Config) (r : Request) : Prop where
  le : ∀ s, J s → K s
  stat : ∀ path, Preserves J (stat path)
  requireAccess : ∀ di rights passwd, Preserves J (requireAccess cfg r di rights passwd)
  validatePath : ∀ l ∈ r.lookups cfg, Triple J (validatePath cfg l.1 l.2) (fun _ => J) K
  serverGetDir : ∀ di, Triple J (serverGetDir cfg di) (fun _ => K) K
  serverGetFile : ∀ pp di, Triple J (serverGetFile pp r.inetNum r.portNum di) (fun _ => K) K
  serverDelFile : ∀ pp di, Triple J (serverDelFile pp di) (fun _ => K) K
  serverDelDir : ∀ pp di, Triple J (serverDelDir cfg pp di) (fun _ => K) K
  serverUpLoad : Triple J (serverUpLoad cfg r.s1 r.pos r.inetNum r.portNum uploadDepth)
    (fun _ => K) K
  serverInstall : ∀ pp acc di, Triple J (serverInstall cfg pp r.inetNum r.portNum acc di r.s2)
    (fun _ => K) K
  serverMakeDir : Command.ofByte r.ub.cmd = .makeDir → r.old = false →
    ∀ pp, parsePath r.s1 = .ok pp → ∀ di, Triple J (serverMakeDir cfg pp r.inetNum di) (fun _ => K) K
  serverSetPro : ∀ di, Triple J (serverSetPro cfg di (r.s2At 0) (r.s2At 1)) (fun _ => K) K
  serverSecureFile : ∀ pp di, Triple J (serverSecureFile cfg pp r.inetNum r.portNum di)
    (fun _ => K) K
  serverGrabDone : Triple J (serverGrabDone cfg r.inetNum r.portNum) (fun _ => K) K
  serverRename : ∀ src dest sdir tdir, Triple J (serverRename src dest sdir tdir) (fun _ => K) K
  listed : ∀ listing, Preserves K (emit (.listed listing))
  requireAccess' : ∀ di rights passwd, Preserves K (Fsp.requireAccess cfg r di rights passwd)
  serverGrabFile : Preserves K (serverGrabFile cfg r.inetNum r.portNum)
  fseeko : ∀ fp pos, Preserves K (fseeko fp pos)
  fread : ∀ fp len, Preserves K (fread fp len)
  fclose : ∀ fp, Preserves K (fclose fp)
  serverReply : ∀ client ub data xtra, Preserves K (serverReply cfg client ub data xtra)
  bye : ∀ hp, Preserves K (setHost hp fun h => { h with active := false })

/-- What `validate_path` returns are the parts of the path. -/
theorem returns_validatePath (fullp : ByteString) (wantDirectory : Bool) :
    Returns (fun res => ∀ pp di, res = .ok (pp, di) →
        ∃ pp', parsePath fullp = .ok pp' ∧ pp = directoryPart pp' wantDirectory)
      (validatePath cfg fullp wantDirectory : Srv Fs Cwd (Except ByteString (PPath × ℕ))) := by
  unfold validatePath
  split
  · exact returns_pure (by simp)
  · rename_i pp hpp
    apply returns_bind (returns_true _)
    intro _ _
    apply returns_bind (returns_true _)
    intro di _
    cases di with
    | error err => exact returns_pure (by simp)
    | ok di =>
        apply returns_bind (returns_true _)
        intro d _
        apply returns_bind (returns_true _)
        intro _ _
        apply returns_pure
        rintro _ _ ⟨⟩
        exact ⟨pp, hpp, rfl⟩

section

variable {J K : Server Fs Cwd → Prop} {r : Request} (h : Phases J K cfg r)
include h

namespace Phases

theorem triple {α : Type} {m : Srv Fs Cwd α} (hm : Preserves K m) :
    Triple J m (fun _ => K) K :=
  triple_mono (Preserves.triple hm) h.le (fun _ _ hs => hs) fun _ hs => hs

theorem triple_keep {α : Type} {m : Srv Fs Cwd α} (hm : Preserves J m) :
    Triple J m (fun _ => J) K :=
  triple_mono (Preserves.triple hm) (fun _ hs => hs) (fun _ _ hs => hs) h.le

theorem refuse (msg : ByteString) : Preserves K (refuse cfg r msg) := h.serverReply _ _ _ _

theorem reply (data : ByteString) : Preserves K (reply cfg r data []) := h.serverReply _ _ _ _

theorem unlessError (pe : Option ByteString) {next : Srv Fs Cwd Unit} (hnext : Preserves K next) :
    Preserves K (unlessError cfg r pe next) := by
  cases pe with
  | some pe => exact h.refuse pe
  | none => exact hnext

/-- An operation without a result, and then a reply. -/
theorem operation {m : Srv Fs Cwd (Option ByteString)} (hm : Triple J m (fun _ => K) K)
    {next : Srv Fs Cwd Unit} (hnext : Preserves K next) :
    Triple J (do
      let pe ← m
      Fsp.unlessError cfg r pe next) (fun _ => K) K :=
  triple_seq hm fun pe => Preserves.triple (h.unlessError pe hnext)

theorem validated {wantDirectory : Bool} {next : PPath → ℕ → Srv Fs Cwd Unit}
    (hmem : (r.s1, wantDirectory) ∈ r.lookups cfg)
    (hnext : ∀ pp pp' di, parsePath r.s1 = .ok pp' → pp = directoryPart pp' wantDirectory →
      Triple J (next pp di) (fun _ => K) K) :
    Triple J (validated cfg r wantDirectory next) (fun _ => K) K := by
  have hvalid := triple_and (h.validatePath _ hmem)
    (⟨fun s _ => (returns_validatePath r.s1 wantDirectory).run s⟩ :
      Triple (fun _ => True) _ _ _)
  apply triple_seq (triple_mono hvalid (fun s hs => ⟨hs, trivial⟩) (fun _ _ hs => hs)
    fun _ hs => hs.1)
  intro res
  apply triple_fact
  intro hres
  cases res with
  | error pe => exact h.triple (h.refuse pe)
  | ok res =>
      obtain ⟨pp', hparse, hpp⟩ := hres _ _ rfl
      exact hnext _ _ _ hparse hpp

theorem checkAccessRights {di : ℕ} {rights : UInt8} {passwd : Option ByteString}
    {next : ByteString → Srv Fs Cwd Unit} (hnext : ∀ pe, Triple J (next pe) (fun _ => K) K) :
    Triple J (checkAccessRights cfg r di rights passwd next) (fun _ => K) K := by
  apply triple_seq (h.triple_keep (h.requireAccess di rights passwd))
  intro pe
  apply triple_ite
  · exact fun _ => h.triple (does_pure _)
  intro _
  apply triple_ite
  · exact fun _ => h.triple (h.refuse _)
  · exact fun _ => hnext pe

theorem replyPro (di : ℕ) (acc : ByteString) : Preserves K (replyPro cfg r di acc) :=
  does_bind (does_dirInfo di) fun _ => h.serverReply _ _ _ _

theorem serveFile (fp : Handle) : Preserves K (serveFile cfg r fp) :=
  does_bind (h.fseeko _ _) fun _ => does_bind (h.fread _ _) fun _ => h.reply _

/-! ## Commands -/

theorem caseGetDir (hcmd : Command.ofByte r.ub.cmd = .getDir) : Triple J (caseGetDir cfg r) (fun _ => K) K := by
  refine h.validated (by simp [Request.lookups, hcmd]) ?_
  intro pp _ di _ _
  apply h.checkAccessRights
  intro _
  apply triple_seq (h.serverGetDir di)
  intro dl
  apply Preserves.triple
  cases dl with
  | error pe => exact h.refuse pe
  | ok dl =>
      refine does_bind (does_dirListing dl) fun dl => ?_
      refine does_bind (h.listed _) fun _ => ?_
      split
      · exact h.refuse _
      · exact h.reply _

theorem caseGetFile (hcmd : Command.ofByte r.ub.cmd = .getFile) : Triple J (caseGetFile cfg r) (fun _ => K) K := by
  refine h.validated (by simp [Request.lookups, hcmd]) ?_
  intro pp _ di _ _
  apply h.checkAccessRights
  intro _
  apply triple_seq (h.serverGetFile pp di)
  intro fp
  apply Preserves.triple
  cases fp with
  | error pe => exact h.refuse pe
  | ok fp => exact h.serveFile fp

theorem caseDelFile (hcmd : Command.ofByte r.ub.cmd = .delFile) : Triple J (caseDelFile cfg r) (fun _ => K) K := by
  apply triple_ite
  · exact fun _ => h.triple (h.refuse _)
  intro hwrite
  apply triple_ite
  · exact fun _ => h.triple (h.reply _)
  intro hnew
  refine h.validated (by simp [Request.lookups, hcmd, hwrite, hnew]) ?_
  intro pp _ di _ _
  apply h.checkAccessRights
  exact fun _ => h.operation (h.serverDelFile pp di) (h.reply _)

theorem caseDelDir (hcmd : Command.ofByte r.ub.cmd = .delDir) : Triple J (caseDelDir cfg r) (fun _ => K) K := by
  apply triple_ite
  · exact fun _ => h.triple (h.refuse _)
  intro hwrite
  apply triple_ite
  · exact fun _ => h.triple (h.reply _)
  intro hnew
  refine h.validated (by simp [Request.lookups, hcmd, hwrite, hnew]) ?_
  intro pp _ di _ _
  apply h.checkAccessRights
  exact fun _ => h.operation (h.serverDelDir pp di) (h.reply _)

theorem caseUpLoad : Triple J (caseUpLoad cfg r) (fun _ => K) K := by
  apply triple_ite
  · exact fun _ => h.triple (h.refuse _)
  intro _
  apply triple_ite
  · exact fun _ => h.triple (h.reply _)
  · exact fun _ => h.operation h.serverUpLoad (h.reply _)

theorem caseInstall (hcmd : Command.ofByte r.ub.cmd = .install) : Triple J (caseInstall cfg r) (fun _ => K) K := by
  apply triple_ite
  · exact fun _ => h.triple (h.refuse _)
  intro hwrite
  apply triple_ite
  · exact fun _ => h.triple (h.reply _)
  intro hnew
  refine h.validated (by simp [Request.lookups, hcmd, hwrite, hnew]) ?_
  intro pp _ di _ _
  apply triple_ite
  · intro _
    apply h.checkAccessRights
    exact fun acc => h.operation (h.serverInstall pp acc di) (h.reply _)
  · exact fun _ => h.operation (h.serverInstall pp [] di) (h.reply _)

theorem caseMakeDir (hcmd : Command.ofByte r.ub.cmd = .makeDir) :
    Triple J (caseMakeDir cfg r) (fun _ => K) K := by
  have hfinish : ∀ di passwd, Preserves K
      (Fsp.checkAccessRights cfg r di 0 passwd fun pe => Fsp.replyPro cfg r di pe) := by
    intro di passwd
    apply does_bind (h.requireAccess' di 0 passwd)
    intro pe
    apply does_ite
    · exact fun _ => does_pure _
    intro _
    apply does_ite
    · exact fun _ => h.refuse _
    · exact fun _ => h.replyPro di pe
  apply triple_ite
  · exact fun _ => h.triple (h.refuse _)
  intro hwrite
  refine h.validated (by simp [Request.lookups, hcmd, hwrite]) ?_
  intro pp pp' di hparse hpp
  apply triple_ite
  · exact fun _ => h.triple (hfinish di pp.passwd)
  intro hnew
  apply h.checkAccessRights
  intro _
  have hsame : pp = pp' := hpp
  apply triple_seq (h.serverMakeDir hcmd (by simpa using hnew) pp (hsame ▸ hparse) di)
  intro res
  cases res with
  | error pe => exact Preserves.triple (h.refuse pe)
  | ok di => exact Preserves.triple (hfinish di pp.passwd)

theorem caseGetPro (hcmd : Command.ofByte r.ub.cmd = .getPro) : Triple J (caseGetPro cfg r) (fun _ => K) K := by
  refine h.validated (by simp [Request.lookups, hcmd]) ?_
  intro pp _ di _ _
  apply h.checkAccessRights
  exact fun pe => h.triple (h.replyPro di pe)

theorem caseSetPro (hcmd : Command.ofByte r.ub.cmd = .setPro) : Triple J (caseSetPro cfg r) (fun _ => K) K := by
  apply triple_ite
  · exact fun _ => h.triple (h.refuse _)
  intro hwrite
  refine h.validated (by simp [Request.lookups, hcmd, hwrite]) ?_
  intro pp _ di _ _
  apply triple_ite
  · exact fun _ => h.triple (h.replyPro di _)
  intro _
  apply h.checkAccessRights
  exact fun _ => h.operation (h.serverSetPro di) (h.replyPro di _)

/-- What follows the grab of a file. -/
theorem serveGrabbed : Preserves K (do
    match ← Fsp.serverGrabFile cfg r.inetNum r.portNum with
    | .error pe => Fsp.refuse cfg r pe
    | .ok fp => do
        Fsp.serveFile cfg r fp
        Fsp.fclose fp) := by
  apply does_bind h.serverGrabFile
  intro fp
  cases fp with
  | error pe => exact h.refuse pe
  | ok fp => exact does_bind (h.serveFile fp) fun _ => h.fclose fp

theorem caseGrabFile (hcmd : Command.ofByte r.ub.cmd = .grabFile) : Triple J (caseGrabFile cfg r) (fun _ => K) K := by
  apply triple_ite
  · exact fun _ => h.triple (h.refuse _)
  intro hwrite
  refine h.validated (by simp_all [Request.lookups]) ?_
  intro pp _ di _ _
  apply h.checkAccessRights
  intro _
  refine h.operation ?_ h.serveGrabbed
  apply triple_ite
  · exact fun _ => h.serverSecureFile pp di
  · exact fun _ => h.triple (does_pure _)

theorem caseGrabDone (hcmd : Command.ofByte r.ub.cmd = .grabDone) : Triple J (caseGrabDone cfg r) (fun _ => K) K := by
  apply triple_ite
  · exact fun _ => h.triple (h.refuse _)
  intro hwrite
  apply triple_ite
  · exact fun _ => h.triple (h.reply _)
  intro hnew
  refine h.validated (by simp_all [Request.lookups]) ?_
  intro pp _ di _ _
  apply h.checkAccessRights
  exact fun _ => h.operation h.serverGrabDone (h.reply _)

theorem caseStat (hcmd : Command.ofByte r.ub.cmd = .stat) : Triple J (caseStat cfg r) (fun _ => K) K := by
  have hmem : ∀ wantDirectory,
      (cutPassword (if r.s1.length < 2 then [0] else r.s1), wantDirectory) ∈ r.lookups cfg := by
    intro wantDirectory
    cases wantDirectory <;> simp [Request.lookups, hcmd]
  have hstat : Triple J (serverStat cfg r.s1 r.junk) (fun _ => J) K := by
    unfold serverStat
    simp only
    split
    · exact h.triple_keep (does_pure _)
    · apply triple_seq (h.triple_keep (h.stat _))
      intro sb
      cases sb with
      | none => exact h.triple_keep (does_pure _)
      | some sb =>
          have hallowed : ∀ kind, Triple J (statAllowed cfg
              (cutPassword (if r.s1.length < 2 then [0] else r.s1)) kind) (fun _ => J) K := by
            intro kind
            unfold statAllowed
            split
            · exact h.triple_keep (does_pure _)
            · apply triple_seq (h.validatePath _ (hmem _))
              intro res
              cases res <;> exact h.triple_keep (does_pure _)
          apply triple_seq (hallowed sb.kind)
          exact fun _ => h.triple_keep (does_pure _)
  apply triple_seq hstat
  exact fun data => h.triple (h.reply data)

theorem caseRename (hcmd : Command.ofByte r.ub.cmd = .rename) : Triple J (caseRename cfg r) (fun _ => K) K := by
  have hdone : Preserves K (Fsp.serverReply cfg r.client { r.ub with bbPos := 0 } [] []) :=
    h.serverReply _ _ _ _
  apply triple_ite
  · exact fun _ => h.triple (h.refuse _)
  intro hwrite
  apply triple_ite
  · exact fun _ => h.triple hdone
  intro hnew
  refine h.validated (by simp [Request.lookups, hcmd, hwrite, hnew]) ?_
  intro srcpath _ srcdir _ _
  apply h.checkAccessRights
  intro _
  have htarget : Preserves J (renameTarget r : Srv Fs Cwd (Except ByteString (Option FileKind))) := by
    apply does_ite
    · exact fun _ => does_pure _
    intro _
    apply does_bind (h.stat _)
    intro sb
    cases sb with
    | none => exact does_pure _
    | some sb => exact does_ite (fun _ => does_pure _) fun _ => does_pure _
  apply triple_seq (h.triple_keep htarget)
  intro target
  cases target with
  | error pe => exact h.triple (h.refuse pe)
  | ok target =>
      have hmem : ∀ wantDirectory, (r.s2, wantDirectory) ∈ r.lookups cfg := by
        intro wantDirectory
        cases wantDirectory <;> simp [Request.lookups, hcmd, hwrite, hnew]
      apply triple_seq (h.validatePath _ (hmem _))
      intro res
      cases res with
      | error pe => exact h.triple (h.refuse pe)
      | ok res =>
          obtain ⟨pp, di⟩ := res
          have hrefused : Preserves J (overwriteRefused cfg r target pp di) := by
            apply does_ite
            · intro _
              apply does_bind (h.requireAccess di dirDel pp.passwd)
              intro pe
              exact does_ite (fun _ => does_pure _) fun _ => does_pure _
            · exact fun _ => does_pure _
          apply triple_seq (h.triple_keep hrefused)
          intro pe
          cases pe with
          | some pe => exact h.triple (h.refuse pe)
          | none => exact h.operation (h.serverRename srcpath pp srcdir di) hdone

/-- The dispatcher. -/
theorem serve (hp : ℕ) : Triple J (serve cfg r hp) (fun _ => K) K := by
  unfold Fsp.serve
  split
  · apply h.triple
    exact does_ite (fun _ => h.serverReply _ _ _ _) fun _ => does_pure _
  · exact h.triple (does_bind (h.bye hp) fun _ => h.reply _)
  · exact h.caseGetDir ‹_›
  · exact h.caseGetFile ‹_›
  · exact h.caseDelFile ‹_›
  · exact h.caseDelDir ‹_›
  · exact h.caseUpLoad
  · exact h.caseInstall ‹_›
  · exact h.caseMakeDir ‹_›
  · exact h.caseGetPro ‹_›
  · exact h.caseSetPro ‹_›
  · exact h.caseGrabFile ‹_›
  · exact h.caseGrabDone ‹_›
  · exact h.caseStat ‹_›
  · exact h.caseRename ‹_›
  · exact h.triple (does_ite (fun _ => h.refuse _) fun _ => h.refuse _)

end Phases

end

/-! ## An invariant of all steps -/

/-- Every entry but that of a directory that was found. -/
def NotValidated : Event → Prop
  | .validated _ _ _ => False
  | _ => True

section

variable {J K : Server Fs Cwd → Prop} {r : Request} {P : Event → Prop} {Good : DirInfo → Prop}

/-- Where all steps but those on the cache of listings keep `K`, only the lookups, the listings and
the making of directories are left. -/
theorem phases_of_steps (hsteps : Steps (Kept K) P Good) (hP : ∀ e, NotValidated e → P e)
    (hle : ∀ s, J s → K s) (hstat : ∀ path, Preserves J (stat path))
    (haccess : ∀ di rights passwd, Preserves J (requireAccess cfg r di rights passwd))
    (hvalid : ∀ l ∈ r.lookups cfg, Triple J (validatePath cfg l.1 l.2) (fun _ => J) K)
    (hget : ∀ di, Triple J (serverGetDir cfg di) (fun _ => K) K)
    (hmake : Command.ofByte r.ub.cmd = .makeDir → r.old = false →
      ∀ pp, parsePath r.s1 = .ok pp → ∀ di, Triple J (serverMakeDir cfg pp r.inetNum di) (fun _ => K) K)
    (hbye : ∀ hp, Preserves K (setHost hp fun h => { h with active := false } : Srv Fs Cwd Unit)) :
    Phases J K cfg r := by
  have hstreams : AllowsStreams P :=
    ⟨fun _ => hP _ trivial, fun _ _ _ => hP _ trivial, fun _ _ => hP _ trivial,
      fun _ _ _ => hP _ trivial⟩
  have hsave : AllowsSave P :=
    ⟨fun _ _ _ => hP _ trivial, fun _ _ => hP _ trivial, fun _ _ _ => hP _ trivial⟩
  have hupload : ∀ tname, AllowsUpload tname P := fun _ =>
    ⟨hstreams, fun _ _ => hP _ trivial, fun _ => hP _ trivial, fun _ => hP _ trivial,
      fun _ => hP _ trivial, hP _ trivial⟩
  have hlater : ∀ {α : Type} {m : Srv Fs Cwd α}, Preserves K m → Triple J m (fun _ => K) K :=
    fun hm => triple_mono (Preserves.triple hm) hle (fun _ _ hs => hs) fun _ hs => hs
  constructor
  · exact hle
  · exact hstat
  · exact haccess
  · exact hvalid
  · exact hget
  · exact fun pp di => hlater (does_serverGetFile hsteps (fun _ => hP _ trivial)
      (fun _ _ => hP _ trivial) (fun _ => hP _ trivial) _ _ di)
  · exact fun pp di => hlater (does_serverDelFile hsteps (fun _ => hP _ trivial)
      (fun _ => hP _ trivial) di)
  · exact fun pp di => hlater (does_serverDelDir hsteps hsave (fun _ => hP _ trivial)
      (fun _ => hP _ trivial) (fun _ => hP _ trivial) (fun _ => hP _ trivial) di)
  · exact hlater (does_serverUpLoad hsteps (hupload _) _ _ _)
  · exact fun pp acc di => hlater (does_serverInstall hsteps hstreams (fun _ => hP _ trivial)
      (fun _ => hP _ trivial) (fun _ => hP _ trivial) (fun _ => hP _ trivial) (hP _ trivial)
      (fun _ => hP _ trivial) acc di _)
  · exact hmake
  · exact fun di => hlater (does_serverSetPro hsteps hsave (fun _ _ _ => hP _ trivial)
      (fun _ _ => hP _ trivial) di _ _)
  · exact fun pp di => hlater (does_serverSecureFile hsteps hstreams (fun _ => hP _ trivial)
      (fun _ => hP _ trivial) (fun _ => hP _ trivial) (fun _ => hP _ trivial)
      (fun _ => hP _ trivial) (hP _ trivial) di)
  · exact hlater (does_serverGrabDone hsteps (fun _ => hP _ trivial) (fun _ => hP _ trivial)
      fun _ => hP _ trivial)
  · exact fun src dest sdir tdir => hlater (does_serverRename hsteps (fun _ _ => hP _ trivial)
      (fun _ _ => hP _ trivial) sdir tdir)
  · exact fun _ => hsteps.emit _ (hP _ trivial)
  · exact fun _ _ _ => does_requireAccess hsteps fun _ => hP _ trivial
  · exact does_serverGrabFile hsteps (fun _ => hP _ trivial) (fun _ => hP _ trivial)
      fun _ => hP _ trivial
  · exact fun _ _ => hsteps.fseeko _ _ fun _ => hP _ trivial
  · exact fun _ _ => hsteps.fread _ _ fun _ => hP _ trivial
  · exact fun _ => hsteps.fclose _ (hP _ trivial)
  · exact fun _ _ _ _ => does_serverReply hsteps (hP _ trivial)
  · exact hbye

/-- Where all steps keep `K`, only the lookups and the making of directories are left. -/
theorem phases_of_primitives (hprims : Primitives (Kept K) P Good) (hP : ∀ e, NotValidated e → P e)
    (hle : ∀ s, J s → K s) (hstat : ∀ path, Preserves J (stat path))
    (haccess : ∀ di rights passwd, Preserves J (requireAccess cfg r di rights passwd))
    (hvalid : ∀ l ∈ r.lookups cfg, Triple J (validatePath cfg l.1 l.2) (fun _ => J) K)
    (hmake : Command.ofByte r.ub.cmd = .makeDir → r.old = false →
      ∀ pp, parsePath r.s1 = .ok pp → ∀ di, Triple J (serverMakeDir cfg pp r.inetNum di) (fun _ => K) K)
    (hbye : ∀ hp, Preserves K (setHost hp fun h => { h with active := false } : Srv Fs Cwd Unit)) :
    Phases J K cfg r := by
  refine phases_of_steps hprims.toSteps hP hle hstat haccess hvalid ?_ hmake hbye
  intro di
  have hget : Preserves K (serverGetDir cfg di : Srv Fs Cwd (Except ByteString ℕ)) :=
    does_serverGetDir hprims
      ⟨fun _ => hP _ trivial, fun _ _ _ => hP _ trivial, fun _ _ => hP _ trivial,
        fun _ _ _ => hP _ trivial⟩
      (fun _ => ⟨fun _ => hP _ trivial, fun _ => hP _ trivial, fun _ => hP _ trivial⟩) di
  exact triple_mono (Preserves.triple hget) hle (fun _ _ hs => hs) fun _ hs => hs

end

end Fsp
