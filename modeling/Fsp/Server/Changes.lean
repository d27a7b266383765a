import Fsp.Server.Answers
import Fsp.Server.Repeats

/-!
# What changes files

The dispatcher decides by the command, by the configuration and by `old` whether a request may change
files.  The checks stand in every `case` for itself, and two of the cases have no early return for
repeated requests: `CC_MAKE_DIR` and `CC_SET_PRO` go on to the reply, and `CC_GRAB_FILE` on to the
hidden file.  The theorem about all of them has one exception, which is intended: a server that keeps
prebuilt listings writes them whatever the request for a directory is.
-/

namespace Fsp

open Bytes Effect

/-! ## Changes -/

/-- The entry is that of a call that may change files, directories or their attributes. -/
def Event.changes : Event → Bool
  | .unlink _ _ => true
  | .remove _ _ => true
  | .rmdir _ _ => true
  | .mkdir _ _ => true
  | .rename _ _ _ _ => true
  | .creat _ => true
  | .writeFile _ _ => true
  | .chmod _ => true
  | .utime _ _ => true
  | .fopen _ mode _ => mode ≠ .r
  | .fwrite _ _ _ => true
  | .copied _ _ => true
  | .protect _ _ _ => true
  | _ => false

/-- The entry is one of those for a listing that is kept in its directory.  An `fwrite` does not tell
which file it is to; what `CC_GET_DIR` writes is the listing. -/
def Event.Saves : Event → Prop
  | .fopen path mode _ => mode = .w ∧ ∃ dir : ByteString, path = dir ++ [slash] ++ fspDirlisting
  | .unlink path _ => ∃ dir : ByteString, path = dir ++ [slash] ++ fspDirlisting
  | .fwrite _ _ _ => True
  | _ => False

/-- The commands that are there to change files. -/
def Command.changes : Command → Bool
  | .delFile => true
  | .delDir => true
  | .upLoad => true
  | .install => true
  | .makeDir => true
  | .setPro => true
  | .grabFile => true
  | .grabDone => true
  | .rename => true
  | _ => false

/-- The configuration allows the command. -/
def Config.Allows (cfg : Config) (cmd : Command) : Prop :=
  cfg.readOnly = false ∧ (cmd = .grabFile ∨ cmd = .grabDone → cfg.grabEnabled = true)

instance (cfg : Config) (cmd : Command) : Decidable (cfg.Allows cmd) :=
  inferInstanceAs (Decidable (_ ∧ _))

/-- A request for a directory that keeps its listing. -/
def KeepsListing (cfg : Config) (cmd : Command) (e : Event) : Prop :=
  cmd = .getDir ∧ cfg.usePrebuildDirlists = true ∧ e.Saves

/-- The entry is not that of a change, but for a listing that is kept. -/
def Harmless (cfg : Config) (cmd : Command) (e : Event) : Prop :=
  e.changes = true → KeepsListing cfg cmd e

section

variable {Fs Cwd : Type} [Posix Fs Cwd] {cfg : Config} {r : Request} {cmd : Command}

/-! ## The parts of a command -/

theorem harmless_of_unchanging {e : Event} (h : e.changes = false) : Harmless cfg cmd e :=
  fun h' => Bool.noConfusion (h.symm.trans h')

theorem primitives_harmless (cfg : Config) (cmd : Command) :
    Primitives (Appends (Harmless cfg cmd) : Server Fs Cwd → Server Fs Cwd → Prop)
      (Harmless cfg cmd) fun _ => True :=
  (primitives_acts _).mono fun _ _ h => h.1

theorem harmless_serverReply {client : SockAddr} {ub : Ubuf} {data xtra : ByteString} :
    Emits (Harmless cfg cmd) (serverReply cfg client ub data xtra : Srv Fs Cwd Unit) :=
  does_serverReply (primitives_harmless cfg cmd).toSteps (harmless_of_unchanging rfl)

theorem allowsFind_harmless (work : ByteString) : AllowsFind cfg work (Harmless cfg cmd) where
  lookup := harmless_of_unchanging rfl
  stat _ := harmless_of_unchanging rfl
  statNames _ _ _ := harmless_of_unchanging rfl
  chdir _ := harmless_of_unchanging rfl
  home _ := harmless_of_unchanging rfl

theorem harmless_validatePath (fullp : ByteString) (wantDirectory : Bool) :
    Emits (Harmless cfg cmd) (validatePath cfg fullp wantDirectory :
      Srv Fs Cwd (Except ByteString (PPath × ℕ))) :=
  does_validatePath (primitives_harmless cfg cmd).toSteps (fun _ _ => allowsFind_harmless _)
    (fun _ _ _ => harmless_of_unchanging rfl) returns_loadAccessRights

theorem harmless_validated {wantDirectory : Bool} {next : PPath → ℕ → Srv Fs Cwd Unit}
    (hnext : ∀ pp di, Emits (Harmless cfg cmd) (next pp di)) :
    Emits (Harmless cfg cmd) (validated cfg r wantDirectory next) := by
  apply does_bind (harmless_validatePath _ _)
  intro res
  cases res with
  | error pe => exact harmless_serverReply
  | ok res => exact hnext _ _

theorem harmless_checkAccessRights {di : ℕ} {rights : UInt8} {passwd : Option ByteString}
    {next : ByteString → Srv Fs Cwd Unit} (hnext : ∀ pe, Emits (Harmless cfg cmd) (next pe)) :
    Emits (Harmless cfg cmd) (checkAccessRights cfg r di rights passwd next) := by
  have haccess : Emits (Harmless cfg cmd)
      (requireAccess cfg r di rights passwd : Srv Fs Cwd ByteString) :=
    does_requireAccess (primitives_harmless cfg cmd).toSteps fun _ => harmless_of_unchanging rfl
  apply does_bind haccess
  intro pe
  apply does_ite
  · exact fun _ => does_pure _
  · exact fun _ => does_ite (fun _ => harmless_serverReply) fun _ => hnext pe

theorem harmless_replyPro {di : ℕ} {acc : ByteString} :
    Emits (Harmless cfg cmd) (replyPro cfg r di acc : Srv Fs Cwd Unit) :=
  does_bind (does_dirInfo _) fun _ => harmless_serverReply

theorem harmless_fclose (fp : Handle) :
    Emits (Harmless cfg cmd) (fclose fp : Srv Fs Cwd Unit) :=
  (primitives_harmless cfg cmd).fclose _ (harmless_of_unchanging rfl)

theorem harmless_serveFile {fp : Handle} :
    Emits (Harmless cfg cmd) (serveFile cfg r fp : Srv Fs Cwd Unit) := by
  have hprims := @primitives_harmless Fs Cwd _ cfg cmd
  apply does_bind (hprims.fseeko _ _ fun _ => harmless_of_unchanging rfl)
  intro sought
  apply does_bind (hprims.fread _ _ fun _ => harmless_of_unchanging rfl)
  exact fun _ => harmless_serverReply

/-! ## Listings -/

theorem harmless_storeListing {di : DirInfo} {new : DirListing} :
    Emits (Harmless cfg cmd) (storeListing none di new : Srv Fs Cwd ℕ) :=
  does_bind (does_putDirListing (primitives_harmless cfg cmd) _ _) fun _ =>
    does_bind does_get fun _ => does_pure _

/-- A server that does not keep listings writes none. -/
theorem harmless_makeListing (hprebuilt : cfg.usePrebuildDirlists = false) (d : DirInfo) :
    Emits (Harmless cfg cmd) (makeListing cfg d : Srv Fs Cwd (Except ByteString ℕ)) := by
  have hnot : ¬ cfg.usePrebuildDirlists = true := by simp [hprebuilt]
  unfold makeListing
  simp only [if_neg hnot]
  refine does_bind (does_pure _) fun prebuilt => ?_
  cases prebuilt with
  | some new => exact does_bind harmless_storeListing fun _ => does_pure _
  | none =>
      refine does_bind (does_query _) fun entries => ?_
      cases entries with
      | none => exact does_pure _
      | some entries =>
          simp only
          split
          · exact does_throw _
          · refine does_bind does_get fun s => ?_
            exact does_bind harmless_storeListing fun _ => does_pure _

theorem allowsListing_harmless (hprebuilt : cfg.usePrebuildDirlists = true) (dir : ByteString) :
    AllowsListing (dir ++ [slash] ++ fspDirlisting) (Harmless cfg .getDir) where
  stat _ := harmless_of_unchanging rfl
  fopen _ := fun _ => ⟨rfl, hprebuilt, rfl, dir, rfl⟩
  unlink _ := fun _ => ⟨rfl, hprebuilt, dir, rfl⟩

theorem harmless_serverGetDir (di : ℕ) :
    Emits (Harmless cfg .getDir) (serverGetDir cfg di : Srv Fs Cwd (Except ByteString ℕ)) := by
  have hprims := @primitives_harmless Fs Cwd _ cfg .getDir
  cases hprebuilt : cfg.usePrebuildDirlists with
  | true =>
      refine does_serverGetDir hprims ?_ (allowsListing_harmless hprebuilt) di
      exact ⟨fun _ => harmless_of_unchanging rfl, fun _ _ _ => harmless_of_unchanging rfl,
        fun _ _ => harmless_of_unchanging rfl, fun _ _ _ _ => ⟨rfl, hprebuilt, trivial⟩⟩
  | false =>
      refine does_bind (does_dirInfo _) fun d => ?_
      refine does_bind does_get fun s => ?_
      split
      · exact harmless_makeListing hprebuilt _
      · refine does_ite (fun _ => ?_) fun _ => does_pure _
        exact does_bind (hprims.setListCache _) fun _ => harmless_makeListing hprebuilt _

/-! ## Requests that may not change anything -/

/-- The dispatcher may not let the request change files. -/
def Powerless (cfg : Config) (r : Request) : Prop :=
  (Command.ofByte r.ub.cmd).changes = true →
    r.old = true ∨ ¬ cfg.Allows (Command.ofByte r.ub.cmd)

theorem refuses_of_not_allows {cmd : Command} (h : ¬ cfg.Allows cmd) :
    cfg.readOnly = true ∨ (cmd = .grabFile ∨ cmd = .grabDone) ∧ ¬ cfg.grabEnabled = true := by
  by_contra hopen
  rw [not_or, not_and_not_right] at hopen
  exact h ⟨Bool.eq_false_iff.mpr hopen.1, hopen.2⟩

/-- The form of the cases that answer a repeated request at once. -/
theorem harmless_unless {c c' : Prop} [Decidable c] [Decidable c'] {done next : Srv Fs Cwd Unit}
    (hdone : Emits (Harmless cfg cmd) done) (h : c ∨ c') :
    Emits (Harmless cfg cmd) (if c then refuse cfg r readOnlyText else if c' then done else next) := by
  apply does_ite
  · exact fun _ => harmless_serverReply
  · intro hc
    rw [if_pos (h.resolve_left hc)]
    exact hdone

theorem harmless_caseGetDir : Emits (Harmless cfg .getDir) (caseGetDir cfg r : Srv Fs Cwd Unit) := by
  refine harmless_validated fun pp di => harmless_checkAccessRights fun pe => ?_
  refine does_bind (harmless_serverGetDir di) fun dl => ?_
  cases dl with
  | error pe => exact harmless_serverReply
  | ok dl =>
      refine does_bind (does_dirListing _) fun dl => ?_
      refine does_bind
        ((primitives_harmless cfg .getDir).emit _ (harmless_of_unchanging rfl)) fun _ => ?_
      cases dirBlock cfg dl.listing r.pos with
      | error pe => exact harmless_serverReply
      | ok block => exact harmless_serverReply

theorem harmless_caseGetFile : Emits (Harmless cfg cmd) (caseGetFile cfg r : Srv Fs Cwd Unit) := by
  refine harmless_validated fun pp di => harmless_checkAccessRights fun pe => ?_
  have hget : Emits (Harmless cfg cmd) (serverGetFile pp r.inetNum r.portNum di :
      Srv Fs Cwd (Except ByteString Handle)) :=
    does_serverGetFile (primitives_harmless cfg cmd).toSteps (fun _ => harmless_of_unchanging rfl)
      (fun _ _ => harmless_of_unchanging rfl) (fun _ => harmless_of_unchanging rfl) _ _ _
  apply does_bind hget
  intro fp
  cases fp with
  | error pe => exact harmless_serverReply
  | ok fp => exact harmless_serveFile

/-- A repeated `CC_MAKE_DIR` goes on to the reply, with the protection of the parent directory. -/
theorem harmless_caseMakeDir (h : cfg.readOnly = true ∨ r.old = true) :
    Emits (Harmless cfg cmd) (caseMakeDir cfg r : Srv Fs Cwd Unit) := by
  apply does_ite
  · exact fun _ => harmless_serverReply
  · intro hwritable
    refine harmless_validated fun pp di => ?_
    simp only [if_pos (h.resolve_left hwritable)]
    exact harmless_checkAccessRights fun _ => harmless_replyPro

theorem harmless_caseSetPro (h : cfg.readOnly = true ∨ r.old = true) :
    Emits (Harmless cfg cmd) (caseSetPro cfg r : Srv Fs Cwd Unit) := by
  apply does_ite
  · exact fun _ => harmless_serverReply
  · intro hwritable
    refine harmless_validated fun pp di => ?_
    rw [if_pos (h.resolve_left hwritable)]
    exact harmless_replyPro

/-- A repeated `CC_GRAB_FILE` reads from the file that the first one has hidden. -/
theorem harmless_caseGrabFile
    (h : (cfg.readOnly = true ∨ ¬ cfg.grabEnabled = true) ∨ r.old = true) :
    Emits (Harmless cfg cmd) (caseGrabFile cfg r : Srv Fs Cwd Unit) := by
  apply does_ite
  · exact fun _ => harmless_serverReply
  · intro hallowed
    have hold : r.old = true := h.resolve_left hallowed
    refine harmless_validated fun pp di => harmless_checkAccessRights fun pe => ?_
    rw [if_neg fun hnew => hnew.1 hold]
    have hgrab : Emits (Harmless cfg cmd) (serverGrabFile cfg r.inetNum r.portNum :
        Srv Fs Cwd (Except ByteString Handle)) :=
      does_serverGrabFile (primitives_harmless cfg cmd).toSteps
        (fun _ => harmless_of_unchanging rfl) (fun _ => harmless_of_unchanging rfl)
        fun _ => harmless_of_unchanging rfl
    apply does_bind hgrab
    intro fp
    cases fp with
    | error pe => exact harmless_serverReply
    | ok fp => exact does_bind harmless_serveFile fun _ => harmless_fclose fp

theorem harmless_caseStat : Emits (Harmless cfg cmd) (caseStat cfg r : Srv Fs Cwd Unit) := by
  have hstat : Emits (Harmless cfg cmd) (serverStat cfg r.s1 r.junk : Srv Fs Cwd ByteString) :=
    does_serverStat (primitives_harmless cfg cmd).toSteps (fun _ _ => harmless_of_unchanging rfl)
      (fun _ => allowsFind_harmless _) (fun _ _ _ => harmless_of_unchanging rfl)
      returns_loadAccessRights _
  exact does_bind hstat fun _ => harmless_serverReply

/-- A request that may not change files does nothing to them, but for a listing that is kept. -/
theorem harmless_serve {hp : ℕ} (h : Powerless cfg r) :
    Emits (Harmless cfg (Command.ofByte r.ub.cmd)) (serve cfg r hp : Srv Fs Cwd Unit) := by
  unfold Powerless at h
  unfold serve
  generalize Command.ofByte r.ub.cmd = cmd at h ⊢
  have hwrites : (cmd = .grabFile ∨ cmd = .grabDone → False) → cmd.changes = true →
      cfg.readOnly = true ∨ r.old = true := by
    intro hnot hchanges
    rcases h hchanges with hold | hallows
    · exact Or.inr hold
    · exact Or.inl ((refuses_of_not_allows hallows).resolve_right fun hgrab => hnot hgrab.1)
  have hgrabs : cmd.changes = true →
      (cfg.readOnly = true ∨ ¬ cfg.grabEnabled = true) ∨ r.old = true := by
    intro hchanges
    rcases h hchanges with hold | hallows
    · exact Or.inr hold
    · exact Or.inl ((refuses_of_not_allows hallows).imp_right And.right)
  -- a command that changes files looks for a repetition and for the configuration before it does
  cases cmd with
  | version => exact does_ite (fun _ => harmless_serverReply) fun _ => does_pure _
  | bye => exact does_bind (fun _ => appends_of_log_eq rfl) fun _ => harmless_serverReply
  | getDir => exact harmless_caseGetDir
  | getFile => exact harmless_caseGetFile
  | delFile => exact harmless_unless harmless_serverReply (hwrites (by simp) rfl)
  | delDir => exact harmless_unless harmless_serverReply (hwrites (by simp) rfl)
  | upLoad => exact harmless_unless harmless_serverReply (hwrites (by simp) rfl)
  | install => exact harmless_unless harmless_serverReply (hwrites (by simp) rfl)
  | makeDir => exact harmless_caseMakeDir (hwrites (by simp) rfl)
  | getPro =>
      exact harmless_validated fun _ _ => harmless_checkAccessRights fun _ => harmless_replyPro
  | setPro => exact harmless_caseSetPro (hwrites (by simp) rfl)
  | grabFile => exact harmless_caseGrabFile (hgrabs rfl)
  | grabDone => exact harmless_unless harmless_serverReply (hgrabs rfl)
  | stat => exact harmless_caseStat
  | rename => exact harmless_unless harmless_serverReply (hwrites (by simp) rfl)
  | other code => exact does_ite (fun _ => harmless_serverReply) fun _ => harmless_serverReply

/-! ## Rounds -/

/-- Why files may change in the round of a datagram: a new request with a command for it, which the
configuration allows, or a listing that is kept. -/
def MayChange (cfg : Config) (a : Arrival Fs) (s : Server Fs Cwd) (e : Event) : Prop :=
  (∃ ub, Executes cfg a s ub ∧ (Command.ofByte ub.cmd).changes = true ∧
    cfg.Allows (Command.ofByte ub.cmd)) ∨
  ∃ ub old h, Dispatches cfg a s ub old h ∧ KeepsListing cfg (Command.ofByte ub.cmd) e

variable {a : Arrival Fs} {s : Server Fs Cwd} {e : Event}

theorem unchanging_sendError {client : SockAddr} {ub : Ubuf} {msg : ByteString}
    (hs : s.trace = []) (he : e ∈ (final (sendError cfg client ub msg s)).trace) :
    e.changes = false := by
  have hemits : Does (Acts fun e => e.changes = false)
      (sendError cfg client ub msg : Srv Fs Cwd Unit) :=
    does_serverReply (primitives_acts _).toSteps rfl
  refine (hemits s).1.forall_mem ?_ e he
  intro e he
  rw [log_eq_trace, hs] at he
  exact absurd he List.not_mem_nil

/-- Only requests that reach the dispatcher change files, and not all of them may. -/
theorem mayChange_of_dispatches {ub : Ubuf} {old : Bool} {h : HTab} (hs : HostTable s.htab)
    (hdisp : Dispatches cfg a s ub old h) (he : e ∈ (final (serverRound cfg a s)).trace)
    (hchanges : e.changes = true) : MayChange cfg a s e := by
  by_cases hpower : Powerless cfg (requestOf a ub old h)
  · -- all that is written to the trace is harmless
    have hall : ∀ e ∈ (final (serverRound cfg a s)).trace,
        Harmless cfg (Command.ofByte ub.cmd) e := by
      rw [serverRound_of_dispatches hs hdisp]
      refine (harmless_serve hpower _).forall_mem ?_
      intro e he
      rw [List.mem_singleton.mp he]
      exact harmless_of_unchanging rfl
    exact Or.inr ⟨ub, old, h, hdisp, hall e he hchanges⟩
  · -- the request is a new one, and its command is allowed
    obtain ⟨hcmd, hnot⟩ := Classical.not_imp.mp hpower
    obtain ⟨hnew, hallows⟩ := not_or.mp hnot
    have hold : old = false := Bool.eq_false_iff.mpr hnew
    rw [hold] at hdisp
    exact Or.inl ⟨ub, ⟨h, hdisp⟩, hcmd, not_not.mp hallows⟩

theorem mayChange_serverRound (hs : HostTable s.htab)
    (he : e ∈ (final (serverRound cfg a s)).trace) (hchanges : e.changes = true) :
    MayChange cfg a s e := by
  have hgoes := serverRound_goes cfg a hs
  generalize hres : serverRound cfg a s = res at hgoes he
  cases hgoes with
  | unread => exact absurd he List.not_mem_nil
  | exits => exact absurd he List.not_mem_nil
  | denied => exact absurd (unchanging_sendError rfl he) (by simp [hchanges])
  | unnamed => exact absurd (unchanging_sendError rfl he) (by simp [hchanges])
  | ignored => exact absurd he List.not_mem_nil
  | garbled => exact absurd he List.not_mem_nil
  | dispatched hdisp =>
      rw [← hres] at he
      exact mayChange_of_dispatches hs hdisp he hchanges

/-- In every run, files change only for a request that the key check takes for a new one, with a
command that is there to change them, on a server that is not read-only; or a listing is kept. -/
theorem mayChange_history (cfg : Config) (fs : Fs) (cwd : Cwd) (now : ℤ)
    (arrivals : List (Arrival Fs)) {r : Effect.Round (Arrival Fs) (Server Fs Cwd)}
    (hr : r ∈ history cfg (initServer cfg fs cwd now) arrivals) (he : e ∈ r.after.trace)
    (hchanges : e.changes = true) : MayChange cfg r.input r.before e := by
  obtain ⟨before, after, hrun⟩ := List.append_of_mem hr
  have hs : HostTable r.before.htab := hostTable_history cfg fs cwd now hrun
  rw [after_of_mem_rounds hr] at he
  exact mayChange_serverRound hs he hchanges

end

/-- The home directory with a file that may be deleted. -/
def deletable : Server Disk Path :=
  Scenario.start Scenario.config [("h/.FSP_OK_DEL", Scenario.emptyFile), ("h/f", Scenario.emptyFile)]

theorem mayChange_history_delete : ∃ r ∈ history Scenario.config deletable [deleteRequest 100],
    ∃ e ∈ r.after.trace, e.changes = true ∧ MayChange Scenario.config r.input r.before e := by
  have hrun : ∃ trace ∈ Scenario.traces Scenario.config deletable [deleteRequest 100],
      ∃ e ∈ trace, e.changes = true := by
    decide +kernel
  obtain ⟨trace, htrace, e, he, hchanges⟩ := hrun
  obtain ⟨r, hr, heq⟩ := List.mem_map.mp htrace
  rw [← heq] at he
  exact ⟨r, hr, e, he, hchanges, mayChange_history _ _ _ _ _ hr he hchanges⟩

end Fsp
