import Fsp.Server.Rounds

/-!
# The way home

Between two datagrams the current directory should be the home directory: paths of clients are
relative to it.  `validate_path` and the operations that write access files leave it, and go back
by a `chdir` whose result they do not look at.

`Homing cfg H` says of an assertion `H` what makes it an assertion about being at home: steps that
do not change the directory keep it, the way back establishes it, whatever was before, and a failed
`chdir` does not lose it.  Such an assertion holds whenever the server is done with a datagram.
-/

namespace Fsp

open Effect

variable {Fs Cwd : Type} [Posix Fs Cwd] {cfg : Config} {H : Server Fs Cwd → Prop}
  {s : Server Fs Cwd}

/-- Every entry but that of a change of the directory. -/
def Steady : Event → Prop
  | .chdir _ _ => False
  | _ => True

/-- `H` is about being at home. -/
structure Homing (cfg : Config) (H : Server Fs Cwd → Prop) : Prop where
  steady : Primitives (Kept H) Steady fun _ => True
  home : Triple (fun _ => True) (chdir cfg.homeDir) (fun _ => H) fun _ => True
  failed : ∀ path, Triple H (chdir path) (fun ok s => ok = false → H s) fun _ => True
  known : ∀ s htab curTime, H s → H { s with htab, curTime }

/-! ## Operations -/

omit [Posix Fs Cwd] in
theorem triple_steady {α : Type} {m : Srv Fs Cwd α} (hm : Does (Kept H) m) :
    Triple H m (fun _ => H) fun _ => True :=
  triple_mono (Preserves.triple hm) (fun _ h => h) (fun _ _ h => h) fun _ _ => trivial

section

variable (h : Homing cfg H)
include h

/-- The way back, and then something that stays there. -/
theorem triple_back {α : Type} {P : Server Fs Cwd → Prop} {m : Bool → Srv Fs Cwd α}
    (hm : ∀ ok, Does (Kept H) (m ok)) :
    Triple P (chdir cfg.homeDir >>= m) (fun _ => H) fun _ => True :=
  triple_seq (triple_mono h.home (fun _ _ => trivial) (fun _ _ h => h) fun _ h => h)
    fun ok => triple_steady (hm ok)

theorem ends_buildDirInfo (work : ByteString) (sd : Stat) :
    Ends (Kept H) (buildDirInfo cfg work sd : Srv Fs Cwd (Except ByteString ℕ)) := by
  apply ends_of_triple
  apply triple_seq (h.failed work)
  intro ok
  apply triple_ite
  · intro _
    apply triple_seq (triple_any getcwd)
    intro realname
    cases realname with
    | none => exact triple_back h fun _ => does_pure _
    | some realname =>
        apply triple_ite
        · exact fun _ => triple_back h fun _ => does_pure _
        · intro _
          apply triple_seq (triple_any get)
          intro s
          apply triple_seq (triple_any (loadAccessRights cfg _))
          intro newdir
          exact triple_back h fun _ =>
            does_bind (h.steady.putDirInfo _ _ trivial) fun _ => does_pure _
  · exact fun hok => triple_pure fun s hs => hs (by simpa using hok)

theorem ends_findDirInfo (work : ByteString) :
    Ends (Kept H) (findDirInfo cfg work : Srv Fs Cwd (Except ByteString ℕ)) := by
  have hsteady : ∀ {α : Type} {m : Srv Fs Cwd α}, Does (Kept H) m → Ends (Kept H) m :=
    fun hm => hm.ends fun _ _ h => h
  have hrecheck : ∀ di, Ends (Kept H) (recheckDirInfo cfg work di :
      Srv Fs Cwd (Except ByteString ℕ)) := by
    intro di
    refine compositional_ends.bind (hsteady (h.steady.stat _ fun _ => trivial)) fun sd => ?_
    cases sd with
    | none => exact compositional_ends.pure _
    | some sd =>
        refine iteInduction (fun _ => compositional_ends.pure _) fun _ => ?_
        cases di with
        | none => exact ends_buildDirInfo h work sd
        | some di =>
            refine compositional_ends.bind (hsteady does_get) fun s => ?_
            refine iteInduction (fun _ => ?_) fun _ => ?_
            · exact compositional_ends.bind
                (hsteady (does_setTimes h.steady.toSteps di DirInfo.mtime fun _ => s.curTime)) fun _ =>
                  compositional_ends.pure _
            · exact compositional_ends.bind (hsteady (h.steady.deleteDirInfo _)) fun _ =>
                ends_buildDirInfo h work sd
  refine compositional_ends.bind (hsteady does_get) fun s => ?_
  split
  · exact iteInduction (fun _ => compositional_ends.pure _) fun _ => hrecheck _
  · exact hrecheck _

/-- `validate_path` comes home. -/
theorem ends_validatePath (fullp : ByteString) (wantDirectory : Bool) :
    Ends (Kept H) (validatePath cfg fullp wantDirectory :
      Srv Fs Cwd (Except ByteString (PPath × ℕ))) := by
  have hemit : ∀ e, Steady e → Ends (Kept H) (emit e : Srv Fs Cwd Unit) :=
    fun e he => (h.steady.emit e he).ends fun _ _ h => h
  unfold validatePath
  split
  · exact compositional_ends.pure _
  · refine compositional_ends.bind (hemit _ trivial) fun _ => ?_
    refine compositional_ends.bind (ends_findDirInfo h _) fun di => ?_
    cases di with
    | error err => exact compositional_ends.pure _
    | ok di =>
        refine compositional_ends.bind ((does_dirInfo di).ends fun _ _ h => h) fun d => ?_
        exact compositional_ends.bind (hemit _ trivial) fun _ => compositional_ends.pure _

theorem ends_serverSetPro (di : ℕ) (k0 k1 : UInt8) :
    Ends (Kept H) (serverSetPro cfg di k0 k1 : Srv Fs Cwd (Option ByteString)) := by
  apply ends_of_triple
  apply triple_seq (triple_steady (does_dirInfo di))
  intro d
  split
  · exact triple_steady (does_pure _)
  · rename_i protection _
    apply triple_seq (triple_any (setDirInfo di _))
    intro _
    apply triple_seq (triple_any (emit _))
    intro _
    apply triple_seq (triple_any (touchDirInfo di))
    intro _
    apply triple_seq (triple_any (chdir d.realname))
    intro _
    apply triple_seq (triple_any (dirInfo di))
    intro d
    apply triple_seq (triple_any (saveAccessRights cfg d))
    exact fun _ => triple_back h fun _ => does_pure _

theorem ends_serverDelDir (pp : PPath) (di : ℕ) :
    Ends (Kept H) (serverDelDir cfg pp di : Srv Fs Cwd (Option ByteString)) := by
  apply ends_of_triple
  apply triple_seq (triple_steady (h.steady.stat _ fun _ => trivial))
  intro sb
  cases sb with
  | none => exact triple_steady (does_pure _)
  | some sb =>
      apply triple_ite
      · exact fun _ => triple_steady (does_pure _)
      · intro _
        apply triple_seq (triple_any (chdir pp.fullp))
        intro _
        apply triple_seq (triple_any (saveAccessRights cfg _))
        intro _
        apply triple_seq (triple_mono h.home (fun _ _ => trivial) (fun _ _ h => h) fun _ h => h)
        intro _
        apply triple_seq (triple_steady (h.steady.rmdir _ fun _ => trivial))
        intro ok
        apply triple_ite
        · exact fun _ => triple_steady
            (does_bind (does_setTimes h.steady.toSteps di DirInfo.mtime fun _ => 0) fun _ => does_pure _)
        · intro _
          apply triple_seq (triple_any (chdir pp.fullp))
          intro _
          apply triple_seq (triple_any (dirInfo di))
          intro d
          apply triple_seq (triple_any (saveAccessRights cfg d))
          exact fun _ => triple_back h fun _ => does_pure _

theorem ends_serverMakeDir (pp : PPath) (inetNum : UInt32) (di : ℕ) :
    Ends (Kept H) (serverMakeDir cfg pp inetNum di : Srv Fs Cwd (Except ByteString ℕ)) := by
  apply ends_of_triple
  apply triple_seq (triple_steady (h.steady.mkdir _ fun _ => trivial))
  intro ok
  apply triple_ite
  · intro _
    apply triple_seq (triple_any (dirInfo di))
    intro d
    apply triple_seq (triple_any get)
    intro s
    apply triple_seq (triple_any (query _))
    intro gethostbyname
    apply triple_seq (triple_any (chdir pp.fullp))
    intro _
    apply triple_seq (triple_any (saveAccessRights cfg _))
    intro _
    apply triple_seq (triple_any getcwd)
    intro cwd
    exact triple_back h fun _ => does_bind (h.steady.putDirInfo _ _ trivial) fun _ => does_pure _
  · exact fun _ => triple_steady (does_pure _)

theorem ends_serverStat (path : ByteString) (junk : UInt32) :
    Ends (Kept H) (serverStat cfg path junk : Srv Fs Cwd ByteString) := by
  unfold serverStat
  simp only
  split
  · exact compositional_ends.pure _
  · have hstat : ∀ path, Ends (Kept H) (stat path : Srv Fs Cwd (Option Stat)) :=
      fun path => (h.steady.stat path fun _ => trivial).ends fun _ _ h => h
    refine compositional_ends.bind (hstat _) fun sb => ?_
    cases sb with
    | none => exact compositional_ends.pure _
    | some sb =>
        refine compositional_ends.bind ?_ fun _ => compositional_ends.pure _
        unfold statAllowed
        split
        · exact compositional_ends.pure _
        · refine compositional_ends.bind (ends_validatePath h _ _) fun r => ?_
          cases r <;> exact compositional_ends.pure _

/-! ## Commands -/

theorem operations_ends : Operations (fun {α : Type} (m : Srv Fs Cwd α) => Ends (Kept H) m) cfg := by
  have hsteady : ∀ {α : Type} {m : Srv Fs Cwd α}, Does (Kept H) m → Ends (Kept H) m :=
    fun hm => hm.ends fun _ _ h => h
  have hstreams : AllowsStreams Steady :=
    ⟨fun _ => trivial, fun _ _ _ => trivial, fun _ _ => trivial, fun _ _ _ => trivial⟩
  have hupload : ∀ tname, AllowsUpload tname Steady := fun tname =>
    ⟨hstreams, fun _ _ => trivial, fun _ => trivial, fun _ => trivial, fun _ => trivial, trivial⟩
  refine ⟨?_, ends_validatePath h, ends_serverStat h⟩
  constructor
  · exact compositional_ends
  · exact fun _ => hsteady (h.steady.emit _ trivial)
  · exact fun _ => hsteady (does_dirListing _)
  · exact fun _ => hsteady (h.steady.stat _ fun _ => trivial)
  · exact fun _ _ _ _ => hsteady (does_requireAccess h.steady.toSteps fun _ => trivial)
  · exact fun _ => hsteady (does_serverGetDir h.steady hstreams
      (fun _ => ⟨fun _ => trivial, fun _ => trivial, fun _ => trivial⟩) _)
  · exact fun _ _ => hsteady (does_serverDelFile h.steady.toSteps (fun _ => trivial) (fun _ => trivial) _)
  · exact ends_serverDelDir h
  · exact ends_serverMakeDir h
  · exact ends_serverSetPro h
  · exact fun _ _ _ _ => hsteady (does_serverUpLoad h.steady.toSteps (hupload _) _ _ _)
  · exact fun _ _ _ _ _ _ => hsteady (does_serverInstall h.steady.toSteps hstreams (fun _ => trivial)
      (fun _ => trivial) (fun _ => trivial) (fun _ => trivial) trivial (fun _ => trivial) _ _ _)
  · exact fun _ _ _ _ => hsteady (does_serverSecureFile h.steady.toSteps hstreams (fun _ => trivial)
      (fun _ => trivial) (fun _ => trivial) (fun _ => trivial) (fun _ => trivial) trivial _)
  · exact fun _ _ => hsteady (does_serverGrabDone h.steady.toSteps (fun _ => trivial) (fun _ => trivial)
      fun _ => trivial)
  · exact fun _ _ _ _ => hsteady (does_serverRename h.steady.toSteps (fun _ _ => trivial)
      (fun _ _ => trivial) _ _)

theorem streams_ends : Streams (fun {α : Type} (m : Srv Fs Cwd α) => Ends (Kept H) m) cfg := by
  have hsteady : ∀ {α : Type} {m : Srv Fs Cwd α}, Does (Kept H) m → Ends (Kept H) m :=
    fun hm => hm.ends fun _ _ h => h
  constructor
  · exact fun _ _ _ _ => hsteady (does_serverGetFile h.steady.toSteps (fun _ => trivial)
      (fun _ _ => trivial) (fun _ => trivial) _ _ _)
  · exact fun _ _ => hsteady (does_serverGrabFile h.steady.toSteps (fun _ => trivial) (fun _ => trivial)
      fun _ => trivial)
  · exact fun _ _ => hsteady (h.steady.fseeko _ _ fun _ => trivial)
  · exact fun _ _ => hsteady (h.steady.fread _ _ fun _ => trivial)
  · exact fun _ => hsteady (h.steady.fclose _ trivial)

theorem ends_serverReply (client : SockAddr) (ub : Ubuf) (data xtra : ByteString) :
    Ends (Kept H) (serverReply cfg client ub data xtra : Srv Fs Cwd Unit) :=
  (does_serverReply h.steady.toSteps trivial).ends fun _ _ h => h

theorem ends_serve (r : Request) (hp : ℕ) :
    Ends (Kept H) (serve cfg r hp : Srv Fs Cwd Unit) := by
  have hreplies : Replies (fun {α : Type} (m : Srv Fs Cwd α) => Ends (Kept H) m)
      (fun m => Ends (Kept H) m) ubufMaxspace cfg r :=
    replies_of_compositional compositional_ends (ends_serverReply h) r
      (fun _ _ _ => (operations_ends h).requireAccess _ _ _ _)
      fun _ => (does_dirInfo _).ends fun _ _ h => h
  refine holds_serve (operations_ends h) hreplies (fun _ => streams_ends h) fun _ => ?_
  exact fun s hs => h.known s _ s.curTime hs

/-- When the server is done with a datagram, it is at home if it was before. -/
theorem triple_serverRound (a : Arrival Fs) :
    Triple (fun s => HostTable s.htab ∧ H (s.meets a)) (serverRound cfg a) (fun _ => H)
      fun _ => True := by
  constructor
  rintro s ⟨htable, hs⟩
  have hreply : ∀ {ub : Ubuf} {msg : ByteString} {s' : Server Fs Cwd}, H s' →
      wp (sendError cfg a.client ub msg) (fun _ => H) (fun _ => True) s' :=
    fun hs' => (ends_serverReply h _ _ _ _).triple.run _ hs'
  have hgoes := serverRound_goes cfg a htable
  unfold wp
  generalize serverRound cfg a s = res at hgoes ⊢
  cases hgoes with
  | unread => exact hs
  | exits => trivial
  | denied => exact hreply hs
  | unnamed => exact hreply (h.known _ _ (s.meets a).curTime hs)
  | ignored => exact h.known _ _ _ hs
  | garbled => exact h.known _ _ _ hs
  | @dispatched ub old h' hdisp =>
      have hheard : H (heardState cfg a s (requestRecord a old h')) := h.known _ _ _ hs
      have hstart : H (dispatchState cfg a s old h') :=
        wp_of_ok ((triple_steady (h.steady.emit (.dispatched old) trivial)).run _ hheard) rfl
      exact (ends_serve h _ _).triple.run _ hstart

end

end Fsp
