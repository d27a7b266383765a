import Fsp.Scenario
import Fsp.Server.Home
import Fsp.Server.RealName

/-!
# Whose access files are touched

`save_access_rights` works in the current directory.  `server_set_pro`, `server_del_dir` and
`server_make_dir` change into a directory before they call it, and do not look at the result.  The
directory the server is in can be read off the log of its run: `placeAfter` follows the changes of
directory, by name, from the home directory on.

The directory that a request addresses is the one that its path leads to when the request arrives
(`Addresses`).  `server_del_dir` and `server_make_dir` change into that path.  `server_set_pro`
changes into the name kept in the directory information, which can be older than the request.  So
there are two ways to touch the access files of another directory:

* a `chdir` fails, and the server is still in the directory it happens to be in, which is the home
  directory at first;
* the name kept for the directory of a `CC_SET_PRO` is that of another one, because a link leads
  elsewhere now, or because of a doubled slash in the path.

In a run in which neither happens (`ChdirsWork`) the access files touched are those of the directory
addressed.  The proof walks through the three commands with the invariant `Kempt`: all files so far
were touched where they may be.  `Settled` says that the server is at home between the operations,
and `Arrived` that it is where the request leads while it saves the rights; each is kept as long as
no `chdir` has failed.
-/

namespace Fsp

open Bytes Effect

variable {Fs Cwd : Type}

/-! ## Places -/

/-- The name of the current directory after an entry, as a path from the home directory, unless that
is not known.  A relative path leads on from the home directory only. -/
def arrive (cfg : Config) (place : Option ByteString) : Event → Option ByteString
  | .chdir path true =>
      if path.head? = some slash ∨ place = some cfg.homeDir then some path else none
  | _ => place

/-- The entry is no change into a directory that failed. -/
def changedWell : Event → Bool
  | .chdir _ ok => ok
  | _ => true

/-- The current directory after the entries of a log that starts in the home directory. -/
def placeAfter (cfg : Config) (l : List Event) : Option ByteString :=
  l.foldl (arrive cfg) (some cfg.homeDir)

/-- The entry is about one of the files in which access rights are stored. -/
def TouchesAccess : Event → Prop
  | .unlink path _ | .creat path | .writeFile path _ => path ∈ accessFiles
  | _ => False

instance (e : Event) : Decidable (TouchesAccess e) := by
  unfold TouchesAccess
  split <;> infer_instance

/-- The requests that save access rights. -/
def SavesAccess (cmd : Command) : Prop := cmd = .setPro ∨ cmd = .makeDir ∨ cmd = .delDir

/-- The place is the directory that a path leads to: under the path itself, or under the name that
the system has for it. -/
def Names [Posix Fs Cwd] (fs : Fs) (cwd : Cwd) (path place : ByteString) : Prop :=
  place = path ∨ realNameAt fs cwd path = some place

/-- The place is the directory that a request with these data addresses, as the request finds the
files. -/
def Addresses [Posix Fs Cwd] (s : Server Fs Cwd) (data place : ByteString) : Prop :=
  ∃ pp, parsePath data = .ok pp ∧ Names s.fs s.cwd pp.fullp place

/-- Every access file touched in the trace is one of the directory that a request with these data
addresses in the state `s`, when the entries in `past` came before. -/
def Confined [Posix Fs Cwd] (cfg : Config) (s : Server Fs Cwd) (data : ByteString)
    (past trace : List Event) : Prop :=
  Guarded (fun before e => TouchesAccess e →
    ∃ place, placeAfter cfg (past ++ before) = some place ∧ Addresses s data place) trace

variable {cfg : Config} {past : List Event} {here : ByteString → Prop} {s s' : Server Fs Cwd}

theorem placeAfter_concat (cfg : Config) (l : List Event) (e : Event) :
    placeAfter cfg (l ++ [e]) = arrive cfg (placeAfter cfg l) e := by
  rw [placeAfter, List.foldl_append]
  rfl

/-- Steady entries lead nowhere. -/
theorem placeAfter_append_of_steady {l new : List Event} (hnew : ∀ e ∈ new, Steady e) :
    placeAfter cfg (l ++ new) = placeAfter cfg l := by
  induction new generalizing l with
  | nil => rw [List.append_nil]
  | cons e new ih =>
      have hfirst : placeAfter cfg (l ++ [e]) = placeAfter cfg l := by
        have he := hnew e List.mem_cons_self
        rw [placeAfter_concat]
        cases e with
        | chdir path ok => exact absurd he not_false
        | _ => rfl
      have hrest := ih (l := l ++ [e]) fun e he => hnew e (List.mem_cons_of_mem _ he)
      rw [List.append_assoc] at hrest
      exact hrest.trans hfirst

/-- The server is in the home directory, or a way back to it has failed. -/
def Settled (cfg : Config) (past : List Event) (s : Server Fs Cwd) : Prop :=
  .chdir cfg.homeDir false ∈ s.trace ∨ placeAfter cfg (past ++ s.trace) = some cfg.homeDir

theorem Settled.appends (hs : Settled cfg past s) (h : Appends Steady s s') :
    Settled cfg past s' := by
  rcases hs with hlost | hhome
  · exact Or.inl (h.mem hlost)
  · obtain ⟨new, hnew, hsteady⟩ := h
    have htrace : s'.trace = s.trace ++ new := hnew
    refine Or.inr ?_
    rw [htrace, ← List.append_assoc, placeAfter_append_of_steady hsteady, hhome]

section

variable [Posix Fs Cwd]

theorem homing_settled (hslash : cfg.homeDir.head? = some slash) :
    Homing cfg (Settled cfg past : Server Fs Cwd → Prop) where
  steady := (primitives_acts Steady).mono fun _ _ h hs => hs.appends h.1
  home := by
    constructor
    intro s _
    unfold wp chdir
    split
    · rename_i hcall
      split at hcall
      · injection hcall with _ hs'
        subst hs'
        refine Or.inr ?_
        show placeAfter cfg (past ++ (s.trace ++ [.chdir cfg.homeDir true])) = _
        rw [← List.append_assoc, placeAfter_concat]
        exact if_pos (Or.inl hslash)
      · injection hcall with _ hs'
        subst hs'
        exact Or.inl (List.mem_append_right _ List.mem_cons_self)
    · trivial
  failed path := by
    constructor
    intro s hs
    unfold wp chdir
    split
    · rename_i hcall
      split at hcall
      · injection hcall with hok _
        exact fun hfalse => absurd (hok.trans hfalse) (by decide)
      · injection hcall with _ hs'
        subst hs'
        intro _
        rcases hs with hlost | hhome
        · exact Or.inl (List.mem_append_left _ hlost)
        · refine Or.inr ?_
          show placeAfter cfg (past ++ (s.trace ++ [.chdir path false])) = _
          rw [← List.append_assoc, placeAfter_concat]
          exact hhome
    · trivial
  known _ _ _ hs := hs

/-! ## What is touched, and where -/

/-- The server is where the request leads, or a `chdir` has failed. -/
def Arrived (cfg : Config) (here : ByteString → Prop) (past before : List Event) : Prop :=
  (∃ path, .chdir path false ∈ before) ∨
    ∃ place, placeAfter cfg (past ++ before) = some place ∧ here place

/-- An access file may be touched where the request was let through to its directory, unless a
`chdir` has failed before. -/
def MayTouch (cfg : Config) (here : ByteString → Prop) (past before : List Event) (e : Event) : Prop :=
  TouchesAccess e →
    (∃ pp di realname, .validated pp di realname ∈ before) ∧ Arrived cfg here past before

/-- All access files so far were touched where they may be. -/
def Kempt (cfg : Config) (here : ByteString → Prop) (past : List Event) (s : Server Fs Cwd) : Prop :=
  Guarded (MayTouch cfg here past) s.trace

/-- An entry that touches no access file. -/
def Spares (e : Event) : Prop := ¬ TouchesAccess e

omit [Posix Fs Cwd] in
theorem Kempt.appends (hs : Kempt cfg here past s) (h : Appends Spares s s') :
    Kempt cfg here past s' :=
  h.guarded (fun _ _ hspares htouches => absurd htouches hspares) hs

/-- The request for the directory information `di` was let through. -/
def LetIn (pp : PPath) (di : ℕ) (realname : ByteString) (s : Server Fs Cwd) : Prop :=
  .validated pp di realname ∈ s.trace

omit [Posix Fs Cwd] in
/-- Steps that stay in the directory of the request may touch anything there. -/
theorem Kempt.appends_of_arrived {pp : PPath} {di : ℕ} {realname : ByteString}
    (hs : Kempt cfg here past s) (hlet : LetIn pp di realname s)
    (hplace : Arrived cfg here past s.trace) (h : Appends Steady s s') :
    Kempt cfg here past s' := by
  obtain ⟨new, hnew, hsteady⟩ := h
  have htrace : s'.trace = s.trace ++ new := hnew
  unfold Kempt
  rw [htrace]
  apply hs.append
  intro mid e rest heq _
  refine ⟨⟨pp, di, realname, List.mem_append_left _ hlet⟩, ?_⟩
  rcases hplace with ⟨path, hfailed⟩ | ⟨place, hplace, hhere⟩
  · exact Or.inl ⟨path, List.mem_append_left _ hfailed⟩
  · have hmid : ∀ e' ∈ mid, Steady e' := fun e' he' => hsteady e' (by rw [heq]; simp [he'])
    refine Or.inr ⟨place, ?_, hhere⟩
    rw [← List.append_assoc, placeAfter_append_of_steady hmid, hplace]

omit [Posix Fs Cwd] in
theorem triple_spares {α : Type} {m : Srv Fs Cwd α} (hm : Does (Acts Spares) m) :
    Triple (Kempt cfg here past) m (fun _ => Kempt cfg here past) (Kempt cfg here past) :=
  triple_of_does hm (fun _ _ hs hacts => hs.appends hacts.1) fun _ h => h

section

variable {pp : PPath} {di : ℕ} {realname : ByteString}

/-- What holds while an operation is under way, in the home directory. -/
def Ready (cfg : Config) (here : ByteString → Prop) (past : List Event) (pp : PPath) (di : ℕ)
    (realname : ByteString) (s : Server Fs Cwd) : Prop :=
  Kempt cfg here past s ∧ LetIn pp di realname s ∧ Settled cfg past s

/-- What holds while an operation is under way, in the directory of the request. -/
def Inside (cfg : Config) (here : ByteString → Prop) (past : List Event) (pp : PPath) (di : ℕ)
    (realname : ByteString) (s : Server Fs Cwd) : Prop :=
  Kempt cfg here past s ∧ LetIn pp di realname s ∧
    Arrived cfg here past s.trace

omit [Posix Fs Cwd] in
/-- A step that neither touches access files nor changes the directory. -/
theorem triple_ready {α : Type} {m : Srv Fs Cwd α}
    (hm : Does (Acts fun e => Spares e ∧ Steady e) m) :
    Triple (Ready cfg here past pp di realname) m (fun _ => Ready cfg here past pp di realname)
      (Kempt cfg here past) := by
  apply triple_of_does hm
  · rintro s s' ⟨hkempt, hlet, hsettled⟩ ⟨happends, -⟩
    exact ⟨hkempt.appends (happends.mono fun _ h => h.1), happends.mem hlet,
      hsettled.appends (happends.mono fun _ h => h.2)⟩
  · exact fun _ h => h.1

/-- Saving the rights, in the directory of the request. -/
theorem triple_saveAccessRights (d : DirInfo) :
    Triple (Inside cfg here past pp di realname) (saveAccessRights cfg d : Srv Fs Cwd Unit)
      (fun _ s => Kempt cfg here past s ∧ LetIn pp di realname s) (Kempt cfg here past) := by
  have hsave : Does (Acts Steady) (saveAccessRights cfg d : Srv Fs Cwd Unit) :=
    does_saveAccessRights (primitives_acts Steady).toSteps
      ⟨fun _ _ _ => trivial, fun _ _ => trivial, fun _ _ _ => trivial⟩ d
  apply triple_of_does hsave
  · rintro s s' ⟨hkempt, hlet, hplace⟩ ⟨happends, -⟩
    exact ⟨hkempt.appends_of_arrived hlet hplace happends, happends.mem hlet⟩
  · exact fun _ h => h.1

/-- Changing into the directory of the request. -/
theorem triple_chdir_addressed {path : ByteString} (hpath : here path) :
    Triple (Ready cfg here past pp di realname) (chdir path : Srv Fs Cwd Bool)
      (fun _ => Inside cfg here past pp di realname) (Kempt cfg here past) := by
  constructor
  rintro s ⟨hkempt, hlet, hsettled⟩
  have hfollows : ∀ ok, Kempt cfg here past
      { s with trace := s.trace ++ [.chdir path ok] } := fun ok =>
    hkempt.appends ⟨_, rfl, by simp [Spares, TouchesAccess]⟩
  unfold wp chdir
  split
  · rename_i hcall
    split at hcall
    · injection hcall with _ hs'
      subst hs'
      refine ⟨hfollows true, List.mem_append_left _ hlet, ?_⟩
      rcases hsettled with hlost | hhome
      · exact Or.inl ⟨_, List.mem_append_left _ hlost⟩
      · refine Or.inr ⟨path, ?_, hpath⟩
        show placeAfter cfg (past ++ (s.trace ++ [.chdir path true])) = _
        rw [← List.append_assoc, placeAfter_concat]
        exact if_pos (Or.inr hhome)
    · injection hcall with _ hs'
      subst hs'
      exact ⟨hfollows false, List.mem_append_left _ hlet,
        Or.inl ⟨_, List.mem_append_right _ List.mem_cons_self⟩⟩
  · rename_i hcall
    split at hcall <;> cases hcall

/-- Going back. -/
theorem triple_chdir_home (hslash : cfg.homeDir.head? = some slash) :
    Triple (fun s : Server Fs Cwd => Kempt cfg here past s ∧ LetIn pp di realname s)
      (chdir cfg.homeDir) (fun _ => Ready cfg here past pp di realname) (Kempt cfg here past) := by
  have hchdir : Does (Acts Spares) (chdir cfg.homeDir : Srv Fs Cwd Bool) :=
    (primitives_acts Spares).chdir _ fun _ => not_false
  have hkempt : Triple (fun s : Server Fs Cwd => Kempt cfg here past s ∧ LetIn pp di realname s)
      (chdir cfg.homeDir) (fun _ s => Kempt cfg here past s ∧ LetIn pp di realname s)
      (Kempt cfg here past) :=
    triple_of_does hchdir (fun _ _ hs hacts => ⟨hs.1.appends hacts.1, hacts.1.mem hs.2⟩)
      fun _ h => h.1
  have hhome : Triple (fun _ : Server Fs Cwd => True) (chdir cfg.homeDir)
      (fun _ => Settled cfg past) fun _ => True := (homing_settled hslash).home
  exact triple_mono (triple_and hkempt hhome) (fun _ hs => ⟨hs, trivial⟩)
    (fun _ _ h => ⟨h.1.1, h.1.2, h.2⟩) fun _ h => h.1

/-! ## Operations -/

omit [Posix Fs Cwd] in
theorem triple_dirInfo {P E : Server Fs Cwd → Prop} (di : ℕ) :
    Triple P (dirInfo di) (fun _ => P) E := ⟨fun _ hs => hs⟩

theorem triple_serverSetPro (hslash : cfg.homeDir.head? = some slash) (hhere : here realname)
    (k0 k1 : UInt8) :
    Triple (fun s : Server Fs Cwd => (s.dirStatCache.entry di).realname = realname ∧
        Ready cfg here past pp di realname s)
      (serverSetPro cfg di k0 k1) (fun _ => Kempt cfg here past) (Kempt cfg here past) := by
  have hdir : Triple (fun s : Server Fs Cwd => (s.dirStatCache.entry di).realname = realname ∧
      Ready cfg here past pp di realname s) (dirInfo di)
      (fun d s => d.realname = realname ∧ Ready cfg here past pp di realname s)
      (Kempt cfg here past) := ⟨fun _ hs => hs⟩
  have hacts := @primitives_acts Fs Cwd _ fun e => Spares e ∧ Steady e
  apply triple_seq hdir
  intro d
  constructor
  rintro s ⟨hname, hs⟩
  refine Triple.run ?_ s hs
  split
  · exact triple_pure fun _ h => h.1
  · apply triple_seq (triple_ready (hacts.setDirInfo di _ fun _ _ => trivial))
    intro _
    apply triple_seq (triple_ready (hacts.emit (.protect _ _ _) ⟨not_false, trivial⟩))
    intro _
    apply triple_seq (triple_ready (does_touchDirInfo hacts.toSteps di))
    intro _
    apply triple_seq (triple_chdir_addressed (hname ▸ hhere))
    intro _
    apply triple_seq (triple_dirInfo di)
    intro d
    apply triple_seq (triple_saveAccessRights d)
    intro _
    apply triple_seq (triple_chdir_home hslash)
    exact fun _ => triple_pure fun _ h => h.1

theorem triple_serverDelDir (hslash : cfg.homeDir.head? = some slash) (hhere : here pp.fullp) :
    Triple (Ready cfg here past pp di realname : Server Fs Cwd → Prop) (serverDelDir cfg pp di)
      (fun _ => Kempt cfg here past) (Kempt cfg here past) := by
  have hacts := @primitives_acts Fs Cwd _ fun e => Spares e ∧ Steady e
  apply triple_seq (triple_ready (hacts.stat _ fun _ => ⟨not_false, trivial⟩))
  intro sb
  cases sb with
  | none => exact triple_pure fun _ h => h.1
  | some sb =>
      apply triple_ite
      · exact fun _ => triple_pure fun _ h => h.1
      · intro _
        apply triple_seq (triple_chdir_addressed hhere)
        intro _
        apply triple_seq (triple_saveAccessRights _)
        intro _
        apply triple_seq (triple_chdir_home hslash)
        intro _
        apply triple_seq (triple_ready (hacts.rmdir _ fun _ => ⟨not_false, trivial⟩))
        intro ok
        apply triple_ite
        · intro _
          apply triple_seq (triple_ready (does_setTimes hacts.toSteps di DirInfo.mtime fun _ => 0))
          exact fun _ => triple_pure fun _ h => h.1
        · intro _
          apply triple_seq (triple_chdir_addressed hhere)
          intro _
          apply triple_seq (triple_dirInfo di)
          intro d
          apply triple_seq (triple_saveAccessRights d)
          intro _
          apply triple_seq (triple_chdir_home hslash)
          exact fun _ => triple_pure fun _ h => h.1

theorem triple_serverMakeDir (hslash : cfg.homeDir.head? = some slash) (hhere : here pp.fullp)
    (inetNum : UInt32) :
    Triple (Ready cfg here past pp di realname : Server Fs Cwd → Prop)
      (serverMakeDir cfg pp inetNum di) (fun _ => Kempt cfg here past)
      (Kempt cfg here past) := by
  have hacts := @primitives_acts Fs Cwd _ fun e => Spares e ∧ Steady e
  have hquery : ∀ {α : Type} (call : Fs → Cwd → α) {P : Server Fs Cwd → Prop},
      Triple P (query call) (fun _ => P) (Kempt cfg here past) := fun call {P} => ⟨fun _ hs => hs⟩
  apply triple_seq (triple_ready (hacts.mkdir _ fun _ => ⟨not_false, trivial⟩))
  intro ok
  apply triple_ite
  · intro _
    apply triple_seq (triple_dirInfo di)
    intro d
    apply triple_seq (triple_ready does_get)
    intro now
    apply triple_seq (hquery _)
    intro gethostbyname
    apply triple_seq (triple_chdir_addressed hhere)
    intro _
    apply triple_seq (triple_saveAccessRights _)
    intro _
    apply triple_seq (hquery Posix.getcwd)
    intro cwd
    apply triple_seq (triple_chdir_home hslash)
    intro _
    apply triple_seq (triple_ready (hacts.putDirInfo _ _ trivial))
    exact fun _ => triple_pure fun _ h => h.1
  · exact fun _ => triple_pure fun _ h => h.1

/-! ## Requests -/

theorem triple_validatePath (hslash : cfg.homeDir.head? = some slash) (fullp : ByteString)
    (wantDirectory : Bool) :
    Triple (fun s : Server Fs Cwd => Kempt cfg here past s ∧ Settled cfg past s)
      (validatePath cfg fullp wantDirectory)
      (fun res s => Kempt cfg here past s ∧ ∀ pp di, res = .ok (pp, di) →
        Ready cfg here past pp di (s.dirStatCache.entry di).realname s) (Kempt cfg here past) := by
  have hspares : Does (Acts Spares) (validatePath cfg fullp wantDirectory :
      Srv Fs Cwd (Except ByteString (PPath × ℕ))) :=
    does_validatePath (primitives_acts Spares).toSteps (fun _ _ => ⟨not_false, fun _ => not_false,
      fun _ _ _ => not_false, fun _ => not_false, fun _ => not_false⟩) (fun _ _ _ => not_false)
      returns_loadAccessRights
  have hsettled : Triple (Settled cfg past : Server Fs Cwd → Prop)
      (validatePath cfg fullp wantDirectory) (fun _ => Settled cfg past) fun _ => True :=
    (ends_validatePath (homing_settled hslash) fullp wantDirectory).triple
  have hlet : Triple (fun _ : Server Fs Cwd => True) (validatePath cfg fullp wantDirectory)
      (fun res s => ∀ pp di, res = .ok (pp, di) →
        LetIn pp di (s.dirStatCache.entry di).realname s) fun _ => True := by
    unfold validatePath
    split
    · exact triple_pure fun _ _ _ _ h => by cases h
    · apply triple_seq (triple_any (emit _))
      intro _
      apply triple_seq (triple_any (findDirInfo cfg _))
      intro di
      cases di with
      | error err => exact triple_pure fun _ _ _ _ h => by cases h
      | ok di =>
          constructor
          rintro s - pp' di' ⟨⟩
          exact List.mem_append_right _ List.mem_cons_self
  refine triple_mono (triple_and (triple_spares hspares) (triple_and hsettled hlet))
    (fun _ hs => ⟨hs.1, hs.2, trivial⟩) ?_ fun _ h => h.1
  rintro res s ⟨hkempt, hset, hlets⟩
  exact ⟨hkempt, fun pp di hres => ⟨hkempt, hlets pp di hres, hset⟩⟩

/-- The directory information that `validate_path` finds for the path of a request is that of the
directory that the path leads to. -/
structure Knows (cfg : Config) (s : Server Fs Cwd) (data : ByteString) : Prop where
  path : ∀ pp, parsePath data = .ok pp →
    realNameAt s.fs s.cwd (directoryPart pp true).work = realNameAt s.fs s.cwd pp.fullp
  record : ∀ pp, parsePath data = .ok pp → s.RecordsWell cfg (directoryPart pp true).work

/-- The path that `validate_path` returns, and the name in the directory information, are those of the
directory that the request addresses. -/
theorem triple_addresses (s₀ : Server Fs Cwd) (data : ByteString) (wantDirectory : Bool) :
    Triple (fun s => s = s₀) (validatePath cfg data wantDirectory)
      (fun res s => ∀ pp di, res = .ok (pp, di) → Addresses s₀ data pp.fullp ∧
        (wantDirectory = true → Knows cfg s₀ data →
          Addresses s₀ data (s.dirStatCache.entry di).realname)) fun _ => True := by
  have hfullp : ∀ pp, (directoryPart pp wantDirectory).fullp = pp.fullp := by
    intro pp
    unfold directoryPart
    split <;> rfl
  constructor
  intro s hs
  rw [hs]
  have hparse := (returns_validatePath data wantDirectory : Returns _
    (validatePath cfg data wantDirectory)).run s₀
  by_cases hknows : wantDirectory = true ∧ Knows cfg s₀ data
  · obtain ⟨rfl, hknows⟩ := hknows
    have hnamed := named_validatePath true hknows.record
    refine wp_mono (wp_and hparse hnamed) ?_ fun _ _ => trivial
    rintro res s ⟨hres, hname⟩ pp di hok
    obtain ⟨pp', hpp', rfl⟩ := hres pp di hok
    refine ⟨⟨pp', hpp', Or.inl (hfullp pp')⟩, fun _ _ => ⟨pp', hpp', Or.inr ?_⟩⟩
    rw [← hknows.path pp' hpp']
    exact hname _ di hok
  · refine wp_mono hparse ?_ fun _ _ => trivial
    intro res s hres pp di hok
    obtain ⟨pp', hpp', rfl⟩ := hres pp di hok
    exact ⟨⟨pp', hpp', Or.inl (hfullp pp')⟩, fun hwant hk => absurd ⟨hwant, hk⟩ hknows⟩

theorem spares_serverReply {client : SockAddr} {ub : Ubuf} {data xtra : ByteString} :
    Does (Acts Spares) (serverReply cfg client ub data xtra : Srv Fs Cwd Unit) :=
  does_serverReply (primitives_acts Spares).toSteps not_false

theorem spares_replyPro {r : Request} {acc : ByteString} :
    Does (Acts Spares) (replyPro cfg r di acc : Srv Fs Cwd Unit) :=
  does_bind (does_dirInfo _) fun _ => spares_serverReply

theorem spares_unlessError {r : Request} {pe : Option ByteString} {next : Srv Fs Cwd Unit}
    (hnext : Does (Acts Spares) next) : Does (Acts Spares) (unlessError cfg r pe next) := by
  cases pe with
  | some pe => exact spares_serverReply
  | none => exact hnext

/-- A request past `validate_path` and `CHECK_ACCESS_RIGHTS`. -/
theorem triple_allowed {r : Request} {rights : UInt8} {passwd : Option ByteString}
    {next : ByteString → Srv Fs Cwd Unit} {name : ByteString}
    (hnext : ∀ pe, Triple (fun s => (s.dirStatCache.entry di).realname = name ∧
      Ready cfg here past pp di name s) (next pe) (fun _ => Kempt cfg here past)
      (Kempt cfg here past)) :
    Triple (fun s => (s.dirStatCache.entry di).realname = name ∧
        Ready cfg here past pp di name s)
      (checkAccessRights cfg r di rights passwd next) (fun _ => Kempt cfg here past)
      (Kempt cfg here past) := by
  have haccess : Triple (fun s : Server Fs Cwd => (s.dirStatCache.entry di).realname = name ∧
      Ready cfg here past pp di name s) (requireAccess cfg r di rights passwd)
      (fun _ s => (s.dirStatCache.entry di).realname = name ∧ Ready cfg here past pp di name s)
      (Kempt cfg here past) := by
    have hready : Triple (Ready cfg here past pp di name : Server Fs Cwd → Prop)
        (requireAccess cfg r di rights passwd) (fun _ => Ready cfg here past pp di name)
        (Kempt cfg here past) :=
      triple_ready (does_requireAccess (primitives_acts _).toSteps fun _ => ⟨not_false, trivial⟩)
    exact ⟨fun s hs => ⟨hs.1, hready.run s hs.2⟩⟩
  apply triple_seq haccess
  intro pe
  apply triple_ite
  · exact fun _ => triple_pure fun _ h => h.2.1
  · intro _
    apply triple_ite
    · intro _
      exact triple_mono (triple_spares spares_serverReply) (fun _ h => h.2.1) (fun _ _ h => h)
        fun _ h => h
    · exact fun _ => hnext pe

/-- The three requests touch access files where they may. -/
theorem kempt_serve (hslash : cfg.homeDir.head? = some slash) {r : Request} {hp : ℕ}
    (hcmd : SavesAccess (Command.ofByte r.ub.cmd)) {s₀ : Server Fs Cwd}
    (hknows : Command.ofByte r.ub.cmd = .setPro → Knows cfg s₀ r.s1) :
    Triple (fun s => s = s₀ ∧ Kempt cfg (Addresses s₀ r.s1) past s ∧ Settled cfg past s)
      (serve cfg r hp) (fun _ => Kempt cfg (Addresses s₀ r.s1) past)
      (Kempt cfg (Addresses s₀ r.s1) past) := by
  obtain ⟨here, hhere⟩ : ∃ here, here = Addresses s₀ r.s1 := ⟨_, rfl⟩
  rw [← hhere]
  have hrefuse : ∀ {P : Server Fs Cwd → Prop} (msg : ByteString),
      (∀ s, P s → Kempt cfg here past s) →
      Triple P (refuse cfg r msg) (fun _ => Kempt cfg here past) (Kempt cfg here past) :=
    fun msg hP => triple_mono (triple_spares spares_serverReply) hP (fun _ _ h => h) fun _ h => h
  -- what follows `validate_path`
  have hvalidated : ∀ {wantDirectory : Bool} {next : PPath → ℕ → Srv Fs Cwd Unit},
      (∀ pp di name, here pp.fullp → (wantDirectory = true → Knows cfg s₀ r.s1 → here name) →
        Triple (fun s => (s.dirStatCache.entry di).realname = name ∧
          Ready cfg here past pp di name s) (next pp di) (fun _ => Kempt cfg here past)
          (Kempt cfg here past)) →
      Triple (fun s => s = s₀ ∧ Kempt cfg here past s ∧ Settled cfg past s)
        (validated cfg r wantDirectory next) (fun _ => Kempt cfg here past)
        (Kempt cfg here past) := by
    intro wantDirectory next hnext
    apply triple_seq (triple_mono (triple_and (triple_addresses s₀ r.s1 wantDirectory)
      (triple_validatePath hslash r.s1 wantDirectory)) (fun _ hs => hs) (fun _ _ hs => hs)
      fun _ hs => hs.2)
    intro res
    cases res with
    | error pe => exact hrefuse pe fun _ h => h.2.1
    | ok res =>
        constructor
        rintro s ⟨haddresses, -, hready⟩
        obtain ⟨hpath, hname⟩ := haddresses res.1 res.2 rfl
        rw [← hhere] at hpath hname
        exact (hnext res.1 res.2 _ hpath hname).run s ⟨rfl, hready res.1 res.2 rfl⟩
  have hspares : ∀ {α : Type} {m : Srv Fs Cwd α} {P : Server Fs Cwd → Prop},
      Does (Acts Spares) m → (∀ s, P s → Kempt cfg here past s) →
      Triple P m (fun _ => Kempt cfg here past) (Kempt cfg here past) := fun hm hP =>
    triple_mono (triple_spares hm) hP (fun _ _ h => h) fun _ h => h
  unfold serve
  rcases hcmd with hcmd | hcmd | hcmd <;> rw [hcmd]
  · apply triple_ite
    · exact fun _ => hrefuse _ fun _ h => h.2.1
    · intro _
      apply hvalidated
      intro pp di name hpath hname
      apply triple_ite
      · exact fun _ => hspares spares_replyPro fun _ h => h.2.1
      · intro _
        apply triple_allowed
        intro pe
        apply triple_seq (triple_serverSetPro hslash (hname rfl (hknows hcmd)) _ _)
        exact fun pe => hspares (spares_unlessError spares_replyPro) fun _ h => h
  · apply triple_ite
    · exact fun _ => hrefuse _ fun _ h => h.2.1
    · intro _
      apply hvalidated
      intro pp di name hpath hname
      have hfinish : ∀ di, Does (Acts Spares) (checkAccessRights cfg r di 0 pp.passwd fun pe =>
          replyPro cfg r di pe : Srv Fs Cwd Unit) := fun di =>
        does_bind (does_requireAccess (primitives_acts Spares).toSteps fun _ => not_false) fun _ =>
          does_ite (fun _ => does_pure _) fun _ => does_ite (fun _ => spares_serverReply) fun _ =>
            spares_replyPro
      apply triple_ite
      · exact fun _ => hspares (hfinish di) fun _ h => h.2.1
      · intro _
        apply triple_allowed
        intro pe
        apply triple_seq (triple_mono (triple_serverMakeDir hslash hpath r.inetNum)
          (fun _ h => h.2) (fun _ _ h => h) fun _ h => h)
        intro res
        cases res with
        | error pe => exact hrefuse pe fun _ h => h
        | ok di => exact hspares (hfinish di) fun _ h => h
  · apply triple_ite
    · exact fun _ => hrefuse _ fun _ h => h.2.1
    · intro _
      apply triple_ite
      · exact fun _ => hspares spares_serverReply fun _ h => h.2.1
      · intro _
        apply hvalidated
        intro pp di name hpath hname
        apply triple_allowed
        intro pe
        apply triple_seq (triple_mono (triple_serverDelDir hslash hpath)
          (fun _ h => h.2) (fun _ _ h => h) fun _ h => h)
        exact fun pe => hspares (spares_unlessError spares_serverReply) fun _ h => h

end

/-! ## Runs -/

/-- Every way back to the home directory was open in a round.  If it saved access rights, so was the
way to the directory of the request, and a new protection was for a directory whose information is up
to date. -/
structure ChdirsWork (cfg : Config) (r : Effect.Round (Arrival Fs) (Server Fs Cwd)) : Prop where
  home : .chdir cfg.homeDir false ∉ r.after.trace
  operation : ∀ ub old h, Dispatches cfg r.input r.before ub old h →
    SavesAccess (Command.ofByte ub.cmd) → ∀ pp di realname path,
      .validated pp di realname ∈ r.after.trace → .chdir path false ∉ r.after.trace
  record : ∀ ub old h, Dispatches cfg r.input r.before ub old h →
    Command.ofByte ub.cmd = .setPro →
      Knows cfg (dispatchState cfg r.input r.before old h) ub.data

/-- One round, when all went well before. -/
theorem confined_serverRound (hslash : cfg.homeDir.head? = some slash) {a : Arrival Fs}
    (htable : HostTable s.htab) (hplace : placeAfter cfg past = some cfg.homeDir)
    (hwork : ChdirsWork cfg ⟨a, s, final (serverRound cfg a s)⟩) {ub : Ubuf} {old : Bool} {h : HTab}
    (hdisp : Dispatches cfg a s ub old h) (hcmd : SavesAccess (Command.ofByte ub.cmd)) :
    Confined cfg (dispatchState cfg a s old h) ub.data past
      (final (serverRound cfg a s)).trace := by
  obtain ⟨here, hhere⟩ : ∃ here, here = Addresses (dispatchState cfg a s old h) ub.data := ⟨_, rfl⟩
  have hstart : Kempt cfg here past (dispatchState cfg a s old h) ∧
      Settled cfg past (dispatchState cfg a s old h) := by
    have hempty : Kempt cfg here past (s.meets a) := guarded_nil
    refine ⟨hempty.appends ⟨[.dispatched old], rfl, by simp [Spares, TouchesAccess]⟩, Or.inr ?_⟩
    show placeAfter cfg (past ++ [.dispatched old]) = _
    rw [placeAfter_concat]
    exact hplace
  have hkempt : Kempt cfg here past (final (serverRound cfg a s)) := by
    rw [serverRound_of_dispatches htable hdisp, hhere]
    rw [hhere] at hstart
    exact wp_final ((kempt_serve (r := requestOf a ub old h) hslash hcmd
      fun hset => hwork.record ub old h hdisp hset).run _ ⟨rfl, hstart⟩)
  intro before e after htrace htouches
  obtain ⟨⟨pp, di, realname, hlet⟩, hplace⟩ := hkempt before e after htrace htouches
  have hmem : ∀ e' ∈ before, e' ∈ (final (serverRound cfg a s)).trace := by
    intro e' he'
    rw [htrace]
    exact List.mem_append_left _ he'
  rcases hplace with ⟨path, hfailed⟩ | hplace
  · exact absurd (hmem _ hfailed) (hwork.operation ub old h hdisp hcmd pp di realname path
      (hmem _ hlet))
  · obtain ⟨place, hat, hplace⟩ := hplace
    rw [hhere] at hplace
    exact ⟨place, hat, hplace⟩

/-- In every run in which the server gets into the directory of each request that saves access
rights, and back home from every directory, and in which it knows the directories that are given new
protections, the access files touched are those of the directory that the request addresses. -/
theorem confined_history (cfg : Config) (hslash : cfg.homeDir.head? = some slash) (fs : Fs)
    (cwd : Cwd) (now : ℤ) (arrivals : List (Arrival Fs))
    {before after : List (Effect.Round (Arrival Fs) (Server Fs Cwd))}
    {r : Effect.Round (Arrival Fs) (Server Fs Cwd)}
    (hrun : history cfg (initServer cfg fs cwd now) arrivals = before ++ r :: after)
    (hwork : ∀ r' ∈ before ++ [r], ChdirsWork cfg r') {ub : Ubuf} {old : Bool} {h : HTab}
    (hdisp : Dispatches cfg r.input r.before ub old h)
    (hcmd : SavesAccess (Command.ofByte ub.cmd)) :
    Confined cfg (dispatchState cfg r.input r.before old h) ub.data (logOf before)
      r.after.trace := by
  have hruns := rounds_triple
    (I := fun past s => HostTable s.htab ∧ ((∀ r ∈ past, ChdirsWork cfg r) →
      placeAfter cfg (logOf past) = some cfg.homeDir))
    (P := fun past r => (∀ r' ∈ past ++ [r], ChdirsWork cfg r') → ∀ ub old h,
      Dispatches cfg r.input r.before ub old h → SavesAccess (Command.ofByte ub.cmd) →
        Confined cfg (dispatchState cfg r.input r.before old h) ub.data (logOf past) r.after.trace)
    [] ⟨hostTable_initHtab, fun _ => rfl⟩ ?_ hrun
  · exact hruns hwork ub old h hdisp hcmd
  · rintro past s a ⟨htable, hplace⟩
    have htable' := hostTable_serverRound cfg a htable
    have hconfined : (∀ r' ∈ past ++ [⟨a, s, final (serverRound cfg a s)⟩], ChdirsWork cfg r') →
        ∀ ub old h, Dispatches cfg a s ub old h → SavesAccess (Command.ofByte ub.cmd) →
          Confined cfg (dispatchState cfg a s old h) ub.data (logOf past)
            (final (serverRound cfg a s)).trace :=
      fun hwork ub old h hdisp hcmd => confined_serverRound hslash htable
        (hplace fun r hr => hwork r (List.mem_append_left _ hr)) (hwork _ (by simp)) hdisp hcmd
    have hsettled : (∀ r ∈ past, ChdirsWork cfg r) →
        wp (serverRound cfg a) (fun _ => Settled cfg (logOf past)) (fun _ => True) s := by
      intro hwork
      refine (triple_serverRound (homing_settled hslash) a).run s ⟨htable, Or.inr ?_⟩
      show placeAfter cfg (logOf past ++ []) = _
      rw [List.append_nil, hplace hwork]
    unfold wp at hsettled ⊢
    cases hrun : serverRound cfg a s with
    | error e s' =>
        rw [hrun] at hconfined
        exact hconfined
    | ok u s' =>
        rw [hrun] at hconfined htable' hsettled
        refine ⟨⟨htable', fun hwork => ?_⟩, hconfined⟩
        have hround : ChdirsWork cfg ⟨a, s, s'⟩ := hwork _ (by simp)
        rcases hsettled fun r hr => hwork r (List.mem_append_left _ hr) with hlost | hhome
        · exact absurd hlost hround.home
        · simpa [logOf] using hhome

end


/-! ### Two runs -/

/-- The owners of a directory need no password, and the client is one. -/
def protectConfig : Config := { Scenario.config with permitPasswordlessOwners := true }

/-- A home directory from which nobody may get files, and a directory of the client in it. -/
def protectDisk : Disk :=
  Scenario.disk [("h/.FSP_NO_GET", Scenario.emptyFile), ("h/d", .dir),
    ("h/d/.FSP_OWNER", .file (text "127.0.0.1 O Me"))]

/-- A request of the client for the directory, with more after its name. -/
def protectRequest (now : ℤ) (genNextKey key : UInt16) (cmd : Command) (p p2 : ByteString)
    (h : p.length + p2.length ≤ ubufMaxspace := by decide) : Arrival Disk :=
  Scenario.arrival now genNextKey (Scenario.datagram cmd key 0 p p2 h)

/-- The rounds of the server for some requests. -/
def protectRun (arrivals : List (Arrival Disk)) :
    List (Effect.Round (Arrival Disk) (Server Disk Path)) :=
  history protectConfig (initServer protectConfig protectDisk [text "h"] 0) arrivals

/-- The command and the data of a datagram that is let through to the dispatcher. -/
theorem request_of_dispatches {a : Arrival Disk} {s : Server Disk Path} {ub : Ubuf} {old : Bool}
    {h : HTab} {cmd : Command} {data : ByteString} (hdisp : Dispatches protectConfig a s ub old h)
    (hrequest : (Ubuf.decode a.bytes).map (fun ub => (Command.ofByte ub.cmd, ub.data)) =
      some (cmd, data)) :
    Command.ofByte ub.cmd = cmd ∧ ub.data = data := by
  rw [hdisp.reads.decode] at hrequest
  exact Prod.ext_iff.mp (Option.some.inj hrequest)

/-- The parts of the path of these requests. -/
def protectPath : PPath := ⟨text "d", text "d", 1, [dot], 1, none⟩

theorem parsePath_protectPath : parsePath (Scenario.path "d") = .ok protectPath := by
  decide +kernel

/-- The directory is made known, and everybody may create directories in it from now on. -/
def freshlyGranted : List (Effect.Round (Arrival Disk) (Server Disk Path)) :=
  protectRun [protectRequest 100 7 5 .getPro (Scenario.path "d") [],
    protectRequest 101 8 7 .setPro (Scenario.path "d") (text "+m")]

theorem confined_history_setPro :
    ∃ r₁ r, freshlyGranted = [r₁] ++ r :: [] ∧ .creat (text ".FSP_OK_MKDIR") ∈ r.after.trace ∧
      ∃ ub old h, Dispatches protectConfig r.input r.before ub old h ∧
        Confined protectConfig (dispatchState protectConfig r.input r.before old h) ub.data
          (logOf [r₁]) r.after.trace := by
  have hlength : freshlyGranted.length = 2 := by decide +kernel
  have hrequest : freshlyGranted.map (fun r =>
      (Ubuf.decode r.input.bytes).map fun ub => (Command.ofByte ub.cmd, ub.data)) =
      [some (.getPro, Scenario.path "d"), some (.setPro, Scenario.path "d")] := by decide +kernel
  have hdisp : freshlyGranted.all (fun r => decide (.dispatched false ∈ r.after.trace)) = true := by
    decide +kernel
  have htouched : (freshlyGranted.drop 1).all
      (fun r => decide (.creat (text ".FSP_OK_MKDIR") ∈ r.after.trace)) = true := by decide +kernel
  have hwork : freshlyGranted.all (fun r => r.after.trace.all changedWell) = true := by decide +kernel
  -- the entry for the directory is found, and its name is that of the directory
  have hname : (freshlyGranted.drop 1).map (fun r =>
      (realNameAt (r.input.world r.before.fs) r.before.cwd (directoryPart protectPath true).work,
        realNameAt (r.input.world r.before.fs) r.before.cwd protectPath.fullp,
        (r.before.dirStatCache.fCacheFind (directoryPart protectPath true).work).map fun di =>
          (r.before.dirStatCache.entry di).realname)) =
      [(some (text "/h/d"), some (text "/h/d"), some (text "/h/d"))] := by decide +kernel
  obtain ⟨r₁, r, hr⟩ := List.length_eq_two.mp hlength
  have hsplit : freshlyGranted = [r₁] ++ r :: [] := hr
  have hafter : r.after = final (serverRound protectConfig r.input r.before) :=
    after_of_mem_rounds (show r ∈ freshlyGranted by rw [hr]; simp)
  rw [hr] at hrequest hdisp htouched hwork hname
  simp only [List.map_cons, List.map_nil, List.cons.injEq, and_true, List.all_cons, List.all_nil,
    Bool.and_true, Bool.and_eq_true, decide_eq_true_eq, List.drop_succ_cons, List.drop_zero,
    Prod.mk.injEq] at hrequest hdisp htouched hwork hname
  have hgood : ∀ r' ∈ [r₁] ++ [r], ∀ path, .chdir path false ∉ r'.after.trace := by
    intro r' hr' path hmem
    have hall : r'.after.trace.all changedWell = true := by
      rcases List.mem_pair.mp hr' with rfl | rfl
      · exact hwork.1
      · exact hwork.2
    exact absurd (List.all_eq_true.mp hall _ hmem) (by simp [changedWell])
  have hknows : ∀ ub old h, Dispatches protectConfig r.input r.before ub old h →
      Knows protectConfig (dispatchState protectConfig r.input r.before old h) ub.data := by
    intro ub old h hdisp
    have hparts : ∀ pp, parsePath ub.data = .ok pp → pp = protectPath := by
      intro pp hpp
      rw [(request_of_dispatches hdisp hrequest.2).2, parsePath_protectPath] at hpp
      exact (Except.ok.inj hpp).symm
    constructor
    · intro pp hpp
      obtain rfl := hparts pp hpp
      exact hname.1.trans hname.2.1.symm
    · intro pp hpp di hdi _
      obtain rfl := hparts pp hpp
      have hcached : some (r.before.dirStatCache.entry di).realname = some (text "/h/d") := by
        rw [← hname.2.2, show r.before.dirStatCache.fCacheFind _ = some di from hdi]
        rfl
      exact hname.1.trans hcached.symm
  have htable : HostTable r.before.htab := hostTable_history protectConfig _ _ _ hsplit
  have hmem := hdisp.2
  rw [hafter] at hmem
  obtain ⟨ub, old, h, hdisp⟩ := exists_dispatches htable hmem
  refine ⟨r₁, r, hsplit, htouched, ub, old, h, hdisp, ?_⟩
  refine confined_history protectConfig rfl _ _ _ _ hsplit (fun r' hr' => ?_) hdisp
    (Or.inl (request_of_dispatches hdisp hrequest.2).1)
  refine ⟨hgood r' hr' _, fun _ _ _ _ _ _ _ _ path _ => hgood r' hr' path, ?_⟩
  intro ub' old' h' hdisp' hset
  rcases List.mem_pair.mp hr' with rfl | rfl
  · rw [(request_of_dispatches hdisp' hrequest.1).1] at hset
    exact absurd hset (by decide)
  · exact hknows ub' old' h' hdisp'

/-- The directory is made known, removed under another name, and given a new protection. -/
def removed : List (Effect.Round (Arrival Disk) (Server Disk Path)) :=
  protectRun [protectRequest 100 7 5 .getPro (Scenario.path "d") [],
    protectRequest 101 8 7 .delDir (Scenario.path "d/") [],
    protectRequest 102 9 8 .setPro (Scenario.path "d") (text "+c")]

/-- With the last request, the server removes a file of the home directory, so that everybody may get
files from there. -/
theorem removed_not_confined :
    ¬ ∀ before r after ub old h, removed = before ++ r :: after →
        Dispatches protectConfig r.input r.before ub old h → SavesAccess (Command.ofByte ub.cmd) →
          Confined protectConfig (dispatchState protectConfig r.input r.before old h) ub.data
            (logOf before) r.after.trace := by
  intro hall
  have hlength : removed.length = 3 := by decide +kernel
  have hrequest : (removed.drop 2).map (fun r =>
      (Ubuf.decode r.input.bytes).map fun ub => (Command.ofByte ub.cmd, ub.data)) =
      [some (.setPro, Scenario.path "d")] := by decide +kernel
  have hdisp : removed.all (fun r => decide (.dispatched false ∈ r.after.trace)) = true := by
    decide +kernel
  have hunlink : (removed.drop 2).map (fun r => r.after.trace[6]?) =
      [some (.unlink (text ".FSP_NO_GET") true)] := by decide +kernel
  have hplace : placeAfter protectConfig (logOf (removed.take 2) ++
      (removed.drop 2).flatMap fun r => r.after.trace.take 6) = some (text "/h") := by
    decide +kernel
  have hgone : (removed.drop 2).map (fun r =>
      realNameAt (r.input.world r.before.fs) r.before.cwd protectPath.fullp) = [none] := by
    decide +kernel
  obtain ⟨r₁, r₂, r, hr⟩ := List.length_eq_three.mp hlength
  have hsplit : removed = [r₁, r₂] ++ r :: [] := hr
  have hafter : r.after = final (serverRound protectConfig r.input r.before) :=
    after_of_mem_rounds (show r ∈ removed by rw [hr]; simp)
  rw [hr] at hrequest hdisp hunlink hplace hgone
  simp only [List.map_cons, List.map_nil, List.cons.injEq, and_true, List.all_cons, List.all_nil,
    Bool.and_true, Bool.and_eq_true, decide_eq_true_eq, List.drop_succ_cons, List.drop_zero,
    List.take_succ_cons, List.take_zero, List.flatMap_cons, List.flatMap_nil,
    List.append_nil] at hrequest hdisp hunlink hplace hgone
  have htable : HostTable r.before.htab := hostTable_history protectConfig _ _ _ hsplit
  have hmem := hdisp.2.2
  rw [hafter] at hmem
  obtain ⟨ub, old, h, hdisp⟩ := exists_dispatches htable hmem
  obtain ⟨hcmd, hdata⟩ := request_of_dispatches hdisp hrequest
  have hconfined := hall _ r [] ub old h hsplit hdisp (Or.inl hcmd)
  have htouches : TouchesAccess (.unlink (text ".FSP_NO_GET") true) := by decide
  obtain ⟨place, hat, pp, hpp, hnames⟩ := hconfined.getElem? hunlink htouches
  rw [hplace] at hat
  rw [hdata, parsePath_protectPath] at hpp
  obtain rfl := Except.ok.inj hpp
  obtain rfl := Option.some.inj hat
  rcases hnames with hsame | hreal
  · exact absurd hsame (by decide +kernel)
  · have hnone := hgone.symm.trans hreal
    cases hnone

end Fsp
