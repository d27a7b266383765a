import Fsp.Protocol.DirListing
import Fsp.Protocol.Precheck
import Fsp.Server.DirBlocks

/-!
# A server with directories

The server as a client meets it that asks about objects and lists directories: what `stat` finds under
a path, what `validate_path` finds for a directory, and what `readdir` finds in it.  A listing is built
by `build_dir_listing` from what `stat` finds under the names.

`sends_caseGetDir` and `sends_caseStat` say that the server sends what the site answers, in a state in
which the system calls give what the site has.
-/

namespace Fsp

open Bytes Effect

/-- The names in a directory are proper, and the home directory is a directory. -/
structure ListedSite extends UploadSite where
  dirents : ByteString → List Dirent
  proper : ∀ realname, ∀ dp ∈ dirents realname, ProperName dp.name
  home : ∀ sb, files [dot] = some sb → sb.kind = .dir

/-- The reply that `send_error` sends. -/
def errorReply (ub : Ubuf) (msg : ByteString) : Ubuf :=
  replyTo { ub with cmd := ccErr, bbPos := 0 } (msg ++ [0]) []

theorem dirReply_of_error {cfg : Config} {ub : Ubuf} {listing pe : ByteString} {pos : ℕ}
    (h : dirBlock cfg listing pos = .error pe) : dirReply cfg ub listing pos = errorReply ub pe := by
  unfold dirReply
  rw [h]
  rfl

theorem dirReply_of_ok {cfg : Config} {ub : Ubuf} {listing block : ByteString} {pos : ℕ}
    (h : dirBlock cfg listing pos = .ok block) :
    dirReply cfg ub listing pos = replyTo ub block [] := by
  unfold dirReply
  rw [h]

theorem UploadSite.statType_eq (site : UploadSite) {kind : FileKind} (h : kind ≠ .other)
    (path : ByteString) : site.statType path kind =
      if (site.validatePath path (kind == .dir)).isOk then
        if kind = .dir then rdtypeDir else rdtypeFile
      else 0 := by
  unfold statType
  cases kind with
  | other => exact absurd rfl h
  | reg =>
      simp only
      cases site.validatePath path (FileKind.reg == FileKind.dir) <;> rfl
  | dir =>
      simp only
      cases site.validatePath path (FileKind.dir == FileKind.dir) <;> rfl

namespace ListedSite

variable (site : ListedSite)

/-- What `build_dir_listing` finds in a directory. -/
def entries (d : DirInfo) : List (Dirent × Option Stat) :=
  (site.dirents d.realname).map fun dp =>
    (dp, site.files (d.realname ++ [slash] ++ dp.name))

/-- What `case CC_GET_DIR` sends, if it sends anything. -/
def answerGetDir (ub : Ubuf) : Option Ubuf :=
  match site.validatePath ub.data true with
  | .error pe => some (errorReply ub pe)
  | .ok (pp, d) =>
      let pe := requireAccessRights site.cfg d dirList site.inetNum pp.passwd
      if pe.head? = some 0x49 then none
      else if pe.head? = some 0x44 then some (errorReply ub pe.tail)
      else
        (buildDirListing site.cfg (site.entries d)).map fun listing =>
          dirReply site.cfg ub listing ub.bbPos.toNat

/-- What the server answers to a call. -/
def answer (c : Call) : Option Ubuf :=
  match Command.ofByte c.cmd with
  | .getDir => site.answerGetDir c.ubuf
  | _ => site.toUploadSite.answer c

/-- The network with the server behind it. -/
def net : Net := fun trace c => (site.answer c).getD (silentNet trace c)

end ListedSite

/-! ## The server behind the site -/

section

variable {Fs Cwd : Type} [Posix Fs Cwd] {site : ListedSite} {s : Server Fs Cwd}

/-- The listing of the directory is not cached, and the system calls find in it what the site has. -/
structure Builds (site : ListedSite) (s : Server Fs Cwd) (d : DirInfo) : Prop where
  uncached : s.dirListCache.fCacheFind d.realname = none
  readdir : Posix.readdir s.fs s.cwd d.realname = some (site.dirents d.realname)
  stat : ∀ dp ∈ site.dirents d.realname,
    Posix.stat s.fs s.cwd (d.realname ++ [slash] ++ dp.name) =
      site.files (d.realname ++ [slash] ++ dp.name)

theorem scanDir_of_builds {d : DirInfo} (h : Builds site s d) :
    scanDir d.realname s = .ok (some (site.entries d)) s := by
  have hentries : (site.dirents d.realname).map (fun dp =>
      (dp, Posix.stat s.fs s.cwd (d.realname ++ [slash] ++ dp.name))) = site.entries d := by
    apply List.map_congr_left
    intro dp hdp
    rw [h.stat dp hdp]
  show EStateM.Result.ok ((Posix.readdir s.fs s.cwd d.realname).map fun dirents => dirents.map fun dp =>
    (dp, Posix.stat s.fs s.cwd (d.realname ++ [slash] ++ dp.name))) s = _
  rw [h.readdir, Option.map_some, hentries]

/-- A listing that is not cached is built. -/
theorem serverGetDir_builds (hprebuilt : site.cfg.usePrebuildDirlists = false) {di : ℕ}
    (h : Builds site s (s.dirStatCache.entry di)) :
    wp (serverGetDir site.cfg di)
      (fun dl s' => ∃ i, dl = .ok i ∧
        buildDirListing site.cfg (site.entries (s.dirStatCache.entry di)) =
          some (s'.dirListCache.entry i).listing ∧ s'.trace = s.trace)
      (fun _ => True) s := by
  have hinfo : dirInfo di s = .ok (s.dirStatCache.entry di) s := rfl
  have hget : (get : Srv Fs Cwd (Server Fs Cwd)) s = .ok s s := rfl
  unfold wp serverGetDir
  rw [bind_of_ok hinfo, bind_of_ok hget, h.uncached]
  unfold makeListing
  simp only [hprebuilt, Bool.false_eq_true, if_false]
  rw [bind_of_ok (show (pure none : Srv Fs Cwd (Option DirListing)) s = .ok none s from rfl)]
  simp only
  rw [bind_of_ok (scanDir_of_builds h)]
  simp only
  cases hbuild : buildDirListing site.cfg (site.entries (s.dirStatCache.entry di)) with
  | none => trivial
  | some listing =>
      refine ⟨_, rfl, ?_, rfl⟩
      exact (congrArg (fun dl : DirListing => some dl.listing)
        (FifoCache.entry_fCachePut (s.dirStatCache.entry di).realname ⟨listing, s.curTime⟩)).symm

/-- What was sent since `s` is the answer. -/
def SendsAnswer (answer : Option Ubuf) (client : SockAddr) (s s' : Server Fs Cwd) : Prop :=
  ∃ checked, (∀ e ∈ checked, NotSent e) ∧
    s'.trace = s.trace ++ checked ++ (answer.map fun ub => .sent client ub.encode).toList

theorem wp_sendsAnswer {answer : Option Ubuf} {client : SockAddr} {cfg : Config} {ub : Ubuf}
    {data xtra : ByteString} {s₀ : Server Fs Cwd} {checked : List Event}
    (hanswer : answer = some (replyTo ub data xtra)) (hchecked : ∀ e ∈ checked, NotSent e)
    (htrace : s.trace = s₀.trace ++ checked) :
    wp (serverReply cfg client ub data xtra : Srv Fs Cwd Unit) (fun _ => SendsAnswer answer client s₀)
      (fun _ => True) s := by
  apply wp_mono (sends_serverReply client ub data xtra s)
  · intro _ s' hs'
    refine ⟨checked, hchecked, ?_⟩
    rw [hs', htrace, hanswer]
    rfl
  · exact fun _ h => h

/-- The end of `case CC_GET_DIR`. -/
theorem sendsAnswer_replyListing {cfg : Config} {r : Request} (listing : ByteString)
    {s₀ : Server Fs Cwd} {checked : List Event} (hchecked : ∀ e ∈ checked, NotSent e)
    (htrace : s.trace = s₀.trace ++ checked) :
    wp (do
        emit (.listed listing)
        match dirBlock cfg listing r.pos with
        | .error pe => refuse cfg r pe
        | .ok block => reply cfg r block [])
      (fun _ => SendsAnswer (some (dirReply cfg r.ub listing r.pos)) r.client s₀) (fun _ => True) s := by
  have hemit : wp (emit (.listed listing) : Srv Fs Cwd Unit)
      (fun _ s' => s'.trace = s.trace ++ [.listed listing]) (fun _ => True) s := rfl
  apply wp_seq hemit
  intro _ s' hs'
  have htrace' : s'.trace = s₀.trace ++ (checked ++ [.listed listing]) := by
    rw [hs', htrace, List.append_assoc]
  have hchecked' : ∀ e ∈ checked ++ [.listed listing], NotSent e := by
    intro e he
    rcases List.mem_append.mp he with he | he
    · exact hchecked e he
    · rw [List.mem_singleton.mp he]
      trivial
  cases hblock : dirBlock cfg listing r.pos with
  | error pe =>
      rw [dirReply_of_error hblock]
      exact wp_sendsAnswer rfl hchecked' htrace'
  | ok block =>
      rw [dirReply_of_ok hblock]
      exact wp_sendsAnswer rfl hchecked' htrace'

/-- The server sends the part of the listing that the site answers with. -/
theorem sends_caseGetDir {r : Request} {s₁ : Server Fs Cwd} {res : Except ByteString (PPath × ℕ)}
    (hinet : site.inetNum = r.inetNum) (hprebuilt : site.cfg.usePrebuildDirlists = false)
    (hrun : validatePath site.cfg r.s1 true s = .ok res s₁)
    (hfinds : Finds s₁ res (site.validatePath r.s1 true))
    (hbuilds : ∀ pp d, site.validatePath r.s1 true = .ok (pp, d) → Builds site s₁ d) :
    wp (caseGetDir site.cfg r) (fun _ => SendsAnswer (site.answerGetDir r.ub) r.client s₁)
      (fun _ => True) s := by
  have hanswer : site.answerGetDir r.ub = site.answerGetDir r.ub := rfl
  conv_rhs at hanswer => unfold ListedSite.answerGetDir
  rw [show r.ub.data = r.s1 from rfl] at hanswer
  have hnone : ∀ e ∈ ([] : List Event), NotSent e := by simp
  unfold caseGetDir validated
  rw [wp, bind_of_ok hrun]
  cases hvalid : site.validatePath r.s1 true with
  | error pe' =>
      rw [hvalid] at hfinds hanswer
      cases res with
      | ok found => exact hfinds.elim
      | error pe =>
          obtain rfl : pe' = pe := hfinds
          exact wp_sendsAnswer hanswer hnone (List.append_nil _).symm
  | ok found =>
      obtain ⟨pp', d⟩ := found
      have hbuild := hbuilds pp' d hvalid
      rw [hvalid] at hfinds hanswer
      cases res with
      | error pe => exact hfinds.elim
      | ok found =>
          obtain ⟨pp, di⟩ := found
          obtain ⟨rfl, rfl⟩ : pp' = pp ∧ d = s₁.dirStatCache.entry di := hfinds
          simp only at hanswer
          rw [hinet] at hanswer
          show wp (checkAccessRights site.cfg r di dirList pp'.passwd _) _ _ s₁
          unfold checkAccessRights
          -- the answer of the access check is written to the trace
          have haccess : wp (requireAccess site.cfg r di dirList pp'.passwd : Srv Fs Cwd ByteString)
              (fun pe s₂ => pe = requireAccessRights site.cfg (s₁.dirStatCache.entry di) dirList
                  r.inetNum pp'.passwd ∧
                s₂ = { s₁ with trace := s₁.trace ++ [.access di dirList r.inetNum pp'.passwd pe] })
              (fun _ => True) s₁ := ⟨rfl, rfl⟩
          apply wp_seq haccess
          intro pe s₂ hpost
          obtain ⟨hpe, hs₂⟩ := hpost
          rw [← hpe] at hanswer
          have hchecked : ∀ e ∈ [Event.access di dirList r.inetNum pp'.passwd pe], NotSent e := by
            intro e he
            rw [List.mem_singleton.mp he]
            trivial
          have htrace : s₂.trace = s₁.trace ++ [.access di dirList r.inetNum pp'.passwd pe] := by
            rw [hs₂]
          apply wp_ite
          · intro hignored
            rw [if_pos hignored] at hanswer
            refine ⟨_, hchecked, ?_⟩
            rw [hanswer, htrace]
            exact (List.append_nil _).symm
          intro hignored
          rw [if_neg hignored] at hanswer
          apply wp_ite
          · intro hdenied
            rw [if_pos hdenied] at hanswer
            exact wp_sendsAnswer hanswer hchecked htrace
          intro hdenied
          rw [if_neg hdenied] at hanswer
          have hbuild₂ : Builds site s₂ (s₂.dirStatCache.entry di) := by
            rw [hs₂]
            exact ⟨hbuild.uncached, hbuild.readdir, hbuild.stat⟩
          apply wp_seq (serverGetDir_builds hprebuilt hbuild₂)
          intro dl s₃ hpost
          obtain ⟨i, hdl, hlisting, htrace₃⟩ := hpost
          rw [hdl]
          have hlisting' : buildDirListing site.cfg (site.entries (s₁.dirStatCache.entry di)) =
              some (s₃.dirListCache.entry i).listing := by
            rw [← hlisting, hs₂]
          have hread : wp (dirListing i : Srv Fs Cwd DirListing)
              (fun dl s' => dl = s₃.dirListCache.entry i ∧ s' = s₃) (fun _ => True) s₃ := ⟨rfl, rfl⟩
          apply wp_seq hread
          intro dl s₄ hpost
          obtain ⟨hdl₄, hs₄⟩ := hpost
          rw [← hdl₄] at hlisting'
          rw [hlisting', Option.map_some] at hanswer
          have htrace₄ : s₄.trace = s₁.trace ++ [.access di dirList r.inetNum pp'.passwd pe] := by
            rw [hs₄, htrace₃, htrace]
          rw [hanswer]
          exact sendsAnswer_replyListing dl.listing hchecked htrace₄

/-- `validate_path` finds what the site has, whatever was written to the trace before. -/
def FindsAll (site : ListedSite) (s : Server Fs Cwd) : Prop :=
  ∀ trace fullp wantDirectory, wp (validatePath site.cfg fullp wantDirectory)
    (fun res s₁ => Finds s₁ res (site.validatePath fullp wantDirectory)) (fun _ => True)
    { s with trace := trace }

omit [Posix Fs Cwd] in
theorem Finds.isOk {res : Except ByteString (PPath × ℕ)} {found : Except ByteString (PPath × DirInfo)}
    (h : Finds s res found) : res.isOk = found.isOk := by
  cases res with
  | error pe =>
      cases found with
      | error pe' => rfl
      | ok found => exact h.elim
  | ok r =>
      cases found with
      | error pe' => exact h.elim
      | ok found => rfl

/-- An object is visible where `validate_path` finds its directory. -/
theorem statAllowed_site (hvalid : FindsAll site s) (trace : List Event) (path : ByteString)
    (kind : FileKind) :
    wp (statAllowed site.cfg path kind)
      (fun allowed _ => kind ≠ .other → allowed = (site.validatePath path (kind == .dir)).isOk)
      (fun _ => True) { s with trace := trace } := by
  unfold statAllowed
  cases kind with
  | other => exact fun h => absurd rfl h
  | reg =>
      apply wp_seq (hvalid trace path (FileKind.reg == FileKind.dir))
      intro res s₁ hfinds
      have hok := hfinds.isOk
      cases res with
      | error pe => exact fun _ => hok
      | ok found => exact fun _ => hok
  | dir =>
      apply wp_seq (hvalid trace path (FileKind.dir == FileKind.dir))
      intro res s₁ hfinds
      have hok := hfinds.isOk
      cases res with
      | error pe => exact fun _ => hok
      | ok found => exact fun _ => hok

/-- `server_stat` finds what the site has. -/
theorem serverStat_site {path : ByteString} {junk : UInt32} (hjunk : site.junk = junk)
    (hfiles : ∀ path, Posix.stat s.fs s.cwd path = site.files path) (hvalid : FindsAll site s) :
    wp (serverStat site.cfg path junk) (fun data _ => data = site.serverStat path) (fun _ => True)
      s := by
  unfold serverStat UploadSite.serverStat
  rw [hjunk]
  cases hparse : parsePath (if path.length < 2 then [0] else path) with
  | error err =>
      simp only [hparse]
      rfl
  | ok pp =>
      simp only [hparse]
      have hstat : wp (stat pp.fullp) (fun sb s₁ => sb = site.files pp.fullp ∧
          ∃ trace, s₁ = { s with trace := trace }) (fun _ => True) s := ⟨hfiles pp.fullp, _, rfl⟩
      apply wp_seq hstat
      intro sb s₁ hpost
      obtain ⟨hsb, trace, hs₁⟩ := hpost
      rw [hs₁, ← hsb]
      cases sb with
      | none => rfl
      | some sb =>
          apply wp_seq (statAllowed_site hvalid trace _ sb.kind)
          intro allowed s₂ hallowed
          show _ = statBytes sb.mtime (UInt32.ofNat sb.size) (site.statType _ sb.kind)
          generalize sb.kind = kind at hallowed ⊢
          cases kind with
          | other => cases allowed <;> rfl
          | reg =>
              rw [hallowed (by decide), site.statType_eq (by decide)]
              rfl
          | dir =>
              rw [hallowed (by decide), site.statType_eq (by decide)]
              rfl

/-- The server sends the information that the site answers with. -/
theorem sends_caseStat {r : Request} (hjunk : site.junk = r.junk)
    (hfiles : ∀ path, Posix.stat s.fs s.cwd path = site.files path) (hvalid : FindsAll site s) :
    wp (caseStat site.cfg r)
      (fun _ => SendsAnswer (some (replyTo r.ub (site.serverStat r.s1) [])) r.client s)
      (fun _ => True) s := by
  have hprims := @primitives_acts Fs Cwd _ NotSent
  have hacts : Does (Acts NotSent) (serverStat site.cfg r.s1 r.junk : Srv Fs Cwd ByteString) :=
    (operations_of_primitives hprims (fun _ h => h) returns_loadAccessRights
      (does_serverMakeDir_of_good hprims (fun _ h => h) fun _ => trivial)).serverStat _ _
  apply wp_seq (wp_mono (wp_does (serverStat_site hjunk hfiles hvalid) hacts) (fun _ _ h => h)
    fun _ _ => trivial)
  intro data s₁ hpost
  obtain ⟨hdata, ⟨checked, htrace, hchecked⟩, -⟩ := hpost
  rw [hdata]
  exact wp_sendsAnswer rfl hchecked htrace

end

end Fsp
