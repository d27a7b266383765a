import Fsp.Client.Complete
import Fsp.Server.ReplySize
import Fsp.Server.Throughput

/-!
# The check before an upload

Before `util_upload` sends anything it asks for the protection of the directory and, where files may
not be deleted, whether there is such a file.  `server_install` and the access check before it make
the decision again when everything was sent.  Where the server would install the file, the client
should not have given up.

Both decide by `MayReplace`.  But the client asks with another path: it takes off what stands behind
the last slash, which is the password as well.

The server is a site here: the directories that it finds, the files that there are.  What the site
answers is what `server_get_pro` and `server_stat` send (`sends_caseGetPro`, `serverStat_site`), and
what it permits is what `server_install` does: the old file is deleted, to be replaced, in exactly the
requests with `Permits` (`deletesIff_caseInstall`).
-/

namespace Fsp

open Bytes Effect

/-! ## The decision -/

section

variable {cfg : Config} {d : DirInfo} {inetNum : UInt32} {passwd : Option ByteString}

/-- The first letter of what an owner table says about an address. -/
def ownerLetter (cfg : Config) (d : DirInfo) (inetNum : UInt32) : Option UInt8 :=
  (checkIpTable cfg.bigEndian inetNum d.owner).bind List.head?

/-- The owner table shuts the address out. -/
def Banned (cfg : Config) (d : DirInfo) (inetNum : UInt32) : Prop :=
  ownerLetter cfg d inetNum = some 0x49 ∨ ownerLetter cfg d inetNum = some 0x44

/-- The client is an owner of the directory. -/
def IsOwner (cfg : Config) (d : DirInfo) (inetNum : UInt32) (passwd : Option ByteString) : Prop :=
  ownerLetter cfg d inetNum = some 0x4F ∧
    ((d.ownerPassword = none ∧ cfg.permitPasswordlessOwners = true) ∨
      (d.ownerPassword ≠ none ∧ passwd = d.ownerPassword))

/-- The public is let in with the password. -/
def PublicAdmits (d : DirInfo) (passwd : Option ByteString) : Prop :=
  d.publicPassword = none ∨ d.publicPassword = passwd

/-- The client may put a file into the directory, also in the place of another one if there `exist`s
one. -/
def MayReplace (cfg : Config) (d : DirInfo) (inetNum : UInt32) (passwd : Option ByteString)
    (exist : Prop) : Prop :=
  ¬ Banned cfg d inetNum ∧ (IsOwner cfg d inetNum passwd ∨
    PublicAdmits d passwd ∧ permits d.protection dirAdd = true ∧
      (exist → permits d.protection dirDel = true))

/-- The access check lets a request pass. -/
def LetsPass (acc : ByteString) : Prop := acc.head? ≠ some 0x49 ∧ acc.head? ≠ some 0x44

theorem head?_of_banned (h : Banned cfg d inetNum) (rights : UInt8)
    (passwd : Option ByteString) :
    (requireAccessRights cfg d rights inetNum passwd).head? = ownerLetter cfg d inetNum := by
  unfold Banned ownerLetter at h
  unfold requireAccessRights ownerLetter
  cases htable : checkIpTable cfg.bigEndian inetNum d.owner with
  | none =>
      rw [htable] at h
      simp at h
  | some acc =>
      rw [htable] at h
      simp only [Option.bind_some] at h ⊢
      rw [if_pos h]

theorem head?_of_isOwner (h : IsOwner cfg d inetNum passwd) (rights : UInt8) :
    (requireAccessRights cfg d rights inetNum passwd).head? = some 0x4F := by
  obtain ⟨hletter, hpassword⟩ := h
  unfold ownerLetter at hletter
  unfold requireAccessRights
  cases htable : checkIpTable cfg.bigEndian inetNum d.owner with
  | none =>
      rw [htable] at hletter
      cases hletter
  | some acc =>
      rw [htable] at hletter
      simp only [Option.bind_some] at hletter
      simp only [hletter]
      rw [if_neg (by decide), if_pos trivial]
      rcases hpassword with ⟨hnone, hpermit⟩ | ⟨hsome, hpasswd⟩
      · simp only [hnone, hpermit, if_true]
        exact hletter
      · obtain ⟨password, hpassword⟩ := Option.ne_none_iff_exists'.mp hsome
        simp only [hpasswd, hpassword, if_true]
        exact hletter

/-- Who is neither shut out nor an owner is one of the public. -/
theorem requireAccessRights_public {rights : UInt8} (hrights : permits dirOwner rights = false)
    (hbanned : ¬ Banned cfg d inetNum) (howns : ¬ IsOwner cfg d inetNum passwd) :
    requireAccessRights cfg d rights inetNum passwd = requirePublicRights d rights passwd := by
  unfold Banned ownerLetter at hbanned
  unfold IsOwner ownerLetter at howns
  unfold requireAccessRights
  cases htable : checkIpTable cfg.bigEndian inetNum d.owner with
  | none => rfl
  | some acc =>
      rw [htable, Option.bind_some] at hbanned howns
      simp only
      rw [if_neg hbanned]
      by_cases howner : acc.head? = some 0x4F
      · rw [if_pos howner]
        cases hpassword : d.ownerPassword with
        | none =>
            simp only
            rw [if_neg]
            intro hpermit
            exact howns ⟨howner, Or.inl ⟨hpassword, hpermit⟩⟩
        | some password =>
            cases passwd with
            | none => simp only [hrights, Bool.false_eq_true, if_false]
            | some passwd' =>
                simp only
                rw [if_neg]
                rintro rfl
                exact howns ⟨howner, Or.inr ⟨by simp [hpassword], hpassword.symm⟩⟩
      · rw [if_neg howner]

/-- What the public is told. -/
theorem head?_requirePublicRights {rights : UInt8} (hrights : permits dirOwner rights = false)
    (d : DirInfo) (passwd : Option ByteString) :
    (PublicAdmits d passwd ∧ (permits d.protection rights = true ∨ rights = 0) ∧
      (requirePublicRights d rights passwd).head? = some 0x4E) ∨
    (¬ (PublicAdmits d passwd ∧ (permits d.protection rights = true ∨ rights = 0)) ∧
      (requirePublicRights d rights passwd).head? = some 0x44) := by
  unfold requirePublicRights PublicAdmits
  rw [hrights, if_neg Bool.false_ne_true]
  cases hpublic : d.publicPassword with
  | none =>
      simp only [Option.isSome_none, Bool.false_eq_true, false_and, if_false, true_or, true_and]
      by_cases hright : permits d.protection rights = true ∨ rights = 0
      · rw [if_pos hright]
        exact Or.inl ⟨hright, rfl⟩
      · rw [if_neg hright]
        exact Or.inr ⟨hright, rfl⟩
  | some password =>
      simp only [Option.isSome_some, true_and, reduceCtorEq, false_or]
      by_cases hnone : passwd = none
      · subst hnone
        rw [if_pos rfl]
        exact Or.inr ⟨fun h => Option.some_ne_none _ h.1, rfl⟩
      · rw [if_neg hnone]
        by_cases hpasswd : some password = passwd
        · rw [if_neg (not_not.mpr hpasswd)]
          by_cases hright : permits d.protection rights = true ∨ rights = 0
          · rw [if_pos hright]
            exact Or.inl ⟨hpasswd, hright, rfl⟩
          · rw [if_neg hright]
            exact Or.inr ⟨fun h => hright h.2, rfl⟩
        · rw [if_pos hpasswd]
          exact Or.inr ⟨fun h => hpasswd h.1, rfl⟩

/-- The check of the right to add files and the overwrite test of `server_install`. -/
def InstallPermitted (cfg : Config) (d : DirInfo) (inetNum : UInt32) (passwd : Option ByteString)
    (exist : Prop) : Prop :=
  let acc := requireAccessRights cfg d dirAdd inetNum passwd
  LetsPass acc ∧ ¬ (exist ∧ permits d.protection dirDel = false ∧ acc.head? ≠ some 0x4F)

theorem installPermitted_iff {exist : Prop} :
    InstallPermitted cfg d inetNum passwd exist ↔ MayReplace cfg d inetNum passwd exist := by
  unfold InstallPermitted MayReplace LetsPass
  simp only
  by_cases hbanned : Banned cfg d inetNum
  · rw [head?_of_banned hbanned]
    constructor
    · rintro ⟨⟨hI, hD⟩, -⟩
      exact absurd hbanned (not_or.mpr ⟨hI, hD⟩)
    · rintro ⟨h, -⟩
      exact absurd hbanned h
  by_cases howns : IsOwner cfg d inetNum passwd
  · rw [head?_of_isOwner howns]
    simp [hbanned, howns]
  have hrights : permits dirOwner dirAdd = false := by decide
  rw [requireAccessRights_public hrights hbanned howns]
  simp only [hbanned, howns, not_false_eq_true, false_or, true_and]
  rcases head?_requirePublicRights hrights d passwd with ⟨hadmits, hright, hhead⟩ | ⟨hnot, hhead⟩
  · have hadd : permits d.protection dirAdd = true := hright.resolve_right (by decide)
    rw [hhead]
    simp [hadmits, hadd]
  · rw [hhead]
    constructor
    · rintro ⟨⟨-, hD⟩, -⟩
      exact absurd rfl hD
    · rintro ⟨hadmits, hadd, -⟩
      exact absurd ⟨hadmits, Or.inl hadd⟩ hnot

end

/-! ## What is loaded -/

/-- What `load_access_rights` makes sure of: no directory gives the rights of an owner away, and its
readme fits into a reply. -/
structure DirInfo.Loaded (d : DirInfo) : Prop where
  unowned : permits d.protection dirOwner = false
  readme_le : ∀ readme ∈ d.readme, readme.length ≤ ubufMaxspace

/-- The other rights have other bits. -/
theorem permits_dirOwner_loadProtection (noget del add mkdir rename nolist isReadme : Bool) :
    let p := dirList ||| dirGet
    let p := if isReadme then p ||| dirReadme else p
    let p := if noget then p ^^^ dirGet else p
    let p := if del then p ||| dirDel else p
    let p := if add then p ||| dirAdd else p
    let p := if mkdir then p ||| dirMkdir else p
    let p := if rename then p ||| dirRename else p
    permits (if nolist then p ^^^ dirList else p) dirOwner = false := by
  revert noget del add mkdir rename nolist isReadme
  decide

/-- Neither does `server_set_pro`. -/
theorem permits_dirOwner_newProtection {protection protection' k0 k1 : UInt8}
    (h : permits protection dirOwner = false)
    (hnew : newProtection protection k0 k1 = some protection') :
    permits protection' dirOwner = false := by
  -- a right that can be given or taken has another bit than that of the owner
  have hact : ∀ act ∈ proAct k1, dirOwner &&& act = 0 := by
    intro act hact
    unfold proAct at hact
    split at hact <;> cases hact <;> decide
  have hnone : dirOwner &&& protection = 0 := by simpa [permits] using h
  unfold newProtection at hnew
  cases hk1 : proAct k1 with
  | none =>
      rw [hk1] at hnew
      cases hnew
  | some act =>
      have hother : dirOwner &&& act = 0 := hact act hk1
      rw [hk1] at hnew
      simp only at hnew
      split_ifs at hnew
      · obtain rfl := Option.some.inj hnew
        have hor : dirOwner &&& (protection ||| act) =
            (dirOwner &&& protection) ||| (dirOwner &&& act) :=
          UInt8.toBitVec_inj.mp (BitVec.and_or_distrib_left ..)
        rw [permits, hor, hnone, hother]
        rfl
      · obtain rfl := Option.some.inj hnew
        rw [permits, ← UInt8.and_assoc, hnone, UInt8.zero_and]
        rfl

section

variable {Fs Cwd : Type} [Posix Fs Cwd] {cfg : Config}

theorem loaded_loadAccessRights (d : DirInfo) :
    Returns DirInfo.Loaded (loadAccessRights cfg d : Srv Fs Cwd DirInfo) := by
  apply returns_bind returns_loadReadme
  intro readme hreadme
  have hle : ∀ text ∈ readme, text.length ≤ ubufMaxspace := by
    intro text htext
    have := hreadme text htext
    have := cfg.packetsize_le
    omega
  have hplain := permits_dirOwner_loadProtection false false false false false false readme.isSome
  apply returns_ite
  · intro _
    have hprotection : Returns (fun p => permits p dirOwner = false)
        (loadProtection (if readme.isSome then (dirList ||| dirGet) ||| dirReadme
          else dirList ||| dirGet) : Srv Fs Cwd UInt8) := by
      apply returns_bind (returns_true _)
      intro noget _
      apply returns_bind (returns_true _)
      intro del _
      apply returns_bind (returns_true _)
      intro add _
      apply returns_bind (returns_true _)
      intro mkdir _
      apply returns_bind (returns_true _)
      intro rename _
      apply returns_bind (returns_true _)
      intro nolist _
      apply returns_pure
      exact permits_dirOwner_loadProtection noget del add mkdir rename nolist readme.isSome
    apply returns_bind hprotection
    intro protection hp
    apply returns_bind (returns_true _)
    intro publicPassword _
    apply returns_bind (returns_true _)
    intro owner _
    exact returns_pure ⟨hp, hle⟩
  · intro _
    exact returns_pure ⟨hplain, hle⟩

end

/-! ## What the server answers -/

/-- A server as an upload meets it: the directories that `validate_path` finds, or why it finds none,
and the files that `stat` finds.  `junk` stands on the stack where `server_stat` keeps a size. -/
structure UploadSite where
  cfg : Config
  inetNum : UInt32
  dirInfo : ByteString → Except ByteString DirInfo
  files : ByteString → Option Stat
  junk : UInt32
  loaded : ∀ work d, dirInfo work = .ok d → d.Loaded

/-- The message of a call. -/
def Call.ubuf (c : Call) : Ubuf where
  cmd := c.cmd
  sum := 0
  bbKey := 0
  bbSeq0 := 0
  bbSeq1 := 0
  bbLen := UInt16.ofNat c.l1
  bbPos := UInt32.ofNat c.pos
  buf := c.p1 ++ c.p2

namespace UploadSite

variable (site : UploadSite)

/-- `validate_path` -/
def validatePath (fullp : ByteString) (wantDirectory : Bool) : Except ByteString (PPath × DirInfo) :=
  match parsePath fullp with
  | .error err => .error err
  | .ok pp =>
      let pp := directoryPart pp wantDirectory
      match site.dirInfo pp.work with
      | .error err => .error err
      | .ok d => .ok (pp, d)

/-- What `case CC_GET_PRO` sends, if it sends anything. -/
def answerGetPro (ub : Ubuf) : Option Ubuf :=
  let refusal (msg : ByteString) : Ubuf := replyTo { ub with cmd := ccErr, bbPos := 0 } (msg ++ [0]) []
  match site.validatePath ub.data true with
  | .error pe => some (refusal pe)
  | .ok (pp, d) =>
      let pe := requireAccessRights site.cfg d 0 site.inetNum pp.passwd
      if pe.head? = some 0x49 then none
      else if pe.head? = some 0x44 then some (refusal pe.tail)
      else
        let pro := serverGetPro d pe
        some (replyTo { ub with bbPos := UInt32.ofNat proBytes } pro.1 [pro.2])

/-- The type that `server_stat` gives an object. -/
def statType (path : ByteString) (kind : FileKind) : UInt8 :=
  match kind with
  | .other => 0
  | kind =>
      match site.validatePath path (kind == .dir) with
      | .error _ => 0
      | .ok _ => if kind = .dir then rdtypeDir else rdtypeFile

/-- `server_stat` -/
def serverStat (path : ByteString) : ByteString :=
  let path := if path.length < 2 then [0] else path
  match parsePath path with
  | .error _ => statBytes 0 site.junk 0
  | .ok pp =>
      match site.files pp.fullp with
      | none => statBytes 0 site.junk 0
      | some sb =>
          statBytes sb.mtime (UInt32.ofNat sb.size) (site.statType (cutPassword path) sb.kind)

/-- What the server answers to a call; it takes every block and every `CC_INSTALL`. -/
def answer (c : Call) : Option Ubuf :=
  match Command.ofByte c.cmd with
  | .getPro => site.answerGetPro c.ubuf
  | .stat => some (replyTo c.ubuf (site.serverStat c.ubuf.data) [])
  | _ => some (replyTo c.ubuf [] [])

/-- The network with the server behind it. -/
def net : Net := fun trace c => (site.answer c).getD (silentNet trace c)

/-- The request is permitted by the access check for `CC_INSTALL` and by the overwrite test. -/
def Permits (c : Call) : Prop :=
  ∃ pp d, site.validatePath c.ubuf.data false = .ok (pp, d) ∧
    InstallPermitted site.cfg d site.inetNum pp.passwd ((site.files pp.fullp).isSome = true)

end UploadSite

/-- What `validate_path` of the server ends with, as the site has it. -/
def Finds {Fs Cwd : Type} (s : Server Fs Cwd) :
    Except ByteString (PPath × ℕ) → Except ByteString (PPath × DirInfo) → Prop
  | .error pe, .error pe' => pe' = pe
  | .ok (pp, di), .ok (pp', d) => pp' = pp ∧ d = s.dirStatCache.entry di
  | _, _ => False

/-- The server sends what the site answers. -/
theorem sends_caseGetPro {Fs Cwd : Type} [Posix Fs Cwd] (site : UploadSite) {r : Request}
    {s s₁ : Server Fs Cwd} {res : Except ByteString (PPath × ℕ)} (hinet : site.inetNum = r.inetNum)
    (hrun : validatePath site.cfg r.s1 true s = .ok res s₁)
    (hfinds : Finds s₁ res (site.validatePath r.s1 true)) :
    wp (caseGetPro site.cfg r)
      (fun _ s' => ∃ checked, (∀ e ∈ checked, ∀ client datagram, e ≠ .sent client datagram) ∧
        s'.trace = s₁.trace ++ checked ++
          ((site.answerGetPro r.ub).map fun ub => .sent r.client ub.encode).toList)
      (fun _ => True) s := by
  have hsent : ∀ {ub : Ubuf} {data xtra : ByteString} {s₂ : Server Fs Cwd} {checked : List Event},
      site.answerGetPro r.ub = some (replyTo ub data xtra) →
      (∀ e ∈ checked, ∀ client datagram, e ≠ .sent client datagram) →
      s₂.trace = s₁.trace ++ checked →
      wp (serverReply site.cfg r.client ub data xtra : Srv Fs Cwd Unit)
        (fun _ s' => ∃ checked, (∀ e ∈ checked, ∀ client datagram, e ≠ .sent client datagram) ∧
          s'.trace = s₁.trace ++ checked ++
            ((site.answerGetPro r.ub).map fun ub => .sent r.client ub.encode).toList)
        (fun _ => True) s₂ := by
    intro ub data xtra s₂ checked hanswer hchecked htrace
    apply wp_mono (sends_serverReply r.client ub data xtra s₂)
    · intro _ s' hs'
      refine ⟨checked, hchecked, ?_⟩
      rw [hs', htrace, hanswer]
      rfl
    · exact fun _ h => h
  have hanswer : site.answerGetPro r.ub = site.answerGetPro r.ub := rfl
  conv_rhs at hanswer => unfold UploadSite.answerGetPro
  rw [show r.ub.data = r.s1 from rfl] at hanswer
  have hnone : ∀ e ∈ ([] : List Event), ∀ client datagram, e ≠ .sent client datagram := by simp
  unfold caseGetPro validated
  rw [wp, bind_of_ok hrun]
  cases hvalid : site.validatePath r.s1 true with
  | error pe' =>
      rw [hvalid] at hfinds hanswer
      cases res with
      | ok found => exact hfinds.elim
      | error pe =>
          obtain rfl : pe' = pe := hfinds
          exact hsent hanswer hnone (List.append_nil _).symm
  | ok found =>
      obtain ⟨pp', d⟩ := found
      rw [hvalid] at hfinds hanswer
      cases res with
      | error pe => exact hfinds.elim
      | ok found =>
          obtain ⟨pp, di⟩ := found
          obtain ⟨rfl, rfl⟩ : pp' = pp ∧ d = s₁.dirStatCache.entry di := hfinds
          simp only at hanswer
          rw [hinet] at hanswer
          -- the answer of the access check is written to the trace
          show wp (checkAccessRights site.cfg r di 0 pp'.passwd fun pe => replyPro site.cfg r di pe)
            _ _ s₁
          unfold checkAccessRights
          have haccess : wp (requireAccess site.cfg r di 0 pp'.passwd : Srv Fs Cwd ByteString)
              (fun pe s₂ => pe = requireAccessRights site.cfg (s₁.dirStatCache.entry di) 0 r.inetNum
                  pp'.passwd ∧ s₂.dirStatCache = s₁.dirStatCache ∧
                s₂.trace = s₁.trace ++ [.access di 0 r.inetNum pp'.passwd pe])
              (fun _ => True) s₁ := ⟨rfl, rfl, rfl⟩
          apply wp_seq haccess
          rintro pe s₂ ⟨hpe, hcache, htrace⟩
          rw [← hpe] at hanswer
          have hchecked : ∀ e ∈ [Event.access di 0 r.inetNum pp'.passwd pe],
              ∀ client datagram, e ≠ .sent client datagram := by simp
          apply wp_ite
          · intro hignored
            rw [if_pos hignored] at hanswer
            refine ⟨_, hchecked, ?_⟩
            rw [hanswer, htrace]
            exact (List.append_nil _).symm
          · intro hignored
            rw [if_neg hignored] at hanswer
            apply wp_ite
            · intro hdenied
              rw [if_pos hdenied] at hanswer
              have hreply := hsent hanswer hchecked htrace
              exact hreply
            · intro hdenied
              rw [if_neg hdenied, ← hcache] at hanswer
              have hreply := hsent hanswer hchecked htrace
              have hinfo : wp (dirInfo di : Srv Fs Cwd DirInfo)
                  (fun d s' => d = s₂.dirStatCache.entry di ∧ s' = s₂) (fun _ => True) s₂ :=
                ⟨rfl, rfl⟩
              apply wp_seq hinfo
              rintro _ _ ⟨rfl, rfl⟩
              exact hreply

/-! ## What the server replaces -/

section

variable {Fs Cwd : Type} [Posix Fs Cwd] {cfg : Config} {path : ByteString} {p : Prop}
  {s s₁ s' : Server Fs Cwd}

/-- The entry does not say that the object `path` is deleted. -/
def NotUnlink (path : ByteString) (e : Event) : Prop := ∀ ok, e ≠ .unlink path ok

/-- The object `path` is deleted, to make room for another, exactly if `p`. -/
def DeletesIff (path : ByteString) (p : Prop) (s s' : Server Fs Cwd) : Prop :=
  ∃ new, s'.trace = s.trace ++ new ∧ ((∃ ok, Event.unlink path ok ∈ new) ↔ p)

omit [Posix Fs Cwd] in
theorem deletesIff_of_not (hp : ¬ p) (h : Appends (NotUnlink path) s s') : DeletesIff path p s s' := by
  obtain ⟨new, hnew, hspared⟩ := h
  refine ⟨new, hnew, iff_of_false ?_ hp⟩
  rintro ⟨ok, hmem⟩
  exact hspared _ hmem ok rfl

omit [Posix Fs Cwd] in
theorem deletesIff_of_unlink (hp : p) {ok : Bool} (h : s₁.trace = s.trace ++ [.unlink path ok])
    (h' : Appends (fun _ => True) s₁ s') : DeletesIff path p s s' := by
  obtain ⟨new, hnew, -⟩ := h'
  refine ⟨.unlink path ok :: new, ?_, iff_of_true ⟨ok, List.mem_cons_self⟩ hp⟩
  rw [show s'.trace = s₁.trace ++ new from hnew, h, List.append_assoc]
  rfl

omit [Posix Fs Cwd] in
theorem DeletesIff.congr {q : Prop} (h : DeletesIff path p s s') (hpq : p ↔ q) :
    DeletesIff path q s s' := by
  obtain ⟨new, hnew, hiff⟩ := h
  exact ⟨new, hnew, hiff.trans hpq⟩

omit [Posix Fs Cwd] in
theorem DeletesIff.after (h' : DeletesIff path p s₁ s') (h : Appends (NotUnlink path) s s₁) :
    DeletesIff path p s s' := by
  obtain ⟨before, hbefore, hspared⟩ := h
  obtain ⟨new, hnew, hiff⟩ := h'
  refine ⟨before ++ new, ?_, ?_⟩
  · rw [hnew, show s₁.trace = s.trace ++ before from hbefore, List.append_assoc]
  · rw [← hiff]
    refine exists_congr fun ok => ?_
    rw [List.mem_append]
    exact or_iff_right fun hmem => hspared _ hmem ok rfl

omit [Posix Fs Cwd] in
theorem DeletesIff.before (h : DeletesIff path p s s₁) (h' : Appends (NotUnlink path) s₁ s') :
    DeletesIff path p s s' := by
  obtain ⟨new, hnew, hiff⟩ := h
  obtain ⟨after, hafter, hspared⟩ := h'
  refine ⟨new ++ after, ?_, ?_⟩
  · rw [show s'.trace = s₁.trace ++ after from hafter, hnew, List.append_assoc]
  · rw [← hiff]
    refine exists_congr fun ok => ?_
    rw [List.mem_append]
    exact or_iff_left fun hmem => hspared _ hmem ok rfl

/-- `server_install` deletes the old file unless it exists and the client may not replace it. -/
theorem deletesIff_serverInstall {pp : PPath} {inetNum : UInt32} {portNum : UInt16}
    (acc : ByteString) (di : ℕ) (s2 : ByteString) (hdot : pp.fullp ≠ [dot])
    (htemp : uploadName cfg inetNum portNum ≠ pp.fullp) (s : Server Fs Cwd) :
    DeletesIff pp.fullp
      (¬ (Posix.access (closedFs s (s.fpCache.fCacheFind (uploadName cfg inetNum portNum))) s.cwd
          pp.fullp = true ∧
        ¬ permits (s.dirStatCache.entry di).protection dirDel ∧ acc.head? ≠ some 0x4F))
      s (final (serverInstall cfg pp inetNum portNum acc di s2 s)) := by
  apply wp_final
  unfold serverInstall
  have hfind : wp (findFp (uploadName cfg inetNum portNum) : Srv Fs Cwd (Option ℕ))
      (fun i s' => i = s.fpCache.fCacheFind (uploadName cfg inetNum portNum) ∧ s' = s)
      (fun _ => False) s := ⟨rfl, rfl⟩
  apply wp_seq_of_total hfind
  intro cacheF s₀ ⟨hfound, hs₀⟩
  rw [← hfound, hs₀]
  obtain ⟨hok, hfs, hcwd, hcache⟩ := deleteFp_ok cacheF s
  have hclosed : Appends (NotUnlink pp.fullp) s (final (deleteFp cacheF s)) :=
    (does_deleteFp (primitives_acts (NotUnlink pp.fullp)).toSteps (fun _ _ h => by cases h) _ s).1
  rw [wp, bind_of_ok hok, ← hfs, ← hcwd, ← hcache]
  generalize final (deleteFp cacheF s) = s₁ at hclosed
  rw [if_neg hdot]
  have hinfo : wp (dirInfo di : Srv Fs Cwd DirInfo)
      (fun d s' => d = s₁.dirStatCache.entry di ∧ s' = s₁) (fun _ => False) s₁ := ⟨rfl, rfl⟩
  apply wp_seq_of_total hinfo
  rintro d s₂ ⟨hd, hs₂⟩
  rw [hs₂, ← hd]
  have hexist : wp (fexist pp.fullp : Srv Fs Cwd Bool)
      (fun exist s' => exist = Posix.access s₁.fs s₁.cwd pp.fullp ∧ s' = s₁) (fun _ => False) s₁ :=
    ⟨rfl, rfl⟩
  apply wp_seq_of_total hexist
  rintro exist s₃ ⟨he, hs₃⟩
  rw [hs₃, ← he]
  have htempUnlink : Does (Acts (NotUnlink pp.fullp))
      (unlink (uploadName cfg inetNum portNum) : Srv Fs Cwd Bool) := by
    refine (primitives_acts _).unlink _ ?_
    intro ok ok' h
    injection h with hname
    exact htemp hname
  apply wp_ite
  · intro hrefused
    apply wp_of_final
    refine (deletesIff_of_not (not_not.mpr hrefused) ?_).after hclosed
    exact (does_bind htempUnlink (fun _ => does_pure _) s₁).1
  · intro hpermitted
    have htouch : wp (touchDirInfo di : Srv Fs Cwd Unit) (fun _ s' => s'.trace = s₁.trace)
        (fun _ => False) s₁ := rfl
    apply wp_seq_of_total htouch
    intro _ s₄ htrace
    have hunlink : wp (unlink pp.fullp : Srv Fs Cwd Bool)
        (fun ok s' => s'.trace = s₄.trace ++ [.unlink pp.fullp ok]) (fun _ => False) s₄ := rfl
    apply wp_seq_of_total hunlink
    intro ok s₅ htrace'
    apply wp_of_final
    rw [htrace] at htrace'
    refine (deletesIff_of_unlink hpermitted htrace' ?_).after hclosed
    -- whatever the copy does comes after
    have hany : Primitives (Acts fun _ => True : Server Fs Cwd → Server Fs Cwd → Prop)
        (fun _ => True) fun _ => True := primitives_acts _
    have hstreams : AllowsStreams fun _ => True :=
      ⟨fun _ => trivial, fun _ _ _ => trivial, fun _ _ => trivial, fun _ _ _ => trivial⟩
    refine (does_bind (does_copyFile hany.toSteps hstreams (fun _ => trivial) (fun _ => trivial)
      (fun _ => trivial) trivial) (fun tmp => ?_) s₅).1
    refine does_bind (hany.unlink _ fun _ => trivial) fun _ => ?_
    split
    · refine does_bind does_get fun s => ?_
      exact does_bind (hany.utime _ _ _ trivial) fun _ => does_pure _
    · exact does_pure _

/-- The site tells which installation may go ahead: the server deletes the old file exactly then. -/
theorem deletesIff_caseInstall (site : UploadSite) {c : Call} {r : Request} {pp : PPath} {di : ℕ}
    (hub : r.ub = c.ubuf) (hinet : site.inetNum = r.inetNum) (hwritable : site.cfg.readOnly = false)
    (hnew : r.old = false) (hname : 1 < r.s1.length)
    (hrun : validatePath site.cfg r.s1 false s = .ok (.ok (pp, di)) s₁)
    (hfinds : site.validatePath r.s1 false = .ok (pp, s₁.dirStatCache.entry di))
    (hfiles : Posix.access (closedFs s₁ (s₁.fpCache.fCacheFind
      (uploadName site.cfg r.inetNum r.portNum))) s₁.cwd pp.fullp = (site.files pp.fullp).isSome)
    (hdot : pp.fullp ≠ [dot]) (htemp : uploadName site.cfg r.inetNum r.portNum ≠ pp.fullp) :
    DeletesIff pp.fullp (site.Permits c) s₁ (final (caseInstall site.cfg r s)) := by
  have hpermits : site.Permits c ↔ InstallPermitted site.cfg (s₁.dirStatCache.entry di) r.inetNum
      pp.passwd ((site.files pp.fullp).isSome = true) := by
    unfold UploadSite.Permits
    rw [← hub, show r.ub.data = r.s1 from rfl, hfinds, hinet]
    constructor
    · rintro ⟨_, _, heq, h⟩
      cases heq
      exact h
    · exact fun h => ⟨pp, _, rfl, h⟩
  rw [hpermits]
  unfold InstallPermitted LetsPass
  unfold caseInstall validated
  rw [if_neg (by rw [hwritable]; exact Bool.false_ne_true),
    if_neg (by rw [hnew]; exact Bool.false_ne_true), bind_of_ok hrun]
  simp only
  rw [if_pos hname]
  unfold checkAccessRights
  have hquiet : ∀ ub data xtra, Does (Acts (NotUnlink pp.fullp))
      (serverReply site.cfg r.client ub data xtra : Srv Fs Cwd Unit) := fun _ _ _ =>
    does_serverReply (primitives_acts _).toSteps fun _ h => by cases h
  apply wp_final
  have haccess : wp (requireAccess site.cfg r di dirAdd pp.passwd : Srv Fs Cwd ByteString)
      (fun pe s₂ => pe = requireAccessRights site.cfg (s₁.dirStatCache.entry di) dirAdd r.inetNum
          pp.passwd ∧ s₂ = { s₁ with trace := s₁.trace ++ [.access di dirAdd r.inetNum pp.passwd pe] })
      (fun _ => False) s₁ := ⟨rfl, rfl⟩
  apply wp_seq_of_total haccess
  rintro pe s₂ ⟨hpe, hs₂⟩
  rw [← hpe]
  have hchecked : Appends (NotUnlink pp.fullp) s₁ s₂ := by
    rw [hs₂]
    exact appends_one rfl fun _ h => by cases h
  apply wp_ite
  · intro hignored
    exact deletesIff_of_not (fun h => h.1.1 hignored) hchecked
  · intro hignored
    apply wp_ite
    · intro hdenied
      apply wp_of_final
      exact (deletesIff_of_not (fun h => h.1.2 hdenied) (hquiet _ _ _ s₂).1).after hchecked
    · intro hdenied
      subst hs₂
      have hinstall := deletesIff_serverInstall pe di r.s2 hdot htemp
        { s₁ with trace := s₁.trace ++ [.access di dirAdd r.inetNum pp.passwd pe] }
      have hsame : (¬ ((site.files pp.fullp).isSome = true ∧
          ¬ permits (s₁.dirStatCache.entry di).protection dirDel ∧ pe.head? ≠ some 0x4F)) ↔
          ((pe.head? ≠ some 0x49 ∧ pe.head? ≠ some 0x44) ∧ ¬ ((site.files pp.fullp).isSome = true ∧
            permits (s₁.dirStatCache.entry di).protection dirDel = false ∧
            pe.head? ≠ some 0x4F)) := by
        rw [Bool.not_eq_true]
        exact (and_iff_right ⟨hignored, hdenied⟩).symm
      rw [← hfiles] at hsame ⊢
      apply wp_seq (wp_of_final ((DeletesIff.congr hinstall hsame).after hchecked))
      intro res s₃ hdeletes
      apply wp_of_final
      refine hdeletes.before ?_
      cases res with
      | none => exact (hquiet _ _ _ s₃).1
      | some err => exact (hquiet _ _ _ s₃).1

end

/-! ## What the client makes of it -/

section

variable {env : ClientEnv} {path : ByteString} {stamp : ℤ} {net : Net}

/-- The upload ends before anything of the file is sent. -/
def GivesUp (net : Net) (env : ClientEnv) (path : ByteString) (stamp : ℤ) : Prop :=
  ∃ largeOffT fp s', utilUpload net env largeOffT path stamp fp newClient = .ok 1 s' ∧
    ∀ c, .call c ∈ s'.trace → c.cmd ≠ Command.upLoad.code

/-- A call stays in the trace. -/
theorem call_mem_bind {c : Call} {s : ClientState} {α : Type} {k : Ubuf → Client α}
    (hk : ∀ ub, Emits (fun _ : NetEvent => True) (k ub)) :
    .call c ∈ (final ((clientInteract net c >>= k) s)).trace := by
  by_cases h : ubufMaxspace < c.p1.length + c.p2.length ∨ ¬ c.Takes (net s.trace c)
  · rw [trace_of_not_takes h]
    simp
  · rw [not_or, not_lt, not_not] at h
    rw [bind_of_ok (clientInteract_of_takes h.1 h.2)]
    apply (hk _ _).mem
    show .call c ∈ ((s.recorded (.call c)).recorded (.reply c _)).trace
    simp

/-- The loop of an upload sends a block first. -/
theorem upLoad_mem_uploadLoop (largeOffT : Bool) (fuel pos : ℕ) (fp : ByteString)
    (s : ClientState) : ∃ c : Call, c.cmd = Command.upLoad.code ∧
      .call c ∈ (final (uploadLoop net env largeOffT path stamp (fuel + 1) pos true fp s)).trace := by
  have hcalling : ∀ e, Calling (fun _ => True) e → True := fun _ _ => trivial
  refine ⟨⟨Command.upLoad.code, pos, (fp.take env.clientBufLen.toNat).length,
    fp.take env.clientBufLen.toNat, []⟩, rfl, ?_⟩
  have hcall : uploadLoop net env largeOffT path stamp (fuel + 1) pos true fp =
      (clientInteract net ⟨Command.upLoad.code, pos, (fp.take env.clientBufLen.toNat).length,
        fp.take env.clientBufLen.toNat, []⟩ >>= fun ub =>
        if ub.cmd = ccErr then pure 1
        else if (fp.take env.clientBufLen.toNat).length = 0 ∧ ¬ (true = true) then pure 0
        else if posOverflows largeOffT pos (fp.take env.clientBufLen.toNat).length then pure 0
        else uploadLoop net env largeOffT path stamp fuel
          (pos + (fp.take env.clientBufLen.toNat).length) false (fp.drop env.clientBufLen.toNat)) := by
    rw [uploadLoop]
    simp only [or_true, if_true]
  rw [hcall]
  apply call_mem_bind
  intro ub
  apply does_ite
  · exact fun _ => does_pure _
  intro _
  apply does_ite
  · exact fun _ => does_pure _
  intro _
  apply does_ite
  · exact fun _ => does_pure _
  intro _
  exact (emits_uploadLoop net largeOffT stamp (fun _ _ _ => trivial) trivial fuel _ _ _).mono
    fun _ _ h => h.mono hcalling

/-- An upload is given up exactly if the check before it fails. -/
theorem givesUp_iff :
    GivesUp net env path stamp ↔ ∃ s', checkUpload net env path newClient = .ok false s' := by
  constructor
  · rintro ⟨largeOffT, fp, s', hok, hcalls⟩
    unfold utilUpload at hok
    cases hcheck : checkUpload net env path newClient with
    | error halt s₁ =>
        simp only [bind, EStateM.bind, hcheck] at hok
        cases hok
    | ok passed s₁ =>
        rw [bind_of_ok hcheck] at hok
        cases passed with
        | false => exact ⟨s₁, rfl⟩
        | true =>
            rw [if_pos rfl] at hok
            obtain ⟨c, hcmd, hmem⟩ : ∃ c : Call, c.cmd = Command.upLoad.code ∧ .call c ∈
                (final (uploadLoop net env largeOffT path stamp (fp.length + 2) 0 true fp s₁)).trace :=
              upLoad_mem_uploadLoop largeOffT (fp.length + 1) 0 fp s₁
            rw [hok] at hmem
            exact absurd hcmd (hcalls c hmem)
  · rintro ⟨s', hcheck⟩
    refine ⟨false, [], s', ?_, ?_⟩
    · unfold utilUpload
      rw [bind_of_ok hcheck]
      rfl
    · have hcalls : CallsCarry (fun c => c.cmd ≠ Command.upLoad.code) (checkUpload net env path) := by
        apply callsCarry_of_emits
        apply emits_checkUpload
        · rw [cmd_getProCall]
          decide
        · intro c hc
          rw [hc]
          decide
        · intro c hc
          rw [hc]
          decide
      intro c hc
      apply hcalls newClient rfl
      rwa [hcheck]

/-- What the client reads from a protection byte. -/
theorem flags_spec : ∀ p : UInt8,
    ((p ^^^ dirGet) &&& dirOwner = 0 ↔ permits p dirOwner = false) ∧
    ((p ^^^ dirGet) &&& dirAdd = 0 ↔ permits p dirAdd = false) ∧
    ((p ^^^ dirGet) &&& dirDel = 0 ↔ permits p dirDel = false) ∧
    ((p ^^^ dirGet) ||| dirOwner) &&& dirOwner ≠ 0 :=
  forall_byte (by decide +kernel)

namespace UploadSite

variable {site : UploadSite}

/-- What `util_stat` asks. -/
def statCall (env : ClientEnv) (path : ByteString) : Call :=
  pathCall .stat 0 (utilAbsPath env (utilAbsPath env path)) []

/-- The client finds the file, if its question fits into a message. -/
def Seen (site : UploadSite) (env : ClientEnv) (path : ByteString) : Prop :=
  (statCall env path).p1.length ≤ ubufMaxspace ∧
    (site.serverStat (statCall env path).ubuf.data).getD 8 0 ≠ 0

/-- A reply at the position asked for passes the checks of the client. -/
theorem takes_replyTo {c : Call} {ub : Ubuf} (data xtra : ByteString)
    (hcode : ub.cmd = c.cmd ∨ ub.cmd = ccErr)
    (hpos : checksPos c.cmd = true → ub.bbPos.toNat = c.pos) : c.Takes (replyTo ub data xtra) where
  length_le := by
    show (UInt16.ofNat data.length).toNat ≤ (data ++ xtra).length
    rw [UInt16.toNat_ofNat', List.length_append]
    have := Nat.mod_le data.length (2 ^ 16)
    omega
  code := hcode
  bbPos := hpos

theorem clientInteract_net {c : Call} {ub : Ubuf} (s : ClientState)
    (hfits : c.p1.length + c.p2.length ≤ ubufMaxspace) (hanswer : site.answer c = some ub)
    (htakes : c.Takes ub) :
    clientInteract site.net c s = .ok ub ((s.recorded (.call c)).recorded (.reply c ub)) := by
  have hnet : site.net s.trace c = ub := by
    unfold net
    rw [hanswer]
    rfl
  have htakes' : c.Takes (site.net s.trace c) := hnet.symm ▸ htakes
  rw [clientInteract_of_takes hfits htakes', hnet]

/-- What `util_stat` finds out. -/
theorem utilStat_net {s : ClientState} (hroot : s.ddroot = []) (hstatworks : s.statworks = true)
    (hfits : (statCall env path).p1.length ≤ ubufMaxspace) :
    ∃ sb s', utilStat site.net env (utilAbsPath env path) s = .ok sb s' ∧
      (sb = none ↔ (site.serverStat (statCall env path).ubuf.data).getD 8 0 = 0) := by
  have hanswer : site.answer (statCall env path) =
      some (replyTo (statCall env path).ubuf (site.serverStat (statCall env path).ubuf.data) []) := rfl
  have hfits' : (statCall env path).p1.length + (statCall env path).p2.length ≤ ubufMaxspace := hfits
  have hcall := clientInteract_net s hfits' hanswer (takes_replyTo _ _ (Or.inl rfl) fun h => by cases h)
  have hcmd : (replyTo (statCall env path).ubuf (site.serverStat (statCall env path).ubuf.data) []).cmd =
      Command.stat.code := rfl
  have hbuf : (replyTo (statCall env path).ubuf (site.serverStat (statCall env path).ubuf.data) []).buf =
      site.serverStat (statCall env path).ubuf.data := List.append_nil _
  unfold utilStat
  generalize (if utilAbsPath env (utilAbsPath env path) = env.envDir then _ else _) = parts
  obtain ⟨ppath, pfile⟩ := parts
  show ∃ sb s', (if s.statworks = true ∧ (s.ddroot.lookup ppath).isNone = true then _
    else _ : Client (Option StatBuf)) s = .ok sb s' ∧ _
  rw [hroot, hstatworks, if_pos ⟨rfl, rfl⟩]
  show ∃ sb s', (clientInteract site.net (statCall env path) >>= _) s = .ok sb s' ∧ _
  rw [bind_of_ok hcall, if_pos hcmd, hbuf]
  by_cases htype : (site.serverStat (statCall env path).ubuf.data).getD 8 0 = 0
  · rw [if_pos htype]
    exact ⟨none, _, rfl, iff_of_true rfl htype⟩
  · rw [if_neg htype]
    exact ⟨some _, _, rfl, iff_of_false (Option.some_ne_none _) htype⟩

/-- The server lets the client go on: it knows the directory that the client asks about and, unless it
ignores the client, the file may be put there. -/
def LetsGoOn (site : UploadSite) (env : ClientEnv) (path : ByteString) : Prop :=
  ∃ pp d, site.validatePath (getProCall env path).ubuf.data true = .ok (pp, d) ∧
    (ownerLetter site.cfg d site.inetNum = some 0x49 ∨
      MayReplace site.cfg d site.inetNum pp.passwd (site.Seen env path))

theorem utilStat_net_of_long {s : ClientState} (hroot : s.ddroot = []) (hstatworks : s.statworks = true)
    (hlong : ¬ (statCall env path).p1.length ≤ ubufMaxspace) :
    ∃ halt s', utilStat site.net env (utilAbsPath env path) s = .error halt s' := by
  have hlong' : ubufMaxspace < (statCall env path).p1.length + (statCall env path).p2.length :=
    not_le.mp hlong
  obtain ⟨halt, hcall⟩ : ∃ halt, clientInteract site.net (statCall env path) s =
      .error halt (s.recorded (.call (statCall env path))) :=
    clientInteract_of_not_takes (Or.inl hlong')
  unfold utilStat
  generalize (if utilAbsPath env (utilAbsPath env path) = env.envDir then _ else _) = parts
  obtain ⟨ppath, pfile⟩ := parts
  show ∃ halt s', (if s.statworks = true ∧ (s.ddroot.lookup ppath).isNone = true then _
    else _ : Client (Option StatBuf)) s = .error halt s'
  rw [hroot, hstatworks, if_pos ⟨rfl, rfl⟩]
  show ∃ halt s', (clientInteract site.net (statCall env path) >>= _) s = .error halt s'
  refine ⟨halt, s.recorded (.call (statCall env path)), ?_⟩
  simp only [bind, EStateM.bind, hcall]

/-- What the client does with the flags in a reply. -/
theorem checkUpload_of_flags {ub : Ubuf} {flags : UInt8}
    (hfits : (getProCall env path).p1.length ≤ ubufMaxspace)
    (hanswer : site.answer (getProCall env path) = some ub)
    (htakes : (getProCall env path).Takes ub) (herr : ub.cmd ≠ ccErr) (hpos : ub.bbPos ≠ 0)
    (hflags : ub.buf.getD ub.bbLen.toNat 0 = flags) :
    (∃ s', checkUpload site.net env path newClient = .ok false s') ↔
      flags &&& dirOwner = 0 ∧ (flags &&& dirAdd = 0 ∨ flags &&& dirDel = 0 ∧ site.Seen env path) := by
  have hfits' : (getProCall env path).p1.length + (getProCall env path).p2.length ≤ ubufMaxspace := hfits
  unfold checkUpload
  rw [bind_of_ok (clientInteract_net newClient hfits' hanswer htakes), if_neg herr, if_neg hpos]
  simp only [hflags]
  by_cases howner : flags &&& dirOwner = 0
  · simp only [howner, true_and, if_true]
    by_cases hadd : flags &&& dirAdd = 0
    · rw [if_pos hadd]
      simp only [hadd, true_or, iff_true]
      exact ⟨_, rfl⟩
    rw [if_neg hadd]
    by_cases hdel : flags &&& dirDel = 0
    · rw [if_pos hdel]
      simp only [hadd, hdel, false_or, true_and]
      by_cases hstat : (statCall env path).p1.length ≤ ubufMaxspace
      · obtain ⟨sb, s', hcall, hnone⟩ : ∃ sb s', utilStat site.net env (utilAbsPath env path)
            ((newClient.recorded (.call (getProCall env path))).recorded
              (.reply (getProCall env path) ub)) = .ok sb s' ∧
            (sb = none ↔ (site.serverStat (statCall env path).ubuf.data).getD 8 0 = 0) :=
          utilStat_net rfl rfl hstat
        rw [bind_of_ok hcall]
        unfold Seen
        rw [ne_eq, ← hnone]
        cases sb with
        | none => exact iff_of_false (fun ⟨_, hok⟩ => by cases hok) fun h => h.2 rfl
        | some sb => exact iff_of_true ⟨_, rfl⟩ ⟨hstat, Option.some_ne_none _⟩
      · obtain ⟨halt, s', hcall⟩ : ∃ halt s', utilStat site.net env (utilAbsPath env path)
            ((newClient.recorded (.call (getProCall env path))).recorded
              (.reply (getProCall env path) ub)) = .error halt s' :=
          utilStat_net_of_long rfl rfl hstat
        simp only [bind, EStateM.bind, hcall]
        exact iff_of_false (fun ⟨_, hok⟩ => by cases hok) fun h => hstat h.1
    · rw [if_neg hdel]
      simp only [hadd, hdel, false_and, or_false, iff_false]
      rintro ⟨s', hok⟩
      cases hok
  · simp only [howner, false_and, if_false, iff_false]
    have hdel : (flags ||| dirDel ||| dirAdd) &&& dirDel ≠ 0 :=
      forall_byte (P := fun p => (p ||| dirDel ||| dirAdd) &&& dirDel ≠ 0) (by decide +kernel) flags
    rw [if_neg hdel]
    rintro ⟨s', hok⟩
    cases hok

theorem loaded_of_validatePath {fullp : ByteString} {wantDirectory : Bool} {pp : PPath} {d : DirInfo}
    (h : site.validatePath fullp wantDirectory = .ok (pp, d)) : d.Loaded := by
  unfold validatePath at h
  split at h
  · cases h
  · simp only at h
    split at h
    · cases h
    · rename_i hinfo
      cases h
      exact site.loaded _ _ hinfo

theorem snd_serverGetPro (d : DirInfo) (acc : ByteString) : (serverGetPro d acc).2 =
    if acc.head? = some 0x4F then d.protection ^^^ dirGet ||| dirOwner
    else d.protection ^^^ dirGet := rfl

/-- The readme and its zero fit into a message. -/
theorem length_serverGetPro {d : DirInfo} (h : d.Loaded) (acc : ByteString) :
    (serverGetPro d acc).1.length < 65536 := by
  unfold serverGetPro
  cases hreadme : d.readme with
  | none => exact Nat.zero_lt_succ _
  | some readme =>
      have hle : readme.length ≤ 4380 := h.readme_le readme (by rw [hreadme]; rfl)
      simp only [List.length_append, List.length_singleton]
      omega

/-- The byte behind the data of a reply. -/
theorem getD_replyTo {ub : Ubuf} {data : ByteString} {b : UInt8} (h : data.length < 65536) :
    (replyTo ub data [b]).buf.getD (replyTo ub data [b]).bbLen.toNat 0 = b := by
  have hlen : (replyTo ub data [b]).bbLen.toNat = data.length := UInt16.toNat_ofNat_of_lt' h
  have hbuf : (replyTo ub data [b]).buf = data ++ [b] := rfl
  rw [hlen, hbuf, List.getD_eq_getElem?_getD, List.getElem?_append_right (Nat.le_refl _),
    Nat.sub_self]
  rfl

/-- What the access check for the protection of a directory says. -/
theorem head?_requireAccessRights_zero (cfg : Config) (d : DirInfo) (inetNum : UInt32)
    (passwd : Option ByteString) :
    let acc := requireAccessRights cfg d 0 inetNum passwd
    Banned cfg d inetNum ∧ acc.head? = ownerLetter cfg d inetNum ∨
      ¬ Banned cfg d inetNum ∧ IsOwner cfg d inetNum passwd ∧ acc.head? = some 0x4F ∨
      ¬ Banned cfg d inetNum ∧ ¬ IsOwner cfg d inetNum passwd ∧ PublicAdmits d passwd ∧
        acc.head? = some 0x4E ∨
      ¬ Banned cfg d inetNum ∧ ¬ IsOwner cfg d inetNum passwd ∧ ¬ PublicAdmits d passwd ∧
        acc.head? = some 0x44 := by
  simp only
  by_cases hbanned : Banned cfg d inetNum
  · exact Or.inl ⟨hbanned, head?_of_banned hbanned 0 passwd⟩
  by_cases howns : IsOwner cfg d inetNum passwd
  · exact Or.inr (Or.inl ⟨hbanned, howns, head?_of_isOwner howns 0⟩)
  have hrights : permits dirOwner 0 = false := by decide
  rw [requireAccessRights_public hrights hbanned howns]
  rcases head?_requirePublicRights hrights d passwd with ⟨hadmits, -, hhead⟩ | ⟨hnot, hhead⟩
  · exact Or.inr (Or.inr (Or.inl ⟨hbanned, howns, hadmits, hhead⟩))
  · exact Or.inr (Or.inr (Or.inr ⟨hbanned, howns, fun h => hnot ⟨h, Or.inr rfl⟩, hhead⟩))

theorem checkUpload_iff (hfits : (getProCall env path).p1.length ≤ ubufMaxspace) :
    (∃ s', checkUpload site.net env path newClient = .ok false s') ↔ ¬ site.LetsGoOn env path := by
  have hfits' : (getProCall env path).p1.length + (getProCall env path).p2.length ≤ ubufMaxspace := hfits
  have hanswer : site.answer (getProCall env path) = site.answerGetPro (getProCall env path).ubuf := rfl
  -- an error reply
  have hrefused : ∀ {ub : Ubuf} {data xtra : ByteString}, ub.cmd = ccErr →
      site.answer (getProCall env path) = some (replyTo ub data xtra) →
      ∃ s', checkUpload site.net env path newClient = .ok false s' := by
    intro ub data xtra herr hub
    unfold checkUpload
    rw [bind_of_ok (clientInteract_net newClient hfits' hub (takes_replyTo _ _ (Or.inr herr) fun h => by cases h)),
      if_pos (show (replyTo ub data xtra).cmd = ccErr from herr)]
    exact ⟨_, rfl⟩
  unfold LetsGoOn
  unfold answerGetPro at hanswer
  cases hvalid : site.validatePath (getProCall env path).ubuf.data true with
  | error pe =>
      rw [hvalid] at hanswer
      simp only [reduceCtorEq, false_and, exists_false, not_false_eq_true, iff_true]
      exact hrefused rfl hanswer
  | ok found =>
      obtain ⟨pp, d⟩ := found
      rw [hvalid] at hanswer
      have hgo : (∃ pp' d', (.ok (pp, d) : Except ByteString (PPath × DirInfo)) = .ok (pp', d') ∧
          (ownerLetter site.cfg d' site.inetNum = some 0x49 ∨
            MayReplace site.cfg d' site.inetNum pp'.passwd (site.Seen env path))) ↔
          (ownerLetter site.cfg d site.inetNum = some 0x49 ∨
            MayReplace site.cfg d site.inetNum pp.passwd (site.Seen env path)) := by
        constructor
        · rintro ⟨pp', d', heq, h⟩
          cases heq
          exact h
        · exact fun h => ⟨pp, d, rfl, h⟩
      rw [hgo]
      simp only at hanswer
      have hloaded : d.Loaded := loaded_of_validatePath hvalid
      have hpos : UInt32.ofNat proBytes ≠ 0 := by decide
      have hflags := flags_spec d.protection
      rcases head?_requireAccessRights_zero site.cfg d site.inetNum pp.passwd with
        ⟨hbanned, hhead⟩ | ⟨hbanned, howns, hhead⟩ | ⟨hbanned, howns, hadmits, hhead⟩ |
          ⟨hbanned, howns, hadmits, hhead⟩
      · rcases hbanned with hI | hD
        · rw [hhead, hI, if_pos rfl] at hanswer
          refine iff_of_false ?_ (not_not.mpr (Or.inl hI))
          have hsilent : ¬ (getProCall env path).Takes (site.net [] (getProCall env path)) := by
            unfold net
            rw [hanswer]
            exact not_takes_silentNet (by rw [cmd_getProCall]; decide) []
          obtain ⟨halt, hcall⟩ : ∃ halt, clientInteract site.net (getProCall env path) newClient =
              .error halt (newClient.recorded (.call (getProCall env path))) :=
            clientInteract_of_not_takes (Or.inr hsilent)
          rintro ⟨s', hok⟩
          simp only [checkUpload, bind, EStateM.bind, hcall] at hok
          cases hok
        · rw [hhead, hD, if_neg (by decide), if_pos rfl] at hanswer
          refine iff_of_true (hrefused rfl hanswer) ?_
          rintro (hI | ⟨hbanned, -⟩)
          · rw [hD] at hI
            cases hI
          · exact hbanned (Or.inr hD)
      · rw [hhead, if_neg (by decide), if_neg (by decide)] at hanswer
        rw [checkUpload_of_flags hfits hanswer (takes_replyTo _ _ (Or.inl rfl) fun h => by cases h)
          (show Command.getPro.code ≠ ccErr by decide) hpos (getD_replyTo (length_serverGetPro hloaded _))]
        refine iff_of_false ?_ (not_not.mpr (Or.inr ⟨hbanned, Or.inl howns⟩))
        rintro ⟨howner, -⟩
        rw [snd_serverGetPro, if_pos hhead] at howner
        exact hflags.2.2.2 howner
      · rw [hhead, if_neg (by decide), if_neg (by decide)] at hanswer
        rw [checkUpload_of_flags hfits hanswer (takes_replyTo _ _ (Or.inl rfl) fun h => by cases h)
          (show Command.getPro.code ≠ ccErr by decide) hpos (getD_replyTo (length_serverGetPro hloaded _))]
        have hpro : (serverGetPro d (requireAccessRights site.cfg d 0 site.inetNum pp.passwd)).2 =
            d.protection ^^^ dirGet := by
          rw [snd_serverGetPro, hhead, if_neg (by decide)]
        rw [hpro, hflags.1, hflags.2.1, hflags.2.2.1]
        have hletter : ownerLetter site.cfg d site.inetNum ≠ some 0x49 := fun h => hbanned (Or.inl h)
        constructor
        · rintro ⟨-, hrefuse⟩ (hI | ⟨-, h | ⟨-, hadd, hdel⟩⟩)
          · exact hletter hI
          · exact howns h
          · rcases hrefuse with hnoadd | ⟨hnodel, hseen⟩
            · rw [hnoadd] at hadd
              cases hadd
            · rw [hdel hseen] at hnodel
              cases hnodel
        · intro hnot
          refine ⟨hloaded.unowned, ?_⟩
          by_contra hrefuse
          rw [not_or, not_and, Bool.not_eq_false] at hrefuse
          apply hnot
          refine Or.inr ⟨hbanned, Or.inr ⟨hadmits, hrefuse.1, ?_⟩⟩
          intro hseen
          by_contra hnodel
          exact hrefuse.2 (Bool.not_eq_true _ ▸ hnodel) hseen
      · rw [hhead, if_neg (by decide), if_pos rfl] at hanswer
        refine iff_of_true (hrefused rfl hanswer) ?_
        rintro (hI | ⟨-, h | ⟨h, -⟩⟩)
        · exact hbanned (Or.inl hI)
        · exact howns h
        · exact hadmits h

/-- A path without a newline has no password. -/
theorem passwd_scanPath {bytes : ByteString} {i : ℕ} {v : PathScan}
    {res : PathScan × ℕ × Option ByteString} (hnewline : newline ∉ bytes)
    (h : scanPath bytes i v = .ok res) : res.2.2 = none := by
  induction bytes generalizing i v with
  | nil =>
      rw [scanPath] at h
      cases h
      rfl
  | cons c rest ih =>
      rw [List.mem_cons, not_or] at hnewline
      rw [scanPath, if_neg (Ne.symm hnewline.1)] at h
      split_ifs at h with hzero
      · cases h
        rfl
      · split at h
        · cases h
        · exact ih hnewline.2 h

/-- The client asks without its password first, unless there is a slash in it. -/
theorem passwd_getProCall {pp : PPath} (henv : env.envPasswd ≠ []) (hslash : slash ∉ env.envPasswd)
    (hparse : parsePath (getProCall env path).ubuf.data = .ok pp) : pp.passwd = none := by
  have hdir : newline ∉ (utilSplitPath (utilAbsPath env path)).1 := by
    have hnewline := newline_notMem_canonicalPath henv path
    obtain ⟨t, ht⟩ := canonicalPath_eq_cons env path
    rw [ht, List.mem_cons, not_or] at hnewline
    obtain ⟨rest, habs, hrest⟩ : ∃ rest, utilAbsPath env path = slash :: (t ++ rest) ∧
        (rest = [] ∨ rest = newline :: env.envPasswd) := by
      unfold utilAbsPath ClientEnv.passwordSuffix
      rw [ht, if_neg henv]
      split
      · exact ⟨[], by rw [List.append_nil], Or.inl rfl⟩
      · exact ⟨newline :: env.envPasswd, rfl, Or.inr rfl⟩
    rw [habs]
    rcases fst_utilSplitPath (t ++ rest) with ⟨hroot, -⟩ | ⟨before, name, hbefore, heq, hname⟩
    · rw [hroot]
      decide
    · rw [hbefore, List.mem_cons, not_or]
      refine ⟨by decide, fun hmem => ?_⟩
      rcases hrest with rfl | rfl
      · apply hnewline.2
        rw [List.append_nil] at heq
        rw [heq]
        exact List.mem_append_left _ hmem
      · -- the last slash stands behind the newline, so it is in the password
        rcases List.append_eq_append_iff.mp heq with ⟨mid, hmid, htail⟩ | ⟨mid, hmid, -⟩
        · cases mid with
          | nil =>
              rw [List.append_nil] at hmid
              exact hnewline.2 (hmid ▸ hmem)
          | cons c mid =>
              rw [List.cons_append] at htail
              injection htail with _ htail
              apply hslash
              rw [htail]
              simp
        · apply hnewline.2
          rw [hmid]
          exact List.mem_append_left _ hmem
  have hdata : newline ∉ (getProCall env path).ubuf.data := by
    intro hmem
    have hbuf : newline ∈ ((utilSplitPath (utilAbsPath env path)).1.tail ++ [0]) ++ [] :=
      List.mem_of_mem_take hmem
    rw [List.append_nil] at hbuf
    rcases List.mem_append.mp hbuf with h | h
    · exact hdir (List.mem_of_mem_tail h)
    · revert h
      decide
  unfold parsePath at hparse
  split at hparse
  · cases hparse
  · split_ifs at hparse
    split at hparse
    · cases hparse
    · rename_i v e passwd hscan
      cases hparse
      exact passwd_scanPath hdata hscan

/-- Where the server would install the file, the client does not give up before. -/
def NeverRefuses (site : UploadSite) (env : ClientEnv) (path : ByteString) (stamp : ℤ) : Prop :=
  (installCall env path stamp).p1.length + (installCall env path stamp).p2.length ≤ ubufMaxspace →
    site.Permits (installCall env path stamp) → ¬ GivesUp site.net env path stamp

/-- The first request of an upload is not longer than the last one. -/
theorem length_getProCall_le (env : ClientEnv) (path : ByteString) (stamp : ℤ) :
    (getProCall env path).p1.length ≤ (installCall env path stamp).p1.length := by
  have habs : ∃ t, utilAbsPath env path = slash :: t := by
    obtain ⟨t, ht⟩ := canonicalPath_eq_cons env path
    unfold utilAbsPath
    rw [ht]
    split
    · exact ⟨t, rfl⟩
    · exact ⟨t ++ env.passwordSuffix, rfl⟩
  obtain ⟨t, ht⟩ := habs
  show ((utilSplitPath (utilAbsPath env path)).1.tail ++ [0]).length ≤
    ((utilAbsPath env path).tail ++ [0]).length
  rw [ht]
  rcases fst_utilSplitPath t with ⟨hdir, -⟩ | ⟨before, name, hdir, heq, -⟩
  · rw [hdir]
    simp
  · rw [hdir, heq]
    simp

/-- The check of an upload agrees with the server exactly if what the server permits to the request
with the password, it also permits to the request that the client asks with first. -/
theorem neverRefuses_iff (site : UploadSite) (env : ClientEnv) (path : ByteString) (stamp : ℤ) :
    site.NeverRefuses env path stamp ↔
      ((installCall env path stamp).p1.length + (installCall env path stamp).p2.length ≤
          ubufMaxspace → site.Permits (installCall env path stamp) → site.LetsGoOn env path) := by
  have hle := length_getProCall_le env path stamp
  constructor
  · intro h hfits hpermits
    have hgo := h hfits hpermits
    rw [givesUp_iff, checkUpload_iff (by omega)] at hgo
    exact not_not.mp hgo
  · intro h hfits hpermits
    rw [givesUp_iff, checkUpload_iff (by omega)]
    exact not_not.mpr (h hfits hpermits)

/-! ### A directory with a password -/

/-- A directory to which everyone may add files who knows the password. -/
def passworded : DirInfo :=
  { (default : DirInfo) with protection := dirList ||| dirGet ||| dirAdd, publicPassword := some (text "pw") }

/-- A server that has only this directory, and no files. -/
def passwordedSite : UploadSite where
  cfg := Scenario.config
  inetNum := 0
  dirInfo _ := .ok passworded
  files _ := none
  junk := 0
  loaded := by
    rintro _ _ ⟨⟩
    exact ⟨by decide, by simp [passworded, default]⟩

/-- A client that knows it. -/
def passwordedEnv : ClientEnv := ⟨[slash], text "pw", 1024⟩

/-- The client is refused, as it asks without the password. -/
theorem passworded_refused : ¬ passwordedSite.NeverRefuses passwordedEnv plainPath 0 := by
  have habs : utilAbsPath passwordedEnv plainPath = slash :: plainPath ++ newline :: text "pw" := by
    decide +kernel
  have hinstall : installCall passwordedEnv plainPath 0 =
      pathCall .install 0 (slash :: plainPath ++ newline :: text "pw") [] := by
    unfold installCall
    rw [habs]
    rfl
  have hgetPro : getProCall passwordedEnv plainPath = pathCall .getPro 0 [slash] [] := by
    unfold getProCall
    rw [habs]
    rfl
  intro h
  rw [NeverRefuses, hinstall] at h
  apply h (by decide)
  · refine ⟨⟨plainPath, plainPath, 1, [dot], 1, some (text "pw")⟩, passworded, rfl, ?_⟩
    exact ⟨⟨by decide, by decide⟩, fun h => by cases h.1⟩
  · rw [givesUp_iff]
    unfold checkUpload
    rw [hgetPro]
    exact ⟨_, rfl⟩

end UploadSite

end

end Fsp
