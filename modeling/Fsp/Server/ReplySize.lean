import Fsp.Server.Refused

/-!
# How large a reply is

A reply holds at most 1024 bytes unless the client has asked for more.  File and directory blocks are
cut to that size, and error texts come from lines of the configuration file and of owner files, which
are shorter.  A readme file is cut to the packet size instead, so that what is said here about the
commands that send it is only said for packet sizes up to 1024.
-/

namespace Fsp

open Bytes Effect

variable {Fs Cwd : Type} {cfg : Config}

/-! ## What is kept about directories -/

/-- A directory information whose readme text fits into a packet with the flags behind it, and whose
owner entries come from lines of 255 bytes. -/
structure Moderate (cfg : Config) (d : DirInfo) : Prop where
  readme : ∀ readme ∈ d.readme, readme.length + 2 ≤ cfg.packetsize.toNat
  owner : ∀ r ∈ d.owner, r.text.length ≤ 255

theorem length_ownerLines_le (n : ℕ) (content : ByteString) :
    ∀ line ∈ ownerLines n content, line.length ≤ 255 := by
  induction n generalizing content with
  | zero => simp [ownerLines]
  | succ n ih =>
      intro line hline
      rw [ownerLines] at hline
      split at hline
      · cases hline
      · rcases List.mem_cons.mp hline with rfl | hline
        · have hcstr := (List.takeWhile_sublist (fun c : UInt8 => c != 0)
            (l := (content.take 255).takeWhile fun c => c != newline && c != 0x0D)).length_le
          have hstop := (List.takeWhile_sublist (fun c => c != newline && c != 0x0D)
            (l := content.take 255)).length_le
          exact hcstr.trans (hstop.trans (List.length_take_le _ _))
        · exact ih _ line hline

theorem length_text_loadedOwner {gethostbyname : ByteString → Option UInt32}
    {content : Option ByteString} {owner : List IPrange}
    (h : loadedOwner gethostbyname content = some owner) :
    ∀ r ∈ owner, r.text.length ≤ 255 := by
  cases content with
  | none =>
      obtain rfl := Option.some.inj h
      simp
  | some content =>
      obtain ⟨rfl, -⟩ := addIplines_eq_some.mp h
      intro r hr
      obtain ⟨line, hline, hparse⟩ := List.mem_filterMap.mp hr
      exact (length_text_parseIpline hparse).trans (length_ownerLines_le _ _ line hline)

theorem length_creatorLine_le (bigEndian : Bool) (inetNum : UInt32) :
    (creatorLine bigEndian inetNum).length ≤ 255 := by
  have hdecimal : ∀ n < 256, (decimal n).length ≤ 3 := by decide +kernel
  have hoctet : ∀ j, (decimal (if bigEndian then 0 else (octet inetNum j).toNat)).length ≤ 3 := by
    intro j
    apply hdecimal
    split
    · decide
    · exact (octet inetNum j).toNat_lt
  have h₀ := hoctet 0
  have h₁ := hoctet 1
  have h₂ := hoctet 2
  have h₃ := hoctet 3
  have hdot : (text ".").length = 1 := rfl
  have hcreator : (text " O Creator\n").length = 11 := rfl
  simp only [creatorLine, dottedQuad, List.length_append, hdot, hcreator]
  omega

/-- An answer of `require_access_rights` is a text of the server or the text of an owner. -/
theorem length_requireAccessRights_le {d : DirInfo} (howner : ∀ r ∈ d.owner, r.text.length ≤ 255)
    (rights : UInt8) (ipAddr : UInt32) (passwd : Option ByteString) :
    (requireAccessRights cfg d rights ipAddr passwd).length ≤ 255 := by
  have hpublic : (requirePublicRights d rights passwd).length ≤ 255 := by
    unfold requirePublicRights
    split_ifs <;> decide
  unfold requireAccessRights
  cases hacc : checkIpTable cfg.bigEndian ipAddr d.owner with
  | none => exact hpublic
  | some acc =>
      have hlength : acc.length ≤ 255 := by
        obtain ⟨r, hr, hcheck⟩ := List.exists_of_findSome?_eq_some hacc
        unfold checkIp at hcheck
        simp only at hcheck
        split at hcheck
        · rw [← Option.some.inj hcheck]
          exact howner r hr
        · cases hcheck
      -- the password of the owners and that of the client decide which text it is
      cases d.ownerPassword with
      | none =>
          simp only
          split_ifs
          · exact hlength
          · exact hlength
          · exact hpublic
          · exact hpublic
      | some password =>
          cases passwd with
          | none =>
              simp only
              split_ifs
              · exact hlength
              · decide
              · exact hpublic
              · exact hpublic
          | some passwd =>
              simp only
              split_ifs
              · exact hlength
              · exact hlength
              · exact hpublic
              · exact hpublic

section

variable [Posix Fs Cwd]

theorem returns_loadReadme :
    Returns (fun readme : Option ByteString => ∀ text ∈ readme,
        text.length + 2 ≤ cfg.packetsize.toNat)
      (loadReadme cfg : Srv Fs Cwd (Option ByteString)) := by
  apply returns_bind (returns_true _)
  intro sf _
  cases sf with
  | none => exact returns_pure (by simp)
  | some sf =>
      apply returns_bind (returns_true _)
      intro content _
      cases content with
      | none => exact returns_pure (by simp)
      | some content =>
          apply returns_pure
          rintro readme ⟨⟩
          have hpacket := cfg.packetsize_ge
          have hcstr := (List.takeWhile_sublist (fun c : UInt8 => c != 0) (l := content.take
            (min (cfg.packetsize.toNat - proBytes - 1) (sf.size % 2 ^ 32)))).length_le
          have htake := List.length_take_le
            (min (cfg.packetsize.toNat - proBytes - 1) (sf.size % 2 ^ 32)) content
          unfold cstr
          simp only [proBytes] at hcstr htake ⊢
          omega

theorem returns_loadOwner_length :
    Returns (fun owner : List IPrange × Option ByteString => ∀ r ∈ owner.1, r.text.length ≤ 255)
      (loadOwner : Srv Fs Cwd (List IPrange × Option ByteString)) := by
  apply returns_bind (returns_true _)
  intro content _
  cases content with
  | none => exact returns_pure (by simp)
  | some content =>
      apply returns_bind (returns_true _)
      intro gethostbyname _
      cases hlines : addIplines gethostbyname (ownerLines content.length content) [] with
      | none => exact returns_throw _
      | some owner =>
          apply returns_bind (returns_true _)
          intro password _
          have hloaded : loadedOwner gethostbyname (some content) = some owner := hlines
          exact returns_pure (length_text_loadedOwner hloaded)

omit [Posix Fs Cwd] in
theorem moderate_creatorInfo {gethostbyname : ByteString → Option UInt32} {line : ByteString}
    (hline : line.length ≤ 255) (d : DirInfo) (t : ℤ) (realname : ByteString) :
    Moderate cfg { creatorInfo gethostbyname line d t with realname } where
  readme _ h := by cases h
  owner _ hr := (length_text_parseIpline (parseIpline_of_mem_addIpline hr)).trans hline

theorem moderate_loadAccessRights (d : DirInfo) :
    Returns (Moderate cfg) (loadAccessRights cfg d : Srv Fs Cwd DirInfo) := by
  unfold loadAccessRights
  apply returns_bind returns_loadReadme
  intro readme hreadme
  apply returns_ite
  · intro _
    apply returns_bind (returns_true _)
    intro protection _
    apply returns_bind (returns_true _)
    intro publicPassword _
    apply returns_bind returns_loadOwner_length
    intro owner howner
    exact returns_pure ⟨hreadme, howner⟩
  · exact fun _ => returns_pure ⟨hreadme, by simp⟩

/-- All that the server keeps about directories is moderate. -/
theorem lasting_moderate : Lasting Fs cfg (Moderate cfg) where
  empty := ⟨by simp [default], by simp [default]⟩
  update _ _ _ _ hd := ⟨hd.readme, hd.owner⟩
  load := moderate_loadAccessRights
  create _ _ d t realname _ := moderate_creatorInfo (length_creatorLine_le _ _) d t realname

/-! ## Replies -/

/-- What is sent is a message of at most `limit` bytes, or an error of at most 1024. -/
def SendsWithin (limit : ℕ) : Event → Prop
  | .sent _ datagram => ∃ u : Ubuf, datagram = u.encode ∧
      (u.buf.length ≤ limit ∨ u.cmd = ccErr ∧ u.buf.length ≤ ubufSpace)
  | _ => True

/-- What the server keeps is moderate, and so was what it sent. -/
def Sober (cfg : Config) (limit : ℕ) (s : Server Fs Cwd) : Prop :=
  AllCached (Moderate cfg) s ∧ ∀ e ∈ s.trace, SendsWithin limit e

variable {limit : ℕ}

omit [Posix Fs Cwd] in
/-- Whatever keeps what is cached moderate and writes no large reply to the trace. -/
theorem sober_of_acts {α : Type} {m : Srv Fs Cwd α} (hcached : Preserves (AllCached (Moderate cfg)) m)
    (hacts : Does (Acts (SendsWithin limit)) m) : Preserves (Sober cfg limit) m := by
  intro s hs
  exact ⟨hcached s hs.1, (hacts s).1.forall_mem hs.2⟩

theorem sober_serverReply {client : SockAddr} {ub : Ubuf} {data xtra : ByteString}
    (hlength : data.length + xtra.length ≤ limit ∨
      ub.cmd = ccErr ∧ data.length + xtra.length ≤ ubufSpace) :
    Preserves (Sober cfg limit) (serverReply cfg client ub data xtra : Srv Fs Cwd Unit) := by
  apply sober_of_acts (kept_serverReply lasting_moderate)
  apply does_serverReply (primitives_acts _).toSteps
  refine ⟨replyTo ub data xtra, rfl, ?_⟩
  simpa [replyTo] using hlength

theorem sober_refuse {r : Request} {msg : ByteString} (hmsg : Short msg) :
    Preserves (Sober cfg limit) (refuse cfg r msg : Srv Fs Cwd Unit) := by
  apply sober_serverReply
  refine Or.inr ⟨rfl, ?_⟩
  simp only [Short] at hmsg
  simp only [List.length_append, List.length_cons, List.length_nil, ubufSpace]
  omega

theorem sober_checkAccessRights {r : Request} {di : ℕ} {rights : UInt8}
    {passwd : Option ByteString} {next : ByteString → Srv Fs Cwd Unit}
    (hnext : ∀ pe, Preserves (Sober cfg limit) (next pe)) :
    Preserves (Sober cfg limit) (checkAccessRights cfg r di rights passwd next) := by
  have haccess : Triple (Sober cfg limit) (requireAccess cfg r di rights passwd : Srv Fs Cwd ByteString)
      (fun pe s => Sober cfg limit s ∧ pe.length ≤ 255) (Sober cfg limit) := by
    constructor
    intro s hs
    refine ⟨⟨hs.1, fun e he => ?_⟩, length_requireAccessRights_le (hs.1 di).owner _ _ _⟩
    rcases List.mem_append.mp he with he | he
    · exact hs.2 e he
    · obtain rfl := List.mem_singleton.mp he
      trivial
  apply preserves_of_wp
  apply Triple.run
  apply triple_seq haccess
  intro pe
  apply triple_fact
  intro hpe
  apply triple_ite
  · exact fun _ => triple_pure fun _ h => h
  · intro _
    apply triple_ite
    · intro _
      apply Preserves.triple
      apply sober_refuse
      simp only [Short, List.length_tail]
      omega
    · exact fun _ => (hnext pe).triple

/-- The protection is sent with the readme text. -/
theorem sober_replyPro {r : Request} {di : ℕ} {acc : ByteString}
    (hpacket : cfg.packetsize.toNat ≤ limit) :
    Preserves (Sober cfg limit) (replyPro cfg r di acc : Srv Fs Cwd Unit) := by
  have hdir : Triple (Sober cfg limit) (dirInfo di : Srv Fs Cwd DirInfo)
      (fun d s => Sober cfg limit s ∧ Moderate cfg d) (Sober cfg limit) :=
    ⟨fun s hs => ⟨hs, hs.1 di⟩⟩
  apply preserves_of_wp
  apply Triple.run
  apply triple_seq hdir
  intro d
  apply triple_fact
  intro hd
  apply Preserves.triple
  apply sober_serverReply
  left
  have hreadme := hd.readme
  have hge := cfg.packetsize_ge
  unfold serverGetPro
  cases hd' : d.readme with
  | none =>
      simp only [List.length_nil, List.length_cons]
      omega
  | some readme =>
      have hlength := hreadme readme hd'
      simp only [List.length_append, List.length_nil, List.length_cons]
      omega

/-- The replies to a request are no longer than `limit`. -/
theorem replies_sober {r : Request}
    (hblock : Command.ofByte r.ub.cmd = .getDir ∨ Command.ofByte r.ub.cmd = .stat →
      min cfg.packetsize.toNat ubufSpace ≤ limit)
    (hfile : Command.ofByte r.ub.cmd = .getFile ∨ Command.ofByte r.ub.cmd = .grabFile →
      requestedLen cfg r.s2 ≤ limit)
    (hpro : TellsPro r.ub.cmd → cfg.packetsize.toNat ≤ limit)
    (hversion : Command.ofByte r.ub.cmd = .version → ubufSpace ≤ limit) :
    Replies (fun {α : Type} (m : Srv Fs Cwd α) => Preserves (Sober cfg limit) m)
      (fun m => Preserves (Sober cfg limit) m) limit cfg r where
  block_le := hblock
  file_le := hfile
  bind_of_returns := compositional_does.bind_of_returns
  refuse _ hmsg := sober_refuse hmsg
  checkAccessRights _ _ _ _ hnext := sober_checkAccessRights hnext
  reply _ hdata := sober_serverReply (Or.inl (by simpa using hdata))
  replyThen _ _ hdata hm := does_bind (sober_serverReply (Or.inl (by simpa using hdata))) fun _ => hm
  replyPro hcmd _ _ := sober_replyPro (hpro hcmd)
  renamed := sober_serverReply (Or.inl (Nat.zero_le _))
  version hcmd := by
    have hlength : versionText.length = 13 := by decide
    refine does_ite (fun _ => sober_serverReply (Or.inl ?_)) fun _ => does_pure _
    have hspace := hversion hcmd
    simp only [ubufSpace] at hspace
    simp only [List.length_append, hlength, length_be16, List.length_cons, List.length_nil]
    split
    · simp only [length_be32]
      omega
    · simp only [List.length_nil]
      omega

omit [Posix Fs Cwd] in
theorem sendsWithin_of_notSent (e : Event) (he : NotSent e) : SendsWithin limit e := by
  cases e with
  | sent _ _ => exact absurd he not_false
  | _ => trivial

theorem sober_serve {r : Request} {hp : ℕ}
    (hreplies : Replies (fun {α : Type} (m : Srv Fs Cwd α) => Preserves (Sober cfg limit) m)
      (fun m => Preserves (Sober cfg limit) m) limit cfg r) :
    Preserves (Sober cfg limit) (serve cfg r hp : Srv Fs Cwd Unit) := by
  have hcached : Primitives (Kept (AllCached (Moderate cfg)) : Server Fs Cwd → Server Fs Cwd → Prop)
      (fun _ => True) (Moderate cfg) := primitives_allCached lasting_moderate
  have hacts := @primitives_acts Fs Cwd _ (SendsWithin limit)
  have hoperations : Operations (fun {α : Type} (m : Srv Fs Cwd α) => Preserves (Sober cfg limit) m)
      cfg :=
    (operations_of_primitives hcached (fun _ _ => trivial) moderate_loadAccessRights
      (kept_serverMakeDir lasting_moderate)).map₂
      (operations_of_primitives hacts sendsWithin_of_notSent returns_loadAccessRights
        (does_serverMakeDir_of_good hacts sendsWithin_of_notSent fun _ => trivial))
      compositional_does sober_of_acts
  have hstreams : Streams (fun {α : Type} (m : Srv Fs Cwd α) => Preserves (Sober cfg limit) m) cfg :=
    (streams_of_primitives hcached fun _ _ => trivial).map₂
      (streams_of_primitives hacts sendsWithin_of_notSent) sober_of_acts
  exact holds_serve hoperations hreplies (fun _ => hstreams) fun _ _ hs => hs

end

/-! ## Rounds -/

/-- The host table was read from the configuration file: a line of at most 1023 bytes has at most
1017 behind the word `host`. -/
def ReadConfiguration (cfg : Config) : Prop :=
  ∀ h ∈ cfg.iptab, ∃ gethostbyname line, line.length ≤ 1017 ∧
    parseIpline gethostbyname line = some h

theorem length_hostType_le (hconf : ReadConfiguration cfg) (addr : UInt32) :
    (hostType cfg addr).length ≤ 1017 := by
  unfold hostType
  cases hcheck : checkIpTable cfg.bigEndian addr cfg.iptab with
  | none =>
      simp only [Option.getD_none]
      split <;> decide
  | some msg =>
      obtain ⟨h, hh, htext⟩ := List.exists_of_findSome?_eq_some hcheck
      obtain ⟨gethostbyname, line, hline, hparse⟩ := hconf h hh
      unfold checkIp at htext
      simp only at htext
      split at htext
      · rw [Option.getD_some, ← Option.some.inj htext]
        exact (length_text_parseIpline hparse).trans hline
      · cases htext

-- each line of the text is a literal, as long as its list of characters; deciding the bound would
-- decode the literals byte by byte
theorem length_reverseErrMsg : reverseErrMsg.length = 42 + 73 + 71 + 65 + 57 :=
  length_text_append (length_text_append (length_text_append (length_text_append
    (length_text_ofList _) (length_text_ofList _)) (length_text_ofList _))
    (length_text_ofList _)) (length_text_ofList _)

section

variable [Posix Fs Cwd] {s : Server Fs Cwd} {a : Arrival Fs} {limit : ℕ}

/-- What is sent in a round, when the replies to a request that is dispatched are no longer than
`limit`. -/
theorem sendsWithin_serverRound (hconf : ReadConfiguration cfg)
    (hs : Reachable (serverRound cfg) (Starts cfg) s)
    (hreplies : ∀ ub old h, Dispatches cfg a s ub old h →
      Replies (fun {α : Type} (m : Srv Fs Cwd α) => Preserves (Sober cfg limit) m)
        (fun m => Preserves (Sober cfg limit) m) limit cfg (requestOf a ub old h)) :
    ∀ e ∈ (final (serverRound cfg a s)).trace, SendsWithin limit e := by
  have hcached : AllCached (Moderate cfg) s := allCached_reachable lasting_moderate hs
  have hstart : ∀ {s' : Server Fs Cwd}, s'.dirStatCache = s.dirStatCache →
      s'.trace = [] → Sober cfg limit s' := by
    intro s' hcache htrace
    refine ⟨fun di => by rw [hcache]; exact hcached di, fun e he => ?_⟩
    rw [htrace] at he
    cases he
  have herror : ∀ {ub : Ubuf} {msg : ByteString} {s' : Server Fs Cwd}, msg.length ≤ 1023 →
      Sober cfg limit s' → Sober cfg limit (final (sendError cfg a.client ub msg s')) := by
    intro ub msg s' hmsg hs'
    have hsent : Preserves (Sober cfg limit) (sendError cfg a.client ub msg : Srv Fs Cwd Unit) := by
      apply sober_serverReply
      refine Or.inr ⟨rfl, ?_⟩
      simp only [List.length_append, List.length_cons, List.length_nil, ubufSpace]
      omega
    exact hsent s' hs'
  suffices hsober : Sober cfg limit (final (serverRound cfg a s)) from hsober.2
  have hgoes := serverRound_goes cfg a (hostTable_reachable hs)
  generalize serverRound cfg a s = res at hgoes ⊢
  cases hgoes with
  | unread => exact hstart rfl rfl
  | exits => exact hstart rfl rfl
  | denied _ hhost =>
      have hlength := length_hostType_le hconf a.client.addr
      rw [hhost, List.length_cons] at hlength
      exact herror (by omega) (hstart rfl rfl)
  | unnamed => exact herror (length_reverseErrMsg.le.trans (by decide)) (hstart rfl rfl)
  | ignored => exact hstart rfl rfl
  | garbled => exact hstart rfl rfl
  | dispatched hdisp =>
      apply sober_serve (hreplies _ _ _ hdisp)
      refine ⟨fun di => hcached di, fun e he => ?_⟩
      obtain rfl := List.mem_singleton.mp he
      trivial

/-- A request for a part of a file that names a preferred size in its extra data. -/
def PrefersSize (ub : Ubuf) (n : ℕ) : Prop :=
  (Command.ofByte ub.cmd = .getFile ∨ Command.ofByte ub.cmd = .grabFile) ∧
    ∃ hi lo : UInt8, ub.xtra = [hi, lo] ∧ n = hi.toNat * 256 + lo.toNat

/-- What is said about the size of a reply. -/
structure ReplyFits (cfg : Config) (ub u : Ubuf) : Prop where
  default : (∀ n, ¬ PrefersSize ub n) → (TellsPro ub.cmd → cfg.packetsize.toNat ≤ ubufSpace) →
    u.buf.length ≤ ubufSpace
  preferred : ∀ n, 0 < n → PrefersSize ub n → u.cmd ≠ ccErr →
    u.buf.length ≤ min n cfg.packetsize.toNat

omit [Posix Fs Cwd] in
/-- There is one message in a datagram. -/
theorem reads_unique {ub ub' : Ubuf} (h : Reads a ub) (h' : Reads a ub') : ub' = ub :=
  Option.some.inj (h'.decode.symm.trans h.decode)

/-- How much of a file is asked for with a preferred size. -/
theorem requestedLen_le_of_prefersSize {ub : Ubuf} {n : ℕ} (hpos : 0 < n) (h : PrefersSize ub n) :
    requestedLen cfg ub.xtra ≤ min n cfg.packetsize.toNat := by
  obtain ⟨-, hi, lo, hxtra, rfl⟩ := h
  rw [hxtra]
  unfold requestedLen
  simp only
  split_ifs <;> omega

/-- How much of a file is asked for without one. -/
theorem requestedLen_le_of_not_prefersSize {ub : Ubuf} (h : ∀ n, ¬ PrefersSize ub n)
    (hcmd : Command.ofByte ub.cmd = .getFile ∨ Command.ofByte ub.cmd = .grabFile) :
    requestedLen cfg ub.xtra ≤ ubufSpace := by
  unfold requestedLen
  split
  · rename_i hi lo hxtra
    exact absurd ⟨hcmd, hi, lo, hxtra, rfl⟩ (h _)
  · exact min_le_right _ _

/-- In every state that the server gets into, the reply to a request holds no more than 1024 bytes
unless it names a preferred size, and file data no more than that size and the packet size; about the
readme texts sent from a server with a larger packet size, nothing is said. -/
theorem replyFits_serverRound (hconf : ReadConfiguration cfg)
    (hs : Reachable (serverRound cfg) (Starts cfg) s) {ub : Ubuf} (hreads : Reads a ub)
    {client : SockAddr} {datagram : ByteString}
    (hsent : .sent client datagram ∈ (final (serverRound cfg a s)).trace) :
    ∃ u : Ubuf, datagram = u.encode ∧ ReplyFits cfg ub u := by
  have hmost : SendsWithin ubufMaxspace (.sent client datagram) :=
    sendsWithin_serverRound hconf hs (fun ub old h _ =>
      replies_sober (fun _ => block_le_maxspace cfg) (fun _ => requestedLen_le_maxspace cfg _)
        (fun _ => cfg.packetsize_le) fun _ => by decide) _ hsent
  obtain ⟨u, rfl, -⟩ := hmost
  have hlimit : ∀ {limit : ℕ}, SendsWithin limit (.sent client u.encode) →
      u.buf.length ≤ limit ∨ u.cmd = ccErr ∧ u.buf.length ≤ ubufSpace := by
    rintro limit ⟨u', hencode, hlength⟩
    have hu := congrArg Ubuf.decode hencode
    rw [Ubuf.decode_encode, Ubuf.decode_encode] at hu
    obtain rfl := Option.some.inj hu
    exact hlength
  refine ⟨u, rfl, ?_, ?_⟩
  · intro hnone hpro
    have hspace : SendsWithin ubufSpace (.sent client u.encode) :=
      sendsWithin_serverRound hconf hs (fun ub' old h hdisp =>
        replies_sober (fun _ => min_le_right _ _) (fun hcmd => ?_) (fun hcmd => ?_) fun _ => le_rfl)
        _ hsent
    · rcases hlimit hspace with hle | ⟨-, hle⟩
      · exact hle
      · exact hle
    · obtain rfl := reads_unique hreads hdisp.reads
      exact requestedLen_le_of_not_prefersSize hnone hcmd
    · obtain rfl := reads_unique hreads hdisp.reads
      exact hpro hcmd
  · intro n hpos hprefers hcmd
    have hsize : SendsWithin (min n cfg.packetsize.toNat) (.sent client u.encode) :=
      sendsWithin_serverRound hconf hs (fun ub' old h hdisp =>
        replies_sober (fun hother => ?_) (fun _ => ?_) (fun hother => ?_) fun hother => ?_) _ hsent
    · rcases hlimit hsize with hle | ⟨herr, -⟩
      · exact hle
      · exact absurd herr hcmd
    all_goals
      obtain rfl := reads_unique hreads hdisp.reads
      have hfile := hprefers.1
    · have hcmd' : Command.ofByte ub'.cmd = .getDir ∨ Command.ofByte ub'.cmd = .stat := hother
      rcases hfile with hfile | hfile <;> simp [hfile] at hcmd'
    · exact requestedLen_le_of_prefersSize hpos hprefers
    · have hcmd' : TellsPro ub'.cmd := hother
      unfold TellsPro at hcmd'
      rcases hfile with hfile | hfile <;> simp [hfile] at hcmd'
    · have hcmd' : Command.ofByte ub'.cmd = .version := hother
      rcases hfile with hfile | hfile <;> simp [hfile] at hcmd'

end

/-! ### Two requests -/

/-- A request for a part of a file with a preferred size. -/
def sizeRequest (size : UInt16) : ClientRequest :=
  ⟨Command.getFile.code, 0, Scenario.path "f", be16 size,
    show (Scenario.path "f").length + 2 ≤ ubufMaxspace by decide⟩

def sizeArrival (size : UInt16) : Arrival Disk :=
  Scenario.arrival 100 7 ((sizeRequest size).sbuf 5 8 0)

/-- The lengths of the replies of a server to such a request, each with whether it is an error. -/
def sizeReplies (nodes : List (String × Node)) (size : UInt16) : List (Option (Bool × ℕ)) :=
  (final (serverRound Scenario.config (sizeArrival size)
    (Scenario.start Scenario.config nodes))).trace.filterMap fun
      | .sent _ datagram => some ((Ubuf.decode datagram).map fun u =>
          (u.cmd == ccErr, u.buf.length))
      | _ => none

theorem exists_of_mem_sizeReplies {nodes : List (String × Node)} {size : UInt16}
    {o : Option (Bool × ℕ)} (h : o ∈ sizeReplies nodes size) :
    ∃ client datagram, .sent client datagram ∈ (final (serverRound Scenario.config
        (sizeArrival size) (Scenario.start Scenario.config nodes))).trace ∧
      (Ubuf.decode datagram).map (fun u => (u.cmd == ccErr, u.buf.length)) = o := by
  obtain ⟨e, he, hsent⟩ := List.mem_filterMap.mp h
  cases e with
  | sent client datagram => exact ⟨client, datagram, he, Option.some.inj hsent⟩
  | _ => cases hsent

theorem reads_sizeArrival (size : UInt16) :
    Reads (sizeArrival size) ((sizeRequest size).ubuf 5 8 0) := by
  have hbytes : (sizeArrival size).bytes = (sizeRequest size).sbuf 5 8 0 :=
    (sizeRequest size).take_sbuf 5 8 0
  refine ⟨by rw [hbytes, ClientRequest.sbuf, Ubuf.decode_encode], ?_⟩
  rw [ClientRequest.toNat_bbLen_ubuf, hbytes, ClientRequest.length_sbuf]
  omega

theorem prefersSize_sizeRequest (size : UInt16) :
    PrefersSize ((sizeRequest size).ubuf 5 8 0) size.toNat := by
  refine ⟨Or.inl rfl, UInt8.ofNat (size.toNat / 256), UInt8.ofNat size.toNat, ?_, ?_⟩
  · rw [ClientRequest.xtra_ubuf]
    rfl
  · have hlt := size.toNat_lt
    simp only [UInt8.toNat_ofNat']
    omega

/-- Of a file of three bytes, two are sent. -/
theorem replyFits_serverRound_two :
    ∃ u : Ubuf, u.cmd ≠ ccErr ∧ u.buf.length = 2 ∧
      ReplyFits Scenario.config ((sizeRequest 2).ubuf 5 8 0) u := by
  have hreplies : some (false, 2) ∈ sizeReplies [("h/f", .file (text "abc"))] 2 := by
    decide +kernel
  obtain ⟨client, datagram, hsent, hdecode⟩ := exists_of_mem_sizeReplies hreplies
  obtain ⟨u, rfl, hfits⟩ := replyFits_serverRound (fun h hh => by cases hh)
    (.start ⟨_, _, _, rfl⟩) (reads_sizeArrival 2) hsent
  rw [Ubuf.decode_encode, Option.map_some] at hdecode
  obtain ⟨herr, hlength⟩ := Prod.mk.inj (Option.some.inj hdecode)
  exact ⟨u, by simpa using herr, hlength, hfits⟩

/-- The error text for a file that is not there is longer than a preferred size of one byte. -/
theorem sizeReplies_missing :
    PrefersSize ((sizeRequest 1).ubuf 5 8 0) 1 ∧
      Reads (sizeArrival 1) ((sizeRequest 1).ubuf 5 8 0) ∧
      ∃ client datagram u, .sent client datagram ∈ (final (serverRound Scenario.config
          (sizeArrival 1) (Scenario.start Scenario.config []))).trace ∧
        Ubuf.decode datagram = some u ∧ min 1 Scenario.config.packetsize.toNat < u.buf.length := by
  refine ⟨prefersSize_sizeRequest 1, reads_sizeArrival 1, ?_⟩
  have hreplies : some (true, 13) ∈ sizeReplies [] 1 := by decide +kernel
  obtain ⟨client, datagram, hsent, hdecode⟩ := exists_of_mem_sizeReplies hreplies
  obtain ⟨u, hu, hfields⟩ := Option.map_eq_some_iff.mp hdecode
  refine ⟨client, datagram, u, hsent, hu, ?_⟩
  rw [(Prod.mk.inj hfields).2]
  decide

end Fsp
