import Fsp.Client.Searched
import Fsp.Protocol.ListedSite

/-!
# What a client reads in a directory

A client that asks a `ListedSite` for a listing gets the blocks of what `build_dir_listing` has built,
whatever it asked before, and reads the visible entries of the directory from them
(`readBlocks_listed`).  Where the directory is not found it gets nothing (`readBlocks_refused`).

What `statListed` finds then is the entry with the name it looks for (`statListed_of_reads`).
-/

namespace Fsp

open Bytes Effect

/-! ## Replies that do not depend on the past -/

/-- The network gives `get_dir_blk` the replies of `interact`, whatever went before. -/
structure AnswersAs (net : Net) (call : ℕ → Call) (interact : ℕ → Option Ubuf) : Prop where
  fits : ∀ pos, (call pos).p1.length + (call pos).p2.length ≤ ubufMaxspace
  takes : ∀ pos ub, interact pos = some ub → (call pos).Takes ub
  reply : ∀ pos ub, interact pos = some ub → ∀ trace, net trace (call pos) = ub

section

variable {net : Net} {call : ℕ → Call} {interact : ℕ → Option Ubuf} {v v' : DirFetch}

theorem AnswersAs.clientInteract (h : AnswersAs net call interact) {pos : ℕ} {ub : Ubuf}
    (hub : interact pos = some ub) (s : ClientState) :
    ∃ s', clientInteract net (call pos) s = .ok ub s' := by
  have hnet := h.reply pos ub hub s.trace
  have htakes : (call pos).Takes (net s.trace (call pos)) := hnet.symm ▸ h.takes pos ub hub
  rw [clientInteract_of_takes (h.fits pos) htakes, hnet]
  exact ⟨_, rfl⟩

theorem AnswersAs.fillBlocks (h : AnswersAs net call interact) {fuel : ℕ}
    (hv : fillBuffer interact fuel v = some v') (s : ClientState) :
    ∃ s', fillBlocks net call fuel v s = .ok (some v') s' := by
  induction fuel generalizing v s with
  | zero =>
      unfold fillBuffer at hv
      unfold Fsp.fillBlocks
      split_ifs at hv ⊢
      obtain rfl := Option.some.inj hv
      exact ⟨s, rfl⟩
  | succ fuel ih =>
      rw [fillBuffer] at hv
      unfold Fsp.fillBlocks
      split_ifs at hv ⊢
      · obtain ⟨v₁, hfetch, hfill⟩ := Option.bind_eq_some_iff.mp hv
        unfold fetchBlock at hfetch
        cases hub : interact v.pos with
        | none =>
            rw [hub] at hfetch
            cases hfetch
        | some ub =>
            rw [hub] at hfetch
            simp only at hfetch
            split_ifs at hfetch with herr
            obtain rfl := Option.some.inj hfetch
            obtain ⟨s₁, hcall⟩ := h.clientInteract hub s
            simp only
            rw [bind_of_ok hcall, if_neg herr]
            exact ih hfill s₁
      · obtain rfl := Option.some.inj hv
        exact ⟨s, rfl⟩

/-- Then `get_dir_blk` reads the same. -/
theorem AnswersAs.readBlocks (h : AnswersAs net call interact) {fuel : ℕ} {es : List Rdirent}
    (hread : readDir interact fuel v = some es) (s : ClientState) :
    ∃ s', readBlocks net call fuel v s = .ok (some es) s' := by
  induction fuel generalizing v s with
  | zero => cases hread
  | succ fuel ih =>
      rw [readDir] at hread
      unfold Fsp.readBlocks
      cases hfill : fillBuffer interact (ubufMaxspace + 1) v with
      | none =>
          rw [hfill] at hread
          cases hread
      | some v₁ =>
          rw [hfill] at hread
          simp only at hread
          obtain ⟨s₁, hfilled⟩ := h.fillBlocks hfill s
          rw [bind_of_ok hfilled]
          simp only
          split_ifs at hread ⊢
          · obtain rfl := Option.some.inj hread
            exact ⟨s₁, rfl⟩
          · exact ih hread s₁

/-- An error at the first request ends `get_dir_blk`. -/
theorem readBlocks_error {ub : Ubuf} {stack : ByteString}
    (hfits : (call 0).p1.length + (call 0).p2.length ≤ ubufMaxspace) (htakes : (call 0).Takes ub)
    (hreply : ∀ trace, net trace (call 0) = ub) (herr : ub.cmd = ccErr) (fuel : ℕ)
    (s : ClientState) :
    ∃ s', readBlocks net call (fuel + 1) ⟨0, false, 0, stack, 0, []⟩ s = .ok none s' := by
  have htakes' : (call 0).Takes (net s.trace (call 0)) := (hreply s.trace).symm ▸ htakes
  have hcall := clientInteract_of_takes hfits htakes'
  have hfill : ∃ s', fillBlocks net call (ubufMaxspace + 1) ⟨0, false, 0, stack, 0, []⟩ s =
      .ok none s' := by
    unfold fillBlocks
    rw [if_pos ⟨Nat.zero_lt_succ _, Bool.false_ne_true⟩]
    simp only
    rw [bind_of_ok hcall, hreply, if_pos herr]
    exact ⟨_, rfl⟩
  obtain ⟨s₁, hfilled⟩ := hfill
  refine ⟨s₁, ?_⟩
  unfold readBlocks
  rw [bind_of_ok hfilled]
  rfl

end

/-! ## The requests for a listing -/

/-- A request of `get_dir_blk` for a part of the listing of a directory. -/
def dirCall (env : ClientEnv) (fpath : ByteString) (pos : ℕ) : Call :=
  pathCall .getDir pos (utilAbsPath env fpath) env.netLen

theorem utilAbsPath_ne_nil (env : ClientEnv) (path : ByteString) : utilAbsPath env path ≠ [] := by
  obtain ⟨t, x, -, hx, -, habs⟩ := exists_spelled_utilAbsPath env path
  have hne : x ≠ [] := by
    intro hnil
    have hhead := hx.head?
    rw [hnil] at hhead
    cases hhead
  rcases habs with habs | habs
  · rw [habs]
    exact hne
  · rw [habs]
    exact List.append_ne_nil_of_left_ne_nil hne _

/-- What the server reads of a path in a request. -/
theorem data_pathCall {fpath : ByteString} (hpath : fpath ≠ [])
    (hfits : (fpath.tail ++ [0]).length ≤ ubufMaxspace) (cmd : Command) (pos : ℕ)
    (p2 : ByteString) : (pathCall cmd pos fpath p2).ubuf.data = fpath.tail ++ [0] := by
  have hmax : ubufMaxspace = 4380 := rfl
  have hpos := List.length_pos_iff.mpr hpath
  have hlen : (fpath.tail ++ [0]).length = fpath.length := by
    rw [List.length_append, List.length_tail, List.length_singleton]
    omega
  show (fpath.tail ++ [0] ++ p2).take (UInt16.ofNat fpath.length).toNat = _
  rw [UInt16.toNat_ofNat', Nat.mod_eq_of_lt (by omega), ← hlen, List.take_left]

/-- A block of the listing at a position that `get_dir_blk` asks for. -/
theorem dirBlock_asked {cfg : Config} {listing : ByteString} {pos : ℕ}
    (hshort : listing.length < 4294967296) (h : AskedOf (dirblocksize cfg) listing pos) :
    dirBlock cfg listing pos = .ok ((listing.drop pos).take (dirblocksize cfg)) := by
  obtain ⟨hle, haligned⟩ := h
  have hsize : min cfg.packetsize.toNat ubufSpace = dirblocksize cfg := rfl
  unfold dirBlock
  rw [hsize]
  by_cases hend : listing.length ≤ pos
  · rw [if_pos hend, List.drop_of_length_le hend, List.take_nil]
  · rw [if_neg hend, Nat.mod_eq_of_lt (by omega)]
    simp only
    have hrest : ((listing.drop pos).take (dirblocksize cfg)).length ≤ listing.length - pos := by
      rw [List.length_take, List.length_drop]
      exact Nat.min_le_right _ _
    rw [if_neg fun h => h.2 (haligned.resolve_right fun heq => hend heq.ge), ← List.take_take,
      List.take_of_length_le hrest]

/-- The replies to the requests for a listing at the positions that `get_dir_blk` asks for. -/
def blockReplies (size : ℕ) (listing : ByteString) (call : ℕ → Call) (pos : ℕ) : Option Ubuf :=
  if pos ≤ listing.length ∧ (pos % size = 0 ∨ pos = listing.length) then
    some (replyTo (call pos).ubuf ((listing.drop pos).take size) [])
  else none

theorem servesBlocksOf_blockReplies {size : ℕ} {listing : ByteString} (hsize : size ≤ ubufSpace)
    {call : ℕ → Call} (hcmd : ∀ pos, (call pos).cmd = Command.getDir.code) :
    ServesBlocksOf size listing (blockReplies size listing call) := by
  intro pos hasked
  have hspace : ubufSpace = 1024 := rfl
  have hlen : ((listing.drop pos).take size).length = min size (listing.length - pos) := by
    rw [List.length_take, List.length_drop]
  have hbbLen : (UInt16.ofNat ((listing.drop pos).take size).length).toNat =
      ((listing.drop pos).take size).length := by
    rw [UInt16.toNat_ofNat', Nat.mod_eq_of_lt (by omega)]
  refine ⟨_, if_pos hasked, ?_, hbbLen.trans hlen, ?_⟩
  · show (call pos).cmd ≠ ccErr
    rw [hcmd]
    decide
  · show (((listing.drop pos).take size) ++ []).take (UInt16.ofNat _).toNat = _
    rw [List.append_nil, hbbLen, List.take_length]

/-- There are no more full blocks than bytes. -/
theorem length_blocks_le {size : ℕ} (hpositive : 0 < size) {groups : List (List Entry)}
    {blocks : List ByteString} (h : List.Forall₂ (FullBlockOf size) groups blocks) :
    blocks.length ≤ blocks.flatten.length := by
  induction h with
  | nil => exact le_rfl
  | cons hblock _ ih =>
      obtain ⟨_, _, _, _, hlen⟩ := hblock
      rw [List.flatten_cons, List.length_append, List.length_cons, hlen]
      omega

namespace ListedSite

variable (site : ListedSite) {env : ClientEnv} {fpath : ByteString} {d : DirInfo}

theorem proper_entries (d : DirInfo) : ∀ e ∈ site.entries d, ProperName e.1.name := by
  intro e he
  obtain ⟨dp, hdp, rfl⟩ := List.mem_map.mp he
  exact site.proper _ dp hdp

/-- The entries of the directory fit into blocks, and the positions in its listing into a message. -/
structure Readable (d : DirInfo) : Prop where
  packs : Packs (dirblocksize site.cfg) 0 ((site.entries d).filterMap visibleEntry)
  short : ∀ listing, buildDirListing site.cfg (site.entries d) = some listing →
    listing.length < 4294967296

/-- The server lists the directory for the client. -/
structure Opens (env : ClientEnv) (fpath : ByteString) (d : DirInfo) : Prop where
  fits : ((utilAbsPath env fpath).tail ++ [0]).length + env.netLen.length ≤ ubufMaxspace
  valid : ∃ pp, site.validatePath ((utilAbsPath env fpath).tail ++ [0]) true = .ok (pp, d) ∧
    LetsPass (requireAccessRights site.cfg d dirList site.inetNum pp.passwd)
  readable : site.Readable d

variable {site}

/-- The server answers with the block of the listing. -/
theorem Opens.answer (h : site.Opens env fpath d) {listing : ByteString}
    (hbuild : buildDirListing site.cfg (site.entries d) = some listing) {pos : ℕ}
    (hasked : AskedOf (dirblocksize site.cfg) listing pos) :
    site.answer (dirCall env fpath pos) =
      some (replyTo (dirCall env fpath pos).ubuf
        ((listing.drop pos).take (dirblocksize site.cfg)) []) := by
  have hshort := h.readable.short listing hbuild
  obtain ⟨pp, hvalid, hI, hD⟩ := h.valid
  have hfits := h.fits
  have hdata : (dirCall env fpath pos).ubuf.data = (utilAbsPath env fpath).tail ++ [0] :=
    data_pathCall (utilAbsPath_ne_nil env fpath) (by omega) _ _ _
  have hpos : (dirCall env fpath pos).ubuf.bbPos.toNat = pos := by
    show (UInt32.ofNat pos).toNat = pos
    rw [UInt32.toNat_ofNat', Nat.mod_eq_of_lt (hasked.1.trans_lt hshort)]
  show site.answerGetDir (dirCall env fpath pos).ubuf = _
  unfold answerGetDir
  rw [hdata, hvalid]
  simp only
  rw [if_neg hI, if_neg hD, hbuild, Option.map_some, hpos,
    dirReply_of_ok (dirBlock_asked hshort hasked)]

/-- The client reads the visible entries of the directory. -/
theorem readBlocks_listed (h : site.Opens env fpath d) (stack : ByteString) (s : ClientState) :
    ∃ s', readBlocks site.net (dirCall env fpath) listingFuel ⟨0, false, 0, stack, 0, []⟩ s =
      .ok (some (visibleDirents (site.entries d))) s' := by
  obtain ⟨hhsize, hsize⟩ := dirblocksize_bounds site.cfg
  have hnine : rdhsize = 9 := rfl
  obtain ⟨groups, last, blocks, lastBlock, hblocks, hbuild, hentries⟩ :=
    buildDirListing_packs h.readable.packs
  have hshort := h.readable.short _ hbuild
  have hanswers : AnswersAs site.net (dirCall env fpath)
      (blockReplies (dirblocksize site.cfg) (blocks.flatten ++ lastBlock) (dirCall env fpath)) := by
    refine ⟨fun _ => h.fits, ?_, ?_⟩
    · intro pos ub hub
      unfold blockReplies at hub
      split_ifs at hub with hasked
      obtain rfl := Option.some.inj hub
      apply UploadSite.takes_replyTo _ _ (Or.inl rfl)
      intro _
      show (UInt32.ofNat pos).toNat = pos
      rw [UInt32.toNat_ofNat', Nat.mod_eq_of_lt (hasked.1.trans_lt hshort)]
    · intro pos ub hub trace
      unfold blockReplies at hub
      split_ifs at hub with hasked
      obtain rfl := Option.some.inj hub
      show (site.answer _).getD _ = _
      rw [h.answer hbuild hasked, Option.getD_some]
  have hnames : ∀ e ∈ groups.flatten ++ last, (0 : UInt8) ∉ e.1 := by
    rw [hentries]
    intro e he
    exact (properName_of_visible (site.proper_entries d) e he).zero_notMem
  have hserves : ServesBlocksOf (dirblocksize site.cfg) (blocks.flatten ++ lastBlock)
      (blockReplies (dirblocksize site.cfg) (blocks.flatten ++ lastBlock) (dirCall env fpath)) :=
    servesBlocksOf_blockReplies hsize fun _ => rfl
  have hread := readDir_blocksOf (by omega) hsize hserves hblocks hnames
    (fetchedOf_start (dirblocksize site.cfg) _ stack) List.drop_zero
  have hcount := length_blocks_le (by omega) hblocks.full
  have hfuel : blocks.length + 1 ≤ listingFuel := by
    rw [List.length_append] at hshort
    show blocks.length + 1 ≤ 4294967296
    omega
  rw [hentries] at hread
  exact hanswers.readBlocks (readDir_mono (fun _ _ h => h) hfuel hread) s

/-- Of a directory that the server does not find the client reads nothing. -/
theorem readBlocks_refused {pe : ByteString}
    (hfits : ((utilAbsPath env fpath).tail ++ [0]).length + env.netLen.length ≤ ubufMaxspace)
    (hvalid : site.validatePath ((utilAbsPath env fpath).tail ++ [0]) true = .error pe)
    (stack : ByteString) (s : ClientState) :
    ∃ s', readBlocks site.net (dirCall env fpath) listingFuel ⟨0, false, 0, stack, 0, []⟩ s =
      .ok none s' := by
  have hdata : (dirCall env fpath 0).ubuf.data = (utilAbsPath env fpath).tail ++ [0] :=
    data_pathCall (utilAbsPath_ne_nil env fpath) (by omega) _ _ _
  have hanswer : site.answer (dirCall env fpath 0) =
      some (errorReply (dirCall env fpath 0).ubuf pe) := by
    show site.answerGetDir (dirCall env fpath 0).ubuf = _
    unfold answerGetDir
    rw [hdata, hvalid]
  have hreply : ∀ trace, site.net trace (dirCall env fpath 0) =
      errorReply (dirCall env fpath 0).ubuf pe := by
    intro trace
    show (site.answer _).getD _ = _
    rw [hanswer, Option.getD_some]
  exact readBlocks_error hfits (UploadSite.takes_replyTo _ _ (Or.inr rfl) fun _ => rfl) hreply rfl
    4294967295 s

/-! ## Cached listings -/

/-- The listings that the client holds are those that it read from this server. -/
def Heard (site : ListedSite) (env : ClientEnv) (s : ClientState) : Prop :=
  ∀ fpath dep, s.ddroot.lookup fpath = some dep → ∃ s₁ s₂,
    readBlocks site.net (dirCall env fpath) listingFuel
      ⟨0, false, 0, List.replicate nbsize 0, 0, []⟩ s₁ = .ok (some dep) s₂

variable {ppath : ByteString} {s : ClientState}

/-- A listing is the same, whether it is read or cached. -/
theorem utilOpendir_of_reads {res : Option (List Rdirent)} (hheard : Heard site env s)
    (hreads : ∀ s, ∃ s', readBlocks site.net (dirCall env (utilAbsPath env ppath)) listingFuel
      ⟨0, false, 0, List.replicate nbsize 0, 0, []⟩ s = .ok res s') :
    ∃ s', utilOpendir site.net env ppath s = .ok res s' := by
  have hget : (get : Client ClientState) s = .ok s s := rfl
  unfold utilOpendir
  simp only
  rw [bind_of_ok hget]
  cases hlookup : s.ddroot.lookup (utilAbsPath env ppath) with
  | some dep =>
      obtain ⟨s₁, s₂, hread⟩ := hheard _ dep hlookup
      obtain ⟨s', hread'⟩ := hreads s₁
      rw [hread] at hread'
      injection hread' with hres _
      rw [← hres]
      exact ⟨s, rfl⟩
  | none =>
      obtain ⟨s₁, hread⟩ := hreads s
      have hread' : readBlocks site.net
          (fun pos => pathCall .getDir pos (utilAbsPath env (utilAbsPath env ppath)) env.netLen)
          listingFuel ⟨0, false, 0, List.replicate nbsize 0, 0, []⟩ s = .ok res s₁ := hread
      simp only
      rw [bind_of_ok hread']
      cases res with
      | none => exact ⟨s₁, rfl⟩
      | some dep => exact ⟨_, rfl⟩

theorem keeps_clientInteract (net : Net) (c : Call) :
    Does (Same ClientState.ddroot) (clientInteract net c) := by
  have hrecord : ∀ e, Does (Same ClientState.ddroot) (record e) := fun _ _ => rfl
  refine does_bind does_get fun s => ?_
  apply does_bind (hrecord _)
  intro _
  apply does_ite
  · exact fun _ => does_throw _
  · intro _
    apply does_ite
    · exact fun _ => does_bind (hrecord _) fun _ => does_pure _
    · exact fun _ => does_throw _

theorem keeps_fillBlocks (net : Net) (call : ℕ → Call) (fuel : ℕ) (v : DirFetch) :
    Does (Same ClientState.ddroot) (fillBlocks net call fuel v) := by
  induction fuel generalizing v with
  | zero =>
      unfold fillBlocks
      exact does_ite (fun _ => does_throw _) fun _ => does_pure _
  | succ fuel ih =>
      unfold fillBlocks
      apply does_ite
      · intro _
        apply does_bind (keeps_clientInteract net _)
        intro ub
        exact does_ite (fun _ => does_pure _) fun _ => ih _
      · exact fun _ => does_pure _

/-- The listings that are held stay as they are while another one is fetched. -/
theorem keeps_readBlocks (net : Net) (call : ℕ → Call) (fuel : ℕ) (v : DirFetch) :
    Does (Same ClientState.ddroot) (readBlocks net call fuel v) := by
  induction fuel generalizing v with
  | zero => exact does_throw _
  | succ fuel ih =>
      apply does_bind (keeps_fillBlocks net call _ _)
      intro v
      cases v with
      | none => exact does_pure _
      | some v => exact does_ite (fun _ => does_pure _) fun _ => ih _

theorem Heard.of_ddroot_eq {s' : ClientState} (h : Heard site env s) (heq : s'.ddroot = s.ddroot) :
    Heard site env s' := by
  unfold Heard
  rw [heq]
  exact h

theorem heard_newClient (site : ListedSite) (env : ClientEnv) : Heard site env newClient := by
  intro fpath dep hlookup
  cases hlookup

/-- What `util_opendir` adds to the listings was read from the server. -/
theorem heard_utilOpendir (site : ListedSite) (env : ClientEnv) (ppath : ByteString) :
    Preserves (Heard site env) (utilOpendir site.net env ppath) := by
  apply preserves_of_wp
  intro s hs
  have hget : (get : Client ClientState) s = .ok s s := rfl
  unfold utilOpendir wp
  simp only
  rw [bind_of_ok hget]
  cases hlookup : s.ddroot.lookup (utilAbsPath env ppath) with
  | some dep => exact hs
  | none =>
      have hkeeps : Same ClientState.ddroot s _ := keeps_readBlocks site.net
        (dirCall env (utilAbsPath env ppath)) listingFuel
        ⟨0, false, 0, List.replicate nbsize 0, 0, []⟩ s
      have hread : wp (readBlocks site.net (dirCall env (utilAbsPath env ppath)) listingFuel
          ⟨0, false, 0, List.replicate nbsize 0, 0, []⟩)
          (fun res s₁ => s₁.ddroot = s.ddroot ∧ readBlocks site.net
            (dirCall env (utilAbsPath env ppath)) listingFuel
            ⟨0, false, 0, List.replicate nbsize 0, 0, []⟩ s = .ok res s₁)
          (Heard site env) s := by
        unfold wp
        cases hres : readBlocks site.net (dirCall env (utilAbsPath env ppath)) listingFuel
            ⟨0, false, 0, List.replicate nbsize 0, 0, []⟩ s with
        | ok res s₁ =>
            rw [hres] at hkeeps
            exact ⟨hkeeps, rfl⟩
        | error halt s₁ =>
            rw [hres] at hkeeps
            exact hs.of_ddroot_eq hkeeps
      apply wp_seq hread
      intro res s₁ ⟨hddroot, hres⟩
      cases res with
      | none => exact hs.of_ddroot_eq hddroot
      | some dep =>
          intro fpath dep' hlookup'
          rw [show (_ : ClientState).ddroot = (utilAbsPath env ppath, dep) :: s₁.ddroot from rfl,
            List.lookup_cons] at hlookup'
          split at hlookup'
          · rename_i heq
            rw [eq_of_beq heq, ← Option.some.inj hlookup']
            exact ⟨s, s₁, hres⟩
          · rw [hddroot] at hlookup'
            exact hs fpath dep' hlookup'

/-- So it is for `util_stat`. -/
theorem heard_utilStat (site : ListedSite) (env : ClientEnv) (path : ByteString) :
    Preserves (Heard site env) (utilStat site.net env path) := by
  have hlisted : ∀ ppath pfile, Preserves (Heard site env) (statListed site.net env ppath pfile) := by
    intro ppath pfile
    apply does_bind (heard_utilOpendir site env ppath)
    intro dep
    cases dep <;> exact does_pure _
  have hcall : ∀ c, Preserves (Heard site env) (clientInteract site.net c) := fun c s hs =>
    hs.of_ddroot_eq (keeps_clientInteract site.net c s)
  have hmodify : Preserves (Heard site env)
      (modify fun s => { s with statworks := false } : Client Unit) := fun s hs =>
    Heard.of_ddroot_eq hs rfl
  refine does_bind does_get fun s => ?_
  apply does_ite
  · intro _
    apply does_bind (hcall _)
    intro ub
    apply does_ite
    · exact fun _ => does_ite (fun _ => does_pure _) fun _ => does_pure _
    · exact fun _ => does_bind hmodify fun _ => hlisted _ _
  · exact fun _ => hlisted _ _

/-! ## The search -/

/-- The object `sb` stands in the directory under the name. -/
def Lists (site : ListedSite) (d : DirInfo) (name : ByteString) (sb : Stat) : Prop :=
  (∃ dp ∈ site.dirents d.realname, dp.name = name ∧ dp.ino ≠ 0) ∧ hiddenName name = false ∧
    sb.kind ≠ .other ∧ site.files (d.realname ++ [slash] ++ name) = some sb

/-- An entry of the directory that is visible. -/
theorem mem_visible {e : Entry} (h : e ∈ (site.entries d).filterMap visibleEntry) :
    ∃ dp ∈ site.dirents d.realname, dp.name = e.1 ∧
      site.files (d.realname ++ [slash] ++ dp.name) = some e.2 := by
  obtain ⟨⟨dp, found⟩, hmem, hvisible⟩ := List.mem_filterMap.mp h
  obtain ⟨dp', hdp, heq⟩ := List.mem_map.mp hmem
  obtain ⟨rfl, hfound⟩ := Prod.mk.inj heq
  refine ⟨dp', hdp, ?_⟩
  rw [hfound]
  cases found with
  | none => cases hvisible
  | some sb =>
      simp only [visibleEntry] at hvisible
      split_ifs at hvisible
      obtain rfl := Option.some.inj hvisible
      exact ⟨rfl, rfl⟩

/-- The search in a listing finds the object that stands in the directory. -/
theorem find_visibleDirents {name : ByteString} {sb : Stat} (h : Lists site d name sb) :
    (visibleDirents (site.entries d)).find? (fun e => e.name = name) =
      some (rdirent (name, sb)) := by
  obtain ⟨⟨dp, hdp, hname, hino⟩, hhidden, hkind, hfile⟩ := h
  have hvisible : visibleEntry (dp, site.files (d.realname ++ [slash] ++ dp.name)) =
      some (name, sb) := by
    rw [hname, hfile]
    show (if dp.ino = 0 ∨ hiddenName dp.name = true ∨ sb.kind = .other then none
      else some (dp.name, sb)) = some (name, sb)
    rw [if_neg, hname]
    rw [hname, hhidden]
    simp [hino, hkind]
  have hmem : (name, sb) ∈ (site.entries d).filterMap visibleEntry :=
    List.mem_filterMap.mpr ⟨_, List.mem_map.mpr ⟨dp, hdp, rfl⟩, hvisible⟩
  unfold visibleDirents
  rw [List.find?_map]
  cases hfind : ((site.entries d).filterMap visibleEntry).find?
      ((fun e => decide (e.name = name)) ∘ rdirent) with
  | none =>
      have hnot := List.find?_eq_none.mp hfind _ hmem
      exact absurd (decide_eq_true rfl) hnot
  | some e =>
      -- entries with the same name come from the same `stat`
      obtain ⟨dp', -, hname', hfile'⟩ := mem_visible (List.mem_of_find?_eq_some hfind)
      have htest := List.find?_some hfind
      have hename : e.1 = name := of_decide_eq_true htest
      rw [hname', hename, hfile] at hfile'
      rw [← hename, Option.some.inj hfile']
      rfl

/-- It finds nothing where there is no such name. -/
theorem find_visibleDirents_none {name : ByteString}
    (h : ∀ dp ∈ site.dirents d.realname, dp.name ≠ name) :
    (visibleDirents (site.entries d)).find? (fun e => e.name = name) = none := by
  rw [List.find?_eq_none]
  intro e he
  obtain ⟨e', he', rfl⟩ := List.mem_map.mp he
  obtain ⟨dp, hdp, hname, -⟩ := mem_visible he'
  intro heq
  exact h dp hdp (hname.trans (of_decide_eq_true heq))

end ListedSite

end Fsp
