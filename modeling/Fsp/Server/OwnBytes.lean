import Fsp.Scenario
import Fsp.Server.Rounds

/-!
# The bytes a request is decided by

`recvfrom` writes `n` bytes to the start of `rbuf` and leaves what stands behind them as it was.
When it fails, it writes nothing, and the unsigned `bytes` is then so large that `server_loop` goes
on with the message that an earlier datagram has left there.  `ReadsByte` lists the places where
the bytes of `rbuf` are read; `ownBytes_iff` says when all of them are among the first `n`, and when
what stands behind does not matter: `CC_SET_PRO` and `CC_RENAME` index their extra data without a
look at its length.
-/

namespace Fsp

open Bytes Effect

variable {Fs Cwd : Type}

/-! ## Receiving -/

/-- What `recvfrom` comes to. -/
inductive Recvfrom where
  | failed
  | datagram
  deriving DecidableEq, Repr

/-- How many bytes of `rbuf` are those of the datagram. -/
def received (out : Recvfrom) (a : Arrival Fs) : ℕ :=
  match out with
  | .failed => 0
  | .datagram => a.bytes.length

/-- The value of the unsigned `bytes` in `server_loop`: that of -1 when `recvfrom` fails. -/
def bytesOf (out : Recvfrom) (a : Arrival Fs) : ℕ :=
  match out with
  | .failed => 4294967295
  | .datagram => a.bytes.length

section

variable [Posix Fs Cwd]

/-- `serverAccept` after `recvfrom` has failed: the loop of the checksum runs 4 GiB behind the start
of `rbuf`. -/
def serverAcceptFailed (cfg : Config) (a : Arrival Fs) (ub : Ubuf) : Srv Fs Cwd Unit := do
  let s ← get
  let found := findHost cfg.noUnnamed s.htab a.client.addr a.findHostname
  let hp := found.1
  modify fun s => { s with htab := found.2 }
  let h ← host hp
  if h.hostname = none ∧ cfg.noUnnamed then sendError cfg a.client ub reverseErrMsg
  else do
    modify fun s => { s with curTime := a.now }
    match checkKey cfg h ub.bbKey a.now with
    | none => pure ()
    | some (_, h) => do
        setHost hp fun _ => { h with active := true, lastAcc := a.now }
        throw .undefined

/-- `serverReceive` after `recvfrom` has failed, with `from` and `rbuf` as they were: all of `rbuf`
stands behind the bytes received. -/
def serverFailed (cfg : Config) (a : Arrival Fs) : Srv Fs Cwd Unit :=
  let size := ubufHsize + ubufMaxspace
  -- no length in the header is too large for `bytes`
  match Ubuf.decode ((a.behind ++ List.replicate size 0).take size) with
  | none => pure ()
  | some ub =>
      match hostType cfg a.client.addr with
      | 0x44 :: msg =>
          if ub.cmd = ccBye then serverAcceptFailed cfg a ub
          else sendError cfg a.client ub msg
      | 0x49 :: _ => pure ()
      | 0x4E :: _ => serverAcceptFailed cfg a ub
      | _ => throw (.exit 99)

/-- One round of `server_loop`, for any outcome of `recvfrom`. -/
def serverRecv (cfg : Config) (out : Recvfrom) (a : Arrival Fs) : Srv Fs Cwd Unit :=
  match out with
  | .failed => do
      modify fun s => s.meets a
      serverFailed cfg a
  | .datagram => serverRound cfg a

/-! ## Reading -/

/-- `validate_path` and `CHECK_ACCESS_RIGHTS` let a request through. -/
def Granted (cfg : Config) (r : Request) (wantDirectory : Bool) (rights : UInt8)
    (s : Server Fs Cwd) : Prop :=
  ∃ pp di s', validatePath cfg r.s1 wantDirectory s = .ok (.ok (pp, di)) s' ∧
    let pe := requireAccessRights cfg (s'.dirStatCache.entry di) rights r.inetNum pp.passwd
    pe.head? ≠ some 0x49 ∧ pe.head? ≠ some 0x44

/-- A new request for a change reaches the part of its command behind `CHECK_ACCESS_RIGHTS`. -/
structure Proceeds (cfg : Config) (a : Arrival Fs) (s : Server Fs Cwd) (ub : Ubuf) (h : HTab)
    (cmd : Command) (wantDirectory : Bool) (rights : UInt8) : Prop extends
    Dispatches cfg a s ub false h where
  command : Command.ofByte ub.cmd = cmd
  writable : cfg.readOnly = false
  granted : Granted cfg (requestOf a ub false h) wantDirectory rights
    (dispatchState cfg a s false h)

/-- A `CC_SET_PRO` that gets to `server_set_pro`. -/
def SetsPro (cfg : Config) (a : Arrival Fs) (s : Server Fs Cwd) (ub : Ubuf) (h : HTab) : Prop :=
  Proceeds cfg a s ub h .setPro true dirOwner

/-- A `CC_RENAME` that gets to its target. -/
def Renames (cfg : Config) (a : Arrival Fs) (s : Server Fs Cwd) (ub : Ubuf) (h : HTab) : Prop :=
  Proceeds cfg a s ub h .rename false dirRename

/-- Where the extra data of a message starts in `rbuf`. -/
def xtraStart (ub : Ubuf) : ℕ := ubufHsize + ub.bbLen.toNat

/-- A round reads the byte of `rbuf` with the index `i`. -/
inductive ReadsByte (cfg : Config) (a : Arrival Fs) (s : Server Fs Cwd) : Recvfrom → ℕ → Prop
  /-- `rlen = BB_READ2 (rbuf.bb_len)`, once there seem to be enough bytes for a header. -/
  | bbLen {out : Recvfrom} {i : ℕ} : ubufHsize ≤ bytesOf out a → i = 6 ∨ i = 7 →
      ReadsByte cfg a s out i
  /-- The other fields of the header. -/
  | header {ub : Ubuf} {i : ℕ} : Reads a ub → i < ubufHsize → ReadsByte cfg a s .datagram i
  /-- The checksum. -/
  | sum {ub : Ubuf} {old : Bool} {h : HTab} {i : ℕ} : Knocks cfg a s ub →
      checkKey cfg (clientRecord cfg a s) ub.bbKey a.now = some (old, h) →
      i < a.bytes.length → ReadsByte cfg a s .datagram i
  /-- `s1` and `s2` within their lengths, as every command reads them. -/
  | parts {ub : Ubuf} {old : Bool} {h : HTab} {i : ℕ} : Dispatches cfg a s ub old h →
      i < xtraStart ub + ub.xtra.length → ReadsByte cfg a s .datagram i
  /-- `key[1]` in `server_set_pro`. -/
  | proAct {ub : Ubuf} {h : HTab} : SetsPro cfg a s ub h →
      ReadsByte cfg a s .datagram (xtraStart ub + 1)
  /-- `key[0]`, which is only looked at when `key[1]` is one of the letters. -/
  | proSign {ub : Ubuf} {h : HTab} : SetsPro cfg a s ub h →
      proAct ((requestOf a ub false h).s2At 1) ≠ none →
      ReadsByte cfg a s .datagram (xtraStart ub)
  /-- `s2[l2-1]`, with an unsigned index. -/
  | targetEnd {ub : Ubuf} {h : HTab} : Renames cfg a s ub h →
      ReadsByte cfg a s .datagram
        (xtraStart ub + (ub.xtra.length + 4294967295) % 4294967296)
  /-- `FSP_STAT (s2, &sb)`, up to the first zero. -/
  | target {ub : Ubuf} {h : HTab} {i : ℕ} : Renames cfg a s ub h →
      (requestOf a ub false h).s2At ((ub.xtra.length + 4294967295) % 4294967296) = 0 →
      i ≤ (cstr (ub.xtra ++ a.behind)).length → ReadsByte cfg a s .datagram (xtraStart ub + i)

/-- A round reads only bytes that were received with its datagram, and does the same whatever
stands behind them. -/
structure OwnBytes (cfg : Config) (out : Recvfrom) (a : Arrival Fs) (s : Server Fs Cwd) : Prop where
  reads : ∀ i, ReadsByte cfg a s out i → i < received out a
  behind : ∀ behind, serverRecv cfg out { a with behind } s = serverRecv cfg out a s

/-! ## What stands behind -/

variable {cfg : Config} {a : Arrival Fs} {s : Server Fs Cwd} {ub : Ubuf} {r : Request}

omit [Posix Fs Cwd] in
/-- A byte of the extra data itself. -/
theorem s2At_behind {i : ℕ} (hi : i < r.s2.length) (behind : ByteString) :
    Request.s2At { r with behind } i = r.s2At i := by
  show (r.s2 ++ behind).getD i 0 = (r.s2 ++ r.behind).getD i 0
  rw [List.getD_eq_getElem?_getD, List.getD_eq_getElem?_getD, List.getElem?_append_left hi,
    List.getElem?_append_left hi]

/-- Commands that get through the same checks and then agree. -/
theorem validated_congr {r' : Request} {wantDirectory : Bool} {rights : UInt8}
    {next next' : PPath → ℕ → Srv Fs Cwd Unit} (hs1 : r'.s1 = r.s1)
    (hrefuse : ∀ msg, (refuse cfg r' msg : Srv Fs Cwd Unit) = refuse cfg r msg)
    (haccess : ∀ di passwd, (requireAccess cfg r' di rights passwd :
      Srv Fs Cwd ByteString) = requireAccess cfg r di rights passwd)
    (h : Granted cfg r wantDirectory rights s → next = next') :
    validated cfg r' wantDirectory (fun pp di =>
        checkAccessRights cfg r' di rights pp.passwd fun _ => next pp di) s =
      validated cfg r wantDirectory (fun pp di =>
        checkAccessRights cfg r di rights pp.passwd fun _ => next' pp di) s := by
  unfold validated
  rw [hs1]
  apply bind_congr_of_ok
  intro res s₁ hres
  cases res with
  | error pe => exact congrFun (hrefuse pe) s₁
  | ok res =>
      obtain ⟨pp, di⟩ := res
      show checkAccessRights cfg r' di rights pp.passwd _ s₁ = checkAccessRights cfg r di _ _ _ s₁
      unfold checkAccessRights
      rw [haccess]
      apply bind_congr_of_ok
      intro pe s₂ hpe
      have hans : pe = requireAccessRights cfg (s₁.dirStatCache.entry di) rights r.inetNum
          pp.passwd := by
        injection hpe with hpe _
        exact hpe.symm
      split_ifs with hI hD
      · rfl
      · exact congrFun (hrefuse _) s₂
      · rw [h ⟨pp, di, s₁, hres, by rw [← hans]; exact hI, by rw [← hans]; exact hD⟩]

theorem caseSetPro_behind (behind : ByteString)
    (h : cfg.readOnly = false → r.old = false → Granted cfg r true dirOwner s →
      2 ≤ r.s2.length) :
    caseSetPro cfg { r with behind } s = caseSetPro cfg r s := by
  obtain ⟨client, ub, old, inetNum, before, junk⟩ := r
  unfold caseSetPro
  by_cases hreadOnly : cfg.readOnly = true
  · rw [if_pos hreadOnly, if_pos hreadOnly]
    rfl
  · rw [if_neg hreadOnly, if_neg hreadOnly]
    cases old with
    | true => rfl
    | false =>
        apply validated_congr rfl (fun _ => rfl) (fun _ _ => rfl)
        intro hgranted
        have hlen := h (by simpa using hreadOnly) rfl hgranted
        have hbyte : ∀ i < 2, Request.s2At ⟨client, ub, false, inetNum, behind, junk⟩ i =
            Request.s2At ⟨client, ub, false, inetNum, before, junk⟩ i :=
          fun i hi => s2At_behind (r := ⟨client, ub, false, inetNum, before, junk⟩)
            (by omega) behind
        funext pp di
        simp only [hbyte 0 (by omega), hbyte 1 (by omega)]
        rfl

/-- The zero at the end of the extra data also ends the C string that starts with it. -/
theorem renameTarget_behind (behind : ByteString) (hlen : r.s2.length ≠ 0)
    (hmax : r.s2.length < 4294967296) :
    (renameTarget { r with behind } : Srv Fs Cwd (Except ByteString (Option FileKind))) =
      renameTarget r := by
  have hlast : (r.s2.length + 4294967295) % 4294967296 < r.s2.length := by omega
  unfold renameTarget
  show (if Request.s2At { r with behind } ((r.s2.length + 4294967295) % 4294967296) ≠ 0 then _
    else _ : Srv Fs Cwd _) = _
  rw [s2At_behind hlast]
  by_cases hzero : r.s2At ((r.s2.length + 4294967295) % 4294967296) ≠ 0
  · rw [if_pos hzero, if_pos hzero]
  · have hmem : (0 : UInt8) ∈ r.s2 := by
      rw [not_not, Request.s2At, List.getD_eq_getElem?_getD,
        List.getElem?_append_left hlast, List.getElem?_eq_getElem hlast] at hzero
      exact hzero ▸ List.getElem_mem hlast
    rw [if_neg hzero, if_neg hzero]
    show (do match ← stat (cstr (r.s2 ++ behind)) with | _ => _ : Srv Fs Cwd _) = _
    rw [cstr_append_of_mem hmem, cstr_append_of_mem hmem]

theorem caseRename_behind (behind : ByteString) (hmax : r.s2.length < 4294967296)
    (h : cfg.readOnly = false → r.old = false → Granted cfg r false dirRename s →
      r.s2.length ≠ 0) :
    caseRename cfg { r with behind } s = caseRename cfg r s := by
  obtain ⟨client, ub, old, inetNum, before, junk⟩ := r
  unfold caseRename
  by_cases hreadOnly : cfg.readOnly = true
  · simp only [if_pos hreadOnly]
    rfl
  · simp only [if_neg hreadOnly]
    cases old with
    | true => rfl
    | false =>
        apply validated_congr rfl (fun _ => rfl) (fun _ _ => rfl)
        intro hgranted
        have hlen := h (by simpa using hreadOnly) rfl hgranted
        have htarget : (renameTarget ⟨client, ub, false, inetNum, behind, junk⟩ : Srv Fs Cwd _) =
            renameTarget ⟨client, ub, false, inetNum, before, junk⟩ :=
          renameTarget_behind (r := ⟨client, ub, false, inetNum, before, junk⟩) behind hlen hmax
        funext srcpath srcdir
        simp only [htarget]
        rfl

/-- What a request is answered does not depend on what stands behind it, unless its extra data is
too short for its command. -/
theorem serve_behind (behind : ByteString) (hp : ℕ) (hmax : r.s2.length < 4294967296)
    (hpro : Command.ofByte r.ub.cmd = .setPro → cfg.readOnly = false → r.old = false →
      Granted cfg r true dirOwner s → 2 ≤ r.s2.length)
    (hren : Command.ofByte r.ub.cmd = .rename → cfg.readOnly = false → r.old = false →
      Granted cfg r false dirRename s → r.s2.length ≠ 0) :
    serve cfg { r with behind } hp s = serve cfg r hp s := by
  unfold serve
  simp only
  cases hcmd : Command.ofByte r.ub.cmd with
  | setPro => exact caseSetPro_behind behind (hpro hcmd)
  | rename => exact caseRename_behind behind hmax (hren hcmd)
  | _ => rfl

omit [Posix Fs Cwd] in
/-- The data and the extra data end where the datagram does. -/
theorem xtraStart_add_length (hreads : Reads a ub) :
    xtraStart ub + ub.xtra.length = a.bytes.length := by
  have hlen := hreads.length_le
  have hbuf := Ubuf.length_of_decode hreads.decode
  rw [xtraStart, Ubuf.xtra, List.length_drop]
  omega

omit [Posix Fs Cwd] in
theorem length_xtra_lt (hreads : Reads a ub) : ub.xtra.length < 4294967296 := by
  have hsum := xtraStart_add_length hreads
  have hbytes : a.bytes.length ≤ ubufHsize + ubufMaxspace := by
    rw [Arrival.bytes, List.length_take]
    omega
  simp only [ubufHsize, ubufMaxspace] at hbytes
  omega

theorem serverAccept_behind (hs : HostTable s.htab) (hreads : Reads a ub)
    (hadmits : Admits cfg a.client.addr ub)
    (hpro : ∀ h, SetsPro cfg a s ub h → 2 ≤ ub.xtra.length)
    (hren : ∀ h, Renames cfg a s ub h → ub.xtra.length ≠ 0) (behind : ByteString) :
    serverAccept cfg { a with behind } ub a.bytes.length (s.meets a) =
      serverAccept cfg a ub a.bytes.length (s.meets a) := by
  by_cases hnamed : (clientRecord cfg a s).hostname = none ∧ cfg.noUnnamed = true
  · exact (serverAccept_of_unnamed (a := { a with behind }) hnamed _).trans
      (serverAccept_of_unnamed hnamed _).symm
  · have hknocks : Knocks cfg a s ub := ⟨hreads, hadmits, hnamed⟩
    have hknocks' : Knocks cfg { a with behind } s ub :=
      ⟨⟨hreads.decode, hreads.length_le⟩, hadmits, hnamed⟩
    have hrecord : checkKey cfg (clientRecord cfg { a with behind } s) ub.bbKey
        { a with behind }.now = checkKey cfg (clientRecord cfg a s) ub.bbKey a.now := rfl
    refine (serverAccept_of_knocks hs hknocks').trans ?_
    rw [serverAccept_of_knocks hs hknocks, hrecord]
    cases hkey : checkKey cfg (clientRecord cfg a s) ub.bbKey a.now with
    | none => rfl
    | some res =>
        obtain ⟨old, h⟩ := res
        show (if ub.checksum a.bytes.length = ub.sum then _ else _) =
          if ub.checksum a.bytes.length = ub.sum then _ else _
        split_ifs with hsum
        · have hdisp : Dispatches cfg a s ub old h := ⟨hknocks, hkey, hsum⟩
          have hmax : ub.xtra.length < 4294967296 := length_xtra_lt hreads
          apply serve_behind (r := requestOf a ub old h) behind _ hmax
          · rintro hcmd hwritable rfl hgranted
            exact hpro h ⟨hdisp, hcmd, hwritable, hgranted⟩
          · rintro hcmd hwritable rfl hgranted
            exact hren h ⟨hdisp, hcmd, hwritable, hgranted⟩
        · rfl

/-- A round does the same whatever stands behind the datagram, unless a request indexes extra data
it does not have. -/
theorem serverRound_behind (hs : HostTable s.htab)
    (hpro : ∀ ub h, SetsPro cfg a s ub h → 2 ≤ ub.xtra.length)
    (hren : ∀ ub h, Renames cfg a s ub h → ub.xtra.length ≠ 0) (behind : ByteString) :
    serverRound cfg { a with behind } s = serverRound cfg a s := by
  show serverReceive cfg { a with behind } (s.meets a) = serverReceive cfg a (s.meets a)
  by_cases hreads : ∃ ub, Reads a ub
  · obtain ⟨ub, hreads⟩ := hreads
    have haccept := fun hadmits =>
      serverAccept_behind hs hreads hadmits (hpro ub) (hren ub) behind
    have hreads' : Reads { a with behind } ub := ⟨hreads.decode, hreads.length_le⟩
    rw [serverReceive_of_reads hreads, serverReceive_of_reads hreads']
    simp only
    generalize hhost : hostType cfg a.client.addr = host
    by_cases hbye : ub.cmd = ccBye
    · simp only [if_pos hbye]
      split
      · exact haccept (Or.inr ⟨by rw [hhost]; rfl, hbye⟩)
      · rfl
      · exact haccept (Or.inl (by rw [hhost]; rfl))
      · rfl
    · simp only [if_neg hbye]
      split
      · rfl
      · rfl
      · exact haccept (Or.inl (by rw [hhost]; rfl))
      · rfl
  · have hshort : ∀ ub, ¬ Reads a ub := fun ub h => hreads ⟨ub, h⟩
    have hshort' : ∀ ub, ¬ Reads { a with behind } ub :=
      fun ub h => hshort ub ⟨h.decode, h.length_le⟩
    rw [serverReceive_of_not_reads hshort, serverReceive_of_not_reads hshort']

/-! ## When a round reads its own bytes -/

/-- A round is decided by the bytes of its datagram exactly when there is a datagram and, where a
`CC_SET_PRO` gets to `server_set_pro`, there are two bytes of extra data, and where a `CC_RENAME`
gets to its target, there is one. -/
theorem ownBytes_iff (cfg : Config) (out : Recvfrom) (a : Arrival Fs) (hs : HostTable s.htab) :
    OwnBytes cfg out a s ↔ out = .datagram ∧
      (∀ ub h, SetsPro cfg a s ub h → 2 ≤ ub.xtra.length) ∧
      ∀ ub h, Renames cfg a s ub h → ub.xtra.length ≠ 0 := by
  constructor
  · intro hown
    have hout : out = .datagram := by
      cases out with
      | failed =>
          have hread : ReadsByte cfg a s .failed 6 :=
            .bbLen (show ubufHsize ≤ 4294967295 by decide) (Or.inl rfl)
          exact absurd (hown.reads 6 hread) (Nat.not_lt_zero 6)
      | datagram => rfl
    subst hout
    refine ⟨rfl, ?_, ?_⟩
    · intro ub h hpro
      have hlast : xtraStart ub + 1 < a.bytes.length := hown.reads _ (.proAct hpro)
      have hsum := xtraStart_add_length hpro.reads
      omega
    · intro ub h hren
      have hlast : xtraStart ub + (ub.xtra.length + 4294967295) % 4294967296 < a.bytes.length :=
        hown.reads _ (.targetEnd hren)
      have hsum := xtraStart_add_length hren.reads
      have hmax := length_xtra_lt hren.reads
      omega
  · rintro ⟨rfl, hpro, hren⟩
    refine ⟨?_, serverRound_behind hs hpro hren⟩
    intro i hread
    show i < a.bytes.length
    cases hread with
    | bbLen hheader hi =>
        have hheader' : ubufHsize ≤ a.bytes.length := hheader
        simp only [ubufHsize] at hheader'
        omega
    | header hreads hi =>
        have hlen := hreads.length_le
        omega
    | sum hknocks hkey hi => exact hi
    | parts hdisp hi =>
        rw [xtraStart_add_length hdisp.reads] at hi
        exact hi
    | proAct hset =>
        have hsum := xtraStart_add_length hset.reads
        have hlen := hpro _ _ hset
        omega
    | proSign hset hact =>
        have hsum := xtraStart_add_length hset.reads
        have hlen := hpro _ _ hset
        omega
    | targetEnd hset =>
        have hsum := xtraStart_add_length hset.reads
        have hmax := length_xtra_lt hset.reads
        have hlen := hren _ _ hset
        omega
    | @target ub h i hset hzero hi =>
        have hsum := xtraStart_add_length hset.reads
        have hmax := length_xtra_lt hset.reads
        have hlen := hren _ _ hset
        have hlast : (ub.xtra.length + 4294967295) % 4294967296 < ub.xtra.length := by omega
        have hend : (cstr (ub.xtra ++ a.behind)).length ≤
            (ub.xtra.length + 4294967295) % 4294967296 :=
          length_cstr_le (by rw [List.length_append]; omega) hzero
        omega

end

/-- The owners of the home directory need no password, and the client is one. -/
def ownerConfig : Config := { Scenario.config with permitPasswordlessOwners := true }

def ownerStart : Server Disk Path :=
  Scenario.start ownerConfig [("h/.FSP_OWNER", .file (text "127.0.0.1 O Me"))]

/-- `CC_SET_PRO` for the home directory, with or without the two bytes of a protection. -/
def setProRequest (p2 : ByteString) (h : (Scenario.path "").length + p2.length ≤ ubufMaxspace :=
    by decide) : Arrival Disk :=
  Scenario.arrival 100 7 (Scenario.datagram .setPro 5 0 (Scenario.path "") p2 h)

theorem ownBytes_iff_setPro :
    OwnBytes ownerConfig .datagram (setProRequest (text "+c")) ownerStart ↔
      Recvfrom.datagram = .datagram ∧
        (∀ ub h, SetsPro ownerConfig (setProRequest (text "+c")) ownerStart ub h →
          2 ≤ ub.xtra.length) ∧
        ∀ ub h, Renames ownerConfig (setProRequest (text "+c")) ownerStart ub h →
          ub.xtra.length ≠ 0 :=
  ownBytes_iff ownerConfig .datagram (setProRequest (text "+c")) hostTable_initHtab

/-- Without a protection the owner's request is refused or grants the right to add files, by what
an earlier datagram has left behind. -/
theorem setProRequest_depends_on_behind :
    ¬ OwnBytes ownerConfig .datagram (setProRequest []) ownerStart := by
  intro hown
  have htraces := congrArg (fun r => (final r).trace) (hown.behind (text "+c"))
  revert htraces
  decide +kernel

end Fsp
