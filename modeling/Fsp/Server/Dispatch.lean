import Fsp.Server.File
import Fsp.Server.Host

/-!
# The server

`server/server.c`: the filter for incoming datagrams, the dispatcher and the replies.

`serverReceive` is one round of `server_loop` for one datagram.  What the round takes from outside
(the datagram, the clock, the next random key, the result of a reverse lookup) is the `Arrival`;
the rest is the state.  Each `case` of the dispatcher is a definition of its own.
-/

namespace Fsp

open Bytes

/-- A datagram as it reaches the server, and what the server then learns from outside. -/
structure Arrival (Fs : Type) where
  client : SockAddr
  datagram : ByteString
  /-- What `time` returns. -/
  now : ℤ
  /-- What `gen_next_key` returns. -/
  genNextKey : UInt16
  /-- What `find_hostname` returns for the client. -/
  findHostname : Option ByteString
  /-- What other processes have done to the files since the last datagram. -/
  world : Fs → Fs
  /-- What stands in memory behind the datagram. -/
  behind : ByteString
  /-- What stands on the stack where `server_stat` keeps a size. -/
  junk : UInt32

/-- The arguments of `server_process_packet` after its first lines: the client, the message with
the key of the reply, and whether it repeats an earlier one. -/
structure Request where
  client : SockAddr
  ub : Ubuf
  old : Bool
  inetNum : UInt32
  behind : ByteString
  junk : UInt32

namespace Request

/-- The data of the request, `l1` bytes from `s1`. -/
def s1 (r : Request) : ByteString := r.ub.data

/-- The extra data of the request, `l2` bytes from `s2`. -/
def s2 (r : Request) : ByteString := r.ub.xtra

def pos (r : Request) : ℕ := r.ub.bbPos.toNat

def portNum (r : Request) : UInt16 := r.client.port

/-- The byte `s2[i]`, also behind the datagram. -/
def s2At (r : Request) (i : ℕ) : UInt8 := (r.s2 ++ r.behind).getD i 0

end Request

/-! ## Texts -/

def readOnlyText : ByteString := text "Server is running in read-only mode"

def unknownText : ByteString := text "Unknown FSP command"

def unsupportedText : ByteString :=
  text ("Unsupported command - this server only supports version 2.8.1 or below " ++
    "of the FSP protocol")

def reverseErrMsg : ByteString :=
  text ("Permission denied -- can't identify host.\n" ++
    "  Sorry, we can't reverse name you.  If you know that your site normally\n" ++
    "  can be, try again in a few minutes when the local maps may have been\n" ++
    "  updated.  Otherwise, this service is unavailable to you; check\n" ++
    "  with your local admins for as to why this is the case.\n")

def versionText : ByteString := text "fspd 2.8.1b30"

section

variable {Fs Cwd : Type} [Posix Fs Cwd]

/-! ## Replies -/

def thcCount : ℕ := 10

/-- The per-second counts and their base after the clock has moved on to `curTime`. -/
def advanceThc (curTime : ℤ) (thc : List UInt32) (thcBase : ℤ) : List UInt32 × ℤ :=
  if thcBase < curTime then
    if thcBase + thcCount < curTime then (List.replicate thcCount 0, curTime)
    else
      let shift := (curTime - thcBase).toNat
      (List.replicate shift 0 ++ thc.take (thcCount - shift), curTime)
  else (thc, thcBase)

/-- The throughput check of `server_reply`.  A server over its limit sleeps and checks again, but
the clock it compares with is not read again, so the loop then never ends. -/
def throttle (cfg : Config) (bytes : ℕ) : Srv Fs Cwd Unit := do
  if cfg.maxthcallowed = 0 then pure ()
  else do
    let s ← get
    let (thc, thcBase) := advanceThc s.curTime s.thc s.thcBase
    let thcsum := thc.foldl (· + ·) 0 / 10
    if thcsum ≤ cfg.maxthcallowed then
      modify fun s =>
        { s with thc := thc.set 0 (thc.getD 0 0 + UInt32.ofNat bytes), thcBase := thcBase }
    else throw .hang

/-- The message `server_reply` sends. -/
def replyTo (ub : Ubuf) (data xtra : ByteString) : Ubuf :=
  let ub := { ub with bbLen := UInt16.ofNat data.length, buf := data ++ xtra }
  { ub with sum := ub.checksum 0 }

/-- `server_reply` -/
def serverReply (cfg : Config) (client : SockAddr) (ub : Ubuf) (data xtra : ByteString) :
    Srv Fs Cwd Unit := do
  let datagram := (replyTo ub data xtra).encode
  throttle cfg datagram.length
  let sent ← query fun (fs : Fs) _ => Posix.sendto fs client.addr client.port datagram
  if sent then emit (.sent client datagram) else throw (.exit 9)

/-- `send_error` -/
def sendError (cfg : Config) (client : SockAddr) (ub : Ubuf) (msg : ByteString) :
    Srv Fs Cwd Unit :=
  serverReply cfg client { ub with cmd := ccErr, bbPos := 0 } (msg ++ [0]) []

/-- `send_error` to the client of a request. -/
def refuse (cfg : Config) (r : Request) (msg : ByteString) : Srv Fs Cwd Unit :=
  sendError cfg r.client r.ub msg

/-- `server_reply` to the client of a request. -/
def reply (cfg : Config) (r : Request) (data xtra : ByteString) : Srv Fs Cwd Unit :=
  serverReply cfg r.client r.ub data xtra

/-- How many bytes a request for file data asks for, from its extra data. -/
def requestedLen (cfg : Config) (lp : ByteString) : ℕ :=
  match lp with
  | [hi, lo] =>
      let len := hi.toNat * 256 + lo.toNat
      if cfg.packetsize.toNat < len then cfg.packetsize.toNat
      else if len = 0 then ubufSpace
      else len
  | _ => min cfg.packetsize.toNat ubufSpace

/-- `serve_file` -/
def serveFile (cfg : Config) (r : Request) (fp : Handle) : Srv Fs Cwd Unit := do
  let sought ← fseeko fp r.pos
  -- seek failed, do not send any more data
  let bytes ← fread fp (if sought then requestedLen cfg r.s2 else 0)
  reply cfg r bytes []

/-- The flags of a version reply. -/
def verflags (cfg : Config) : UInt8 :=
  (if cfg.logging then verLog else 0) ||| (if cfg.readOnly then verReadonly else 0) |||
  (if cfg.noUnnamed then verRevname else 0) ||| (if cfg.privMode then verPrivmode else 0) |||
  (if cfg.maxthcallowed ≠ 0 then verThruput else 0) ||| verXtradata

/-- `server_show_version` -/
def serverShowVersion (cfg : Config) (r : Request) : Srv Fs Cwd Unit :=
  let xtra := [verflags cfg] ++ (if cfg.maxthcallowed ≠ 0 then be32 cfg.maxthcallowed else []) ++
    be16 cfg.packetsize
  serverReply cfg r.client { r.ub with bbPos := UInt32.ofNat xtra.length } (versionText ++ [0]) xtra

/-! ## Access checks -/

/-- `require_access_rights`, on the directory a pointer points to. -/
def requireAccess (cfg : Config) (r : Request) (di : ℕ) (rights : UInt8)
    (passwd : Option ByteString) : Srv Fs Cwd ByteString := do
  let d ← dirInfo di
  let pe := requireAccessRights cfg d rights r.inetNum passwd
  emit (.access di rights r.inetNum passwd pe)
  pure pe

/-- `CHECK_ACCESS_RIGHTS`; `next` is what follows it. -/
def checkAccessRights (cfg : Config) (r : Request) (di : ℕ) (rights : UInt8)
    (passwd : Option ByteString) (next : ByteString → Srv Fs Cwd Unit) : Srv Fs Cwd Unit := do
  let pe ← requireAccess cfg r di rights passwd
  if pe.head? = some 0x49 then pure ()
  else if pe.head? = some 0x44 then refuse cfg r pe.tail
  else next pe

/-- `validate_path`, with the error reply every command gives when it fails. -/
def validated (cfg : Config) (r : Request) (wantDirectory : Bool)
    (next : PPath → ℕ → Srv Fs Cwd Unit) : Srv Fs Cwd Unit := do
  match ← validatePath cfg r.s1 wantDirectory with
  | .error pe => refuse cfg r pe
  | .ok (pp, di) => next pp di

/-- The error reply for the error text of an operation, if there is one. -/
def unlessError (cfg : Config) (r : Request) (pe : Option ByteString)
    (next : Srv Fs Cwd Unit) : Srv Fs Cwd Unit :=
  match pe with
  | some pe => refuse cfg r pe
  | none => next

/-! ## The commands -/

/-- `case CC_VERSION` -/
def caseVersion (cfg : Config) (r : Request) : Srv Fs Cwd Unit :=
  if cfg.verEnabled then serverShowVersion cfg r else pure ()

/-- The part of a listing that a request for it gets, or why it gets none. -/
def dirBlock (cfg : Config) (listing : ByteString) (pos : ℕ) : Except ByteString ByteString :=
  if listing.length ≤ pos then .ok []
  else
    let l2 := min cfg.packetsize.toNat ubufSpace
    let l1 := min ((listing.length - pos) % 4294967296) l2
    if 0 < l1 ∧ pos % l2 ≠ 0 then .error (text "Invalid directory seek offset")
    else .ok ((listing.drop pos).take l1)

/-- `case CC_GET_DIR` -/
def caseGetDir (cfg : Config) (r : Request) : Srv Fs Cwd Unit :=
  validated cfg r true fun pp di =>
    checkAccessRights cfg r di dirList pp.passwd fun _ => do
      match ← serverGetDir cfg di with
      | .error pe => refuse cfg r pe
      | .ok dl => do
          let dl ← dirListing dl
          emit (.listed dl.listing)
          match dirBlock cfg dl.listing r.pos with
          | .error pe => refuse cfg r pe
          | .ok block => reply cfg r block []

/-- `case CC_GET_FILE` -/
def caseGetFile (cfg : Config) (r : Request) : Srv Fs Cwd Unit :=
  validated cfg r false fun pp di =>
    checkAccessRights cfg r di dirGet pp.passwd fun _ => do
      match ← serverGetFile pp r.inetNum r.portNum di with
      | .error pe => refuse cfg r pe
      | .ok fp => serveFile cfg r fp

/-- `case CC_DEL_FILE` -/
def caseDelFile (cfg : Config) (r : Request) : Srv Fs Cwd Unit :=
  if cfg.readOnly then refuse cfg r readOnlyText
  else if r.old then reply cfg r [] []
  else
    validated cfg r false fun pp di =>
      checkAccessRights cfg r di dirDel pp.passwd fun _ => do
        let pe ← serverDelFile pp di
        unlessError cfg r pe (reply cfg r [] [])

/-- `case CC_DEL_DIR` -/
def caseDelDir (cfg : Config) (r : Request) : Srv Fs Cwd Unit :=
  if cfg.readOnly then refuse cfg r readOnlyText
  else if r.old then reply cfg r [] []
  else
    validated cfg r true fun pp di =>
      checkAccessRights cfg r di dirDel pp.passwd fun _ => do
        let pe ← serverDelDir cfg pp di
        unlessError cfg r pe (reply cfg r [] [])

/-- `case CC_UP_LOAD` -/
def caseUpLoad (cfg : Config) (r : Request) : Srv Fs Cwd Unit :=
  if cfg.readOnly then refuse cfg r readOnlyText
  else if r.old then reply cfg r [] []
  else do
    let pe ← serverUpLoad cfg r.s1 r.pos r.inetNum r.portNum uploadDepth
    unlessError cfg r pe (reply cfg r [] [])

/-- `case CC_INSTALL`.  Without a file name there is no access check, and `pe` is still the null
pointer that `validate_path` returned. -/
def caseInstall (cfg : Config) (r : Request) : Srv Fs Cwd Unit :=
  if cfg.readOnly then refuse cfg r readOnlyText
  else if r.old then reply cfg r [] []
  else
    validated cfg r false fun pp di =>
      let install (acc : ByteString) : Srv Fs Cwd Unit := do
        let pe ← serverInstall cfg pp r.inetNum r.portNum acc di r.s2
        unlessError cfg r pe (reply cfg r [] [])
      if 1 < r.s1.length then checkAccessRights cfg r di dirAdd pp.passwd install
      else install []

/-- The reply that tells the protection of a directory. -/
def replyPro (cfg : Config) (r : Request) (di : ℕ) (acc : ByteString) : Srv Fs Cwd Unit := do
  let d ← dirInfo di
  let pro := serverGetPro d acc
  serverReply cfg r.client { r.ub with bbPos := UInt32.ofNat proBytes } pro.1 [pro.2]

/-- `case CC_MAKE_DIR` -/
def caseMakeDir (cfg : Config) (r : Request) : Srv Fs Cwd Unit :=
  if cfg.readOnly then refuse cfg r readOnlyText
  else
    validated cfg r false fun pp di =>
      let finish (di : ℕ) : Srv Fs Cwd Unit :=
        checkAccessRights cfg r di 0 pp.passwd fun pe => replyPro cfg r di pe
      if r.old then finish di
      else
        checkAccessRights cfg r di dirMkdir pp.passwd fun _ => do
          match ← serverMakeDir cfg pp r.inetNum di with
          | .error pe => refuse cfg r pe
          | .ok di => finish di

/-- `case CC_GET_PRO` -/
def caseGetPro (cfg : Config) (r : Request) : Srv Fs Cwd Unit :=
  validated cfg r true fun pp di =>
    checkAccessRights cfg r di 0 pp.passwd fun pe => replyPro cfg r di pe

/-- `case CC_SET_PRO` -/
def caseSetPro (cfg : Config) (r : Request) : Srv Fs Cwd Unit :=
  if cfg.readOnly then refuse cfg r readOnlyText
  else
    validated cfg r true fun pp di =>
      if r.old then replyPro cfg r di (text "O")
      else
        checkAccessRights cfg r di dirOwner pp.passwd fun _ => do
          let pe ← serverSetPro cfg di (r.s2At 0) (r.s2At 1)
          unlessError cfg r pe (replyPro cfg r di (text "O"))

/-- `case CC_GRAB_FILE` -/
def caseGrabFile (cfg : Config) (r : Request) : Srv Fs Cwd Unit :=
  if cfg.readOnly ∨ ¬ cfg.grabEnabled then refuse cfg r readOnlyText
  else
    validated cfg r false fun pp di =>
      checkAccessRights cfg r di dirDel pp.passwd fun _ => do
        let pe ← (if ¬ r.old ∧ r.pos = 0 then serverSecureFile cfg pp r.inetNum r.portNum di
          else pure none)
        unlessError cfg r pe do
          match ← serverGrabFile cfg r.inetNum r.portNum with
          | .error pe => refuse cfg r pe
          | .ok fp => do
              serveFile cfg r fp
              fclose fp

/-- `case CC_GRAB_DONE` -/
def caseGrabDone (cfg : Config) (r : Request) : Srv Fs Cwd Unit :=
  if cfg.readOnly ∨ ¬ cfg.grabEnabled then refuse cfg r readOnlyText
  else if r.old then reply cfg r [] []
  else
    validated cfg r false fun pp di =>
      checkAccessRights cfg r di dirDel pp.passwd fun _ => do
        let pe ← serverGrabDone cfg r.inetNum r.portNum
        unlessError cfg r pe (reply cfg r [] [])

/-- `case CC_STAT` -/
def caseStat (cfg : Config) (r : Request) : Srv Fs Cwd Unit := do
  let data ← serverStat cfg r.s1 r.junk
  reply cfg r data []

/-- What the dispatcher takes the target of a rename for, before the path is parsed: `none` is
non-existent. -/
def renameTarget (r : Request) : Srv Fs Cwd (Except ByteString (Option FileKind)) := do
  -- the index is unsigned, so without extra data it is far behind the datagram
  if r.s2At ((r.s2.length + 4294967295) % 4294967296) ≠ 0 then
    pure (.error (text "Target path is not zero terminated"))
  else do
    match ← stat (cstr (r.s2 ++ r.behind)) with
    | none => pure (.ok none)
    | some sb =>
        if sb.kind = .other then pure (.error (text "Refusing to operate on special files"))
        else pure (.ok (some sb.kind))

/-- The check of the delete right in the directory of a rename's target. -/
def overwriteRefused (cfg : Config) (r : Request) (target : Option FileKind) (pp : PPath)
    (di : ℕ) : Srv Fs Cwd (Option ByteString) := do
  if target = some .reg then do
    let pe ← requireAccess cfg r di dirDel pp.passwd
    if pe.head? = some 0x4E ∨ pe.head? = some 0x4F then pure none
    else pure (some (text "No permission for overwriting files"))
  else pure none

/-- `case CC_RENAME` -/
def caseRename (cfg : Config) (r : Request) : Srv Fs Cwd Unit :=
  let done : Srv Fs Cwd Unit := serverReply cfg r.client { r.ub with bbPos := 0 } [] []
  if cfg.readOnly then refuse cfg r readOnlyText
  else if r.old then done
  else
    validated cfg r false fun srcpath srcdir =>
      checkAccessRights cfg r srcdir dirRename srcpath.passwd fun _ => do
        match ← renameTarget r with
        | .error pe => refuse cfg r pe
        | .ok target => do
            match ← validatePath cfg r.s2 (target == some .dir) with
            | .error pe => refuse cfg r pe
            | .ok (pp, di) => do
                match ← overwriteRefused cfg r target pp di with
                | some pe => refuse cfg r pe
                | none => do
                    let pe ← serverRename srcpath pp srcdir di
                    unlessError cfg r pe done

/-! ## The dispatcher -/

/-- The record a pointer into the client database points to. -/
def host (hp : ℕ) : Srv Fs Cwd HTab := do
  let s ← get
  pure (hostAt s.htab hp)

def setHost (hp : ℕ) (f : HTab → HTab) : Srv Fs Cwd Unit :=
  modify fun s => { s with htab := s.htab.set hp (f (hostAt s.htab hp)) }

/-- `case CC_BYE` -/
def caseBye (cfg : Config) (r : Request) (hp : ℕ) : Srv Fs Cwd Unit := do
  setHost hp fun h => { h with active := false }
  reply cfg r [] []

/-- The `switch` of `server_process_packet`. -/
def serve (cfg : Config) (r : Request) (hp : ℕ) : Srv Fs Cwd Unit :=
  match Command.ofByte r.ub.cmd with
  | .version => caseVersion cfg r
  | .bye => caseBye cfg r hp
  | .getDir => caseGetDir cfg r
  | .getFile => caseGetFile cfg r
  | .delFile => caseDelFile cfg r
  | .delDir => caseDelDir cfg r
  | .upLoad => caseUpLoad cfg r
  | .install => caseInstall cfg r
  | .makeDir => caseMakeDir cfg r
  | .getPro => caseGetPro cfg r
  | .setPro => caseSetPro cfg r
  | .grabFile => caseGrabFile cfg r
  | .grabDone => caseGrabDone cfg r
  | .stat => caseStat cfg r
  | .rename => caseRename cfg r
  | .other code =>
      if ccLimit < code then refuse cfg r unsupportedText else refuse cfg r unknownText

/-- `server_process_packet` -/
def serverProcessPacket (cfg : Config) (a : Arrival Fs) (ub : Ubuf) (old : Bool) (hp : ℕ) :
    Srv Fs Cwd Unit := do
  emit (.dispatched old)
  if old then pure ()
  else setHost hp fun h => { h with lastKey := h.nextKey, nextKey := a.genNextKey }
  let h ← host hp
  serve cfg ⟨a.client, { ub with bbKey := h.nextKey }, old, h.inetNum, a.behind, a.junk⟩ hp

/-! ## The filter -/

/-- The key check of `server_loop`: whether the request is a repetition and the record
afterwards, unless the datagram is ignored. -/
def checkKey (cfg : Config) (hp : HTab) (rkey : UInt16) (curTime : ℤ) : Option (Bool × HTab) :=
  if hp.nextKey = rkey then some (false, hp)
  else if ¬ hp.active then some (false, { hp with nextKey := rkey })
  else if hp.lastKey = rkey then
    -- too early retry requests are ignored
    if curTime < hp.lastAcc + cfg.retryTimeout then none else some (true, hp)
  -- and so are bad keys while the session lasts
  else if curTime < hp.lastAcc + cfg.sessionTimeout then none
  else some (false, { hp with nextKey := rkey })

/-- The part of `server_loop` behind the host table: the datagram comes from a host that is
served. -/
def serverAccept (cfg : Config) (a : Arrival Fs) (ub : Ubuf) (bytes : ℕ) : Srv Fs Cwd Unit := do
  let s ← get
  let found := findHost cfg.noUnnamed s.htab a.client.addr a.findHostname
  let hp := found.1
  modify fun s => { s with htab := found.2 }
  let h ← host hp
  if h.hostname = none ∧ cfg.noUnnamed then sendError cfg a.client ub reverseErrMsg
  else do
    modify fun s => { s with curTime := a.now }
    match checkKey cfg h ub.bbKey a.now with
    | none => pure ()
    | some (old, h) => do
        setHost hp fun _ => { h with active := true, lastAcc := a.now }
        if ub.checksum bytes = ub.sum then serverProcessPacket cfg a ub old hp
        else pure ()

/-- What the host table says about a client. -/
def hostType (cfg : Config) (addr : UInt32) : ByteString :=
  (checkIpTable cfg.bigEndian addr cfg.iptab).getD
    (if cfg.privMode then text "DFSP service not available" else text "N")

/-- One round of `server_loop`, for a datagram. -/
def serverReceive (cfg : Config) (a : Arrival Fs) : Srv Fs Cwd Unit :=
  let bytes := a.datagram.take (ubufHsize + ubufMaxspace)
  match Ubuf.decode bytes with
  | none => pure ()
  | some ub =>
      if bytes.length < ub.bbLen.toNat + ubufHsize then pure ()
      else
        match hostType cfg a.client.addr with
        | 0x44 :: msg =>
            if ub.cmd = ccBye then serverAccept cfg a ub bytes.length
            else sendError cfg a.client ub msg
        | 0x49 :: _ => pure ()
        | 0x4E :: _ => serverAccept cfg a ub bytes.length
        | _ => throw (.exit 99)

/-! ## Runs -/

/-- The state a datagram meets: other processes have been at the files, and the trace is that of
this datagram. -/
def Server.meets (s : Server Fs Cwd) (a : Arrival Fs) : Server Fs Cwd :=
  { s with fs := a.world s.fs, trace := [] }

/-- One round of `server_loop`, from the state the last round left. -/
def serverRound (cfg : Config) (a : Arrival Fs) : Srv Fs Cwd Unit := do
  modify fun s => s.meets a
  serverReceive cfg a

/-- The rounds of `server_loop` for a sequence of datagrams, up to the one it halts on. -/
def history (cfg : Config) (s : Server Fs Cwd) (arrivals : List (Arrival Fs)) :
    List (Effect.Round (Arrival Fs) (Server Fs Cwd)) :=
  Effect.rounds (serverRound cfg) s arrivals

end

/-- The server when it enters `server_loop` at `now`: `init_caches`, `init_htab` and the start of
the throughput control. -/
def initServer {Fs Cwd : Type} (cfg : Config) (fs : Fs) (cwd : Cwd) (now : ℤ) : Server Fs Cwd :=
  { fs := fs
    cwd := cwd
    curTime := 0
    htab := initHtab
    dirListCache := .fCacheNew cfg.dirCacheLimit (by have := cfg.dirCacheLimit_ge; omega)
    dirStatCache := .fCacheNew cfg.statCacheLimit (by have := cfg.statCacheLimit_ge; omega)
    fpCache := .fCacheNew cfg.fpCacheLimit (by have := cfg.fpCacheLimit_ge; omega)
    thc := List.replicate thcCount 0
    thcBase := now
    trace := [] }

/-- At the start no directory information is cached. -/
theorem slot_initServer {Fs Cwd : Type} (cfg : Config) (fs : Fs) (cwd : Cwd) (now : ℤ) (di : ℕ) :
    (initServer cfg fs cwd now).dirStatCache.slot di = FifoCache.zeroSlot := by
  have := cfg.statCacheLimit_ge
  exact FifoCache.slot_fCacheNew cfg.statCacheLimit (by omega) di

end Fsp
