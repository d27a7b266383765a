import Fsp.Client.AbsPath
import Fsp.Client.Dir
import Fsp.Lib.Effect
import Fsp.Server.State

/-!
# Transfers

`client/util.c`: `util_download`, `util_grab_file` and `util_upload`, with `util_stat`, which the last
one uses.

What the client has said and heard so far is the `trace` of its `ClientState`, and the network with the
server behind it is a function `net` of it: it gives the datagram that `client_interact` returns
with.  Where no reply passes the checks `client_interact` does not return; it exits, and so does the
model.

The buffers that paths are built in have no size here, except that of a message.
-/

namespace Fsp

open Bytes Effect

/-! ## The state of a client -/

/-- The arguments of `client_interact`: `l1` bytes of data, `p1`, and the extra data `p2`. -/
structure Call where
  cmd : UInt8
  pos : ℕ
  l1 : ℕ
  p1 : ByteString
  p2 : ByteString
  deriving DecidableEq

/-- A request is made, and a reply accepted.  Behind the payload of the reply stands what the reply
buffer held before. -/
inductive NetEvent where
  | call (c : Call)
  | reply (c : Call) (ub : Ubuf)
  deriving DecidableEq

/-- The variables of a client that runs; `ddroot` are the listings it has read. -/
structure ClientState where
  trace : List NetEvent
  ddroot : List (ByteString × List Rdirent)
  statworks : Bool

instance : Logged ClientState NetEvent := ⟨ClientState.trace⟩

@[simp] theorem log_clientState (s : ClientState) : log s = s.trace := rfl

abbrev Client := EStateM Halt ClientState

/-- What answers a call, after everything before it. -/
abbrev Net := List NetEvent → Call → Ubuf

/-- The checks of `client_interact` on the header fields of a reply. -/
structure Call.Takes (c : Call) (ub : Ubuf) : Prop where
  length_le : ub.bbLen.toNat ≤ ub.buf.length
  code : ub.cmd = c.cmd ∨ ub.cmd = ccErr
  bbPos : checksPos c.cmd = true → ub.bbPos.toNat = c.pos

theorem Call.takes_iff {c : Call} {ub : Ubuf} : c.Takes ub ↔ ub.bbLen.toNat ≤ ub.buf.length ∧
    (ub.cmd = c.cmd ∨ ub.cmd = ccErr) ∧ (checksPos c.cmd = true → ub.bbPos.toNat = c.pos) :=
  ⟨fun h => ⟨h.length_le, h.code, h.bbPos⟩, fun h => ⟨h.1, h.2.1, h.2.2⟩⟩

instance (c : Call) (ub : Ubuf) : Decidable (c.Takes ub) := decidable_of_iff' _ Call.takes_iff

/-- What `client_interact` accepts passes these checks. -/
theorem Accepts.takes {c : Call} {seq0 seq1 : UInt8} {ub : Ubuf}
    (h : Accepts c.cmd c.pos seq0 seq1 ub) : c.Takes ub := ⟨h.length_le, h.code, h.bbPos⟩

def record (e : NetEvent) : Client Unit := modify fun s => { s with trace := s.trace ++ [e] }

/-- `EX_UNAVAILABLE` -/
def exUnavailable : ℕ := 69

/-- `client_interact` -/
def clientInteract (net : Net) (c : Call) : Client Ubuf := do
  let s ← get
  record (.call c)
  if ubufMaxspace < c.p1.length + c.p2.length then throw .undefined
  else
    let ub := net s.trace c
    if c.Takes ub then do
      record (.reply c ub)
      pure ub
    else throw (.exit exUnavailable)

/-- The state with one more entry in its trace. -/
def ClientState.recorded (s : ClientState) (e : NetEvent) : ClientState :=
  { s with trace := s.trace ++ [e] }

@[simp] theorem trace_recorded (s : ClientState) (e : NetEvent) :
    (s.recorded e).trace = s.trace ++ [e] := rfl

/-- A call returns with the reply of the network, if that passes the checks. -/
theorem clientInteract_of_takes {net : Net} {c : Call} {s : ClientState}
    (hfits : c.p1.length + c.p2.length ≤ ubufMaxspace) (htakes : c.Takes (net s.trace c)) :
    clientInteract net c s = .ok (net s.trace c)
      ((s.recorded (.call c)).recorded (.reply c (net s.trace c))) := by
  show (if ubufMaxspace < c.p1.length + c.p2.length then throw .undefined
    else if c.Takes (net s.trace c) then _ else _ : Client Ubuf) (s.recorded (.call c)) = _
  rw [if_neg (by omega), if_pos htakes]
  rfl

/-- Otherwise it does not return. -/
theorem clientInteract_of_not_takes {net : Net} {c : Call} {s : ClientState}
    (h : ubufMaxspace < c.p1.length + c.p2.length ∨ ¬ c.Takes (net s.trace c)) :
    ∃ halt, clientInteract net c s = .error halt (s.recorded (.call c)) := by
  have hshow : clientInteract net c s =
      (if ubufMaxspace < c.p1.length + c.p2.length then throw .undefined
        else if c.Takes (net s.trace c) then do
          record (.reply c (net s.trace c))
          pure (net s.trace c)
        else throw (.exit exUnavailable) : Client Ubuf) (s.recorded (.call c)) := rfl
  by_cases hlong : ubufMaxspace < c.p1.length + c.p2.length
  · exact ⟨.undefined, by rw [hshow, if_pos hlong]; rfl⟩
  · have htakes := h.resolve_left hlong
    exact ⟨.exit exUnavailable, by rw [hshow, if_neg hlong, if_neg htakes]; rfl⟩

/-- A call with the string `fpath` from its second byte on, and the zero behind it. -/
def pathCall (cmd : Command) (pos : ℕ) (fpath p2 : ByteString) : Call :=
  ⟨cmd.code, pos, fpath.length, fpath.tail ++ [0], p2⟩

/-- `client_net_len`, as it stands in memory. -/
def ClientEnv.netLen (env : ClientEnv) : ByteString := be16 env.clientBufLen

/-! ## Listings -/

/-- The inner loop of `get_dir_blk`, as in `fillBuffer`. -/
def fillBlocks (net : Net) (call : ℕ → Call) : ℕ → DirFetch → Client (Option DirFetch)
  | fuel, v =>
      if v.acc < ubufMaxspace ∧ ¬ v.atEof then
        match fuel with
        | 0 => throw .hang
        | fuel + 1 => do
            let ub ← clientInteract net (call v.pos)
            if ub.cmd = ccErr then pure none else fillBlocks net call fuel (v.receive ub)
      else pure (some v)

/-- The outer loop of `get_dir_blk`, as in `readDir`. -/
def readBlocks (net : Net) (call : ℕ → Call) : ℕ → DirFetch → Client (Option (List Rdirent))
  | 0, _ => throw .hang
  | fuel + 1, v => do
      match ← fillBlocks net call (ubufMaxspace + 1) v with
      | none => pure none
      | some v =>
          let len := min v.acc v.dirblocksize
          let block := readBlock v.buf len 0 len
          if block.2 = .done ∨ v.acc < v.dirblocksize then pure (some (v.dp ++ block.1))
          else
            readBlocks net call fuel
              { v with
                acc := v.acc - v.dirblocksize
                buf := splice v.buf 0 ((v.buf.take v.acc).drop v.dirblocksize)
                dp := v.dp ++ block.1 }

/-- A listing is fetched block by block up to positions of 32 bits, so there are no more blocks. -/
def listingFuel : ℕ := 4294967296

/-- `util_opendir`: the entries of the directory. -/
def utilOpendir (net : Net) (env : ClientEnv) (path : ByteString) :
    Client (Option (List Rdirent)) := do
  let fpath := utilAbsPath env path
  let s ← get
  match s.ddroot.lookup fpath with
  | some dep => pure (some dep)
  | none => do
      -- `get_dir_blk` makes an absolute path of its own
      let call (pos : ℕ) : Call := pathCall .getDir pos (utilAbsPath env fpath) env.netLen
      match ← readBlocks net call listingFuel ⟨0, false, 0, List.replicate nbsize 0, 0, []⟩ with
      | none => pure none
      | some dep => do
          modify fun s => { s with ddroot := (fpath, dep) :: s.ddroot }
          pure (some dep)

/-- What `util_stat` reports of an object. -/
structure StatBuf where
  mtime : UInt32
  size : UInt32
  dir : Bool
  deriving DecidableEq

/-- The part of `util_stat` that looks for the object in the listing of its directory. -/
def statListed (net : Net) (env : ClientEnv) (ppath pfile : ByteString) :
    Client (Option StatBuf) := do
  match ← utilOpendir net env ppath with
  | none => pure none
  | some dep =>
      pure ((dep.find? fun e => e.name = pfile).map fun e => ⟨e.time, e.size, e.type = rdtypeDir⟩)

/-- `util_stat` -/
def utilStat (net : Net) (env : ClientEnv) (path : ByteString) : Client (Option StatBuf) := do
  let fpath := utilAbsPath env path
  let (ppath, pfile) := if fpath = env.envDir then (fpath, [dot]) else utilSplitPath fpath
  let s ← get
  if s.statworks ∧ (s.ddroot.lookup ppath).isNone then do
    -- send a new FSP_STAT command to server
    let ub ← clientInteract net (pathCall .stat 0 fpath [])
    if ub.cmd = Command.stat.code then
      if ub.buf.getD 8 0 = 0 then pure none
      else pure (some ⟨long ub.buf 0, long ub.buf 4, ub.buf.getD 8 0 = rdtypeDir⟩)
    else do
      modify fun s => { s with statworks := false }
      statListed net env ppath pfile
  else statListed net env ppath pfile

/-! ## Downloads -/

/-- `FOURGIGS` -/
def fourGigs : ℕ := 0xffffffff

/-- The check for an overflow of the position, with `SIZEOF_OFF_T > 4` or without. -/
def posOverflows (largeOffT : Bool) (pos n : ℕ) : Bool :=
  if largeOffT then fourGigs < pos + n else (pos + n) % 18446744073709551616 < pos

/-- The loop of `util_download_main`: its result, and what was written to the file.  `fwrite` says
how much of some data is written behind what has been.  At a position of more than 32 bits no
reply is accepted, so there are no more rounds than positions. -/
def downloadLoop (net : Net) (env : ClientEnv) (largeOffT : Bool)
    (fwrite : ByteString → ByteString → ℕ) (cmd : Command) (fpath : ByteString) :
    ℕ → ℕ → ByteString → Client (ℤ × ByteString)
  | 0, _, _ => throw (.exit exUnavailable)
  | fuel + 1, pos, fp => do
      let ub ← clientInteract net (pathCall cmd pos fpath env.netLen)
      if ub.cmd = ccErr then pure (-1, fp)
      else
        let rlen := ub.bbLen.toNat
        let wrote := min (fwrite fp (ub.buf.take rlen)) rlen
        let fp := fp ++ (ub.buf.take rlen).take wrote
        if posOverflows largeOffT pos wrote then pure (0, fp)
        else if rlen = 0 then pure (0, fp)
        else if rlen ≠ wrote then pure (-1, fp)
        else downloadLoop net env largeOffT fwrite cmd fpath fuel (pos + wrote) fp

/-- `util_download_main` -/
def utilDownloadMain (net : Net) (env : ClientEnv) (largeOffT : Bool)
    (fwrite : ByteString → ByteString → ℕ) (cmd : Command) (fpath : ByteString) (startFrom : ℕ) :
    Client (ℤ × ByteString) :=
  downloadLoop net env largeOffT fwrite cmd fpath (fourGigs + 2) startFrom []

/-- The path of `util_download` and `util_grab_file`, who append the password themselves. -/
def downloadPath (env : ClientEnv) (path : ByteString) : ByteString :=
  utilAbsPath env path ++ env.passwordSuffix

/-- `util_download` -/
def utilDownload (net : Net) (env : ClientEnv) (largeOffT : Bool)
    (fwrite : ByteString → ByteString → ℕ) (path : ByteString) (startFrom : ℕ) :
    Client (ℤ × ByteString) :=
  utilDownloadMain net env largeOffT fwrite .getFile (downloadPath env path) startFrom

/-- The length `util_grab_file` gives for its last request; it is only set if there is a password. -/
def grabDoneLen (env : ClientEnv) (path : ByteString) (junk : UInt32) : ℕ :=
  if env.envPasswd = [] then junk.toNat else (downloadPath env path).length

/-- The last request of `util_grab_file`; `behind` stands in memory behind its path. -/
def grabDoneCall (env : ClientEnv) (path : ByteString) (junk : UInt32) (behind : ByteString) :
    Call :=
  let len := grabDoneLen env path junk
  ⟨Command.grabDone.code, 0, len, ((downloadPath env path).tail ++ 0 :: behind).take len, []⟩

/-- `util_grab_file` -/
def utilGrabFile (net : Net) (env : ClientEnv) (largeOffT : Bool)
    (fwrite : ByteString → ByteString → ℕ) (path : ByteString) (startFrom : ℕ) (junk : UInt32)
    (behind : ByteString) : Client (ℤ × ByteString) := do
  let res ← utilDownloadMain net env largeOffT fwrite .grabFile (downloadPath env path) startFrom
  if res.1 ≠ 0 then pure res
  else do
    -- an error is only told to the user
    let _ ← clientInteract net (grabDoneCall env path junk behind)
    pure res

/-! ## Uploads -/

/-- The request of `util_upload` for the protection of the directory. -/
def getProCall (env : ClientEnv) (path : ByteString) : Call :=
  pathCall .getPro 0 (utilSplitPath (utilAbsPath env path)).1 []

/-- The last request of `util_upload`. -/
def installCall (env : ClientEnv) (path : ByteString) (stamp : ℤ) : Call :=
  pathCall .install (if stamp = 0 then 0 else 4) (utilAbsPath env path)
    (if stamp = 0 then [] else be32 (UInt32.ofNat (stamp % 4294967296).toNat))

@[simp] theorem cmd_getProCall (env : ClientEnv) (path : ByteString) :
    (getProCall env path).cmd = Command.getPro.code := rfl

@[simp] theorem cmd_installCall (env : ClientEnv) (path : ByteString) (stamp : ℤ) :
    (installCall env path stamp).cmd = Command.install.code := rfl

/-- The checks of `util_upload` before anything is sent: whether the file may be uploaded. -/
def checkUpload (net : Net) (env : ClientEnv) (path : ByteString) : Client Bool := do
  let ub ← clientInteract net (getProCall env path)
  if ub.cmd = ccErr then pure false
  else if ub.bbPos = 0 then pure true
  else
    -- flags are in the reply
    let flags := ub.buf.getD ub.bbLen.toNat 0
    if flags &&& dirOwner = 0 ∧ flags &&& dirAdd = 0 then pure false
    else
      -- owner of directory
      let flags := if flags &&& dirOwner = 0 then flags else flags ||| dirDel ||| dirAdd
      if flags &&& dirDel = 0 then do
        let sb ← utilStat net env (utilAbsPath env path)
        pure sb.isNone
      else pure true

/-- The loop of `util_upload`, on what is left of the file.  There is a round for each block, one for
the last request and one for an empty block. -/
def uploadLoop (net : Net) (env : ClientEnv) (largeOffT : Bool) (path : ByteString)
    (stamp : ℤ) : ℕ → ℕ → Bool → ByteString → Client ℤ
  | 0, _, _, _ => throw .hang
  | fuel + 1, pos, first, fp => do
      let buf := fp.take env.clientBufLen.toNat
      let bytes := buf.length
      let call : Call :=
        if bytes ≠ 0 ∨ first then ⟨Command.upLoad.code, pos, bytes, buf, []⟩
        else installCall env path stamp
      let ub ← clientInteract net call
      if ub.cmd = ccErr then pure 1
      else if bytes = 0 ∧ ¬ first then pure 0
      else if posOverflows largeOffT pos bytes then pure 0
      else
        uploadLoop net env largeOffT path stamp fuel (pos + bytes) false
          (fp.drop env.clientBufLen.toNat)

/-- `util_upload` -/
def utilUpload (net : Net) (env : ClientEnv) (largeOffT : Bool) (path : ByteString)
    (stamp : ℤ) (fp : ByteString) : Client ℤ := do
  if ← checkUpload net env path then
    uploadLoop net env largeOffT path stamp (fp.length + 2) 0 true fp
  else pure 1

/-- The size of a block, from what `atoi` makes of `FSP_BUF_SIZE`. -/
def bufLenOf (bufSize : Option ℤ) : UInt16 :=
  let clientBufLen : UInt16 :=
    match bufSize with
    | some n => UInt16.ofNat (n % 65536).toNat
    | none => UInt16.ofNat ubufSpace
  if ubufMaxspace < clientBufLen.toNat then UInt16.ofNat ubufMaxspace else clientBufLen

end Fsp
