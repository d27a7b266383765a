import Fsp.Lib.Effect
import Fsp.Posix
import Fsp.Server.FifoCache
import Fsp.Server.Iprange
import Fsp.Server.Path

/-!
# The server's state

The variables of `server/server.c`, `server/file.c` and `server/host.c` as one record, the
configuration of `server/conf.c` as `main` leaves it, and the system calls as programs over that
state.

Every system call, every access decision and every datagram sent is also written to the state's
`trace`.  The trace has no counterpart in the source: nothing reads it, and the statements about
what the server does while it handles a datagram are statements about it.
-/

namespace Fsp

open Bytes Effect

/-! ## Configuration -/

/-- The variables of the configuration file, in the ranges `read_configuration` and
`check_required_vars` leave them in. -/
structure Config where
  iptab : List IPrange
  privMode : Bool
  noUnnamed : Bool
  readOnly : Bool
  grabEnabled : Bool
  verEnabled : Bool
  logging : Bool
  usePrebuildDirlists : Bool
  useAccessFiles : Bool
  useDirectoryMtime : Bool
  homedirRestricted : Bool
  permitPasswordlessOwners : Bool
  maxthcallowed : UInt32
  packetsize : UInt16
  retryTimeout : ℤ
  sessionTimeout : ℤ
  statCacheTimeout : ℤ
  homeDir : ByteString
  tmpDir : ByteString
  readmeFile : ByteString
  dirCacheLimit : ℕ
  statCacheLimit : ℕ
  fpCacheLimit : ℕ
  bigEndian : Bool
  packetsize_ge : 64 ≤ packetsize.toNat
  packetsize_le : packetsize.toNat ≤ ubufMaxspace
  retryTimeout_pos : 0 < retryTimeout
  statCacheTimeout_pos : 0 < statCacheTimeout
  dirCacheLimit_ge : 16 ≤ dirCacheLimit
  statCacheLimit_ge : 10 ≤ statCacheLimit
  fpCacheLimit_ge : 10 ≤ fpCacheLimit

/-! ## Tables -/

/-- What is known about a directory.  An `owner` table without entries is a null pointer. -/
structure DirInfo where
  realname : ByteString
  owner : List IPrange
  protection : UInt8
  publicPassword : Option ByteString
  ownerPassword : Option ByteString
  readme : Option ByteString
  mtime : ℤ
  lastcheck : ℤ

instance : Inhabited DirInfo := ⟨[], [], 0, none, none, none, 0, 0⟩

/-- A directory listing in memory. -/
structure DirListing where
  listing : ByteString
  mtime : ℤ

instance : Inhabited DirListing := ⟨[], 0⟩

/-- An open file and the client it was opened for. -/
structure FpCache where
  fp : Option Handle
  inetNum : UInt32
  portNum : UInt16
  deriving DecidableEq

instance : Inhabited FpCache := ⟨none, 0, 0⟩

/-- What is known about a client host. -/
structure HTab where
  inetNum : UInt32
  hostname : Option ByteString
  lastAcc : ℤ
  nextKey : UInt16
  lastKey : UInt16
  accCnt : UInt16
  active : Bool
  deriving DecidableEq

/-- A record of zeros. -/
def hzero : HTab := ⟨0, none, 0, 0, 0, 0, false⟩

instance : Inhabited HTab := ⟨hzero⟩

/-- Where a datagram comes from or goes to. -/
structure SockAddr where
  addr : UInt32
  port : UInt16
  deriving DecidableEq, Repr

/-! ## Events -/

/-- What the server did. -/
inductive Event where
  | dispatched (old : Bool)
  | lookup (dir : ByteString)
  | validated (pp : PPath) (slot : ℕ) (realname : ByteString)
  | access (slot : ℕ) (rights : UInt8) (ipAddr : UInt32) (passwd : Option ByteString)
      (answer : ByteString)
  | stat (path : ByteString) (result : Option Stat)
  | chdir (path : ByteString) (ok : Bool)
  | unlink (path : ByteString) (ok : Bool)
  | remove (path : ByteString) (ok : Bool)
  | rmdir (path : ByteString) (ok : Bool)
  | mkdir (path : ByteString) (ok : Bool)
  /-- `target` is what the new name stood for just before. -/
  | rename (src dst : ByteString) (target : Option Stat) (ok : Bool)
  | creat (path : ByteString)
  | writeFile (path data : ByteString)
  | chmod (path : ByteString)
  | utime (path : ByteString) (modtime : ℤ)
  | fopen (path : ByteString) (mode : OpenMode) (fp : Option Handle)
  | fclose (fp : Handle)
  | fseeko (fp : Handle) (pos : ℕ) (ok : Bool)
  | fread (fp : Handle) (data : ByteString)
  | fwrite (fp : Handle) (data : ByteString) (written : ℕ)
  | copied (src dst : ByteString)
  | protect (realname : ByteString) (before after : UInt8)
  | listed (listing : ByteString)
  | sent (client : SockAddr) (datagram : ByteString)
  deriving DecidableEq

/-! ## The state -/

/-- Why the server stops: it exits, it waits for ever, or it runs into undefined behaviour. -/
inductive Halt where
  | exit (code : ℕ)
  | hang
  | undefined
  deriving DecidableEq, Repr

structure Server (Fs Cwd : Type) where
  fs : Fs
  cwd : Cwd
  curTime : ℤ
  htab : List HTab
  dirListCache : FifoCache ByteString DirListing
  dirStatCache : FifoCache ByteString DirInfo
  fpCache : FifoCache ByteString FpCache
  thc : List UInt32
  thcBase : ℤ
  trace : List Event

abbrev Srv (Fs Cwd : Type) := EStateM Halt (Server Fs Cwd)

instance {Fs Cwd : Type} : Logged (Server Fs Cwd) Event := ⟨Server.trace⟩

section

variable {Fs Cwd α : Type}

@[simp] theorem log_eq_trace (s : Server Fs Cwd) : log s = s.trace := rfl

/-- Write an event to the trace. -/
def emit (e : Event) : Srv Fs Cwd Unit := modify fun s => { s with trace := s.trace ++ [e] }

/-- A call that changes nothing but tells something about the files. -/
def query (call : Fs → Cwd → α) : Srv Fs Cwd α := do
  let s ← get
  pure (call s.fs s.cwd)

/-- A call that may change the files. -/
def syscall (call : Fs → Cwd → α × Fs) (event : α → Event) : Srv Fs Cwd α := fun s =>
  .ok (call s.fs s.cwd).1
    { s with fs := (call s.fs s.cwd).2, trace := s.trace ++ [event (call s.fs s.cwd).1] }

variable [Posix Fs Cwd]

/-! ## System calls -/

/-- `FSP_STAT` -/
def stat (path : ByteString) : Srv Fs Cwd (Option Stat) :=
  syscall (fun fs cwd => (Posix.stat fs cwd path, fs)) (.stat path)

def lstat (path : ByteString) : Srv Fs Cwd (Option Stat) :=
  syscall (fun fs cwd => (Posix.lstat fs cwd path, fs)) (.stat path)

def fexist (path : ByteString) : Srv Fs Cwd Bool :=
  query fun fs cwd => Posix.access fs cwd path

def readFile (path : ByteString) : Srv Fs Cwd (Option ByteString) :=
  query fun fs cwd => Posix.readFile fs cwd path

def getcwd : Srv Fs Cwd (Option ByteString) := query Posix.getcwd

/-- `chdir`, which leaves the current directory alone when it fails. -/
def chdir (path : ByteString) : Srv Fs Cwd Bool := fun s =>
  match Posix.chdir s.fs s.cwd path with
  | some cwd => .ok true { s with cwd := cwd, trace := s.trace ++ [.chdir path true] }
  | none => .ok false { s with trace := s.trace ++ [.chdir path false] }

def unlink (path : ByteString) : Srv Fs Cwd Bool :=
  syscall (fun fs cwd => Posix.unlink fs cwd path) (.unlink path)

def remove (path : ByteString) : Srv Fs Cwd Bool :=
  syscall (fun fs cwd => Posix.remove fs cwd path) (.remove path)

def rmdir (path : ByteString) : Srv Fs Cwd Bool :=
  syscall (fun fs cwd => Posix.rmdir fs cwd path) (.rmdir path)

def mkdir (path : ByteString) : Srv Fs Cwd Bool :=
  syscall (fun fs cwd => Posix.mkdir fs cwd path) (.mkdir path)

def rename (src dst : ByteString) : Srv Fs Cwd Bool := fun s =>
  syscall (fun fs cwd => Posix.rename fs cwd src dst)
    (.rename src dst (Posix.stat s.fs s.cwd dst)) s

/-- `touch(A)`, that is `close(open(A,O_CREAT,0600))` -/
def touch (path : ByteString) : Srv Fs Cwd Unit :=
  syscall (fun fs cwd => ((), Posix.creat fs cwd path)) fun _ => .creat path

/-- `fopen` for writing, `fprintf` and `fclose`. -/
def writeFile (path data : ByteString) : Srv Fs Cwd Unit :=
  syscall (fun fs cwd => ((), Posix.writeFile fs cwd path data)) fun _ => .writeFile path data

def chmod (path : ByteString) : Srv Fs Cwd Unit :=
  syscall (fun fs cwd => ((), Posix.chmod fs cwd path)) fun _ => .chmod path

def utime (path : ByteString) (actime modtime : ℤ) : Srv Fs Cwd Unit :=
  syscall (fun fs cwd => ((), Posix.utime fs cwd path actime modtime)) fun _ => .utime path modtime

def fopen (path : ByteString) (mode : OpenMode) : Srv Fs Cwd (Option Handle) :=
  syscall (fun fs cwd => Posix.fopen fs cwd path mode) (.fopen path mode)

def fclose (fp : Handle) : Srv Fs Cwd Unit :=
  syscall (fun fs _ => ((), Posix.fclose fs fp)) fun _ => .fclose fp

/-- `fseeko (fp, pos, SEEK_SET)`; the result says whether it went well. -/
def fseeko (fp : Handle) (pos : ℕ) : Srv Fs Cwd Bool :=
  syscall (fun fs _ => Posix.fseeko fs fp pos) (.fseeko fp pos)

/-- `ftello`, as the callers see it after the conversion to `unsigned long`. -/
def ftello (fp : Handle) : Srv Fs Cwd ℕ :=
  query fun fs _ => (Posix.ftello fs fp % 18446744073709551616).toNat

def fread (fp : Handle) (len : ℕ) : Srv Fs Cwd ByteString :=
  syscall (fun fs _ => Posix.fread fs fp len) (.fread fp)

def fwrite (fp : Handle) (data : ByteString) : Srv Fs Cwd ℕ :=
  syscall (fun fs _ => Posix.fwrite fs fp data) (.fwrite fp data)

def ferror (fp : Handle) : Srv Fs Cwd Bool := query fun fs _ => Posix.ferror fs fp

end

end Fsp
