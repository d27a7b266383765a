import Fsp.Client.Interact
import Fsp.Disk
import Fsp.Server.Dispatch

/-!
# A server to run

A configuration, disks and datagrams for runs of the server on fixed inputs: the home directory is
`/h`, uploads are kept in `/t`, and there is one client, which builds its requests as
`client_interact` does.
-/

namespace Fsp.Scenario

open Bytes

/-- The defaults of the configuration file, on a little-endian machine, without access lists for
hosts. -/
def config : Config where
  iptab := []
  privMode := false
  noUnnamed := false
  readOnly := false
  grabEnabled := true
  verEnabled := true
  logging := false
  usePrebuildDirlists := false
  useAccessFiles := true
  useDirectoryMtime := true
  homedirRestricted := true
  permitPasswordlessOwners := false
  maxthcallowed := 0
  packetsize := 1024
  retryTimeout := 3
  sessionTimeout := 60
  statCacheTimeout := 25
  homeDir := text "/h"
  tmpDir := text "/t"
  readmeFile := text ".README"
  dirCacheLimit := 16
  statCacheLimit := 10
  fpCacheLimit := 10
  bigEndian := false
  packetsize_ge := by decide
  packetsize_le := by decide
  retryTimeout_pos := by decide
  statCacheTimeout_pos := by decide
  dirCacheLimit_ge := by decide
  statCacheLimit_ge := by decide
  fpCacheLimit_ge := by decide

/-- A disk with the home directory, the directory for uploads, and more. -/
def disk (nodes : List (String × Node)) : Disk where
  nodes := [([text "h"], .dir), ([text "t"], .dir)] ++
    nodes.map fun n => (Disk.names (text n.1), n.2)
  streams := []

/-- An empty file. -/
def emptyFile : Node := .file []

/-- The server on a disk, before its first datagram. -/
def start (cfg : Config) (nodes : List (String × Node)) : Server Disk Path :=
  initServer cfg (disk nodes) [text "h"] 0

/-- A path as it is sent. -/
def path (p : String) : ByteString := text p ++ [0]

/-- The client, 127.0.0.1. -/
def client : SockAddr := ⟨0x0100007F, 0x1234⟩

/-- A datagram of the client that arrives at `now`. -/
def arrival (now : ℤ) (genNextKey : UInt16) (datagram : ByteString) : Arrival Disk where
  client := client
  datagram := datagram
  now := now
  genNextKey := genNextKey
  findHostname := none
  world := id
  behind := []
  junk := 0

/-- The first datagram for a request. -/
def datagram (cmd : Command) (key : UInt16) (pos : UInt32) (p1 p2 : ByteString)
    (h : p1.length + p2.length ≤ ubufMaxspace := by decide) : ByteString :=
  ClientRequest.sbuf ⟨cmd.code, pos.toNat, p1, p2, h⟩ key 8 0

theorem length_path_d : (path "d").length + ([] : ByteString).length ≤ ubufMaxspace := by decide

/-- The traces of a run. -/
def traces (cfg : Config) (s : Server Disk Path) (arrivals : List (Arrival Disk)) :
    List (List Event) :=
  (history cfg s arrivals).map fun r => r.after.trace

end Fsp.Scenario
