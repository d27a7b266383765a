import Fsp.Server.State

/-!
# The configuration file

`server/conf.c`: `read_configuration` reads a file line by line, and each line sets a global
variable of the server.  The variables are kept here by the way in which they are set: words are
copied as they are, flags are truth values, and numbers are read by `atoi` or `strtol`.

`ConfState.steps` records what the lines that were carried out did; the program has no such record.
-/

namespace Fsp

open Bytes

/-! ## Settings -/

/-- The settings that are a copy of the value. -/
inductive WordSetting where
  | readmeFile
  | listenOn
  | homeDir
  | tmpDir
  | logname
  | tlogname
  | pidlogname
  | dumpname
  deriving DecidableEq, Repr

/-- The settings that `get_boolean` reads. -/
inductive FlagSetting where
  | daemonize
  | dbug
  | privMode
  | homedirRestricted
  | grabEnabled
  | verEnabled
  | permitPasswordlessOwners
  | noUnnamed
  | usePrebuildDirlists
  | useAccessFiles
  | useDirectoryMtime
  | readOnly
  deriving DecidableEq, Repr

/-- The settings that are numbers. -/
inductive NumberSetting where
  | udpPort
  | packetsize
  | fpCacheLimit
  | dirCacheLimit
  | statCacheLimit
  | retryTimeout
  | sessionTimeout
  | statCacheTimeout
  | maxthcallowed
  | runUid
  | runGid
  | uploadUmask
  | systemUmask
  deriving DecidableEq, Repr

/-- Any of the settings. -/
inductive Setting where
  | word (w : WordSetting)
  | flag (f : FlagSetting)
  | number (n : NumberSetting)
  | logging
  | iptab
  deriving DecidableEq, Repr

structure Settings where
  word : WordSetting → Option ByteString
  flag : FlagSetting → Bool
  number : NumberSetting → ℤ
  logging : UInt32
  iptab : List IPrange

/-- `DEFAULT_DIRLISTCACHE_SIZE` -/
def defaultDirlistcacheSize : ℤ := 100

/-- `DEFAULT_DIRSTATCACHE_SIZE` -/
def defaultDirstatcacheSize : ℤ := 30

/-- `DEFAULT_FPCACHE_SIZE` -/
def defaultFpcacheSize : ℤ := 20

/-- `DEFAULT_SPACE` -/
def defaultSpace : ℤ := 1492 - 20 - 8 - 12

/-- The settings before any configuration file is read. -/
def initialSettings : Settings where
  word _ := none
  flag
    | .daemonize | .usePrebuildDirlists | .grabEnabled | .verEnabled | .useAccessFiles
    | .useDirectoryMtime | .homedirRestricted => true
    | .readOnly | .dbug | .privMode | .noUnnamed | .permitPasswordlessOwners => false
  number
    | .udpPort => 21
    | .packetsize => defaultSpace
    | .fpCacheLimit => defaultFpcacheSize
    | .dirCacheLimit => defaultDirlistcacheSize
    | .statCacheLimit => defaultDirstatcacheSize
    | .retryTimeout => 3
    | .sessionTimeout => 60
    | .statCacheTimeout => 25
    | .maxthcallowed | .runUid | .runGid => 0
    | .uploadUmask => 0o033
    | .systemUmask => 0o077
  logging := 0
  iptab := []

namespace Settings

def setWord (s : Settings) (w : WordSetting) (value : ByteString) : Settings :=
  { s with word := fun w' => if w' = w then some value else s.word w' }

def setFlag (s : Settings) (f : FlagSetting) (value : Bool) : Settings :=
  { s with flag := fun f' => if f' = f then value else s.flag f' }

def setNumber (s : Settings) (n : NumberSetting) (value : ℤ) : Settings :=
  { s with number := fun n' => if n' = n then value else s.number n' }

end Settings

/-! ## Values -/

/-- `tolower` in the C locale. -/
def toLower (c : UInt8) : UInt8 := if 0x41 ≤ c ∧ c ≤ 0x5A then c + 0x20 else c

/-- Whether `strcasecmp` returns 0. -/
def strcaseeq (s t : ByteString) : Bool := s.map toLower == t.map toLower

/-- `strtol (s, NULL, base)`, for a base of at most ten. -/
def strtol (base : ℕ) (s : ByteString) : ℤ :=
  let s := skipWhitespace s
  let digits := (if s.head? = some 0x2D ∨ s.head? = some 0x2B then s.tail else s).takeWhile
    fun c => isDigit c && c.toNat < 0x30 + base
  let n := digits.foldl (fun n c => base * n + (c.toNat - 0x30)) 0
  if s.head? = some 0x2D then max (-(n : ℤ)) (-9223372036854775808)
  else min n 9223372036854775807

/-- `atoi`, which is `strtol` cut off to an `int`. -/
def atoi (s : ByteString) : ℤ := (strtol 10 s).bmod (2 ^ 32)

/-- `get_boolean`, which exits for any other value. -/
def getBoolean (q : ByteString) : Except Halt Bool :=
  if q = text "0" then .ok false
  else if strcaseeq q (text "no") then .ok false
  else if strcaseeq q (text "off") then .ok false
  else if strcaseeq q (text "on") then .ok true
  else if strcaseeq q (text "yes") then .ok true
  else if q = text "1" then .ok true
  else .error (.exit 1)

/-- The number a value stands for, except where it is out of range for the setting. -/
def NumberSetting.read (n : NumberSetting) (q : ByteString) : ℤ :=
  match n with
  | .udpPort | .packetsize => atoi q % 65536
  | .fpCacheLimit => if atoi q < 10 then 10 else atoi q
  | .dirCacheLimit => if atoi q < 16 then defaultDirlistcacheSize else atoi q
  | .statCacheLimit => if atoi q < 10 then defaultDirstatcacheSize else atoi q
  | .retryTimeout => if atoi q < 1 then 3 else atoi q
  | .sessionTimeout => if atoi q < 7 then 60 else atoi q
  | .statCacheTimeout => atoi q
  | .maxthcallowed => if strcaseeq q (text "off") then 0 else atoi q
  | .runUid | .runGid => if strcaseeq q (text "off") then 0 else atoi q % 4294967296
  | .uploadUmask | .systemUmask => strtol 8 q % 4294967296

/-- The assignments for a line that names a number.  The line for `stat_cache_timeout` assigns to
`session_timeout`, and then looks at `stat_cache_timeout`. -/
def Settings.readNumber (s : Settings) (n : NumberSetting) (q : ByteString) : Settings :=
  match n with
  | .statCacheTimeout =>
      let s := s.setNumber .sessionTimeout (n.read q)
      if s.number .statCacheTimeout ≤ 0 then s.setNumber .statCacheTimeout 20 else s
  | n => s.setNumber n (n.read q)

/-! ### The log -/

/-- The flags of `logging` by name. -/
def logFlags : List (String × UInt32) :=
  [("transfers", 0x0008 ||| 0x0020), ("version", 0x0002), ("errors", 0x0001), ("getdir", 0x0004),
    ("getfile", 0x0008), ("upload", 0x0010), ("install", 0x0020), ("delfile", 0x0040),
    ("deldir", 0x0080), ("setpro", 0x0100), ("getpro", 0x0800), ("makedir", 0x0200),
    ("grabfile", 0x0400), ("readonly", 0x1000), ("stat", 0x2000), ("rename", 0x4000)]

/-- `log_set` -/
def logSet (logging flag : UInt32) (neg : Bool) : UInt32 :=
  if neg then logging &&& ~~~flag else logging ||| flag

/-- A word of a `log` line other than `none` and `all`. -/
def logWord (logging : UInt32) (q : ByteString) : UInt32 :=
  let neg : Bool := q.head? = some 0x21
  let q := if neg then q.tail else q
  match logFlags.find? fun f => strcaseeq q (text f.1) with
  | none => logging
  | some f => logSet logging f.2 neg

/-- The loop for a `log` line.  A round takes a byte at least, so the length of the value is enough
fuel. -/
def logWords : ℕ → ByteString → UInt32 → UInt32
  | 0, _, logging => logging
  | n + 1, q, logging =>
      let word := q.takeWhile fun c => !isSpace c
      let r := skipWhitespace (q.dropWhile fun c => !isSpace c)
      if strcaseeq word (text "none") then 0x0000
      else
        let logging := if strcaseeq word (text "all") then 0xFFFF else logWord logging word
        if r = [] then logging else logWords n r logging

/-! ## Lines -/

/-- What a keyword stands for. -/
inductive ConfCommand where
  | conf
  | word (w : WordSetting)
  | host
  | log
  | number (n : NumberSetting)
  | flag (f : FlagSetting)
  | invalid
  deriving DecidableEq, Repr

/-- The keywords, in the order in which they are tried. -/
def confKeywords : List (String × ConfCommand) :=
  [("conf", .conf), ("readme", .word .readmeFile), ("ListenAddress", .word .listenOn),
    ("homedir", .word .homeDir), ("tmpdir", .word .tmpDir), ("logfile", .word .logname),
    ("xferlog", .word .tlogname), ("pidlogname", .word .pidlogname),
    ("dumpfile", .word .dumpname), ("host", .host), ("log", .log), ("port", .number .udpPort),
    ("packetsize", .number .packetsize), ("filecache", .number .fpCacheLimit),
    ("dircache", .number .dirCacheLimit), ("statcache", .number .statCacheLimit),
    ("retry", .number .retryTimeout), ("timeout", .number .sessionTimeout),
    ("statcache_timeout", .number .statCacheTimeout), ("thruput", .number .maxthcallowed),
    ("setuid", .number .runUid), ("setgid", .number .runGid), ("umask", .number .uploadUmask),
    ("serverumask", .number .systemUmask), ("daemonize", .flag .daemonize),
    ("debug", .flag .dbug), ("restricted", .flag .privMode),
    ("homedir_restricted", .flag .homedirRestricted), ("grabcommand", .flag .grabEnabled),
    ("vercommand", .flag .verEnabled),
    ("permit_passwordless_owners", .flag .permitPasswordlessOwners),
    ("reverse_name", .flag .noUnnamed), ("use_prebuild_dirlists", .flag .usePrebuildDirlists),
    ("use_access_files", .flag .useAccessFiles),
    ("use_directory_mtime", .flag .useDirectoryMtime), ("read_only", .flag .readOnly)]

def ConfCommand.ofKeyword (p : ByteString) : ConfCommand :=
  match confKeywords.find? fun k => strcaseeq p (text k.1) with
  | none => .invalid
  | some k => k.2

/-- What is done for a command other than `conf`. -/
def Settings.carryOut (gethostbyname : ByteString → Option UInt32) (s : Settings)
    (c : ConfCommand) (q : ByteString) : Except Halt Settings :=
  match c with
  | .conf | .invalid => .ok s
  | .word w => .ok (s.setWord w q)
  | .host =>
      match addIpline gethostbyname q s.iptab with
      | none => .error .undefined
      | some iptab => .ok { s with iptab }
  | .log => .ok { s with logging := logWords (q.length + 1) q s.logging }
  | .number n => .ok (s.readNumber n q)
  | .flag f => (getBoolean q).map (s.setFlag f)

/-- What `read_configuration` makes of a line that it has read into `buf`. -/
inductive ConfLine where
  | skipped
  /-- The byte before `buf` is written. -/
  | undefined
  | bogus
  | command (p q : ByteString)
  deriving DecidableEq, Repr

def parseConfLine (buf : ByteString) : ConfLine :=
  if buf.head? = some newline ∨ buf.head? = some 0x23 then .skipped
  else if cstr buf = [] then .undefined
  else
    let p := skipWhitespace (cstr buf).dropLast
    let q := p.dropWhile fun c => !isSpace c
    if p = [] ∨ q = [] then .bogus
    else .command (p.takeWhile fun c => !isSpace c) q.tail

/-! ## Files -/

/-- One `fgets (buf, 1024, fp)`: how much it reads. -/
def fgetsLength (content : ByteString) : ℕ :=
  let line := (content.take 1023).takeWhile fun c => c != newline
  min 1023 (min content.length (line.length + 1))

/-- What `fgets` reads into `buf` in turn.  Each call reads a byte at least, so the length of the
file is enough fuel. -/
def fgetsLines : ℕ → ByteString → List ByteString
  | 0, _ => []
  | n + 1, content =>
      if content = [] then []
      else content.take (fgetsLength content) ::
        fgetsLines n (content.drop (fgetsLength content))

/-- What a line that was carried out did. -/
structure ConfStep where
  command : ConfCommand
  value : ByteString
  before : Settings
  after : Settings

structure ConfState where
  settings : Settings
  confRead : Bool
  steps : List ConfStep

/-- The world of `read_configuration`: the files it can open, and the name service. -/
structure ConfWorld where
  files : ByteString → Option ByteString
  gethostbyname : ByteString → Option UInt32

/-- A command other than `conf`. -/
def ConfState.carryOut (world : ConfWorld) (st : ConfState) (c : ConfCommand) (q : ByteString) :
    Except Halt ConfState :=
  (st.settings.carryOut world.gethostbyname c q).map fun settings =>
    { st with settings, steps := st.steps ++ [⟨c, q, st.settings, settings⟩] }

/-- The loop of `read_configuration`.  A `conf` line leaves the file for another one, which `nested`
reads. -/
def readConfLines (world : ConfWorld)
    (nested : ByteString → ConfState → Except Halt ConfState) :
    List ByteString → ConfState → Except Halt ConfState
  | [], st => .ok st
  | buf :: lines, st =>
      match parseConfLine buf with
      | .skipped => readConfLines world nested lines st
      | .undefined => .error .undefined
      | .bogus => .error (.exit 1)
      | .command p q =>
          if ConfCommand.ofKeyword p = .conf then
            if st.confRead then readConfLines world nested lines st
            else nested q { st with confRead := true }
          else (st.carryOut world (.ofKeyword p) q).bind (readConfLines world nested lines)

/-- `read_configuration`, for `n` files at most. -/
def readConfFiles (world : ConfWorld) : ℕ → ByteString → ConfState → Except Halt ConfState
  | 0, _, st => .ok st
  | n + 1, name, st =>
      match world.files name with
      | none => .ok st
      | some content =>
          readConfLines world (readConfFiles world n) (fgetsLines content.length content) st

/-- `read_configuration`.  The second file can not name a third. -/
def readConfiguration (world : ConfWorld) (name : ByteString) (st : ConfState) :
    Except Halt ConfState :=
  readConfFiles world 2 name st

/-- `load_configuration` -/
def loadConfiguration (world : ConfWorld) (name : ByteString) (st : ConfState) :
    Except Halt ConfState :=
  readConfiguration world name { st with settings := { st.settings with iptab := [] } }

/-! ## Runs -/

section

variable {world : ConfWorld} {st st' : ConfState} {c : ConfCommand} {q : ByteString}

theorem ConfState.carryOut_eq_ok :
    st.carryOut world c q = .ok st' ↔ ∃ settings,
      st.settings.carryOut world.gethostbyname c q = .ok settings ∧
      st' = { st with settings, steps := st.steps ++ [⟨c, q, st.settings, settings⟩] } := by
  unfold ConfState.carryOut
  cases st.settings.carryOut world.gethostbyname c q with
  | error e => simp [Except.map]
  | ok settings => simp [Except.map, eq_comm]

/-- What holds of the state at the start and is kept by every line that is carried out, and does not
depend on `conf_read`, holds at the end. -/
theorem readConfLines_induction {I : ConfState → Prop}
    {nested : ByteString → ConfState → Except Halt ConfState}
    (hcarry : ∀ st c q st', c ≠ .conf → I st → st.carryOut world c q = .ok st' → I st')
    (hnested : ∀ q st st', I st → nested q { st with confRead := true } = .ok st' → I st')
    {lines : List ByteString} (hst : I st)
    (hrun : readConfLines world nested lines st = .ok st') : I st' := by
  induction lines generalizing st with
  | nil =>
      cases hrun
      exact hst
  | cons buf lines ih =>
      simp only [readConfLines] at hrun
      split at hrun
      · exact ih hst hrun
      · cases hrun
      · cases hrun
      · split at hrun
        · split at hrun
          · exact ih hst hrun
          · exact hnested _ _ _ hst hrun
        · rename_i p q _ hconf
          cases hdone : st.carryOut world (.ofKeyword p) q with
          | error e =>
              rw [hdone] at hrun
              cases hrun
          | ok st₁ =>
              rw [hdone] at hrun
              exact ih (hcarry _ _ _ _ hconf hst hdone) hrun

theorem readConfFiles_induction {I : ConfState → Prop}
    (hconf : ∀ st : ConfState, I st → I { st with confRead := true })
    (hcarry : ∀ st c q st', c ≠ .conf → I st → st.carryOut world c q = .ok st' → I st')
    {n : ℕ} {name : ByteString} (hst : I st) (hrun : readConfFiles world n name st = .ok st') :
    I st' := by
  induction n generalizing name st st' with
  | zero =>
      cases hrun
      exact hst
  | succ n ih =>
      simp only [readConfFiles] at hrun
      split at hrun
      · cases hrun
        exact hst
      · exact readConfLines_induction hcarry (fun q st st' hst hrun => ih (hconf st hst) hrun) hst
          hrun

end

end Fsp
