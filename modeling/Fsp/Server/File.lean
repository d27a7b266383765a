import Fsp.Server.Acl

/-!
# Files and directories

`server/file.c`: the caches for directory information, directory listings and open files, and the
operations that the commands of the protocol stand for.

A function that returns an error text or `NULLP` returns an `Option ByteString` here, with `none`
for success, or an `Except ByteString` when it also has a result.  A pointer to a `DIRINFO` is the
number of its slot in `dirStatCache`, so that two pointers are equal when the numbers are.
-/

namespace Fsp

open Bytes

section

variable {Fs Cwd : Type} [Posix Fs Cwd]

/-! ## Paths -/

/-- The directory that `validate_path` is about: with `wantDirectory` the whole path. -/
def directoryPart (pp : PPath) (wantDirectory : Bool) : PPath :=
  if wantDirectory then { pp with dPtr := pp.fullp, dLen := pp.dLen + pp.fLen + 1 } else pp

/-- The string that ends up in `work`. -/
def PPath.work (pp : PPath) : ByteString := pp.dPtr.take pp.dLen

/-- The directory information a pointer points to. -/
def dirInfo (di : ℕ) : Srv Fs Cwd DirInfo := do
  let s ← get
  pure (s.dirStatCache.entry di)

def setDirInfo (di : ℕ) (f : DirInfo → DirInfo) : Srv Fs Cwd Unit :=
  modify fun s =>
    { s with dirStatCache := s.dirStatCache.setEntry di (f (s.dirStatCache.entry di)) }

/-- `f_cache_put (dirstatcache, ..)` -/
def putDirInfo (key : ByteString) (newdir : DirInfo) : Srv Fs Cwd ℕ := fun s =>
  let put := s.dirStatCache.fCachePut key newdir
  .ok put.1 { s with dirStatCache := put.2.2 }

/-- `f_cache_delete_entry (dirstatcache, ..)` -/
def deleteDirInfo (di : ℕ) : Srv Fs Cwd Unit :=
  modify fun s => { s with dirStatCache := (s.dirStatCache.fCacheDeleteEntry di).2 }

/-- The last part of `validate_path`: build a new directory info for the directory `work`. -/
def buildDirInfo (cfg : Config) (work : ByteString) (sd : Stat) :
    Srv Fs Cwd (Except ByteString ℕ) := do
  if ← chdir work then
    match ← getcwd with
    | none => do
        let _ ← chdir cfg.homeDir
        pure (.error (text "Can't get current directory"))
    | some realname =>
        if cfg.homedirRestricted ∧ ¬ cfg.homeDir <+: realname then do
          let _ ← chdir cfg.homeDir
          pure (.error (text "Not following link out of restricted area"))
        else do
          let s ← get
          let mtime := if cfg.useDirectoryMtime then sd.mtime else s.curTime
          let newdir ← loadAccessRights cfg
            { (default : DirInfo) with realname, mtime, lastcheck := s.curTime }
          let _ ← chdir cfg.homeDir
          let di ← putDirInfo work newdir
          pure (.ok di)
  else
    pure (.error (text "Can't change directory"))

/-- The middle part of `validate_path`: the directory `work` is not cached, or only a stale entry
for it is. -/
def recheckDirInfo (cfg : Config) (work : ByteString) (di : Option ℕ) :
    Srv Fs Cwd (Except ByteString ℕ) := do
  match ← stat work with
  | none => pure (.error (text "No such directory"))
  | some sd =>
      if sd.kind ≠ .dir then pure (.error (text "Not a directory"))
      else
        match di with
        | none => buildDirInfo cfg work sd
        | some di => do
            let s ← get
            if cfg.useDirectoryMtime ∧ sd.mtime = (s.dirStatCache.entry di).mtime then do
              setDirInfo di fun d => { d with lastcheck := s.curTime }
              pure (.ok di)
            else do
              deleteDirInfo di
              buildDirInfo cfg work sd

/-- Whether the cached entry `di` need not be rechecked. -/
def Server.fresh (s : Server Fs Cwd) (cfg : Config) (di : ℕ) : Bool :=
  s.curTime < (s.dirStatCache.entry di).lastcheck + cfg.statCacheTimeout

/-- The directory information for the directory `work`. -/
def findDirInfo (cfg : Config) (work : ByteString) : Srv Fs Cwd (Except ByteString ℕ) := do
  let s ← get
  match s.dirStatCache.fCacheFind work with
  | some di => if s.fresh cfg di then pure (.ok di) else recheckDirInfo cfg work (some di)
  | none => recheckDirInfo cfg work none

/-- `validate_path` -/
def validatePath (cfg : Config) (fullp : ByteString) (wantDirectory : Bool) :
    Srv Fs Cwd (Except ByteString (PPath × ℕ)) :=
  match parsePath fullp with
  | .error err => pure (.error err)
  | .ok pp => do
      let pp := directoryPart pp wantDirectory
      emit (.lookup pp.work)
      match ← findDirInfo cfg pp.work with
      | .error err => pure (.error err)
      | .ok di => do
          let d ← dirInfo di
          emit (.validated pp di d.realname)
          pure (.ok (pp, di))

/-! ## Copying -/

/-- The loop of `copy_file`.  `fuel` is one more than the number of bytes the stream has left, so
that it only runs out on a file that never ends. -/
def copyLoop : ℕ → Handle → Handle → Srv Fs Cwd Unit
  | 0, _, _ => throw .hang
  | fuel + 1, ft, fp => do
      let buf ← fread ft 1024
      if buf = [] then pure ()
      else do
        let bytes ← fwrite fp buf
        if bytes = buf.length then copyLoop fuel ft fp else pure ()

/-- `copy_file` -/
def copyFile (n1 n2 : ByteString) : Srv Fs Cwd (Option ByteString) := do
  match ← fopen n1 .r with
  | none => pure (some (text "Can't open temporary file"))
  | some ft => do
      match ← fopen n2 .w with
      | none => do
          fclose ft
          pure (some (text "Can't open file for output"))
      | some fp => do
          let fuel ← query fun (fs : Fs) _ => Posix.remaining fs ft + 1
          copyLoop fuel ft fp
          let readError ← ferror ft
          let writeError ← ferror fp
          fclose ft
          fclose fp
          if readError ∨ writeError then do
            let _ ← unlink n2
            pure (some (text "Write error"))
          else do
            emit (.copied n1 n2)
            pure none

/-! ## Directory listings -/

/-- The size of a directory block. -/
def dirblocksize (cfg : Config) : ℕ := min cfg.packetsize.toNat ubufSpace

/-- The variables of `build_dir_listing`: what was appended to the listing, the buffer with the
write position in it, and the free space. -/
structure ListingState where
  listing : ByteString
  buffer : ByteString
  bufpos : ℕ
  rem : UInt32
  deriving DecidableEq

/-- Whether `build_dir_listing` hides a name. -/
def hiddenName (name : ByteString) : Bool :=
  name.head? = some dot && name != [dot] && name != [dot, dot]

/-- The bytes of a directory entry without its padding. -/
def direntBytes (name : ByteString) (sb : Stat) : ByteString :=
  be32 (UInt32.ofNat (sb.mtime % 4294967296).toNat) ++
  be32 (UInt32.ofNat (min sb.size 0xFFFFFFFF)) ++
  [if sb.kind = .dir then rdtypeDir else rdtypeFile] ++ name ++ [0]

/-- `memset (buffer + bufpos, RDTYPE_SKIP, rem)` and `append_dir_listing (dl, buffer,
dirblocksize)`. -/
def flushBlock (size : ℕ) (v : ListingState) : ListingState :=
  let buffer := splice v.buffer v.bufpos (List.replicate v.rem.toNat rdtypeSkip)
  ⟨v.listing ++ buffer.take size, buffer, 0, UInt32.ofNat size⟩

/-- One entry of `build_dir_listing`.  Writing behind the end of the buffer is the `none` of this
function. -/
def addDirent (size : ℕ) (v : ListingState) (name : ByteString) (sb : Stat) :
    Option ListingState :=
  let nlen := name.length + 1
  -- do we have space in buffer for entire entry?
  let v := if v.rem.toNat < rdhsize + nlen then flushBlock size v else v
  if ubufSpace < v.bufpos + rdhsize + nlen then none
  else
    let skip := (4 - (nlen + rdhsize) % 4) % 4
    some
      { v with
        buffer := splice v.buffer v.bufpos (direntBytes name sb)
        bufpos := v.bufpos + (rdhsize + nlen + skip)
        rem := v.rem - UInt32.ofNat (rdhsize + nlen) - UInt32.ofNat skip }

/-- The entries `build_dir_listing` puts into the listing, from what `readdir` and `stat` give. -/
def visibleEntry (entry : Dirent × Option Stat) : Option (ByteString × Stat) :=
  match entry with
  | (dp, some sb) =>
      if dp.ino = 0 ∨ hiddenName dp.name ∨ sb.kind = .other then none else some (dp.name, sb)
  | (_, none) => none

/-- The loop of `build_dir_listing`. -/
def addDirents (size : ℕ) : ListingState → List (ByteString × Stat) → Option ListingState
  | v, [] => some v
  | v, (name, sb) :: entries =>
      match addDirent size v name sb with
      | none => none
      | some v => addDirents size v entries

/-- The final entry of `build_dir_listing`. -/
def finishListing (size : ℕ) (v : ListingState) : Option ByteString :=
  let v := if v.rem.toNat < rdhsize then flushBlock size v else v
  if ubufSpace < v.bufpos + rdhsize then none
  else
    some (v.listing ++
      (splice v.buffer (v.bufpos + 8) [rdtypeEnd]).take (v.bufpos + rdhsize))

/-- `build_dir_listing`, on the entries of the directory. -/
def buildDirListing (cfg : Config) (entries : List (Dirent × Option Stat)) : Option ByteString :=
  let size := dirblocksize cfg
  (addDirents size ⟨[], List.replicate ubufSpace 0, 0, UInt32.ofNat size⟩
    (entries.filterMap visibleEntry)).bind (finishListing size)

/-- The results of `readdir` on a directory, each with that of `stat`. -/
def scanDir (directory : ByteString) : Srv Fs Cwd (Option (List (Dirent × Option Stat))) :=
  query fun fs cwd => (Posix.readdir fs cwd directory).map fun dirents =>
    dirents.map fun dp => (dp, Posix.stat fs cwd (directory ++ [slash] ++ dp.name))

/-- `f_cache_put (dirlistcache, ..)` -/
def putDirListing (key : ByteString) (dl : DirListing) : Srv Fs Cwd ℕ := fun s =>
  let put := s.dirListCache.fCachePut key dl
  .ok put.1 { s with dirListCache := put.2.2 }

/-- `f_cache_delete_entry (dirlistcache, ..)` -/
def deleteDirListing (dl : ℕ) : Srv Fs Cwd Unit :=
  modify fun s => { s with dirListCache := (s.dirListCache.fCacheDeleteEntry dl).2 }

/-- The listing a pointer points to. -/
def dirListing (dl : ℕ) : Srv Fs Cwd DirListing := do
  let s ← get
  pure (s.dirListCache.entry dl)

def setDirListing (dl : ℕ) (f : DirListing → DirListing) : Srv Fs Cwd Unit :=
  modify fun s =>
    { s with dirListCache := s.dirListCache.setEntry dl (f (s.dirListCache.entry dl)) }

/-- The listing file of a directory, if it is not older than the directory. -/
def loadPrebuilt (listP : ByteString) (di : DirInfo) : Srv Fs Cwd (Option DirListing) := do
  match ← stat listP with
  | none => pure none
  | some sf =>
      if sf.mtime < di.mtime then pure none
      else do
        match ← readFile listP with
        | none => pure none
        | some content =>
            if (content.take sf.size).length = sf.size then
              pure (some ⟨content.take sf.size, sf.mtime⟩)
            else pure none

/-- Write a new listing to its file; the result says whether anything was written. -/
def savePrebuilt (listP listing : ByteString) : Srv Fs Cwd Bool := do
  match ← fopen listP .w with
  | none => do
      let _ ← unlink listP
      pure false
  | some f => do
      let written ← fwrite f listing
      fclose f
      if UInt32.ofNat written = 0 then do
        let _ ← unlink listP
        pure false
      else pure true

/-- The end of `server_get_dir`: a new listing goes into the cache and, if it was built, into its
file. -/
def storeListing (listP : Option ByteString) (di : DirInfo) (new : DirListing) : Srv Fs Cwd ℕ := do
  let dl ← putDirListing di.realname new
  let s ← get
  match listP with
  | none => pure dl
  | some listP => do
      if ← savePrebuilt listP new.listing then do
        setDirListing dl fun new => { new with mtime := s.curTime }
        pure dl
      else pure dl

/-- `server_get_dir`, when no listing is cached. -/
def makeListing (cfg : Config) (di : DirInfo) : Srv Fs Cwd (Except ByteString ℕ) := do
  let listP := di.realname ++ [slash] ++ fspDirlisting
  let prebuilt ← (if cfg.usePrebuildDirlists then loadPrebuilt listP di else pure none)
  match prebuilt with
  | some new => do
      let dl ← storeListing none di new
      pure (.ok dl)
  | none => do
      match ← scanDir di.realname with
      | none => pure (.error (text "Server can't list directory"))
      | some entries =>
          match buildDirListing cfg entries with
          | none => throw .undefined
          | some listing => do
              let s ← get
              let dl ← storeListing (if cfg.usePrebuildDirlists then some listP else none) di
                ⟨listing, s.curTime⟩
              pure (.ok dl)

/-- `server_get_dir` -/
def serverGetDir (cfg : Config) (di : ℕ) : Srv Fs Cwd (Except ByteString ℕ) := do
  let d ← dirInfo di
  let s ← get
  match s.dirListCache.fCacheFind d.realname with
  | none => makeListing cfg d
  | some dl =>
      if (s.dirListCache.entry dl).mtime < d.mtime then do
        -- expired
        deleteDirListing dl
        makeListing cfg d
      else pure (.ok dl)

/-! ## Deleting and making -/

/-- `di->mtime=cur_time; di->lastcheck=cur_time;` -/
def touchDirInfo (di : ℕ) : Srv Fs Cwd Unit := do
  let s ← get
  setDirInfo di fun d => { d with mtime := s.curTime, lastcheck := s.curTime }

/-- `server_del_file` -/
def serverDelFile (pp : PPath) (di : ℕ) : Srv Fs Cwd (Option ByteString) := do
  match ← stat pp.fullp with
  | none => pure (some (text "unlink: file not accessible"))
  | some sb =>
      if sb.kind ≠ .reg then pure (some (text "unlink: not an ordinary file"))
      else do
        if ← unlink pp.fullp then do
          touchDirInfo di
          pure none
        else pure (some (text "unlink: cannot unlink"))

/-- `server_del_dir` -/
def serverDelDir (cfg : Config) (pp : PPath) (di : ℕ) : Srv Fs Cwd (Option ByteString) := do
  match ← stat pp.fullp with
  | none => pure (some (text "rmdir: directory not accessible"))
  | some sb =>
      if sb.kind ≠ .dir then pure (some (text "rmdir: not an ordinary directory"))
      else do
        let _ ← chdir pp.fullp
        saveAccessRights cfg { (default : DirInfo) with protection := dirList ||| dirGet }
        let _ ← chdir cfg.homeDir
        if ← rmdir pp.fullp then do
          setDirInfo di fun d => { d with lastcheck := 0 }
          pure none
        else do
          let _ ← chdir pp.fullp
          let d ← dirInfo di
          saveAccessRights cfg d
          let _ ← chdir cfg.homeDir
          pure (some (text "rmdir: cannot unlink"))

/-- `"%d.%d.%d.%d"`, on the first four bytes of the `unsigned long` that holds the address. -/
def dottedQuad (bigEndian : Bool) (inetNum : UInt32) : ByteString :=
  let byte (j : Fin 4) := decimal (if bigEndian then 0 else (octet inetNum j).toNat)
  byte 0 ++ text "." ++ byte 1 ++ text "." ++ byte 2 ++ text "." ++ byte 3

/-- The owner record of a new directory. -/
def creatorLine (bigEndian : Bool) (inetNum : UInt32) : ByteString :=
  dottedQuad bigEndian inetNum ++ text " O Creator\n"

/-- The directory information of a directory made at `curTime` in the directory `d`. -/
def creatorInfo (gethostbyname : ByteString → Option UInt32) (line : ByteString) (d : DirInfo)
    (curTime : ℤ) : DirInfo where
  realname := []
  owner := (addIpline gethostbyname line []).getD []
  protection := d.protection
  publicPassword := d.publicPassword
  ownerPassword := d.ownerPassword
  readme := none
  mtime := curTime
  lastcheck := curTime

/-- `server_make_dir`: the new directory information on success. -/
def serverMakeDir (cfg : Config) (pp : PPath) (inetNum : UInt32) (di : ℕ) :
    Srv Fs Cwd (Except ByteString ℕ) := do
  if ← mkdir pp.fullp then do
    let d ← dirInfo di
    let s ← get
    -- make owner record
    let line := creatorLine cfg.bigEndian inetNum
    let gethostbyname ← query fun (fs : Fs) _ => Posix.gethostbyname fs
    let newdir := creatorInfo gethostbyname line d s.curTime
    let _ ← chdir pp.fullp
    saveAccessRights cfg newdir
    let cwd ← getcwd
    let _ ← chdir cfg.homeDir
    -- where `getcwd` fails it leaves the line of the owner record in the buffer
    let slot ← putDirInfo pp.fullp { newdir with realname := cwd.getD line }
    pure (.ok slot)
  else pure (.error (text "Can't create directory"))

/-! ## Open files -/

/-- The index of the first slot opened for the client under the name, or undefined behaviour when
a slot without name has the client's address and port. -/
def searchSlots (inetNum : UInt32) (portNum : UInt16) (fname : ByteString) :
    List (Slot ByteString FpCache) → ℕ → Except Halt (Option ℕ)
  | [], _ => .ok none
  | slot :: slots, i =>
      if slot.entry.portNum = portNum ∧ slot.entry.inetNum = inetNum then
        match slot.key with
        | none => .error .undefined
        | some key =>
            if key = fname then .ok (some i) else searchSlots inetNum portNum fname slots (i + 1)
      else searchSlots inetNum portNum fname slots (i + 1)

/-- `search_fpcache` -/
def searchFpcache (inetNum : UInt32) (portNum : UInt16) (fname : ByteString) :
    Srv Fs Cwd (Option ℕ) := do
  let s ← get
  match searchSlots inetNum portNum fname s.fpCache.slots 0 with
  | .error halt => throw halt
  | .ok i => pure i

/-- `f_cache_find (fpcache, ..)` -/
def findFp (key : ByteString) : Srv Fs Cwd (Option ℕ) := do
  let s ← get
  pure (s.fpCache.fCacheFind key)

/-- The stream of a slot.  A null stream is only found in a slot without name. -/
def fpOf (i : ℕ) : Srv Fs Cwd Handle := do
  let s ← get
  match (s.fpCache.entry i).fp with
  | some fp => pure fp
  | none => throw .undefined

/-- `fpcache_free_entry` -/
def freeFp (entry : FpCache) : Srv Fs Cwd Unit :=
  match entry.fp with
  | some fp => fclose fp
  | none => pure ()

/-- `f_cache_put (fpcache, ..)` -/
def putFp (key : ByteString) (entry : FpCache) : Srv Fs Cwd Unit := do
  let s ← get
  let put := s.fpCache.fCachePut key entry
  freeFp put.2.1.entry
  modify fun s => { s with fpCache := put.2.2 }

/-- `f_cache_delete_entry (fpcache, ..)`, which ignores a null pointer. -/
def deleteFp : Option ℕ → Srv Fs Cwd Unit
  | none => pure ()
  | some i => do
      let s ← get
      let deleted := s.fpCache.fCacheDeleteEntry i
      freeFp deleted.1.entry
      modify fun s => { s with fpCache := deleted.2 }

/-- `server_get_file` -/
def serverGetFile (pp : PPath) (inetNum : UInt32) (portNum : UInt16) (di : ℕ) :
    Srv Fs Cwd (Except ByteString Handle) := do
  let d ← dirInfo di
  let realfn := d.realname ++ [slash] ++ pp.fPtr
  match ← searchFpcache inetNum portNum realfn with
  | some i => do
      let fp ← fpOf i
      pure (.ok fp)
  | none => do
      match ← stat realfn with
      | none => pure (.error (text "No such file"))
      | some sb =>
          if sb.kind = .dir then pure (.error (text "Is a directory"))
          else if sb.kind ≠ .reg then pure (.error (text "Not a regular file"))
          else do
            match ← fopen pp.fullp .r with
            | none => pure (.error (text "Can't open file"))
            | some fp => do
                putFp realfn ⟨some fp, inetNum, portNum⟩
                pure (.ok fp)

/-! ## Protection -/

/-- `server_get_pro`: the readme with its zero, and the flags. -/
def serverGetPro (d : DirInfo) (acc : ByteString) : ByteString × UInt8 :=
  let flags := d.protection ^^^ dirGet
  (match d.readme with
    | some readme => readme ++ [0]
    | none => [],
   if acc.head? = some 0x4F then flags ||| dirOwner else flags)

/-- The right the second byte of a protection request names. -/
def proAct (c : UInt8) : Option UInt8 :=
  match c with
  | 0x63 => some dirAdd
  | 0x64 => some dirDel
  | 0x67 => some dirGet
  | 0x6D => some dirMkdir
  | 0x6C => some dirList
  | 0x72 => some dirRename
  | _ => none

/-- The protection that the two bytes of a request ask for. -/
def newProtection (protection k0 k1 : UInt8) : Option UInt8 :=
  match proAct k1 with
  | none => none
  | some act =>
      if k0 = 0x2B then some (protection ||| act)
      else if k0 = 0x2D then some (protection &&& ~~~act)
      else none

/-- `server_set_pro` -/
def serverSetPro (cfg : Config) (di : ℕ) (k0 k1 : UInt8) : Srv Fs Cwd (Option ByteString) := do
  let d ← dirInfo di
  match newProtection d.protection k0 k1 with
  | none => pure (some (text "Invalid syntax. <+|-> <c|d|g|m|l|r>"))
  | some protection => do
      setDirInfo di fun d => { d with protection }
      emit (.protect d.realname d.protection protection)
      touchDirInfo di
      let _ ← chdir d.realname
      let d ← dirInfo di
      saveAccessRights cfg d
      let _ ← chdir cfg.homeDir
      pure none

/-! ## Uploads -/

/-- An upper-case hexadecimal digit. -/
def hexDigit (n : ℕ) : UInt8 := UInt8.ofNat (if n < 10 then 0x30 + n else 0x41 + (n - 10))

/-- The last `width` hexadecimal digits of a number. -/
def hexDigits : ℕ → ℕ → ByteString
  | 0, _ => []
  | width + 1, n => hexDigits width (n / 16) ++ [hexDigit (n % 16)]

/-- `"%s/.T%08lX%04X"` or `"%s/.G%08lX%04X"`, by the letter. -/
def tempName (cfg : Config) (letter : UInt8) (inetNum : UInt32) (portNum : UInt16) : ByteString :=
  cfg.tmpDir ++ [slash, dot, letter] ++ hexDigits 8 inetNum.toNat ++ hexDigits 4 portNum.toNat

/-- The file an upload of the client is assembled in. -/
def uploadName (cfg : Config) (inetNum : UInt32) (portNum : UInt16) : ByteString :=
  tempName cfg 0x54 inetNum portNum

/-- The file a grab of the client is served from. -/
def grabName (cfg : Config) (inetNum : UInt32) (portNum : UInt16) : ByteString :=
  tempName cfg 0x47 inetNum portNum

def holeText : ByteString := text "You are creating hole in file. Restart upload."

def nonContinuousText : ByteString :=
  text "Non continuous upload detected. Restart upload please."

/-- The part of `server_up_load` behind the cache: the stream `fp` stands where the upload has got
to.  `cacheF` is null when the stream was opened just now; `again` restarts the upload. -/
def uploadTail (tname : ByteString) (data : ByteString) (pos : ℕ) (cacheF : Option ℕ) (fp : Handle)
    (again : Srv Fs Cwd (Option ByteString)) : Srv Fs Cwd (Option ByteString) := do
  -- check for uploading on non-tail of file
  let size ← ftello fp
  if size < pos then do
    deleteFp cacheF
    let _ ← unlink tname
    pure (some holeText)
  else if pos + data.length < size then do
    deleteFp cacheF
    let _ ← unlink tname
    if pos = 0 then again else pure (some nonContinuousText)
  else do
    let ok ← (if pos ≠ size then fseeko fp pos else pure true)
    if ok then do
      let written ← fwrite fp data
      if written = data.length then pure none
      else do
        deleteFp cacheF
        pure (some (text "Writing to file failed"))
    else do
      deleteFp cacheF
      pure (some (text "Seeking in file failed"))

/-- The part of `server_up_load` that opens the temporary file. -/
def uploadOpen (tname : ByteString) (pos : ℕ) : Srv Fs Cwd (Option Handle) :=
  if pos ≠ 0 then fopen tname .rPlus
  else do
    let _ ← unlink tname
    fopen tname .w

/-- `server_up_load`.  The function calls itself when an upload restarts at position 0 over a
longer file; `depth` bounds how often, as the stack does. -/
def serverUpLoad (cfg : Config) (data : ByteString) (pos : ℕ) (inetNum : UInt32)
    (portNum : UInt16) : ℕ → Srv Fs Cwd (Option ByteString)
  | 0 => throw .undefined
  | depth + 1 => do
      let tname := uploadName cfg inetNum portNum
      let again := serverUpLoad cfg data pos inetNum portNum depth
      match ← findFp tname with
      | some i => do
          let fp ← fpOf i
          uploadTail tname data pos (some i) fp again
      | none => do
          match ← uploadOpen tname pos with
          | none => pure (some (text "Cannot open temporary file"))
          | some fp => do
              -- check for symlinks or other junk
              match ← lstat tname with
              | none => do
                  fclose fp
                  let _ ← remove tname
                  pure (some (text "Temporary file is NOT a regular file"))
              | some sf =>
                  if sf.kind ≠ .reg then do
                    fclose fp
                    let _ ← remove tname
                    pure (some (text "Temporary file is NOT a regular file"))
                  else if sf.size < pos then do
                    fclose fp
                    let _ ← unlink tname
                    pure (some holeText)
                  else if pos + data.length < sf.size then do
                    fclose fp
                    let _ ← unlink tname
                    if pos = 0 then again else pure (some nonContinuousText)
                  else do
                    -- seek to starting position
                    if ← fseeko fp pos then do
                      chmod tname
                      putFp tname ⟨some fp, inetNum, portNum⟩
                      uploadTail tname data pos none fp again
                    else do
                      fclose fp
                      let _ ← unlink tname
                      pure (some (text "Seeking in file failed"))

/-- How many calls of `server_up_load` fit on the stack. -/
def uploadDepth : ℕ := 1000

/-- The modification time a request asks for, if its extra data has four bytes. -/
def requestedMtime (s2 : ByteString) : Option ℤ :=
  match s2 with
  | b₃ :: b₂ :: b₁ :: b₀ :: _ => some (ofBe32 b₃ b₂ b₁ b₀).toNat
  | _ => none

/-- `server_install` -/
def serverInstall (cfg : Config) (pp : PPath) (inetNum : UInt32) (portNum : UInt16)
    (acc : ByteString) (di : ℕ) (s2 : ByteString) : Srv Fs Cwd (Option ByteString) := do
  let tname := uploadName cfg inetNum portNum
  -- if file still in cache, then close it & remove it from cache
  let cacheF ← findFp tname
  deleteFp cacheF
  -- zero length filename
  if pp.fullp = [dot] then do
    let _ ← unlink tname
    pure none
  else do
    let d ← dirInfo di
    let exist ← fexist pp.fullp
    if exist ∧ ¬ permits d.protection dirDel ∧ acc.head? ≠ some 0x4F then do
      let _ ← unlink tname
      pure (some (text "no permission for replacing that file. Not an owner."))
    else do
      touchDirInfo di
      -- delete target file, if any
      let _ ← unlink pp.fullp
      -- so just copy the temp file
      let tmp ← copyFile tname pp.fullp
      let _ ← unlink tname
      match requestedMtime s2 with
      | some modtime => do
          let s ← get
          utime pp.fullp s.curTime modtime
          pure tmp
      | none => pure tmp

/-! ## Grabbing -/

/-- `server_secure_file` -/
def serverSecureFile (cfg : Config) (pp : PPath) (inetNum : UInt32) (portNum : UInt16) (di : ℕ) :
    Srv Fs Cwd (Option ByteString) := do
  match ← stat pp.fullp with
  | none => pure (some (text "grab: file not accessible"))
  | some sb =>
      if sb.kind ≠ .reg then pure (some (text "grab: not an ordinary file"))
      else do
        let tempP := grabName cfg inetNum portNum
        let _ ← unlink tempP
        -- link emulated as a filecopy
        match ← copyFile pp.fullp tempP with
        | some tmp => pure (some tmp)
        | none => do
            if ← unlink pp.fullp then do
              touchDirInfo di
              pure none
            else do
              let _ ← unlink tempP
              pure (some (text "grab: cannot unlink original file"))

/-- `server_grab_file` -/
def serverGrabFile (cfg : Config) (inetNum : UInt32) (portNum : UInt16) :
    Srv Fs Cwd (Except ByteString Handle) := do
  let tempP := grabName cfg inetNum portNum
  match ← findFp tempP with
  | some i => do
      let fp ← fpOf i
      pure (.ok fp)
  | none => do
      match ← stat tempP with
      | none => pure (.error (text "grab: can't find file"))
      | some sb =>
          if sb.kind ≠ .reg then pure (.error (text "grab: Not a file"))
          else do
            match ← fopen tempP .r with
            | none => pure (.error (text "grab: can't open file"))
            | some fp => do
                putFp tempP ⟨some fp, inetNum, portNum⟩
                pure (.ok fp)

/-- `server_grab_done` -/
def serverGrabDone (cfg : Config) (inetNum : UInt32) (portNum : UInt16) :
    Srv Fs Cwd (Option ByteString) := do
  let tempP := grabName cfg inetNum portNum
  match ← stat tempP with
  | none => pure (some (text "grabdone: can't find temporary file"))
  | some _ => do
      let cacheF ← findFp tempP
      deleteFp cacheF
      if ← unlink tempP then pure none
      else pure (some (text "grabdone: can't delete temporary file"))

/-! ## Information -/

/-- The path buffer after `parse_path`, which puts a zero in the place of the newline it ends
at. -/
def cutPassword (fullp : ByteString) : ByteString :=
  let path := fullp.takeWhile fun c => c != 0 && c != newline
  match fullp.drop path.length with
  | c :: rest => if c = newline then path ++ 0 :: rest else fullp
  | [] => fullp

/-- The check of `server_stat` that the object is inside an accessible directory. -/
def statAllowed (cfg : Config) (path : ByteString) (kind : FileKind) : Srv Fs Cwd Bool :=
  match kind with
  | .other => pure true
  | kind => do
      match ← validatePath cfg path (kind == .dir) with
      | .error _ => pure false
      | .ok _ => pure true

/-- The data `server_stat` replies with. -/
def statBytes (mtime : ℤ) (size : UInt32) (type : UInt8) : ByteString :=
  be32 (UInt32.ofNat (mtime % 4294967296).toNat) ++ be32 size ++ [type]

/-- `server_stat`.  The size of an object that does not exist is whatever `sb` held before. -/
def serverStat (cfg : Config) (path : ByteString) (junk : UInt32) : Srv Fs Cwd ByteString := do
  let path := if path.length < 2 then [0] else path
  match parsePath path with
  | .error _ => pure (statBytes 0 junk 0)
  | .ok pp => do
      match ← stat pp.fullp with
      | none => pure (statBytes 0 junk 0)
      | some sb => do
          let allowed ← statAllowed cfg (cutPassword path) sb.kind
          let type :=
            if allowed then
              match sb.kind with
              | .dir => rdtypeDir
              | .reg => rdtypeFile
              | .other => 0
            else 0
          pure (statBytes sb.mtime (UInt32.ofNat sb.size) type)

/-! ## Renaming -/

/-- `server_rename` -/
def serverRename (src dest : PPath) (sdir tdir : ℕ) : Srv Fs Cwd (Option ByteString) := do
  match ← stat src.fullp with
  | none => pure (some (text "can't find source file or directory"))
  | some sb =>
      if sb.kind = .other then pure (some (text "Refusing to operate on special files"))
      else do
        let target ← stat dest.fullp
        if target.any fun sb => sb.kind == .other then
          pure (some (text "Refusing to operate on special files"))
        -- cross-directory rename?
        else if sdir = tdir then do
          if ← rename src.fullp dest.fullp then do
            touchDirInfo sdir
            pure none
          else pure (some (text "Rename failed"))
        else pure (some (text "Cross-directory renames are not implemented yet."))

end

end Fsp
