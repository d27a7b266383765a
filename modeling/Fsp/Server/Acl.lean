import Fsp.Server.State

/-!
# Access rights

`server/acl.c`: the rights of a directory live in files inside it.  `loadAccessRights` and
`saveAccessRights` work in the current directory; `requireAccessRights` is the decision itself,
whose answer starts with `N` or `O` (granted, `O` to an owner), `D` (denied, the rest is the
reason) or `I` (ignore the client).
-/

namespace Fsp

open Bytes

/-! ## File names -/

def fspDirlisting : ByteString := text ".FSP_CONTENT"
def fspNoget : ByteString := text ".FSP_NO_GET"
def fspDel : ByteString := text ".FSP_OK_DEL"
def fspAdd : ByteString := text ".FSP_OK_ADD"
def fspMkdir : ByteString := text ".FSP_OK_MKDIR"
def fspRename : ByteString := text ".FSP_OK_RENAME"
def fspNolist : ByteString := text ".FSP_NO_LIST"
def fspOwner : ByteString := text ".FSP_OWNER"
def fspPassword : ByteString := text ".FSP_OK_PASSWORD"
def fspOwnerpassword : ByteString := text ".FSP_OWNER_PASSWORD"

/-- Whether some bit of `rights` is set in a protection. -/
def permits (protection rights : UInt8) : Bool := rights &&& protection != 0

/-! ## Loading and saving -/

/-- What `fscanf (f, "%79s", fsp_passwd)` stores, unless it finds no word. -/
def scanPassword (content : ByteString) : Option ByteString :=
  let word := ((content.dropWhile isSpace).take 79).takeWhile fun c => !isSpace c
  if word = [] then none else some (cstr word)

/-- What `while (fscanf (f, "%255[^\n\r]", owner_line) == 1)` stores in turn.  Each round reads a
byte at least, so the length of the file is enough fuel; no round reads the end of a line, so the
loop ends at the first one. -/
def ownerLines : ℕ → ByteString → List ByteString
  | 0, _ => []
  | n + 1, content =>
      let line := (content.take 255).takeWhile fun c => c != newline && c != 0x0D
      if line = [] then [] else cstr line :: ownerLines n (content.drop line.length)

/-- `add_ipline` for each line in turn. -/
def addIplines (gethostbyname : ByteString → Option UInt32) :
    List ByteString → List IPrange → Option (List IPrange)
  | [], table => some table
  | line :: lines, table =>
      match addIpline gethostbyname line table with
      | none => none
      | some table => addIplines gethostbyname lines table

/-- The flag files that stand for a protection. -/
def flagFiles (protection : UInt8) : List ByteString :=
  (if permits protection dirGet then [] else [fspNoget]) ++
  (if permits protection dirDel then [fspDel] else []) ++
  (if permits protection dirAdd then [fspAdd] else []) ++
  (if permits protection dirMkdir then [fspMkdir] else []) ++
  (if permits protection dirRename then [fspRename] else []) ++
  (if permits protection dirList then [] else [fspNolist])

/-- Everything `save_access_rights` unlinks. -/
def accessFiles : List ByteString :=
  [fspNoget, fspDel, fspAdd, fspMkdir, fspRename, fspNolist, fspPassword, fspOwner,
    fspOwnerpassword, fspDirlisting]

theorem mem_accessFiles_of_mem_flagFiles {protection : UInt8} {file : ByteString}
    (h : file ∈ flagFiles protection) : file ∈ accessFiles := by
  have hone : ∀ (c : Bool) (name : ByteString),
      file ∈ (if c then [name] else []) ∨ file ∈ (if c then [] else [name]) → file = name := by
    intro c name hfile
    cases c <;> simpa using hfile
  simp only [flagFiles, List.mem_append] at h
  simp only [accessFiles, List.mem_cons]
  rcases h with ((((h | h) | h) | h) | h) | h
  · simp [hone _ _ (Or.inr h)]
  · simp [hone _ _ (Or.inl h)]
  · simp [hone _ _ (Or.inl h)]
  · simp [hone _ _ (Or.inl h)]
  · simp [hone _ _ (Or.inl h)]
  · simp [hone _ _ (Or.inr h)]

section

variable {Fs Cwd : Type} [Posix Fs Cwd]

/-- `load_password` -/
def loadPassword (file : ByteString) : Srv Fs Cwd (Option ByteString) := do
  let content ← readFile file
  pure (content.bind scanPassword)

/-- `save_password` -/
def savePassword (file password : ByteString) : Srv Fs Cwd Unit :=
  writeFile file (password ++ text "\n")

/-- `save_password`, unless the password is a null pointer. -/
def savePasswordIf (file : ByteString) : Option ByteString → Srv Fs Cwd Unit
  | some password => savePassword file password
  | none => pure ()

/-- `save_access_rights` -/
def saveAccessRights (cfg : Config) (di : DirInfo) : Srv Fs Cwd Unit := do
  accessFiles.forM fun file => do
    let _ ← unlink file
    pure ()
  if cfg.useAccessFiles then
    (flagFiles di.protection).forM touch
    savePasswordIf fspPassword di.publicPassword
    savePasswordIf fspOwnerpassword di.ownerPassword
    if di.owner ≠ [] then
      writeFile fspOwner (dumpIptab di.owner)
    else
      pure ()
  else
    pure ()

/-- The readme file of the current directory, cut to what fits into a reply. -/
def loadReadme (cfg : Config) : Srv Fs Cwd (Option ByteString) := do
  match ← stat cfg.readmeFile with
  | none => pure none
  | some sf =>
      match ← readFile cfg.readmeFile with
      | none => pure none
      | some content =>
          let s := min (cfg.packetsize.toNat - proBytes - 1) (sf.size % 2 ^ 32)
          pure (some (cstr (content.take s)))

/-- The protection flags of the current directory, `p` being set already. -/
def loadProtection (p : UInt8) : Srv Fs Cwd UInt8 := do
  let noget ← fexist fspNoget
  let p := if noget then p ^^^ dirGet else p
  let del ← fexist fspDel
  let p := if del then p ||| dirDel else p
  let add ← fexist fspAdd
  let p := if add then p ||| dirAdd else p
  let mkdir ← fexist fspMkdir
  let p := if mkdir then p ||| dirMkdir else p
  let rename ← fexist fspRename
  let p := if rename then p ||| dirRename else p
  let nolist ← fexist fspNolist
  pure (if nolist then p ^^^ dirList else p)

/-- `load_password`, if the file is there and not empty. -/
def loadPasswordFile (file : ByteString) : Srv Fs Cwd (Option ByteString) := do
  match ← stat file with
  | none => pure none
  | some sf => if 0 < sf.size then loadPassword file else pure none

/-- The owner table of the current directory and the password of its owners, which is looked for
only if there is an owner file. -/
def loadOwner : Srv Fs Cwd (List IPrange × Option ByteString) := do
  match ← readFile fspOwner with
  | none => pure ([], none)
  | some content =>
      let gethostbyname ← query fun (fs : Fs) _ => Posix.gethostbyname fs
      match addIplines gethostbyname (ownerLines content.length content) [] with
      | none => throw .undefined
      | some owner => do
          let password ← loadPasswordFile fspOwnerpassword
          pure (owner, password)

/-- `load_access_rights` -/
def loadAccessRights (cfg : Config) (di : DirInfo) : Srv Fs Cwd DirInfo := do
  let readme ← loadReadme cfg
  let protection := dirList ||| dirGet
  let protection := if readme.isSome then protection ||| dirReadme else protection
  let di := { di with
    owner := [], ownerPassword := none, publicPassword := none, protection, readme }
  if cfg.useAccessFiles then
    let protection ← loadProtection protection
    let publicPassword ← loadPasswordFile fspPassword
    let owner ← loadOwner
    pure { di with
      protection, publicPassword, owner := owner.1, ownerPassword := owner.2 }
  else
    pure di

end

/-! ## The decision -/

/-- The second half of `require_access_rights`: the rights of the public. -/
def requirePublicRights (di : DirInfo) (rights : UInt8) (passwd : Option ByteString) :
    ByteString :=
  if permits dirOwner rights then text "DNot an owner"
  else if di.publicPassword.isSome ∧ passwd = none then text "DYou need a password"
  else if di.publicPassword.isSome ∧ di.publicPassword ≠ passwd then text "DInvalid password"
  else if permits di.protection rights ∨ rights = 0 then text "NWelcome on board captain!"
  else text "DPermission denied"

/-- `require_access_rights` -/
def requireAccessRights (cfg : Config) (di : DirInfo) (rights : UInt8) (ipAddr : UInt32)
    (passwd : Option ByteString) : ByteString :=
  match checkIpTable cfg.bigEndian ipAddr di.owner with
  | none => requirePublicRights di rights passwd
  | some acc =>
      if acc.head? = some 0x49 ∨ acc.head? = some 0x44 then acc
      else if acc.head? = some 0x4F then
        match di.ownerPassword with
        | none =>
            if cfg.permitPasswordlessOwners then acc else requirePublicRights di rights passwd
        | some password =>
            match passwd with
            | some passwd' =>
                if passwd' = password then acc else requirePublicRights di rights passwd
            | none =>
                if permits dirOwner rights then text "DPassword required for owner"
                else requirePublicRights di rights passwd
      else requirePublicRights di rights passwd

end Fsp
