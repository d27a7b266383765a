import Fsp.Server.Steps

/-!
# What the commands do

The commands of the dispatcher are made of the operations of `server/file.c` and of replies.  A
preorder that the operations respect (`Operations`) and the replies respect (`Replies`) is
therefore respected by the dispatcher, whatever the request is; `does_serve` is the only place
where the sixteen commands are gone through for this.

The texts of the errors are also followed from the operations to the replies: none is longer than
255 bytes, which is all the replies are told about them.
-/

namespace Fsp

open Bytes Effect

variable {Fs Cwd : Type} [Posix Fs Cwd] {cfg : Config}

/-! ## Error texts -/

/-- A text of at most 255 bytes. -/
def Short (msg : ByteString) : Prop := msg.length ≤ 255

instance (msg : ByteString) : Decidable (Short msg) := by
  unfold Short
  infer_instance

/-- An error has a short text. -/
def ShortError {α : Type} (r : Except ByteString α) : Prop := ∀ e, r = .error e → Short e

/-- An error, if there is one, has a short text. -/
def ShortIf (r : Option ByteString) : Prop := ∀ e ∈ r, Short e

theorem shortError_ok {α : Type} (a : α) : ShortError (.ok a) := by
  intro e he
  cases he

theorem shortError_error {α : Type} {e : ByteString} (h : Short e) :
    ShortError (.error e : Except ByteString α) := by
  rintro _ ⟨⟩
  exact h

theorem shortIf_none : ShortIf none := by simp [ShortIf]

theorem shortIf_some {e : ByteString} (h : Short e) : ShortIf (some e) := by
  rintro _ ⟨⟩
  exact h

/-! ### Operations -/

omit [Posix Fs Cwd] in
theorem short_scanByte (c : UInt8) (s : ℕ) (v : PathScan) : ShortError (scanByte c s v) := by
  unfold scanByte
  split
  · split
    · exact shortError_error (by decide)
    · exact shortError_error (by decide)
    · exact shortError_ok _
  · split
    · split <;> exact shortError_ok _
    · exact shortError_ok _

omit [Posix Fs Cwd] in
theorem short_scanPath (bytes : ByteString) (s : ℕ) (v : PathScan) :
    ShortError (scanPath bytes s v) := by
  induction bytes generalizing s v with
  | nil => exact shortError_ok _
  | cons c rest ih =>
      rw [scanPath]
      split_ifs
      · exact shortError_ok _
      · exact shortError_ok _
      · exact shortError_error (by decide)
      · exact shortError_error (by decide)
      · split
        · rename_i e he
          exact shortError_error (short_scanByte c s v e he)
        · exact ih _ _

omit [Posix Fs Cwd] in
theorem short_parsePath (fullp : ByteString) : ShortError (parsePath fullp) := by
  unfold parsePath
  split
  · exact shortError_error (by decide)
  · split_ifs
    · exact shortError_error (by decide)
    · split
      · rename_i e he
        exact shortError_error (short_scanPath _ _ _ e he)
      · exact shortError_ok _

theorem short_buildDirInfo (work : ByteString) (sd : Stat) :
    Returns ShortError (buildDirInfo cfg work sd : Srv Fs Cwd (Except ByteString ℕ)) := by
  refine returns_bind (returns_true _) fun ok _ => returns_ite (fun _ => ?_) fun _ => ?_
  · refine returns_bind (returns_true _) fun realname _ => ?_
    cases realname with
    | none => exact returns_bind (returns_true _) fun _ _ => returns_pure (shortError_error (by decide))
    | some realname =>
        refine returns_ite (fun _ => ?_) fun _ => ?_
        · exact returns_bind (returns_true _) fun _ _ =>
            returns_pure (shortError_error (by decide))
        refine returns_bind (returns_true _) fun s _ => ?_
        refine returns_bind (returns_true _) fun newdir _ => ?_
        refine returns_bind (returns_true _) fun _ _ => ?_
        exact returns_bind (returns_true _) fun di _ => returns_pure (shortError_ok _)
  · exact returns_pure (shortError_error (by decide))

theorem short_recheckDirInfo (work : ByteString) (di : Option ℕ) :
    Returns ShortError (recheckDirInfo cfg work di : Srv Fs Cwd (Except ByteString ℕ)) := by
  refine returns_bind (returns_true _) fun sd _ => ?_
  cases sd with
  | none => exact returns_pure (shortError_error (by decide))
  | some sd =>
      refine returns_ite (fun _ => returns_pure (shortError_error (by decide))) fun _ => ?_
      cases di with
      | none => exact short_buildDirInfo work sd
      | some di =>
          refine returns_bind (returns_true _) fun s _ => returns_ite (fun _ => ?_) fun _ => ?_
          · exact returns_bind (returns_true _) fun _ _ => returns_pure (shortError_ok _)
          · exact returns_bind (returns_true _) fun _ _ => short_buildDirInfo work sd

theorem short_findDirInfo (work : ByteString) :
    Returns ShortError (findDirInfo cfg work : Srv Fs Cwd (Except ByteString ℕ)) := by
  refine returns_bind (returns_true _) fun s _ => ?_
  split
  · exact returns_ite (fun _ => returns_pure (shortError_ok _)) fun _ => short_recheckDirInfo _ _
  · exact short_recheckDirInfo _ _

theorem short_validatePath (fullp : ByteString) (wantDirectory : Bool) :
    Returns ShortError (validatePath cfg fullp wantDirectory :
      Srv Fs Cwd (Except ByteString (PPath × ℕ))) := by
  unfold validatePath
  split
  · rename_i err herr
    exact returns_pure (shortError_error (short_parsePath _ _ herr))
  · refine returns_bind (returns_true _) fun _ _ => ?_
    refine returns_bind (short_findDirInfo _) fun di hdi => ?_
    cases di with
    | error err => exact returns_pure (shortError_error (hdi _ rfl))
    | ok di =>
        refine returns_bind (returns_true _) fun d _ => ?_
        exact returns_bind (returns_true _) fun _ _ => returns_pure (shortError_ok _)

theorem short_makeListing (d : DirInfo) :
    Returns ShortError (makeListing cfg d : Srv Fs Cwd (Except ByteString ℕ)) := by
  refine returns_bind (returns_true _) fun prebuilt _ => ?_
  cases prebuilt with
  | some new => exact returns_bind (returns_true _) fun _ _ => returns_pure (shortError_ok _)
  | none =>
      refine returns_bind (returns_true _) fun entries _ => ?_
      cases entries with
      | none => exact returns_pure (shortError_error (by decide))
      | some entries =>
          simp only
          split
          · exact returns_throw _
          · refine returns_bind (returns_true _) fun s _ => ?_
            exact returns_bind (returns_true _) fun _ _ => returns_pure (shortError_ok _)

theorem short_serverGetDir (di : ℕ) :
    Returns ShortError (serverGetDir cfg di : Srv Fs Cwd (Except ByteString ℕ)) := by
  refine returns_bind (returns_true _) fun d _ => returns_bind (returns_true _) fun s _ => ?_
  split
  · exact short_makeListing _
  · refine returns_ite (fun _ => ?_) fun _ => returns_pure (shortError_ok _)
    exact returns_bind (returns_true _) fun _ _ => short_makeListing _

theorem short_copyFile (n1 n2 : ByteString) :
    Returns ShortIf (copyFile n1 n2 : Srv Fs Cwd (Option ByteString)) := by
  refine returns_bind (returns_true _) fun ft _ => ?_
  cases ft with
  | none => exact returns_pure (shortIf_some (by decide))
  | some ft =>
      refine returns_bind (returns_true _) fun fp _ => ?_
      cases fp with
      | none => exact returns_bind (returns_true _) fun _ _ => returns_pure (shortIf_some (by decide))
      | some fp =>
          refine returns_bind (returns_true _) fun fuel _ => ?_
          refine returns_bind (returns_true _) fun _ _ => ?_
          refine returns_bind (returns_true _) fun readError _ => ?_
          refine returns_bind (returns_true _) fun writeError _ => ?_
          refine returns_bind (returns_true _) fun _ _ => returns_bind (returns_true _) fun _ _ => ?_
          refine returns_ite (fun _ => ?_) fun _ => ?_
          · exact returns_bind (returns_true _) fun _ _ =>
              returns_pure (shortIf_some (by decide))
          · exact returns_bind (returns_true _) fun _ _ => returns_pure shortIf_none

theorem short_serverDelFile (pp : PPath) (di : ℕ) :
    Returns ShortIf (serverDelFile pp di : Srv Fs Cwd (Option ByteString)) := by
  refine returns_bind (returns_true _) fun sb _ => ?_
  cases sb with
  | none => exact returns_pure (shortIf_some (by decide))
  | some sb =>
      refine returns_ite (fun _ => returns_pure (shortIf_some (by decide))) fun _ => ?_
      refine returns_bind (returns_true _) fun ok _ => returns_ite (fun _ => ?_) fun _ => ?_
      · exact returns_bind (returns_true _) fun _ _ => returns_pure shortIf_none
      · exact returns_pure (shortIf_some (by decide))

theorem short_serverDelDir (pp : PPath) (di : ℕ) :
    Returns ShortIf (serverDelDir cfg pp di : Srv Fs Cwd (Option ByteString)) := by
  refine returns_bind (returns_true _) fun sb _ => ?_
  cases sb with
  | none => exact returns_pure (shortIf_some (by decide))
  | some sb =>
      refine returns_ite (fun _ => returns_pure (shortIf_some (by decide))) fun _ => ?_
      refine returns_bind (returns_true _) fun _ _ => returns_bind (returns_true _) fun _ _ => ?_
      refine returns_bind (returns_true _) fun _ _ => returns_bind (returns_true _) fun ok _ => ?_
      refine returns_ite (fun _ => ?_) fun _ => ?_
      · exact returns_bind (returns_true _) fun _ _ => returns_pure shortIf_none
      · refine returns_bind (returns_true _) fun _ _ => returns_bind (returns_true _) fun d _ => ?_
        refine returns_bind (returns_true _) fun _ _ => returns_bind (returns_true _) fun _ _ => ?_
        exact returns_pure (shortIf_some (by decide))

theorem short_serverMakeDir (pp : PPath) (inetNum : UInt32) (di : ℕ) :
    Returns ShortError (serverMakeDir cfg pp inetNum di : Srv Fs Cwd (Except ByteString ℕ)) := by
  refine returns_bind (returns_true _) fun ok _ => returns_ite (fun _ => ?_) fun _ => ?_
  · refine returns_bind (returns_true _) fun d _ => returns_bind (returns_true _) fun s _ => ?_
    refine returns_bind (returns_true _) fun _ _ => returns_bind (returns_true _) fun _ _ => ?_
    refine returns_bind (returns_true _) fun _ _ => returns_bind (returns_true _) fun cwd _ => ?_
    refine returns_bind (returns_true _) fun _ _ => returns_bind (returns_true _) fun slot _ => ?_
    exact returns_pure (shortError_ok _)
  · exact returns_pure (shortError_error (by decide))

theorem short_serverGetFile (pp : PPath) (inetNum : UInt32) (portNum : UInt16) (di : ℕ) :
    Returns ShortError (serverGetFile pp inetNum portNum di :
      Srv Fs Cwd (Except ByteString Handle)) := by
  refine returns_bind (returns_true _) fun d _ => returns_bind (returns_true _) fun i _ => ?_
  cases i with
  | some i => exact returns_bind (returns_true _) fun fp _ => returns_pure (shortError_ok _)
  | none =>
      refine returns_bind (returns_true _) fun sb _ => ?_
      cases sb with
      | none => exact returns_pure (shortError_error (by decide))
      | some sb =>
          refine returns_ite (fun _ => returns_pure (shortError_error (by decide))) fun _ => ?_
          refine returns_ite (fun _ => returns_pure (shortError_error (by decide))) fun _ => ?_
          refine returns_bind (returns_true _) fun fp _ => ?_
          cases fp with
          | none => exact returns_pure (shortError_error (by decide))
          | some fp => exact returns_bind (returns_true _) fun _ _ => returns_pure (shortError_ok _)

theorem short_serverSetPro (di : ℕ) (k0 k1 : UInt8) :
    Returns ShortIf (serverSetPro cfg di k0 k1 : Srv Fs Cwd (Option ByteString)) := by
  refine returns_bind (returns_true _) fun d _ => ?_
  split
  · exact returns_pure (shortIf_some (by decide))
  · refine returns_bind (returns_true _) fun _ _ => returns_bind (returns_true _) fun _ _ => ?_
    refine returns_bind (returns_true _) fun _ _ => returns_bind (returns_true _) fun _ _ => ?_
    refine returns_bind (returns_true _) fun d _ => returns_bind (returns_true _) fun _ _ => ?_
    exact returns_bind (returns_true _) fun _ _ => returns_pure shortIf_none

theorem short_uploadTail (tname data : ByteString) (pos : ℕ) (cacheF : Option ℕ) (fp : Handle)
    {again : Srv Fs Cwd (Option ByteString)} (hagain : Returns ShortIf again) :
    Returns ShortIf (uploadTail tname data pos cacheF fp again) := by
  refine returns_bind (returns_true _) fun size _ => ?_
  refine returns_ite (fun _ => ?_) fun _ => returns_ite (fun _ => ?_) fun _ => ?_
  · refine returns_bind (returns_true _) fun _ _ => returns_bind (returns_true _) fun _ _ => ?_
    exact returns_pure (shortIf_some (by decide))
  · refine returns_bind (returns_true _) fun _ _ => returns_bind (returns_true _) fun _ _ => ?_
    exact returns_ite (fun _ => hagain) fun _ => returns_pure (shortIf_some (by decide))
  · refine returns_bind (returns_true _) fun ok _ => returns_ite (fun _ => ?_) fun _ => ?_
    · refine returns_bind (returns_true _) fun written _ => ?_
      refine returns_ite (fun _ => returns_pure shortIf_none) fun _ => ?_
      exact returns_bind (returns_true _) fun _ _ => returns_pure (shortIf_some (by decide))
    · exact returns_bind (returns_true _) fun _ _ => returns_pure (shortIf_some (by decide))

theorem short_serverUpLoad (data : ByteString) (pos : ℕ) (inetNum : UInt32) (portNum : UInt16)
    (depth : ℕ) : Returns ShortIf (serverUpLoad cfg data pos inetNum portNum depth :
      Srv Fs Cwd (Option ByteString)) := by
  induction depth with
  | zero => exact returns_throw _
  | succ depth ih =>
      refine returns_bind (returns_true _) fun i _ => ?_
      cases i with
      | some i =>
          exact returns_bind (returns_true _) fun fp _ => short_uploadTail _ _ _ _ _ ih
      | none =>
          refine returns_bind (returns_true _) fun fp _ => ?_
          cases fp with
          | none => exact returns_pure (shortIf_some (by decide))
          | some fp =>
              refine returns_bind (returns_true _) fun sf _ => ?_
              cases sf with
              | none =>
                  refine returns_bind (returns_true _) fun _ _ => ?_
                  exact returns_bind (returns_true _) fun _ _ =>
                    returns_pure (shortIf_some (by decide))
              | some sf =>
                  refine returns_ite (fun _ => ?_) fun _ => returns_ite (fun _ => ?_) fun _ =>
                    returns_ite (fun _ => ?_) fun _ => ?_
                  · refine returns_bind (returns_true _) fun _ _ => ?_
                    exact returns_bind (returns_true _) fun _ _ =>
                      returns_pure (shortIf_some (by decide))
                  · refine returns_bind (returns_true _) fun _ _ => ?_
                    exact returns_bind (returns_true _) fun _ _ =>
                      returns_pure (shortIf_some (by decide))
                  · refine returns_bind (returns_true _) fun _ _ => ?_
                    refine returns_bind (returns_true _) fun _ _ => ?_
                    exact returns_ite (fun _ => ih) fun _ =>
                      returns_pure (shortIf_some (by decide))
                  · refine returns_bind (returns_true _) fun ok _ => ?_
                    refine returns_ite (fun _ => ?_) fun _ => ?_
                    · refine returns_bind (returns_true _) fun _ _ => ?_
                      refine returns_bind (returns_true _) fun _ _ => ?_
                      exact short_uploadTail _ _ _ _ _ ih
                    · refine returns_bind (returns_true _) fun _ _ => ?_
                      exact returns_bind (returns_true _) fun _ _ =>
                        returns_pure (shortIf_some (by decide))

theorem short_serverInstall (pp : PPath) (inetNum : UInt32) (portNum : UInt16) (acc : ByteString)
    (di : ℕ) (s2 : ByteString) :
    Returns ShortIf (serverInstall cfg pp inetNum portNum acc di s2 :
      Srv Fs Cwd (Option ByteString)) := by
  refine returns_bind (returns_true _) fun cacheF _ => returns_bind (returns_true _) fun _ _ => ?_
  refine returns_ite (fun _ => ?_) fun _ => ?_
  · exact returns_bind (returns_true _) fun _ _ => returns_pure shortIf_none
  refine returns_bind (returns_true _) fun d _ => returns_bind (returns_true _) fun exist _ => ?_
  refine returns_ite (fun _ => ?_) fun _ => ?_
  · exact returns_bind (returns_true _) fun _ _ => returns_pure (shortIf_some (by decide))
  refine returns_bind (returns_true _) fun _ _ => returns_bind (returns_true _) fun _ _ => ?_
  refine returns_bind (short_copyFile _ _) fun tmp htmp => ?_
  refine returns_bind (returns_true _) fun _ _ => ?_
  split
  · refine returns_bind (returns_true _) fun s _ => returns_bind (returns_true _) fun _ _ => ?_
    exact returns_pure htmp
  · exact returns_pure htmp

theorem short_serverSecureFile (pp : PPath) (inetNum : UInt32) (portNum : UInt16) (di : ℕ) :
    Returns ShortIf (serverSecureFile cfg pp inetNum portNum di :
      Srv Fs Cwd (Option ByteString)) := by
  refine returns_bind (returns_true _) fun sb _ => ?_
  cases sb with
  | none => exact returns_pure (shortIf_some (by decide))
  | some sb =>
      refine returns_ite (fun _ => returns_pure (shortIf_some (by decide))) fun _ => ?_
      refine returns_bind (returns_true _) fun _ _ => ?_
      refine returns_bind (short_copyFile _ _) fun tmp htmp => ?_
      cases tmp with
      | some tmp => exact returns_pure htmp
      | none =>
          refine returns_bind (returns_true _) fun ok _ => returns_ite (fun _ => ?_) fun _ => ?_
          · exact returns_bind (returns_true _) fun _ _ => returns_pure shortIf_none
          · exact returns_bind (returns_true _) fun _ _ =>
              returns_pure (shortIf_some (by decide))

theorem short_serverGrabFile (inetNum : UInt32) (portNum : UInt16) :
    Returns ShortError (serverGrabFile cfg inetNum portNum :
      Srv Fs Cwd (Except ByteString Handle)) := by
  refine returns_bind (returns_true _) fun i _ => ?_
  cases i with
  | some i => exact returns_bind (returns_true _) fun fp _ => returns_pure (shortError_ok _)
  | none =>
      refine returns_bind (returns_true _) fun sb _ => ?_
      cases sb with
      | none => exact returns_pure (shortError_error (by decide))
      | some sb =>
          refine returns_ite (fun _ => returns_pure (shortError_error (by decide))) fun _ => ?_
          refine returns_bind (returns_true _) fun fp _ => ?_
          cases fp with
          | none => exact returns_pure (shortError_error (by decide))
          | some fp => exact returns_bind (returns_true _) fun _ _ => returns_pure (shortError_ok _)

theorem short_serverGrabDone (inetNum : UInt32) (portNum : UInt16) :
    Returns ShortIf (serverGrabDone cfg inetNum portNum : Srv Fs Cwd (Option ByteString)) := by
  refine returns_bind (returns_true _) fun sb _ => ?_
  cases sb with
  | none => exact returns_pure (shortIf_some (by decide))
  | some sb =>
      refine returns_bind (returns_true _) fun i _ => returns_bind (returns_true _) fun _ _ => ?_
      refine returns_bind (returns_true _) fun ok _ => returns_ite (fun _ => ?_) fun _ => ?_
      · exact returns_pure shortIf_none
      · exact returns_pure (shortIf_some (by decide))

theorem short_serverRename (src dest : PPath) (sdir tdir : ℕ) :
    Returns ShortIf (serverRename src dest sdir tdir : Srv Fs Cwd (Option ByteString)) := by
  refine returns_bind (returns_true _) fun sb _ => ?_
  cases sb with
  | none => exact returns_pure (shortIf_some (by decide))
  | some sb =>
      refine returns_ite (fun _ => returns_pure (shortIf_some (by decide))) fun _ => ?_
      refine returns_bind (returns_true _) fun target _ => ?_
      refine returns_ite (fun _ => returns_pure (shortIf_some (by decide))) fun _ => ?_
      refine returns_ite (fun _ => ?_) fun _ => returns_pure (shortIf_some (by decide))
      refine returns_bind (returns_true _) fun ok _ => returns_ite (fun _ => ?_) fun _ => ?_
      · exact returns_bind (returns_true _) fun _ _ => returns_pure shortIf_none
      · exact returns_pure (shortIf_some (by decide))

theorem short_renameTarget (r : Request) :
    Returns ShortError (renameTarget r : Srv Fs Cwd (Except ByteString (Option FileKind))) := by
  refine returns_ite (fun _ => returns_pure (shortError_error (by decide))) fun _ => ?_
  refine returns_bind (returns_true _) fun sb _ => ?_
  cases sb with
  | none => exact returns_pure (shortError_ok _)
  | some sb =>
      exact returns_ite (fun _ => returns_pure (shortError_error (by decide))) fun _ =>
        returns_pure (shortError_ok _)

omit [Posix Fs Cwd] in
theorem short_overwriteRefused (r : Request) (target : Option FileKind) (pp : PPath) (di : ℕ) :
    Returns ShortIf (overwriteRefused cfg r target pp di : Srv Fs Cwd (Option ByteString)) := by
  refine returns_ite (fun _ => ?_) fun _ => returns_pure shortIf_none
  refine returns_bind (returns_true _) fun pe _ => ?_
  exact returns_ite (fun _ => returns_pure shortIf_none) fun _ =>
    returns_pure (shortIf_some (by decide))

/-! ### Replies -/

omit [Posix Fs Cwd] in
theorem short_dirBlock (listing : ByteString) (pos : ℕ) :
    ShortError (dirBlock cfg listing pos) := by
  unfold dirBlock
  simp only
  split_ifs
  · exact shortError_ok _
  · exact shortError_error (by decide)
  · exact shortError_ok _

omit [Posix Fs Cwd] in
theorem length_dirBlock_le {listing block : ByteString} {pos : ℕ}
    (h : dirBlock cfg listing pos = .ok block) :
    block.length ≤ min cfg.packetsize.toNat ubufSpace := by
  unfold dirBlock at h
  simp only at h
  split_ifs at h
  · injection h with h
    simp [← h]
  · injection h with h
    rw [← h, List.length_take]
    omega

theorem returns_serverStat (path : ByteString) (junk : UInt32) :
    Returns (fun data => data.length = 9) (serverStat cfg path junk : Srv Fs Cwd ByteString) := by
  unfold serverStat
  simp only
  split
  · exact returns_pure rfl
  · refine returns_bind (returns_true _) fun sb _ => ?_
    cases sb with
    | none => exact returns_pure rfl
    | some sb => exact returns_bind (returns_true _) fun _ _ => returns_pure rfl

/-! ## Operations and replies -/

/-- The operations of `server/file.c` that look up no directory have `D`, and so do the steps the
dispatcher itself makes. -/
structure Edits (D : {α : Type} → Srv Fs Cwd α → Prop) (cfg : Config) : Prop extends
    Compositional D where
  listed : ∀ listing, D (emit (.listed listing))
  dirListing : ∀ dl, D (dirListing dl)
  stat : ∀ path, D (stat path)
  requireAccess : ∀ r di rights passwd, D (requireAccess cfg r di rights passwd)
  serverGetDir : ∀ di, D (serverGetDir cfg di)
  serverDelFile : ∀ pp di, D (serverDelFile pp di)
  serverDelDir : ∀ pp di, D (serverDelDir cfg pp di)
  serverMakeDir : ∀ pp inetNum di, D (serverMakeDir cfg pp inetNum di)
  serverSetPro : ∀ di k0 k1, D (serverSetPro cfg di k0 k1)
  serverUpLoad : ∀ data pos inetNum portNum, D
    (serverUpLoad cfg data pos inetNum portNum uploadDepth)
  serverInstall : ∀ pp inetNum portNum acc di s2, D
    (serverInstall cfg pp inetNum portNum acc di s2)
  serverSecureFile : ∀ pp inetNum portNum di, D (serverSecureFile cfg pp inetNum portNum di)
  serverGrabDone : ∀ inetNum portNum, D (serverGrabDone cfg inetNum portNum)
  serverRename : ∀ src dest sdir tdir, D (serverRename src dest sdir tdir)

/-- All operations have `D`. -/
structure Operations (D : {α : Type} → Srv Fs Cwd α → Prop) (cfg : Config) : Prop extends
    Edits D cfg where
  validatePath : ∀ fullp wantDirectory, D (validatePath cfg fullp wantDirectory)
  serverStat : ∀ path junk, D (serverStat cfg path junk)

/-- What follows for every program from two things that hold of all operations. -/
theorem Edits.map₂ {D D' D'' : {α : Type} → Srv Fs Cwd α → Prop} (h : Edits D cfg)
    (h' : Edits D' cfg) (hD : Compositional D'')
    (hsub : ∀ {α : Type} {m : Srv Fs Cwd α}, D m → D' m → D'' m) : Edits D'' cfg where
  toCompositional := hD
  listed _ := hsub (h.listed _) (h'.listed _)
  dirListing _ := hsub (h.dirListing _) (h'.dirListing _)
  stat _ := hsub (h.stat _) (h'.stat _)
  requireAccess _ _ _ _ := hsub (h.requireAccess _ _ _ _) (h'.requireAccess _ _ _ _)
  serverGetDir _ := hsub (h.serverGetDir _) (h'.serverGetDir _)
  serverDelFile _ _ := hsub (h.serverDelFile _ _) (h'.serverDelFile _ _)
  serverDelDir _ _ := hsub (h.serverDelDir _ _) (h'.serverDelDir _ _)
  serverMakeDir _ _ _ := hsub (h.serverMakeDir _ _ _) (h'.serverMakeDir _ _ _)
  serverSetPro _ _ _ := hsub (h.serverSetPro _ _ _) (h'.serverSetPro _ _ _)
  serverUpLoad _ _ _ _ := hsub (h.serverUpLoad _ _ _ _) (h'.serverUpLoad _ _ _ _)
  serverInstall _ _ _ _ _ _ :=
    hsub (h.serverInstall _ _ _ _ _ _) (h'.serverInstall _ _ _ _ _ _)
  serverSecureFile _ _ _ _ := hsub (h.serverSecureFile _ _ _ _) (h'.serverSecureFile _ _ _ _)
  serverGrabDone _ _ := hsub (h.serverGrabDone _ _) (h'.serverGrabDone _ _)
  serverRename _ _ _ _ := hsub (h.serverRename _ _ _ _) (h'.serverRename _ _ _ _)

theorem Operations.map₂ {D D' D'' : {α : Type} → Srv Fs Cwd α → Prop} (h : Operations D cfg)
    (h' : Operations D' cfg) (hD : Compositional D'')
    (hsub : ∀ {α : Type} {m : Srv Fs Cwd α}, D m → D' m → D'' m) : Operations D'' cfg where
  toEdits := h.toEdits.map₂ h'.toEdits hD hsub
  validatePath _ _ := hsub (h.validatePath _ _) (h'.validatePath _ _)
  serverStat _ _ := hsub (h.serverStat _ _) (h'.serverStat _ _)

/-- The operations that deliver an open file have `D`, and so do the steps made with it. -/
structure Streams (D : {α : Type} → Srv Fs Cwd α → Prop) (cfg : Config) : Prop where
  serverGetFile : ∀ pp inetNum portNum di, D (serverGetFile pp inetNum portNum di)
  serverGrabFile : ∀ inetNum portNum, D (serverGrabFile cfg inetNum portNum)
  fseeko : ∀ fp pos, D (fseeko fp pos)
  fread : ∀ fp len, D (fread fp len)
  fclose : ∀ fp, D (fclose fp)

/-- The commands that are answered with the protection of a directory. -/
def TellsPro (cmd : UInt8) : Prop :=
  Command.ofByte cmd = .makeDir ∨ Command.ofByte cmd = .getPro ∨ Command.ofByte cmd = .setPro

theorem Streams.map₂ {D D' D'' : {α : Type} → Srv Fs Cwd α → Prop} (h : Streams D cfg)
    (h' : Streams D' cfg) (hsub : ∀ {α : Type} {m : Srv Fs Cwd α}, D m → D' m → D'' m) :
    Streams D'' cfg where
  serverGetFile _ _ _ _ := hsub (h.serverGetFile _ _ _ _) (h'.serverGetFile _ _ _ _)
  serverGrabFile _ _ := hsub (h.serverGrabFile _ _) (h'.serverGrabFile _ _)
  fseeko _ _ := hsub (h.fseeko _ _) (h'.fseeko _ _)
  fread _ _ := hsub (h.fread _ _) (h'.fread _ _)
  fclose _ := hsub (h.fclose _) (h'.fclose _)

/-- The replies to a request with at most `limit` bytes of data have `E`, and a program has `E` when
it ends with one that has `E` and everything before it has `D`. -/
structure Replies (D : {α : Type} → Srv Fs Cwd α → Prop) (E : Srv Fs Cwd Unit → Prop)
    (limit : ℕ) (cfg : Config) (r : Request) : Prop where
  block_le : Command.ofByte r.ub.cmd = .getDir ∨ Command.ofByte r.ub.cmd = .stat →
    min cfg.packetsize.toNat ubufSpace ≤ limit
  file_le : Command.ofByte r.ub.cmd = .getFile ∨ Command.ofByte r.ub.cmd = .grabFile →
    requestedLen cfg r.s2 ≤ limit
  bind_of_returns : ∀ {α : Type} {m : Srv Fs Cwd α} {k : α → Srv Fs Cwd Unit} {V : α → Prop},
    D m → Returns V m → (∀ a, V a → E (k a)) → E (m >>= k)
  refuse : ∀ msg, Short msg → E (refuse cfg r msg)
  checkAccessRights : ∀ di rights passwd (next : ByteString → Srv Fs Cwd Unit),
    (∀ pe, E (next pe)) → E (checkAccessRights cfg r di rights passwd next)
  reply : ∀ data, data.length ≤ limit → E (reply cfg r data [])
  /-- A file may be closed after the reply. -/
  replyThen : ∀ (data : ByteString) (m : Srv Fs Cwd Unit), data.length ≤ limit → D m →
    E (do Fsp.reply cfg r data []; m)
  replyPro : TellsPro r.ub.cmd → ∀ di acc, E (replyPro cfg r di acc)
  renamed : E (serverReply cfg r.client { r.ub with bbPos := 0 } [] [])
  version : Command.ofByte r.ub.cmd = .version → E (caseVersion cfg r)

theorem Replies.bind {D : {α : Type} → Srv Fs Cwd α → Prop} {E : Srv Fs Cwd Unit → Prop}
    {limit : ℕ} {r : Request} (h : Replies D E limit cfg r) {α : Type} {m : Srv Fs Cwd α}
    {k : α → Srv Fs Cwd Unit} (hm : D m) (hk : ∀ a, E (k a)) : E (m >>= k) :=
  h.bind_of_returns hm (returns_true m) fun a _ => hk a

/-! ## Commands -/

section

variable {D : {α : Type} → Srv Fs Cwd α → Prop} {E : Srv Fs Cwd Unit → Prop} {limit : ℕ}
  {r : Request} (hops : Operations D cfg) (hreplies : Replies D E limit cfg r)

section

include hreplies

theorem holds_refuseReadOnly : E (refuse cfg r readOnlyText : Srv Fs Cwd Unit) :=
  hreplies.refuse _ (by decide)

theorem holds_replyEmpty : E (reply cfg r [] [] : Srv Fs Cwd Unit) :=
  hreplies.reply _ (Nat.zero_le _)

theorem holds_unlessError {pe : Option ByteString} {next : Srv Fs Cwd Unit} (hpe : ShortIf pe)
    (hnext : E next) : E (unlessError cfg r pe next) := by
  cases pe with
  | some pe => exact hreplies.refuse _ (hpe _ rfl)
  | none => exact hnext

omit hreplies in
/-- No more is read than was asked for. -/
theorem returns_fread (r : Request) (fp : Handle) (sought : Bool)
    (hfile : requestedLen cfg r.s2 ≤ limit) :
    Returns (fun bytes => bytes.length ≤ limit)
      (fread fp (if sought then requestedLen cfg r.s2 else 0) : Srv Fs Cwd ByteString) := by
  constructor
  intro s
  refine le_trans (Posix.length_fread _ _ _) ?_
  split
  · exact hfile
  · exact Nat.zero_le _

theorem holds_serveFile (hstreams : Streams D cfg) (hfile : requestedLen cfg r.s2 ≤ limit)
    (fp : Handle) : E (serveFile cfg r fp : Srv Fs Cwd Unit) := by
  apply hreplies.bind (hstreams.fseeko _ _)
  intro sought
  apply hreplies.bind_of_returns (hstreams.fread _ _) (returns_fread r fp sought hfile)
  intro bytes hbytes
  exact hreplies.reply _ hbytes

theorem holds_serveFile_fclose (hstreams : Streams D cfg) (hfile : requestedLen cfg r.s2 ≤ limit)
    (fp : Handle) : E (do serveFile cfg r fp; fclose fp : Srv Fs Cwd Unit) := by
  unfold serveFile
  rw [bind_assoc]
  apply hreplies.bind (hstreams.fseeko _ _)
  intro sought
  rw [bind_assoc]
  apply hreplies.bind_of_returns (hstreams.fread _ _) (returns_fread r fp sought hfile)
  intro bytes hbytes
  exact hreplies.replyThen _ _ hbytes (hstreams.fclose fp)

/-- An operation without a result, and then an empty reply. -/
theorem holds_operation {m : Srv Fs Cwd (Option ByteString)} (hm : D m)
    (hshort : Returns ShortIf m) {next : Srv Fs Cwd Unit} (hnext : E next) :
    E (do
      let pe ← m
      unlessError cfg r pe next) :=
  hreplies.bind_of_returns hm hshort fun _ hpe => holds_unlessError hreplies hpe hnext

end

include hops hreplies

theorem holds_validated {wantDirectory : Bool} {next : PPath → ℕ → Srv Fs Cwd Unit}
    (hnext : ∀ pp di, E (next pp di)) : E (validated cfg r wantDirectory next) := by
  refine hreplies.bind_of_returns (hops.validatePath _ _) (short_validatePath _ _) fun res hres => ?_
  cases res with
  | error pe => exact hreplies.refuse _ (hres _ rfl)
  | ok res => exact hnext _ _

theorem holds_caseGetDir (hcmd : Command.ofByte r.ub.cmd = .getDir) :
    E (caseGetDir cfg r : Srv Fs Cwd Unit) := by
  refine holds_validated hops hreplies fun pp di => hreplies.checkAccessRights _ _ _ _ fun pe => ?_
  refine hreplies.bind_of_returns (hops.serverGetDir _) (short_serverGetDir _) fun dl hdl => ?_
  cases dl with
  | error pe => exact hreplies.refuse _ (hdl _ rfl)
  | ok dl =>
      refine hreplies.bind (hops.dirListing _) fun dl => hreplies.bind (hops.listed _) fun _ => ?_
      split
      · rename_i pe hpe
        exact hreplies.refuse _ (short_dirBlock _ _ _ hpe)
      · rename_i block hblock
        exact hreplies.reply _ ((length_dirBlock_le hblock).trans (hreplies.block_le (Or.inl hcmd)))

theorem holds_caseGetFile (hstreams : Streams D cfg) (hfile : requestedLen cfg r.s2 ≤ limit) :
    E (caseGetFile cfg r : Srv Fs Cwd Unit) := by
  refine holds_validated hops hreplies fun pp di => hreplies.checkAccessRights _ _ _ _ fun pe => ?_
  refine hreplies.bind_of_returns (hstreams.serverGetFile _ _ _ _) (short_serverGetFile _ _ _ _)
    fun fp hfp => ?_
  cases fp with
  | error pe => exact hreplies.refuse _ (hfp _ rfl)
  | ok fp => exact holds_serveFile hreplies hstreams hfile fp

theorem holds_caseDelFile : E (caseDelFile cfg r : Srv Fs Cwd Unit) := by
  refine iteInduction (fun _ => holds_refuseReadOnly hreplies) fun _ => ?_
  refine iteInduction (fun _ => holds_replyEmpty hreplies) fun _ => ?_
  refine holds_validated hops hreplies fun pp di => hreplies.checkAccessRights _ _ _ _ fun pe => ?_
  exact holds_operation hreplies (hops.serverDelFile _ _) (short_serverDelFile _ _)
    (holds_replyEmpty hreplies)

theorem holds_caseDelDir : E (caseDelDir cfg r : Srv Fs Cwd Unit) := by
  refine iteInduction (fun _ => holds_refuseReadOnly hreplies) fun _ => ?_
  refine iteInduction (fun _ => holds_replyEmpty hreplies) fun _ => ?_
  refine holds_validated hops hreplies fun pp di => hreplies.checkAccessRights _ _ _ _ fun pe => ?_
  exact holds_operation hreplies (hops.serverDelDir _ _) (short_serverDelDir _ _)
    (holds_replyEmpty hreplies)

theorem holds_caseUpLoad : E (caseUpLoad cfg r : Srv Fs Cwd Unit) := by
  refine iteInduction (fun _ => holds_refuseReadOnly hreplies) fun _ => ?_
  refine iteInduction (fun _ => holds_replyEmpty hreplies) fun _ => ?_
  exact holds_operation hreplies (hops.serverUpLoad _ _ _ _) (short_serverUpLoad _ _ _ _ _)
    (holds_replyEmpty hreplies)

theorem holds_caseInstall : E (caseInstall cfg r : Srv Fs Cwd Unit) := by
  refine iteInduction (fun _ => holds_refuseReadOnly hreplies) fun _ => ?_
  refine iteInduction (fun _ => holds_replyEmpty hreplies) fun _ => ?_
  refine holds_validated hops hreplies fun pp di => ?_
  have hinstall : ∀ acc, E (do
      let pe ← serverInstall cfg pp r.inetNum r.portNum acc di r.s2
      unlessError cfg r pe (reply cfg r [] []) : Srv Fs Cwd Unit) := fun acc =>
    holds_operation hreplies (hops.serverInstall _ _ _ _ _ _) (short_serverInstall _ _ _ _ _ _)
      (holds_replyEmpty hreplies)
  exact iteInduction (fun _ => hreplies.checkAccessRights _ _ _ _ hinstall) fun _ => hinstall _

theorem holds_caseMakeDir (hcmd : Command.ofByte r.ub.cmd = .makeDir) :
    E (caseMakeDir cfg r : Srv Fs Cwd Unit) := by
  refine iteInduction (fun _ => holds_refuseReadOnly hreplies) fun _ => ?_
  refine holds_validated hops hreplies fun pp di => ?_
  have hfinish : ∀ di, E (checkAccessRights cfg r di 0 pp.passwd fun pe =>
      replyPro cfg r di pe : Srv Fs Cwd Unit) :=
    fun di => hreplies.checkAccessRights _ _ _ _ fun pe => hreplies.replyPro (Or.inl hcmd) _ _
  refine iteInduction (fun _ => hfinish di) fun _ => hreplies.checkAccessRights _ _ _ _ fun pe => ?_
  refine hreplies.bind_of_returns (hops.serverMakeDir _ _ _) (short_serverMakeDir _ _ _)
    fun res hres => ?_
  cases res with
  | error pe => exact hreplies.refuse _ (hres _ rfl)
  | ok di => exact hfinish di

theorem holds_caseGetPro (hcmd : Command.ofByte r.ub.cmd = .getPro) :
    E (caseGetPro cfg r : Srv Fs Cwd Unit) :=
  holds_validated hops hreplies fun _ _ => hreplies.checkAccessRights _ _ _ _ fun _ =>
    hreplies.replyPro (Or.inr (Or.inl hcmd)) _ _

theorem holds_caseSetPro (hcmd : Command.ofByte r.ub.cmd = .setPro) :
    E (caseSetPro cfg r : Srv Fs Cwd Unit) := by
  have hpro : ∀ di acc, E (replyPro cfg r di acc) := hreplies.replyPro (Or.inr (Or.inr hcmd))
  refine iteInduction (fun _ => holds_refuseReadOnly hreplies) fun _ => ?_
  refine holds_validated hops hreplies fun pp di => ?_
  refine iteInduction (fun _ => hpro _ _) fun _ =>
    hreplies.checkAccessRights _ _ _ _ fun pe => ?_
  exact holds_operation hreplies (hops.serverSetPro _ _ _) (short_serverSetPro _ _ _) (hpro _ _)

theorem holds_caseGrabFile (hstreams : Streams D cfg) (hfile : requestedLen cfg r.s2 ≤ limit) :
    E (caseGrabFile cfg r : Srv Fs Cwd Unit) := by
  refine iteInduction (fun _ => holds_refuseReadOnly hreplies) fun _ => ?_
  refine holds_validated hops hreplies fun pp di => hreplies.checkAccessRights _ _ _ _ fun pe => ?_
  refine holds_operation hreplies (iteInduction (fun _ => ?_) fun _ => hops.pure _)
    (returns_ite (fun _ => ?_) fun _ => returns_pure shortIf_none) ?_
  · exact hops.serverSecureFile _ _ _ _
  · exact short_serverSecureFile _ _ _ _
  refine hreplies.bind_of_returns (hstreams.serverGrabFile _ _) (short_serverGrabFile _ _)
    fun fp hfp => ?_
  cases fp with
  | error pe => exact hreplies.refuse _ (hfp _ rfl)
  | ok fp => exact holds_serveFile_fclose hreplies hstreams hfile fp

theorem holds_caseGrabDone : E (caseGrabDone cfg r : Srv Fs Cwd Unit) := by
  refine iteInduction (fun _ => holds_refuseReadOnly hreplies) fun _ => ?_
  refine iteInduction (fun _ => holds_replyEmpty hreplies) fun _ => ?_
  refine holds_validated hops hreplies fun pp di => hreplies.checkAccessRights _ _ _ _ fun pe => ?_
  exact holds_operation hreplies (hops.serverGrabDone _ _) (short_serverGrabDone _ _)
    (holds_replyEmpty hreplies)

theorem holds_caseStat (hcmd : Command.ofByte r.ub.cmd = .stat) :
    E (caseStat cfg r : Srv Fs Cwd Unit) := by
  have hpacket := cfg.packetsize_ge
  have hblock := hreplies.block_le (Or.inr hcmd)
  simp only [ubufSpace] at hblock
  refine hreplies.bind_of_returns (hops.serverStat _ _) (returns_serverStat _ _) fun data hdata => ?_
  exact hreplies.reply _ (by omega)

omit hreplies in
theorem holds_renameTarget (r : Request) :
    D (renameTarget r : Srv Fs Cwd (Except ByteString (Option FileKind))) := by
  refine iteInduction (fun _ => hops.pure _) fun _ => hops.bind (hops.stat _) fun sb => ?_
  cases sb with
  | none => exact hops.pure _
  | some sb => exact iteInduction (fun _ => hops.pure _) fun _ => hops.pure _

omit hreplies in
theorem holds_overwriteRefused (r : Request) (target : Option FileKind) (pp : PPath) (di : ℕ) :
    D (overwriteRefused cfg r target pp di : Srv Fs Cwd (Option ByteString)) := by
  refine iteInduction (fun _ => ?_) fun _ => hops.pure _
  refine hops.bind (hops.requireAccess _ _ _ _) fun pe => ?_
  exact iteInduction (fun _ => hops.pure _) fun _ => hops.pure _

theorem holds_caseRename : E (caseRename cfg r : Srv Fs Cwd Unit) := by
  refine iteInduction (fun _ => holds_refuseReadOnly hreplies) fun _ => ?_
  refine iteInduction (fun _ => hreplies.renamed) fun _ => ?_
  refine holds_validated hops hreplies fun srcpath srcdir =>
    hreplies.checkAccessRights _ _ _ _ fun pe => ?_
  refine hreplies.bind_of_returns (holds_renameTarget hops r) (short_renameTarget r) fun target ht => ?_
  cases target with
  | error pe => exact hreplies.refuse _ (ht _ rfl)
  | ok target =>
      refine hreplies.bind_of_returns (hops.validatePath _ _) (short_validatePath _ _)
        fun res hres => ?_
      cases res with
      | error pe => exact hreplies.refuse _ (hres _ rfl)
      | ok res =>
          refine hreplies.bind_of_returns (holds_overwriteRefused hops _ _ _ _)
            (short_overwriteRefused _ _ _ _) fun pe hpe => ?_
          cases pe with
          | some pe => exact hreplies.refuse _ (hpe _ rfl)
          | none =>
              exact holds_operation hreplies (hops.serverRename _ _ _ _)
                (short_serverRename _ _ _ _) hreplies.renamed

/-- The dispatcher, apart from the files that stay open between requests and from `CC_BYE`, which
also ends the session of the host. -/
theorem holds_serve {hp : ℕ} (hstreams : Command.ofByte r.ub.cmd = .getFile ∨
      Command.ofByte r.ub.cmd = .grabFile → Streams D cfg)
    (hbye : Command.ofByte r.ub.cmd = .bye →
      D (setHost hp fun h => { h with active := false } : Srv Fs Cwd Unit)) :
    E (serve cfg r hp : Srv Fs Cwd Unit) := by
  unfold serve
  split
  · exact hreplies.version ‹_›
  · rename_i hcmd
    exact hreplies.bind (hbye hcmd) fun _ => holds_replyEmpty hreplies
  · exact holds_caseGetDir hops hreplies ‹_›
  · rename_i hcmd
    exact holds_caseGetFile hops hreplies (hstreams (Or.inl hcmd)) (hreplies.file_le (Or.inl hcmd))
  · exact holds_caseDelFile hops hreplies
  · exact holds_caseDelDir hops hreplies
  · exact holds_caseUpLoad hops hreplies
  · exact holds_caseInstall hops hreplies
  · exact holds_caseMakeDir hops hreplies ‹_›
  · exact holds_caseGetPro hops hreplies ‹_›
  · exact holds_caseSetPro hops hreplies ‹_›
  · rename_i hcmd
    exact holds_caseGrabFile hops hreplies (hstreams (Or.inr hcmd))
      (hreplies.file_le (Or.inr hcmd))
  · exact holds_caseGrabDone hops hreplies
  · exact holds_caseStat hops hreplies ‹_›
  · exact holds_caseRename hops hreplies
  · exact iteInduction (fun _ => hreplies.refuse _ (by decide)) fun _ => hreplies.refuse _ (by decide)

end

/-- A block of a listing fits into a reply. -/
theorem block_le_maxspace (cfg : Config) : min cfg.packetsize.toNat ubufSpace ≤ ubufMaxspace :=
  (min_le_right _ _).trans (by decide)

/-- A block of a file fits into a reply. -/
theorem requestedLen_le_maxspace (cfg : Config) (lp : ByteString) :
    requestedLen cfg lp ≤ ubufMaxspace := by
  have hpacket := cfg.packetsize_le
  unfold requestedLen
  simp only [ubufMaxspace, ubufSpace] at hpacket ⊢
  split
  · split_ifs <;> omega
  · omega

/-- What holds of the parts of a program, of sending a message and of an access check holds of every
reply. -/
theorem replies_of_compositional {D : {α : Type} → Srv Fs Cwd α → Prop} (hD : Compositional D)
    (hreply : ∀ client ub data xtra, D (serverReply cfg client ub data xtra)) (r : Request)
    (haccess : ∀ di rights passwd, D (requireAccess cfg r di rights passwd))
    (hdir : ∀ di, D (dirInfo di : Srv Fs Cwd DirInfo)) :
    Replies D (fun m => D m) ubufMaxspace cfg r where
  block_le _ := block_le_maxspace cfg
  file_le _ := requestedLen_le_maxspace cfg r.s2
  bind_of_returns := hD.bind_of_returns
  refuse _ _ := hreply _ _ _ _
  checkAccessRights _ _ _ _ hnext := hD.bind (haccess _ _ _) fun _ =>
    iteInduction (fun _ => hD.pure _) fun _ => iteInduction (fun _ => hreply _ _ _ _) fun _ =>
      hnext _
  reply _ _ := hreply _ _ _ _
  replyThen _ _ _ hm := hD.bind (hreply _ _ _ _) fun _ => hm
  replyPro _ _ _ := hD.bind (hdir _) fun _ => hreply _ _ _ _
  renamed := hreply _ _ _ _
  version _ := iteInduction (fun _ => hreply _ _ _ _) fun _ => hD.pure _

/-! ## Preorders that all steps respect -/

/-- Every entry but that of a reply. -/
def NotSent : Event → Prop
  | .sent _ _ => False
  | _ => True

section

variable {R : Server Fs Cwd → Server Fs Cwd → Prop} [IsPreorder (Server Fs Cwd) R]
  {P : Event → Prop} {Good : DirInfo → Prop} (h : Primitives R P Good)
  (hP : ∀ e, NotSent e → P e)
include hP

omit [IsPreorder (Server Fs Cwd) R] [Posix Fs Cwd] in
theorem allowsStreams_of_notSent : AllowsStreams P :=
  ⟨fun _ => hP _ trivial, fun _ _ _ => hP _ trivial, fun _ _ => hP _ trivial,
    fun _ _ _ => hP _ trivial⟩

omit [IsPreorder (Server Fs Cwd) R] [Posix Fs Cwd] in
theorem allowsSave_of_notSent : AllowsSave P :=
  ⟨fun _ _ _ => hP _ trivial, fun _ _ => hP _ trivial, fun _ _ _ => hP _ trivial⟩

omit [IsPreorder (Server Fs Cwd) R] [Posix Fs Cwd] in
theorem allowsFind_of_notSent (work : ByteString) : AllowsFind cfg work P :=
  ⟨hP _ trivial, fun _ => hP _ trivial, fun _ _ _ => hP _ trivial, fun _ => hP _ trivial,
    fun _ => hP _ trivial⟩

omit [IsPreorder (Server Fs Cwd) R] [Posix Fs Cwd] in
theorem allowsUpload_of_notSent (tname : ByteString) : AllowsUpload tname P :=
  ⟨allowsStreams_of_notSent hP, fun _ _ => hP _ trivial, fun _ => hP _ trivial,
    fun _ => hP _ trivial, fun _ => hP _ trivial, hP _ trivial⟩

include h

theorem does_serverMakeDir_of_good (hgood : ∀ d, Good d) (pp : PPath) (inetNum : UInt32) (di : ℕ) :
    Does R (serverMakeDir cfg pp inetNum di : Srv Fs Cwd (Except ByteString ℕ)) :=
  does_serverMakeDir h.toSteps (allowsSave_of_notSent hP) (fun _ => hP _ trivial) (fun _ => hP _ trivial)
    (fun _ => hP _ trivial) (fun _ _ _ _ => hgood _) _

/-- What holds of a directory information that is made for a new directory depends on where it comes
from, so that `server_make_dir` is left to the caller. -/
theorem edits_of_primitives
    (hmake : ∀ pp inetNum di,
      Does R (serverMakeDir cfg pp inetNum di : Srv Fs Cwd (Except ByteString ℕ))) :
    Edits (fun m => Does R m) cfg where
  toCompositional := compositional_does
  listed _ := h.emit _ (hP _ trivial)
  dirListing _ := does_dirListing _
  stat path := h.stat path fun _ => hP _ trivial
  requireAccess _ _ _ _ := does_requireAccess h.toSteps fun _ => hP _ trivial
  serverGetDir _ := does_serverGetDir h (allowsStreams_of_notSent hP)
    (fun _ => ⟨fun _ => hP _ trivial, fun _ => hP _ trivial, fun _ => hP _ trivial⟩) _
  serverDelFile _ _ := does_serverDelFile h.toSteps (fun _ => hP _ trivial) (fun _ => hP _ trivial) _
  serverDelDir _ _ := does_serverDelDir h.toSteps (allowsSave_of_notSent hP) (fun _ => hP _ trivial)
    (fun _ => hP _ trivial) (fun _ => hP _ trivial) (fun _ => hP _ trivial) _
  serverMakeDir := hmake
  serverSetPro _ _ _ := does_serverSetPro h.toSteps (allowsSave_of_notSent hP)
    (fun _ _ _ => hP _ trivial) (fun _ _ => hP _ trivial) _ _ _
  serverUpLoad _ _ _ _ := does_serverUpLoad h.toSteps (allowsUpload_of_notSent hP _) _ _ _
  serverInstall _ _ _ _ _ _ := does_serverInstall h.toSteps (allowsStreams_of_notSent hP)
    (fun _ => hP _ trivial) (fun _ => hP _ trivial) (fun _ => hP _ trivial)
    (fun _ => hP _ trivial) (hP _ trivial) (fun _ => hP _ trivial) _ _ _
  serverSecureFile _ _ _ _ := does_serverSecureFile h.toSteps (allowsStreams_of_notSent hP)
    (fun _ => hP _ trivial) (fun _ => hP _ trivial) (fun _ => hP _ trivial)
    (fun _ => hP _ trivial) (fun _ => hP _ trivial) (hP _ trivial) _
  serverGrabDone _ _ := does_serverGrabDone h.toSteps (fun _ => hP _ trivial) (fun _ => hP _ trivial)
    fun _ => hP _ trivial
  serverRename _ _ _ _ := does_serverRename h.toSteps (fun _ _ => hP _ trivial)
    (fun _ _ => hP _ trivial) _ _

theorem operations_of_primitives
    (hload : ∀ di, Returns Good (loadAccessRights cfg di : Srv Fs Cwd DirInfo))
    (hmake : ∀ pp inetNum di,
      Does R (serverMakeDir cfg pp inetNum di : Srv Fs Cwd (Except ByteString ℕ))) :
    Operations (fun m => Does R m) cfg where
  toEdits := edits_of_primitives h hP hmake
  validatePath _ _ := does_validatePath h.toSteps (fun _ _ => allowsFind_of_notSent hP _)
    (fun _ _ _ => hP _ trivial) hload
  serverStat _ _ := does_serverStat h.toSteps (fun _ _ => hP _ trivial) (allowsFind_of_notSent hP)
    (fun _ _ _ => hP _ trivial) hload _

theorem streams_of_primitives : Streams (fun m => Does R m) cfg where
  serverGetFile _ _ _ _ := does_serverGetFile h.toSteps (fun _ => hP _ trivial) (fun _ _ => hP _ trivial)
    (fun _ => hP _ trivial) _ _ _
  serverGrabFile _ _ := does_serverGrabFile h.toSteps (fun _ => hP _ trivial) (fun _ => hP _ trivial)
    fun _ => hP _ trivial
  fseeko _ _ := h.fseeko _ _ fun _ => hP _ trivial
  fread _ _ := h.fread _ _ fun _ => hP _ trivial
  fclose _ := h.fclose _ (hP _ trivial)

omit hP in
theorem replies_of_primitives (hP : ∀ e, P e) (r : Request) :
    Replies (fun m => Does R m) (fun m => Does R m) ubufMaxspace cfg r :=
  replies_of_compositional compositional_does (fun _ _ _ _ => does_serverReply h.toSteps (hP _)) r
    (fun _ _ _ => does_requireAccess h.toSteps fun _ => hP _) fun _ => does_dirInfo _

end

end Fsp
