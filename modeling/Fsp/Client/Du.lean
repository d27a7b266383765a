import Fsp.Protocol.ShownTree

/-!
# Disk usage

`clients/fspcmd_du.c`: `fdu` adds up the sizes of files in one global, `total_file_size`.  At a
directory it keeps what the total was before, and what has been added when the directory is done is
its size.  `blocks` is the size of a tree without that detour, and the lines of the command are told
in terms of it.

The paths that `bsdglob` makes of the arguments are given.
-/

namespace Fsp

open Bytes

/-- The bits of `mode`. -/
structure DuMode where
  recursive : Bool
  sum : Bool
  each : Bool
  deriving DecidableEq, Repr

/-- `mode`, from `RECURSIVE`, `SUM` and `EACH`. -/
def DuMode.bits (m : DuMode) : UInt64 :=
  (if m.recursive then 1 else 0) + (if m.sum then 2 else 0) + if m.each then 4 else 0

/-- A line of output: a size and a path, or the two lines at the end. -/
inductive DuLine where
  | entry (size : UInt64) (path : ByteString)
  | rule
  | total (size : UInt64)
  deriving DecidableEq, Repr

/-- `total_file_size`, and what has been printed. -/
structure DuState where
  totalFileSize : UInt64
  out : List DuLine
  deriving DecidableEq, Repr

/-- The lines of files are printed. -/
def DuMode.showsFile (m : DuMode) (level : ℕ) : Bool :=
  (m.each && m.recursive) || (m.each && level < 2)

/-- The lines of directories are printed. -/
def DuMode.showsDir (m : DuMode) (level : ℕ) : Bool :=
  (m.recursive && !m.sum) || (level == 1 && (!m.sum || m.each)) || level == 0

/-- The size of a file in blocks of 1024 bytes. -/
def StatBuf.blocks (sb : StatBuf) : ℕ := (sb.size.toNat + 1023) / 1024

/-- `add_file_size` -/
def addFileSize (m : DuMode) (path : ByteString) (sb : StatBuf) (level : ℕ) (s : DuState) : DuState :=
  let fileSize := UInt64.ofNat sb.blocks
  { totalFileSize := s.totalFileSize + fileSize
    out := if m.showsFile level then s.out ++ [.entry fileSize path] else s.out }

/-- `end_dir` -/
def endDir (m : DuMode) (path : ByteString) (sum : UInt64) (level : ℕ) (s : DuState) : DuState :=
  if m.showsDir level then
    -- this is the real value
    { s with out := s.out ++ [.entry (s.totalFileSize - sum) path] }
  else s

/-- What `fdu` does for files and directories; `start_dir` keeps the total in `sum`. -/
def duActions (m : DuMode) : Actions DuState where
  mode := m.bits
  file := addFileSize m
  startDir _ _ _ s := (0, s.totalFileSize, s)
  endDir := endDir m

/-- The functions that `fdu` gives to `util_process_file`. -/
def duVisitor (m : DuMode) : Visitor DuState where
  mode := m.bits
  file path sb level s := pure (addFileSize m path sb level s)
  startDir _ _ _ s := pure (0, s.totalFileSize, s)
  endDir path sum level s := pure (endDir m path sum level s)

/-- The loop of `fducmd_main` over the paths. -/
def duFiles (net : Net) (client : ClientEnv) (fuel : ℕ) (m : DuMode) :
    List ByteString → DuState → Client DuState
  | [], s => pure s
  | path :: files, s => do
      let s ← processFile net client (duVisitor m) fuel path 0 s
      duFiles net client fuel m files s

/-- `fducmd_main` -/
def fdu (net : Net) (client : ClientEnv) (fuel : ℕ) (m : DuMode) (files : List ByteString) :
    Client (List DuLine) := do
  let s ← duFiles net client fuel m files ⟨0, []⟩
  return if 1 < files.length then s.out ++ [.rule, .total s.totalFileSize] else s.out

/-! ## Sizes and lines of a tree -/

mutual

/-- The blocks of all files in a tree. -/
def Remote.blocks : Remote → ℕ
  | .missing => 0
  | .file sb => sb.blocks
  | .locked _ => 0
  | .dir _ entries => entries.blocks

def Entries.blocks : Entries → ℕ
  | .nil => 0
  | .cons rde object rest => (if skipped rde.name then 0 else object.blocks) + rest.blocks

end

mutual

/-- The lines for a tree: each object with the blocks of what it holds, a directory behind its
entries. -/
def Remote.duLines (m : DuMode) (path : ByteString) (level : ℕ) : Remote → List DuLine
  | .missing => []
  | .file sb => if m.showsFile level then [.entry (UInt64.ofNat sb.blocks) path] else []
  | .locked _ => if m.showsDir level then [.entry 0 path] else []
  | .dir _ entries => entries.duLines m path (level + 1) ++
      if m.showsDir level then [.entry (UInt64.ofNat entries.blocks) path] else []

def Entries.duLines (m : DuMode) (path : ByteString) (level : ℕ) : Entries → List DuLine
  | .nil => []
  | .cons rde object rest =>
      (if skipped rde.name then [] else object.duLines m (childPath path rde.name) level) ++
        rest.duLines m path level

end

theorem duVisitor_acts (m : DuMode) (ok : ClientState → Prop) :
    (duVisitor m).Acts (duActions m) ok where
  mode := rfl
  file _ _ _ _ := gives_pure _
  startDir _ _ _ _ := gives_pure _
  endDir _ _ _ _ := gives_pure _

/-- The state after more blocks were added and more lines printed. -/
def DuState.after (s : DuState) (blocks : ℕ) (lines : List DuLine) : DuState :=
  ⟨s.totalFileSize + UInt64.ofNat blocks, s.out ++ lines⟩

theorem DuState.after_after (s : DuState) (b b' : ℕ) (l l' : List DuLine) :
    (s.after b l).after b' l' = s.after (b + b') (l ++ l') := by
  simp [DuState.after, UInt64.ofNat_add, UInt64.add_assoc]

theorem DuState.after_nil (s : DuState) : s.after 0 [] = s := by
  simp [DuState.after]

/-- What was added to the total is the size of the directory. -/
theorem endDir_after (m : DuMode) (path : ByteString) (level : ℕ) (s : DuState) (b : ℕ)
    (l : List DuLine) :
    endDir m path s.totalFileSize level (s.after b l) =
      s.after b (l ++ if m.showsDir level then [.entry (UInt64.ofNat b) path] else []) := by
  have hsum : s.totalFileSize + UInt64.ofNat b - s.totalFileSize = UInt64.ofNat b := by
    rw [UInt64.add_comm, UInt64.add_sub_cancel]
  cases hshows : m.showsDir level with
  | true => simp [endDir, hshows, DuState.after, hsum]
  | false => simp [endDir, hshows]

mutual

/-- Going through a tree adds its blocks and prints its lines. -/
theorem Remote.visit_du (m : DuMode) (tree : Remote) (path : ByteString) (level : ℕ) (s : DuState) :
    tree.visit (duActions m) path level s = s.after tree.blocks (tree.duLines m path level) := by
  cases tree with
  | missing => exact s.after_nil.symm
  | file sb =>
      cases hshows : m.showsFile level with
      | true => simp [Remote.visit, duActions, addFileSize, Remote.blocks, Remote.duLines, hshows,
          DuState.after]
      | false => simp [Remote.visit, duActions, addFileSize, Remote.blocks, Remote.duLines, hshows,
          DuState.after]
  | locked sb =>
      -- a directory that cannot be read is left at once, like an empty one
      have hend := endDir_after m path level s 0 []
      rw [DuState.after_nil] at hend
      have hvisit : (Remote.locked sb).visit (duActions m) path level s =
          endDir m path s.totalFileSize level s := by
        rw [Remote.visit]
        exact if_neg (Int.lt_irrefl 0)
      exact hvisit.trans hend
  | dir sb entries =>
      -- the difference of the totals behind and before the entries is the size of the directory
      have hentries := Entries.visit_du m entries path (level + 1) s
      have hend := endDir_after m path level s entries.blocks (entries.duLines m path (level + 1))
      rw [← hentries] at hend
      have hvisit : (Remote.dir sb entries).visit (duActions m) path level s =
          endDir m path s.totalFileSize level (entries.visit (duActions m) path (level + 1) s) := by
        rw [Remote.visit]
        exact if_neg (Int.lt_irrefl 0)
      exact hvisit.trans hend

theorem Entries.visit_du (m : DuMode) (entries : Entries) (path : ByteString) (level : ℕ)
    (s : DuState) :
    entries.visit (duActions m) path level s =
      s.after entries.blocks (entries.duLines m path level) := by
  cases entries with
  | nil => exact s.after_nil.symm
  | cons rde object rest =>
      rw [Entries.visit, Entries.blocks, Entries.duLines]
      split
      · rw [Entries.visit_du m rest path level s, Nat.zero_add, List.nil_append]
      · rw [Remote.visit_du m object, Entries.visit_du m rest, DuState.after_after]

end

/-! ## The whole command -/

section

variable {net : Net} {client : ClientEnv} {ok : ClientState → Prop} {fuel : ℕ}
  {files : List (ByteString × Remote)}

theorem duFiles_gives (m : DuMode)
    (hshown : ∀ f ∈ files, f.2.Shown net client ok f.1 ∧ f.2.Joins f.1 ∧ f.2.depth ≤ fuel) (s : DuState) :
    Gives ok (duFiles net client fuel m (files.map Prod.fst) s)
      (s.after (files.map fun f => f.2.blocks).sum
        (files.flatMap fun f => f.2.duLines m f.1 0)) := by
  induction files generalizing s with
  | nil =>
      have hnil : s.after 0 [] = s := s.after_nil
      show Gives ok (pure s) (s.after 0 [])
      rw [hnil]
      exact gives_pure s
  | cons f files ih =>
      have hf := hshown f List.mem_cons_self
      have hrest := ih (fun f hf => hshown f (List.mem_cons_of_mem _ hf))
        (f.2.visit (duActions m) f.1 0 s)
      rw [Remote.visit_du, DuState.after_after] at hrest
      rw [List.map_cons, List.map_cons, List.sum_cons, List.flatMap_cons, duFiles]
      refine Gives.bind
        (Remote.processFile_gives (duVisitor_acts m ok) f.2 f.1 0 fuel s hf.1 hf.2.1 hf.2.2) ?_
      rw [Remote.visit_du]
      exact hrest

/-- `fdu` prints for every directory the blocks of all files in it, at any depth, whatever it was
counted up from, and for more than one path the sum over all of them. -/
theorem fdu_prints (m : DuMode)
    (hshown : ∀ f ∈ files, f.2.Shown net client ok f.1 ∧ f.2.Joins f.1 ∧ f.2.depth ≤ fuel)
    {c : ClientState} (hc : ok c) :
    ∃ c', fdu net client fuel m (files.map Prod.fst) c =
      .ok ((files.flatMap fun f => f.2.duLines m f.1 0) ++
        if 1 < files.length then
          [.rule, .total (UInt64.ofNat (files.map fun f => f.2.blocks).sum)]
        else []) c' := by
  obtain ⟨c', hrun, -⟩ := duFiles_gives m hshown ⟨0, []⟩ c hc
  refine ⟨c', ?_⟩
  unfold fdu
  rw [Effect.bind_of_ok hrun, List.length_map]
  split
  · simp [DuState.after, pure, EStateM.pure]
  · simp [DuState.after, pure, EStateM.pure]

/-- The home directory twice, with the file in it: the blocks of the file are counted once for each
line of the directory, and twice in the total. -/
theorem fdu_prints_homeTree : ∃ c', fdu homeSite.net (plainEnv 1024) 2 ⟨false, false, true⟩
    [[dot], [dot]] newClient =
      .ok [.entry 1 (text "./f"), .entry 1 [dot], .entry 1 (text "./f"), .entry 1 [dot],
        .rule, .total 2] c' := by
  have hshown : ∀ f ∈ [([dot], homeTree), ([dot], homeTree)],
      f.2.Shown homeSite.net (plainEnv 1024) (homeSite.Heard (plainEnv 1024)) f.1 ∧
        f.2.Joins f.1 ∧ f.2.depth ≤ 2 := by
    intro f hf
    obtain rfl : f = ([dot], homeTree) := by simpa using hf
    exact ⟨shown_homeTree, joins_homeTree, Nat.le_refl 2⟩
  obtain ⟨c', hrun⟩ := fdu_prints ⟨false, false, true⟩ hshown
    (ListedSite.heard_newClient homeSite (plainEnv 1024))
  have hlines : homeTree.duLines ⟨false, false, true⟩ [dot] 0 =
      [.entry 1 (text "./f"), .entry 1 [dot]] := by
    decide +kernel
  have hblocks : homeTree.blocks = 1 := by decide +kernel
  refine ⟨c', hrun.trans ?_⟩
  simp only [List.flatMap_cons, List.flatMap_nil, List.map_cons, List.map_nil, hlines, hblocks]
  rfl

end

end Fsp
