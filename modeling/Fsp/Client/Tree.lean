import Fsp.Client.Complete
import Fsp.Client.PathLevels

/-!
# Going through a tree

`client/util.c`: `util_process_file` calls one function for each file below a path and two for each
directory, one before it goes into the directory and one after that.  The functions are a
`Visitor`; what they know and change is a value of a type `τ` that goes from one call to the next.

`Remote` is what stands below a path as the client is told it, and `visit` goes through it.  Where
the network shows a tree (`Remote.Shown`), `util_process_file` does what `visit` does
(`Remote.processFile_gives`).

The path of an entry is made in memory of its own size, and `pathlen` is made smaller by one for each
entry below a path that ends in a slash, as long as the byte before is one too.  Below `"/"` that is
once too often: the second entry has the byte before the path read.  So the theorems are about trees
whose paths are `Joins`; whatever the path of a directory is, those of its entries are again, unless
a name is empty or ends in a slash (`Entries.joins_of_named`).

The proof is by induction on the tree and its entries.  `newName_eq` carries it through a list of
entries: the path of the next one is found, and `pathlen` stays one of the two values that `Measures`
allows.
-/

namespace Fsp

open Bytes Effect

/-! ## util_process_file -/

/-- `process_file`, `process_start_dir` and `process_end_dir`, with what `sum` starts with.  The second
function has what it returns and the `sum` it leaves for its result. -/
structure Visitor (τ : Type) where
  mode : UInt64
  file : ByteString → StatBuf → ℕ → τ → Client τ
  startDir : ByteString → StatBuf → UInt64 → τ → Client (ℤ × UInt64 × τ)
  endDir : ByteString → UInt64 → ℕ → τ → Client τ

/-- The names "." and "..", which are skipped. -/
def skipped (name : ByteString) : Bool := name = [dot] ∨ name = dots

/-- The path of an entry, and what `pathlen` is after it was made.  There is none where the byte
before the new path is read, and where the path does not fit into its memory. -/
def newName (path : ByteString) (pathlen : ℕ) (name : ByteString) : Option (ByteString × ℕ) :=
  if pathlen + name.length + 2 < path.length + 1 then none
  else
    match pathlen with
    | 0 => none
    | n + 1 =>
        if path.getD n 0 ≠ slash then some (path.take (n + 1) ++ slash :: name, n + 1)
        else some (path.take (n + 1) ++ name, n)

variable {τ : Type}

/-- The loop over the entries of a directory, with `pathlen`. -/
def processEntries (visit : ByteString → τ → Client τ) (path : ByteString) :
    ℕ → List Rdirent → τ → Client τ
  | _, [], t => pure t
  | pathlen, rde :: dep, t =>
      -- skip over "." and ".."
      if skipped rde.name then processEntries visit path pathlen dep t
      else
        match newName path pathlen rde.name with
        | none => throw .undefined
        | some (newname, pathlen) => do
            let t ← visit newname t
            processEntries visit path pathlen dep t

/-- `util_process_file`.  The fuel bounds how deep it goes. -/
def processFile (net : Net) (env : ClientEnv) (v : Visitor τ) :
    ℕ → ByteString → ℕ → τ → Client τ
  | 0, _, _, _ => throw .hang
  | fuel + 1, path, level, t => do
      match ← utilStat net env path with
      | none => pure t
      | some sb =>
          if sb.dir = false then v.file path sb level t
          else do
            let (ret, sum, t) ← v.startDir path sb v.mode t
            if ret < 0 then pure t
            else do
              match ← utilOpendir net env path with
              | none => v.endDir path sum level t
              | some dep => do
                  let visit (newname : ByteString) (t : τ) : Client τ :=
                    processFile net env v fuel newname (level + 1) t
                  let t ← processEntries visit path path.length dep t
                  v.endDir path sum level t

/-! ## What stands below a path -/

mutual

/-- An object as the client is told it.  Nothing is known of a `missing` one, and the entries of a
`locked` directory are not shown. -/
inductive Remote where
  | missing
  | file (sb : StatBuf)
  | locked (sb : StatBuf)
  | dir (sb : StatBuf) (entries : Entries)

/-- The entries of a directory, with the objects they stand for. -/
inductive Entries where
  | nil
  | cons (rde : Rdirent) (object : Remote) (rest : Entries)

end

/-- The entries as they are listed. -/
def Entries.listing : Entries → List Rdirent
  | nil => []
  | cons rde _ rest => rde :: rest.listing

mutual

/-- How deep the tree is. -/
def Remote.depth : Remote → ℕ
  | .missing => 1
  | .file _ => 1
  | .locked _ => 1
  | .dir _ entries => entries.depth + 1

def Entries.depth : Entries → ℕ
  | .nil => 0
  | .cons _ object rest => max object.depth rest.depth

end

/-- The path of an entry. -/
def childPath (path name : ByteString) : ByteString :=
  if path.getLast? = some slash then path ++ name else path ++ slash :: name

/-- The paths below which `newName` always finds the path of an entry: there is something before the
slash at the end, and that is no slash. -/
def Joinable (path : ByteString) : Prop :=
  path ≠ [] ∧ (path.getLast? = some slash → path.dropLast ≠ [] ∧
    path.dropLast.getLast? ≠ some slash)

instance (path : ByteString) : Decidable (Joinable path) := inferInstanceAs (Decidable (_ ∧ _))

mutual

/-- The directories of a tree stand at such paths. -/
def Remote.Joins (path : ByteString) : Remote → Prop
  | .missing => True
  | .file _ => True
  | .locked _ => True
  | .dir _ entries => Joinable path ∧ entries.Joins path

def Entries.Joins (path : ByteString) : Entries → Prop
  | .nil => True
  | .cons rde object rest =>
      (skipped rde.name = false → object.Joins (childPath path rde.name)) ∧ rest.Joins path

end

mutual

/-- The names in the tree are such as directories have. -/
def Remote.Named : Remote → Prop
  | .missing => True
  | .file _ => True
  | .locked _ => True
  | .dir _ entries => entries.Named

def Entries.Named : Entries → Prop
  | .nil => True
  | .cons rde object rest =>
      rde.name ≠ [] ∧ rde.name.getLast? ≠ some slash ∧ object.Named ∧ rest.Named

end

/-- What the visitor does, where it is no matter what the client has heard. -/
structure Actions (τ : Type) where
  mode : UInt64
  file : ByteString → StatBuf → ℕ → τ → τ
  startDir : ByteString → StatBuf → UInt64 → τ → ℤ × UInt64 × τ
  endDir : ByteString → UInt64 → ℕ → τ → τ

mutual

/-- The actions for all that stands below a path: for a directory, what is done before, the entries
in their order, and what is done after. -/
def Remote.visit (a : Actions τ) (path : ByteString) (level : ℕ) : Remote → τ → τ
  | .missing, t => t
  | .file sb, t => a.file path sb level t
  | .locked sb, t =>
      let r := a.startDir path sb a.mode t
      if r.1 < 0 then r.2.2 else a.endDir path r.2.1 level r.2.2
  | .dir sb entries, t =>
      let r := a.startDir path sb a.mode t
      if r.1 < 0 then r.2.2
      else a.endDir path r.2.1 level (entries.visit a path (level + 1) r.2.2)

def Entries.visit (a : Actions τ) (path : ByteString) (level : ℕ) : Entries → τ → τ
  | .nil, t => t
  | .cons rde object rest, t =>
      if skipped rde.name then rest.visit a path level t
      else rest.visit a path level (object.visit a (childPath path rde.name) level t)

end

/-! ## The run follows the tree -/

/-- Run in any of the states, the program has this result and ends in one of them. -/
def Gives (ok : ClientState → Prop) {α : Type} (m : Client α) (a : α) : Prop :=
  ∀ s, ok s → ∃ s', m s = .ok a s' ∧ ok s'

variable {ok : ClientState → Prop} {α β : Type}

theorem gives_pure (a : α) : Gives ok (pure a : Client α) a := fun s h => ⟨s, rfl, h⟩

theorem Gives.bind {m : Client α} {k : α → Client β} {a : α} {b : β} (hm : Gives ok m a)
    (hk : Gives ok (k a) b) : Gives ok (m >>= k) b := by
  intro s hs
  obtain ⟨s₁, hrun, h₁⟩ := hm s hs
  rw [bind_of_ok hrun]
  exact hk s₁ h₁

mutual

/-- The client is told of the tree below the path, whatever it has heard before. -/
def Remote.Shown (net : Net) (env : ClientEnv) (ok : ClientState → Prop) (path : ByteString) :
    Remote → Prop
  | .missing => Gives ok (utilStat net env path) none
  | .file sb => sb.dir = false ∧ Gives ok (utilStat net env path) (some sb)
  | .locked sb => sb.dir = true ∧ Gives ok (utilStat net env path) (some sb) ∧
      Gives ok (utilOpendir net env path) none
  | .dir sb entries => sb.dir = true ∧ Gives ok (utilStat net env path) (some sb) ∧
      Gives ok (utilOpendir net env path) (some entries.listing) ∧ entries.Shown net env ok path

def Entries.Shown (net : Net) (env : ClientEnv) (ok : ClientState → Prop) (path : ByteString) :
    Entries → Prop
  | .nil => True
  | .cons rde object rest =>
      (skipped rde.name = false → object.Shown net env ok (childPath path rde.name)) ∧
        rest.Shown net env ok path

end

theorem Gives.ite {ok : ClientState → Prop} {α : Type} {c : Prop} [Decidable c] {m m' : Client α}
    {a a' : α} (h : c → Gives ok m a) (h' : ¬ c → Gives ok m' a') :
    Gives ok (if c then m else m') (if c then a else a') := by
  split
  · exact h ‹_›
  · exact h' ‹_›

/-- The visitor acts as the actions say. -/
structure Visitor.Acts (v : Visitor τ) (a : Actions τ) (ok : ClientState → Prop) : Prop where
  mode : v.mode = a.mode
  file : ∀ path sb level t, Gives ok (v.file path sb level t) (a.file path sb level t)
  startDir : ∀ path sb sum t, Gives ok (v.startDir path sb sum t) (a.startDir path sb sum t)
  endDir : ∀ path sum level t, Gives ok (v.endDir path sum level t) (a.endDir path sum level t)

/-! ### The paths of the entries -/

/-- The last byte of a path, as it is read at its offset. -/
theorem getLast?_eq_some_getD {path : ByteString} (h : path ≠ []) :
    path.getLast? = some (path.getD (path.length - 1) 0) := by
  have hlt : path.length - 1 < path.length := by
    have := List.length_pos_iff.mpr h
    omega
  rw [List.getLast?_eq_getElem?, List.getD_eq_getElem?_getD, List.getElem?_eq_getElem hlt]
  rfl

/-- What `pathlen` can be while the entries of a directory are gone through: the length of the path,
or one less, behind which its slash stands. -/
def Measures (path : ByteString) (pathlen : ℕ) : Prop :=
  pathlen = path.length ∨ path.getLast? = some slash ∧ pathlen + 1 = path.length

/-- The path of an entry is found, and `pathlen` stays right for the next one. -/
theorem newName_eq {path : ByteString} {pathlen : ℕ} (name : ByteString) (h : Joinable path)
    (hlen : Measures path pathlen) :
    ∃ pathlen', newName path pathlen name = some (childPath path name, pathlen') ∧
      Measures path pathlen' := by
  obtain ⟨hne, hslash⟩ := h
  have hlast := getLast?_eq_some_getD hne
  rcases hlen with rfl | ⟨hend, hlen⟩
  · obtain ⟨n, hn⟩ : ∃ n, path.length = n + 1 :=
      Nat.exists_eq_succ_of_ne_zero (List.length_pos_iff.mpr hne).ne'
    have hroom : ¬ path.length + name.length + 2 < path.length + 1 := by omega
    have htake : path.take (n + 1) = path := by rw [← hn, List.take_length]
    rw [hn, Nat.add_sub_cancel] at hlast
    unfold newName
    rw [if_neg hroom, hn]
    -- a slash that ends the path is kept, and left out of the length from now on
    by_cases hc : path.getD n 0 = slash
    · refine ⟨n, ?_, .inr ⟨hlast.trans (congrArg some hc), hn.symm⟩⟩
      simp only [hc, ne_eq, not_true, if_false, htake, childPath, hlast, if_true]
    · refine ⟨n + 1, ?_, .inl hn.symm⟩
      simp only [hc, ne_eq, not_false_eq_true, if_true, htake, childPath, hlast, Option.some.injEq,
        if_false]
  · -- the slash at the end was found before, and what stands before it is none
    obtain ⟨hdrop, hbefore⟩ := hslash hend
    have hlast' := getLast?_eq_some_getD hdrop
    obtain ⟨n, rfl⟩ : ∃ n, pathlen = n + 1 := by
      have := List.length_pos_iff.mpr hdrop
      rw [List.length_dropLast] at this
      exact Nat.exists_eq_succ_of_ne_zero (by omega)
    have htake : path.take (n + 1) = path.dropLast := by
      rw [List.dropLast_eq_take, ← hlen, Nat.add_sub_cancel]
    have hjoin : path.dropLast ++ slash :: name = path ++ name := by
      calc path.dropLast ++ slash :: name
          = path.dropLast ++ [slash] ++ name := by simp
        _ = path ++ name := by rw [List.dropLast_append_getLast? slash hend]
    have hc : path.getD n 0 ≠ slash := by
      intro hc
      apply hbefore
      rw [hlast', List.length_dropLast, ← hlen, Nat.add_sub_cancel, Nat.add_sub_cancel, ← htake,
        List.getD_eq_getElem?_getD, List.getElem?_take_of_lt (Nat.lt_succ_self n),
        ← List.getD_eq_getElem?_getD, hc]
    have hroom : ¬ n + 1 + name.length + 2 < path.length + 1 := by omega
    refine ⟨n + 1, ?_, .inr ⟨hend, hlen⟩⟩
    unfold newName
    rw [if_neg hroom]
    simp only [hc, ne_eq, not_false_eq_true, if_true, htake, childPath, hend, hjoin]

/-- The path of an entry ends as its name does. -/
theorem joinable_childPath {path name : ByteString} (hne : name ≠ [])
    (hlast : name.getLast? ≠ some slash) : Joinable (childPath path name) := by
  have hend : (childPath path name).getLast? = name.getLast? := by
    unfold childPath
    split
    · exact List.getLast?_append_of_ne_nil _ hne
    · have hcons : path ++ slash :: name = path ++ [slash] ++ name := by simp
      rw [hcons]
      exact List.getLast?_append_of_ne_nil _ hne
  refine ⟨?_, fun h => absurd (hend ▸ h) hlast⟩
  intro hnil
  rw [hnil] at hend
  exact hne (List.getLast?_eq_none_iff.mp hend.symm)

mutual

/-- Only the path that the tree is below can make a difference. -/
theorem Remote.joins_of_named (tree : Remote) {path : ByteString} (hpath : Joinable path)
    (h : tree.Named) : tree.Joins path := by
  cases tree with
  | missing => trivial
  | file sb => trivial
  | locked sb => trivial
  | dir sb entries => exact ⟨hpath, Entries.joins_of_named entries path h⟩

theorem Entries.joins_of_named (entries : Entries) (path : ByteString) (h : entries.Named) :
    entries.Joins path := by
  cases entries with
  | nil => trivial
  | cons rde object rest =>
      obtain ⟨hne, hlast, hobject, hrest⟩ := h
      exact ⟨fun _ => Remote.joins_of_named object (joinable_childPath hne hlast) hobject,
        Entries.joins_of_named rest path hrest⟩

end

/-- Below `"/"` there is one path at most. -/
example (name : ByteString) : newName [slash] 1 name = some (slash :: name, 0) ∧
    newName [slash] 0 name = none := by
  simp [newName]

/-! ### The tree -/

theorem Remote.depth_pos (tree : Remote) : 0 < tree.depth := by
  cases tree <;> simp [Remote.depth]

variable {net : Net} {env : ClientEnv} {v : Visitor τ} {a : Actions τ}

mutual

/-- Where the network shows a tree, the run does what the visit of the tree does.  The theorems are
by induction on the tree and its entries; each directory takes one off the fuel. -/
theorem Remote.processFile_gives (hacts : v.Acts a ok) (tree : Remote) (path : ByteString)
    (level fuel : ℕ) (t : τ) (hshown : tree.Shown net env ok path) (hjoins : tree.Joins path)
    (hfuel : tree.depth ≤ fuel) :
    Gives ok (processFile net env v fuel path level t) (tree.visit a path level t) := by
  obtain ⟨fuel, rfl⟩ : ∃ f, fuel = f + 1 :=
    Nat.exists_eq_succ_of_ne_zero (Nat.lt_of_lt_of_le tree.depth_pos hfuel).ne'
  cases tree with
  | missing => exact Gives.bind hshown (gives_pure t)
  | file sb =>
      refine Gives.bind hshown.2 ?_
      show Gives ok (if sb.dir = false then v.file path sb level t else _) _
      rw [if_pos hshown.1]
      exact hacts.file path sb level t
  | locked sb =>
      obtain ⟨hdir, hstat, hopen⟩ := hshown
      have hisdir : ¬ sb.dir = false := by rw [hdir]; decide
      refine Gives.bind hstat ?_
      show Gives ok (if sb.dir = false then v.file path sb level t else _) _
      rw [if_neg hisdir, hacts.mode]
      refine Gives.bind (hacts.startDir path sb a.mode t) ?_
      rw [Remote.visit]
      refine Gives.ite (fun _ => gives_pure _) fun _ => ?_
      -- there are no entries to go through
      exact Gives.bind hopen (hacts.endDir _ _ _ _)
  | dir sb entries =>
      obtain ⟨hdir, hstat, hopen, hentries⟩ := hshown
      obtain ⟨hjoin, hjoins⟩ := hjoins
      have hisdir : ¬ sb.dir = false := by rw [hdir]; decide
      refine Gives.bind hstat ?_
      show Gives ok (if sb.dir = false then v.file path sb level t else _) _
      rw [if_neg hisdir, hacts.mode]
      refine Gives.bind (hacts.startDir path sb a.mode t) ?_
      rw [Remote.visit]
      refine Gives.ite (fun _ => gives_pure _) fun _ => ?_
      -- the entries are one level below, and start with the length of the path as it is
      refine Gives.bind hopen (Gives.bind ?_ (hacts.endDir _ _ _ _))
      exact Entries.processEntries_gives hacts entries path (level + 1) fuel path.length _ hjoin
        (.inl rfl) hentries hjoins (Nat.le_of_succ_le_succ hfuel)

theorem Entries.processEntries_gives (hacts : v.Acts a ok) (entries : Entries) (path : ByteString)
    (level fuel pathlen : ℕ) (t : τ) (hjoin : Joinable path) (hlen : Measures path pathlen)
    (hshown : entries.Shown net env ok path) (hjoins : entries.Joins path)
    (hfuel : entries.depth ≤ fuel) :
    Gives ok
      (processEntries (fun newname t => processFile net env v fuel newname level t) path pathlen
        entries.listing t)
      (entries.visit a path level t) := by
  cases entries with
  | nil => exact gives_pure t
  | cons rde object rest =>
      obtain ⟨hobject, hrest⟩ := hshown
      obtain ⟨hjoins, hjoinsRest⟩ := hjoins
      rw [Entries.depth, Nat.max_le] at hfuel
      rw [Entries.listing, processEntries, Entries.visit]
      by_cases hskip : skipped rde.name = true
      · rw [if_pos hskip, if_pos hskip]
        exact Entries.processEntries_gives hacts rest path level fuel pathlen t hjoin hlen hrest
          hjoinsRest hfuel.2
      · have hshows : skipped rde.name = false := by simpa using hskip
        obtain ⟨pathlen', hname, hlen'⟩ := newName_eq rde.name hjoin hlen
        rw [if_neg hskip, if_neg hskip, hname]
        refine Gives.bind (Remote.processFile_gives hacts object _ level fuel t (hobject hshows)
          (hjoins hshows) hfuel.1) ?_
        exact Entries.processEntries_gives hacts rest path level fuel pathlen' _ hjoin hlen' hrest
          hjoinsRest hfuel.2

end

end Fsp
