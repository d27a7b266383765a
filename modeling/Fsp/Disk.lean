import Fsp.Posix

/-!
# A disk

A small operating system to run the server on: a tree of files and directories, streams without
buffers, and descriptors that are handed out again, lowest first, once they are closed.  There are
no links and no permissions, every name service fails, and no file has a time but zero.
-/

namespace Fsp

/-- The names on the way from the root to an object. -/
abbrev Path := List ByteString

inductive Node where
  | dir
  | file (content : ByteString)
  deriving DecidableEq

/-- An open file. -/
structure Stream where
  path : Path
  pos : ℕ
  deriving DecidableEq

structure Disk where
  nodes : List (Path × Node)
  streams : List (Option Stream)
  deriving DecidableEq

namespace Disk

/-- The names in a path, without empty ones and dots. -/
def names (path : ByteString) : Path :=
  (path.splitOn 0x2F).filter fun name => name != [] && name != [0x2E]

def resolve (cwd : Path) (path : ByteString) : Path :=
  if path.head? = some 0x2F then names path else cwd ++ names path

def node (d : Disk) (p : Path) : Option Node :=
  if p = [] then some .dir else (d.nodes.find? fun n => n.1 = p).map (·.2)

def isDir (d : Disk) (p : Path) : Bool := d.node p == some .dir

def erase (d : Disk) (p : Path) : Disk := { d with nodes := d.nodes.filter fun n => n.1 ≠ p }

def write (d : Disk) (p : Path) (n : Node) : Disk :=
  { d with nodes := (p, n) :: d.nodes.filter fun n => n.1 ≠ p }

def statNode : Node → Stat
  | .dir => ⟨.dir, 0, 0⟩
  | .file content => ⟨.reg, content.length, 0⟩

/-- The objects directly inside a directory. -/
def children (d : Disk) (p : Path) : List ByteString :=
  d.nodes.filterMap fun n =>
    if n.1.dropLast = p then n.1.getLast? else none

/-- Move an object with everything inside it. -/
def move (d : Disk) (src dst : Path) : Disk :=
  { d with nodes := (d.erase dst).nodes.map fun n =>
      if src <+: n.1 then (dst ++ n.1.drop src.length, n.2) else n }

def stream (d : Disk) (h : Handle) : Option Stream := (d.streams.getD h none)

def setStream (d : Disk) (h : Handle) (st : Option Stream) : Disk :=
  { d with streams := d.streams.set h st }

/-- The lowest free descriptor. -/
def freeHandle (d : Disk) : Handle := d.streams.findIdx fun st => st.isNone

def openStream (d : Disk) (p : Path) : Handle × Disk :=
  (d.freeHandle, { d with streams :=
    if d.freeHandle < d.streams.length then d.streams.set d.freeHandle (some ⟨p, 0⟩)
    else d.streams ++ [some ⟨p, 0⟩] })

/-- The content of a stream's file. -/
def content (d : Disk) (p : Path) : ByteString :=
  match d.node p with
  | some (.file content) => content
  | _ => []

def fopen (d : Disk) (p : Path) (mode : OpenMode) : Option Handle × Disk :=
  match d.node p, mode with
  | some .dir, _ => (none, d)
  | some (.file _), .w => ((d.openStream p).1, (d.openStream p).2.write p (.file []))
  | none, .w =>
      if d.isDir p.dropLast then
        ((d.openStream p).1, (d.openStream p).2.write p (.file []))
      else (none, d)
  | some (.file _), _ => ((d.openStream p).1, (d.openStream p).2)
  | none, _ => (none, d)

def fread (d : Disk) (h : Handle) (n : ℕ) : ByteString × Disk :=
  match d.stream h with
  | none => ([], d)
  | some st =>
      let data := ((d.content st.path).drop st.pos).take n
      (data, d.setStream h (some { st with pos := st.pos + data.length }))

/-- Overwrite a file from `pos` on. -/
def overwrite (content : ByteString) (pos : ℕ) (data : ByteString) : ByteString :=
  content.take pos ++ data ++ content.drop (pos + data.length)

def fwrite (d : Disk) (h : Handle) (data : ByteString) : ℕ × Disk :=
  match d.stream h with
  | none => (0, d)
  | some st =>
      let d' := d.setStream h (some { st with pos := st.pos + data.length })
      match d.node st.path with
      | some (.file content) =>
          (data.length, d'.write st.path (.file (overwrite content st.pos data)))
      | _ => (data.length, d')

/-- An operation on an object that may fail. -/
def whenNode (d : Disk) (ok : Bool) (d' : Disk) : Bool × Disk := if ok then (true, d') else (false, d)

instance : Posix Disk Path where
  stat d cwd path := (d.node (resolve cwd path)).map statNode
  lstat d cwd path := (d.node (resolve cwd path)).map statNode
  access d cwd path := (d.node (resolve cwd path)).isSome
  chdir d cwd path := if d.isDir (resolve cwd path) then some (resolve cwd path) else none
  getcwd _ cwd := some (0x2F :: (cwd.intersperse [0x2F]).flatten)
  readFile d cwd path :=
    match d.node (resolve cwd path) with
    | some (.file content) => some content
    | _ => none
  readdir d cwd path :=
    if d.isDir (resolve cwd path) then
      some ((d.children (resolve cwd path)).map fun name => ⟨1, name⟩)
    else none
  gethostbyname _ _ := none
  unlink d cwd path :=
    let p := resolve cwd path
    d.whenNode ((d.node p).isSome && !d.isDir p) (d.erase p)
  remove d cwd path :=
    let p := resolve cwd path
    d.whenNode ((d.node p).isSome && !d.isDir p) (d.erase p)
  rmdir d cwd path :=
    let p := resolve cwd path
    d.whenNode (d.isDir p && p != [] && d.children p == []) (d.erase p)
  mkdir d cwd path :=
    let p := resolve cwd path
    d.whenNode ((d.node p).isNone && d.isDir p.dropLast) (d.write p .dir)
  rename d cwd src dst :=
    let p := resolve cwd src
    let q := resolve cwd dst
    d.whenNode ((d.node p).isSome && !d.isDir q && d.isDir q.dropLast && !(p <+: q)) (d.move p q)
  creat d cwd path :=
    let p := resolve cwd path
    if (d.node p).isNone ∧ d.isDir p.dropLast then d.write p (.file []) else d
  writeFile d cwd path data :=
    let p := resolve cwd path
    if ¬ d.isDir p ∧ d.isDir p.dropLast then d.write p (.file data) else d
  chmod d _ _ := d
  utime d _ _ _ _ := d
  fopen d cwd path mode := d.fopen (resolve cwd path) mode
  fclose d h := d.setStream h none
  fseeko d h pos :=
    match d.stream h with
    | none => (false, d)
    | some st => (true, d.setStream h (some { st with pos }))
  ftello d h :=
    match d.stream h with
    | none => -1
    | some st => st.pos
  fread := Disk.fread
  fwrite := Disk.fwrite
  ferror _ _ := false
  sendto _ _ _ _ := true
  remaining d h :=
    match d.stream h with
    | none => 0
    | some st => (d.content st.path).length - st.pos
  length_fread d h n := by
    unfold Disk.fread
    split
    · simp
    · simp only [List.length_take]
      omega
  fwrite_le d h data := by
    unfold Disk.fwrite
    split
    · simp
    · simp only
      split <;> simp

/-! ## Objects -/

theorem node_write (d : Disk) {p : Path} (hp : p ≠ []) (n : Node) (q : Path) :
    (d.write p n).node q = if q = p then some n else d.node q := by
  unfold node write
  by_cases hq : q = []
  · rw [if_pos hq, if_pos hq, if_neg (hq ▸ hp.symm)]
  · rw [if_neg hq, if_neg hq, List.find?_cons]
    by_cases hqp : q = p
    · subst hqp
      simp
    · rw [if_neg hqp]
      have hne : decide (p = q) = false := decide_eq_false (Ne.symm hqp)
      simp only [hne]
      rw [List.find?_filter]
      congr 2
      funext n
      by_cases hn : n.1 = q
      · simp [hn, hqp]
      · simp [hn]

theorem node_erase (d : Disk) {p : Path} (hp : p ≠ []) (q : Path) :
    (d.erase p).node q = if q = p then none else d.node q := by
  unfold node erase
  by_cases hq : q = []
  · rw [if_pos hq, if_pos hq, if_neg (hq ▸ hp.symm)]
  · rw [if_neg hq, if_neg hq, List.find?_filter]
    by_cases hqp : q = p
    · subst hqp
      rw [if_pos rfl, Option.map_eq_none_iff, List.find?_eq_none]
      intro n _
      simp
    · rw [if_neg hqp]
      congr 2
      funext n
      by_cases hn : n.1 = q
      · simp [hn, hqp]
      · simp [hn]

/-! ## Streams -/

@[simp] theorem stream_write (d : Disk) (p : Path) (n : Node) (h : Handle) :
    (d.write p n).stream h = d.stream h := rfl

@[simp] theorem node_setStream (d : Disk) (h : Handle) (st : Option Stream) (p : Path) :
    (d.setStream h st).node p = d.node p := rfl

@[simp] theorem node_openStream (d : Disk) (p q : Path) : (d.openStream p).2.node q = d.node q := rfl

theorem stream_eq_some {d : Disk} {h : Handle} {st : Stream} :
    d.stream h = some st ↔ d.streams[h]? = some (some st) := by
  rw [stream, List.getD_eq_getElem?_getD]
  cases d.streams[h]? with
  | none => simp
  | some o => simp

theorem stream_setStream_self {d : Disk} {h : Handle} {st : Stream} (hst : d.stream h = some st)
    (st' : Option Stream) : (d.setStream h st').stream h = st' := by
  obtain ⟨hlt, -⟩ := List.getElem?_eq_some_iff.mp (stream_eq_some.mp hst)
  simp [stream, setStream, List.getD_eq_getElem?_getD, hlt]

theorem stream_setStream_of_ne (d : Disk) {h k : Handle} (hne : k ≠ h) (st : Option Stream) :
    (d.setStream h st).stream k = d.stream k := by
  simp [stream, setStream, List.getD_eq_getElem?_getD, List.getElem?_set_ne hne.symm]

/-- A new stream is at the beginning of its file. -/
theorem stream_openStream_self (d : Disk) (p : Path) :
    (d.openStream p).2.stream (d.openStream p).1 = some ⟨p, 0⟩ := by
  have hle : d.freeHandle ≤ d.streams.length := List.findIdx_le_length
  by_cases hlt : d.freeHandle < d.streams.length
  · simp [openStream, stream, List.getD_eq_getElem?_getD, hlt]
  · have heq : d.freeHandle = d.streams.length := Nat.le_antisymm hle (Nat.not_lt.mp hlt)
    simp [openStream, stream, List.getD_eq_getElem?_getD, heq]

/-- A stream that is open is not the new one, and stays as it is. -/
theorem stream_openStream_of_some {d : Disk} {h : Handle} {st : Stream} (hst : d.stream h = some st)
    (p : Path) : h ≠ (d.openStream p).1 ∧ (d.openStream p).2.stream h = some st := by
  obtain ⟨hlt, hget⟩ := List.getElem?_eq_some_iff.mp (stream_eq_some.mp hst)
  have hne : h ≠ d.freeHandle := by
    intro heq
    have hnone := List.findIdx_getElem (w := heq ▸ hlt)
    have hsome : d.streams[d.freeHandle]? = some (some st) := heq ▸ stream_eq_some.mp hst
    obtain ⟨_, hfree⟩ := List.getElem?_eq_some_iff.mp hsome
    exact absurd (hfree ▸ hnone : (some st).isNone = true) (by simp)
  refine ⟨hne, ?_⟩
  rw [stream_eq_some]
  by_cases hfree : d.freeHandle < d.streams.length
  · simp only [openStream, hfree, if_true]
    rw [List.getElem?_set_ne hne.symm]
    exact stream_eq_some.mp hst
  · simp only [openStream, hfree, if_false]
    rw [List.getElem?_append_left hlt]
    exact stream_eq_some.mp hst

end Disk

end Fsp
