import Fsp.Disk

/-!
# A disk behind stdio

The disk of `Fsp.Disk` with calls that can fail, and streams that are buffered: what is written to a
stream that was opened with `"wb"` may be in the file at once, when the stream is closed, or never.  A
plan says for every call of `unlink`, `fopen`, `fread`, `fwrite` and `fclose` what becomes of it.
-/

namespace Fsp

/-- What becomes of a call. -/
structure Outcome where
  fails : Bool
  /-- How many bytes `fread` or `fwrite` moves at most when it fails. -/
  moved : ℕ
  /-- How many bytes of the stream are in its file after `fwrite`, or after an `fclose` that
  fails. -/
  settled : ℕ

structure BufferedDisk where
  disk : Disk
  /-- The content that the file of a stream is to have, for a stream opened with `"wb"`. -/
  image : Handle → Option ByteString
  /-- The error indicators. -/
  failed : Handle → Bool
  /-- How many calls there have been. -/
  calls : ℕ
  plan : ℕ → Outcome

namespace BufferedDisk

/-- What becomes of the next call. -/
def outcome (d : BufferedDisk) : Outcome := d.plan d.calls

/-- The disk after the next call. -/
def called (d : BufferedDisk) (disk : Disk) : BufferedDisk :=
  { d with disk := disk, calls := d.calls + 1 }

/-- A call that sets the error indicator of a stream if it fails. -/
def noted (d : BufferedDisk) (h : Handle) (disk : Disk) : BufferedDisk :=
  { d.called disk with
    failed := fun k => if k = h then d.failed k || d.outcome.fails else d.failed k }

/-- New content for a file that has not been deleted. -/
def settle (disk : Disk) (p : Path) (content : ByteString) : Disk :=
  match disk.node p with
  | some (.file _) => disk.write p (.file content)
  | _ => disk

def unlink (d : BufferedDisk) (cwd : Path) (path : ByteString) : Bool × BufferedDisk :=
  if d.outcome.fails then (false, d.called d.disk)
  else ((Posix.unlink d.disk cwd path).1, d.called (Posix.unlink d.disk cwd path).2)

def fopen (d : BufferedDisk) (p : Path) (mode : OpenMode) : Option Handle × BufferedDisk :=
  if d.outcome.fails then (none, d.called d.disk)
  else
    match d.disk.fopen p mode with
    | (none, disk) => (none, d.called disk)
    | (some h, disk) =>
        (some h, { d.called disk with
          image := fun k => if k = h then (if mode = .w then some [] else none) else d.image k
          failed := fun k => if k = h then false else d.failed k })

def fread (d : BufferedDisk) (h : Handle) (n : ℕ) : ByteString × BufferedDisk :=
  let n := if d.outcome.fails then min d.outcome.moved n else n
  ((d.disk.fread h n).1, d.noted h (d.disk.fread h n).2)

def fwrite (d : BufferedDisk) (h : Handle) (data : ByteString) : ℕ × BufferedDisk :=
  let data := if d.outcome.fails then data.take d.outcome.moved else data
  match d.disk.stream h, d.image h with
  | some st, some image =>
      let image := Disk.overwrite image st.pos data
      let disk := d.disk.setStream h (some { st with pos := st.pos + data.length })
      (data.length, { d.noted h (settle disk st.path (image.take d.outcome.settled)) with
        image := fun k => if k = h then some image else d.image k })
  | _, _ => ((d.disk.fwrite h data).1, d.noted h (d.disk.fwrite h data).2)

def fclose (d : BufferedDisk) (h : Handle) : BufferedDisk :=
  match d.disk.stream h, d.image h with
  | some st, some image =>
      let content := if d.outcome.fails then image.take d.outcome.settled else image
      d.called ((settle d.disk st.path content).setStream h none)
  | _, _ => d.called (d.disk.setStream h none)

/-- What a call that is not in the plan does to the disk. -/
def lift {α : Type} (d : BufferedDisk) (res : α × Disk) : α × BufferedDisk :=
  (res.1, { d with disk := res.2 })

instance : Posix BufferedDisk Path where
  stat d cwd path := Posix.stat d.disk cwd path
  lstat d cwd path := Posix.lstat d.disk cwd path
  access d cwd path := Posix.access d.disk cwd path
  chdir d cwd path := Posix.chdir d.disk cwd path
  getcwd d cwd := Posix.getcwd d.disk cwd
  readFile d cwd path := Posix.readFile d.disk cwd path
  readdir d cwd path := Posix.readdir d.disk cwd path
  gethostbyname _ _ := none
  unlink := unlink
  remove := unlink
  rmdir d cwd path := d.lift (Posix.rmdir d.disk cwd path)
  mkdir d cwd path := d.lift (Posix.mkdir d.disk cwd path)
  rename d cwd src dst := d.lift (Posix.rename d.disk cwd src dst)
  creat d cwd path := { d with disk := Posix.creat d.disk cwd path }
  writeFile d cwd path data := { d with disk := Posix.writeFile d.disk cwd path data }
  chmod d cwd path := { d with disk := Posix.chmod d.disk cwd path }
  utime d cwd path a m := { d with disk := Posix.utime d.disk cwd path a m }
  fopen d cwd path mode := d.fopen (Disk.resolve cwd path) mode
  fclose := fclose
  fseeko d h pos := d.lift (Posix.fseeko d.disk h pos)
  ftello d h := Posix.ftello d.disk h
  fread := fread
  fwrite := fwrite
  ferror d h := d.failed h
  sendto _ _ _ _ := true
  remaining d h := Posix.remaining d.disk h
  length_fread d h n := by
    have hdisk := Posix.length_fread d.disk h (if d.outcome.fails then min d.outcome.moved n else n)
    have hn : (if d.outcome.fails then min d.outcome.moved n else n) ≤ n := by
      split
      · exact Nat.min_le_right _ _
      · exact le_rfl
    exact hdisk.trans hn
  fwrite_le d h data := by
    have hdata : (if d.outcome.fails then data.take d.outcome.moved else data).length ≤
        data.length := by
      split
      · rw [List.length_take]
        exact Nat.min_le_right _ _
      · exact le_rfl
    unfold fwrite
    simp only
    split
    · exact hdata
    · exact (Posix.fwrite_le d.disk h _).trans hdata

/-! ## Files -/

/-- A file is not the root. -/
theorem ne_nil_of_file {disk : Disk} {p : Path} {content : ByteString}
    (h : disk.node p = some (.file content)) : p ≠ [] := by
  intro hp
  rw [hp] at h
  cases h

theorem node_settle_self {disk : Disk} {p : Path} {old : ByteString}
    (h : disk.node p = some (.file old)) (content : ByteString) :
    (settle disk p content).node p = some (.file content) := by
  unfold settle
  rw [h]
  exact (Disk.node_write disk (ne_nil_of_file h) _ p).trans (if_pos rfl)

theorem node_settle_of_ne (disk : Disk) {p q : Path} (hne : q ≠ p) (content : ByteString) :
    (settle disk p content).node q = disk.node q := by
  unfold settle
  split
  · rename_i old hold
    exact (Disk.node_write disk (ne_nil_of_file hold) _ q).trans (if_neg hne)
  · rfl

@[simp] theorem stream_settle (disk : Disk) (p : Path) (content : ByteString) (h : Handle) :
    (settle disk p content).stream h = disk.stream h := by
  unfold settle
  split
  · rfl
  · rfl

theorem readFile_eq_some {d : BufferedDisk} {cwd : Path} {path content : ByteString} :
    Posix.readFile d cwd path = some content ↔
      d.disk.node (Disk.resolve cwd path) = some (.file content) := by
  simp only [Posix.readFile]
  split
  · rename_i c hnode
    rw [hnode]
    simp
  · rename_i hnode
    constructor
    · intro h
      cases h
    · intro h
      exact absurd h (hnode content)

/-- What can be read depends on the object only. -/
theorem readFile_congr {d d' : BufferedDisk} {cwd : Path} {path : ByteString}
    (h : d.disk.node (Disk.resolve cwd path) = d'.disk.node (Disk.resolve cwd path)) :
    Posix.readFile d cwd path = Posix.readFile d' cwd path := by
  apply Option.ext
  intro content
  rw [readFile_eq_some, readFile_eq_some, h]

/-- `unlink` touches one object only. -/
theorem node_unlink_of_ne (d : BufferedDisk) {cwd q : Path} {path : ByteString}
    (hne : q ≠ Disk.resolve cwd path) : (d.unlink cwd path).2.disk.node q = d.disk.node q := by
  unfold unlink
  split
  · rfl
  · show ((d.disk.whenNode _ _).2).node q = _
    unfold Disk.whenNode
    split
    · rename_i hfile
      have hroot : Disk.resolve cwd path ≠ [] := by
        intro hnil
        rw [hnil] at hfile
        simp [Disk.isDir, Disk.node] at hfile
      exact (Disk.node_erase _ hroot q).trans (if_neg hne)
    · rfl

/-- Unless the call fails, a file can be deleted. -/
theorem unlink_file {d : BufferedDisk} {cwd : Path} {path content : ByteString}
    (hfile : d.disk.node (Disk.resolve cwd path) = some (.file content)) :
    (d.unlink cwd path).1 = !d.outcome.fails := by
  unfold unlink
  cases hfails : d.outcome.fails with
  | true => simp
  | false =>
      show (d.disk.whenNode _ _).1 = true
      unfold Disk.whenNode Disk.isDir
      rw [hfile]
      rfl

@[simp] theorem calls_unlink (d : BufferedDisk) (cwd : Path) (path : ByteString) :
    (d.unlink cwd path).2.calls = d.calls + 1 := by
  unfold unlink
  split
  · rfl
  · rfl

@[simp] theorem plan_unlink (d : BufferedDisk) (cwd : Path) (path : ByteString) :
    (d.unlink cwd path).2.plan = d.plan := by
  unfold unlink
  split
  · rfl
  · rfl

/-! ## Streams -/

/-- `fopen` for reading succeeds on files only. -/
theorem fopen_r (d : BufferedDisk) {p : Path} (hfails : d.outcome.fails = false) :
    (∃ content, d.disk.node p = some (.file content) ∧ d.fopen p .r =
      (some (d.disk.openStream p).1, { d.called (d.disk.openStream p).2 with
        image := fun k => if k = (d.disk.openStream p).1 then none else d.image k
        failed := fun k => if k = (d.disk.openStream p).1 then false else d.failed k })) ∨
    ((∀ content, d.disk.node p ≠ some (.file content)) ∧ d.fopen p .r = (none, d.called d.disk)) := by
  unfold fopen Disk.fopen
  rw [hfails]
  cases hnode : d.disk.node p with
  | none => exact Or.inr ⟨fun content => by simp, rfl⟩
  | some node =>
      cases node with
      | dir => exact Or.inr ⟨fun content => by simp, rfl⟩
      | file content => exact Or.inl ⟨content, rfl, rfl⟩

/-- A file can be written at this place. -/
def Writable (disk : Disk) (p : Path) : Prop :=
  (∃ content, disk.node p = some (.file content)) ∨
    disk.node p = none ∧ disk.isDir p.dropLast = true

theorem Writable.ne_nil {disk : Disk} {p : Path} (h : Writable disk p) : p ≠ [] := by
  rcases h with ⟨content, hnode⟩ | ⟨hnode, -⟩
  · exact ne_nil_of_file hnode
  · intro hp
    rw [hp] at hnode
    cases hnode

/-- `fopen` for writing succeeds where a file can be written. -/
theorem fopen_w (d : BufferedDisk) {p : Path} (hfails : d.outcome.fails = false) :
    (Writable d.disk p ∧ d.fopen p .w =
      (some (d.disk.openStream p).1, { d.called ((d.disk.openStream p).2.write p (.file [])) with
        image := fun k => if k = (d.disk.openStream p).1 then some [] else d.image k
        failed := fun k => if k = (d.disk.openStream p).1 then false else d.failed k })) ∨
    (¬ Writable d.disk p ∧ d.fopen p .w = (none, d.called d.disk)) := by
  unfold fopen Disk.fopen Writable
  rw [hfails]
  cases hnode : d.disk.node p with
  | none =>
      by_cases hdir : d.disk.isDir p.dropLast = true
      · exact Or.inl ⟨Or.inr ⟨rfl, hdir⟩, by simp [hdir]⟩
      · exact Or.inr ⟨by simp [hdir], by simp [hdir]⟩
  | some node =>
      cases node with
      | dir => exact Or.inr ⟨by simp, rfl⟩
      | file content => exact Or.inl ⟨Or.inl ⟨content, rfl⟩, rfl⟩

/-- A stream that has just been opened with `"wb"`. -/
theorem fopen_w_spec {d : BufferedDisk} {p : Path} (hfails : d.outcome.fails = false)
    (hwritable : Writable d.disk p) :
    ∃ f d', d.fopen p .w = (some f, d') ∧ d'.disk.stream f = some ⟨p, 0⟩ ∧
      d'.image f = some [] ∧ d'.disk.node p = some (.file []) ∧ d'.calls = d.calls + 1 ∧
      d'.plan = d.plan := by
  rcases d.fopen_w (p := p) hfails with ⟨-, hopen⟩ | ⟨hnot, -⟩
  · refine ⟨_, _, hopen, Disk.stream_openStream_self d.disk p, if_pos rfl, ?_, rfl, rfl⟩
    exact (Disk.node_write _ hwritable.ne_nil _ _).trans (if_pos rfl)
  · exact absurd hwritable hnot

/-- The bytes that the next call takes of those it is given. -/
def taken (d : BufferedDisk) (data : ByteString) : ByteString :=
  if d.outcome.fails then data.take d.outcome.moved else data

theorem taken_eq_of_length {d : BufferedDisk} {data : ByteString}
    (h : (d.taken data).length = data.length) : d.taken data = data := by
  unfold taken at h ⊢
  by_cases hfails : d.outcome.fails = true
  · rw [if_pos hfails, List.length_take] at h
    rw [if_pos hfails]
    exact List.take_of_length_le (by omega)
  · exact if_neg hfails

/-- `fwrite` on a stream that is buffered. -/
theorem fwrite_image {d : BufferedDisk} {h : Handle} {p : Path} {pos : ℕ} {image : ByteString}
    (hst : d.disk.stream h = some ⟨p, pos⟩) (himage : d.image h = some image) (data : ByteString) :
    d.fwrite h data = ((d.taken data).length,
      { d.noted h (settle (d.disk.setStream h (some ⟨p, pos + (d.taken data).length⟩)) p
          ((Disk.overwrite image pos (d.taken data)).take d.outcome.settled)) with
        image := fun k =>
          if k = h then some (Disk.overwrite image pos (d.taken data)) else d.image k }) := by
  unfold fwrite taken
  simp only [hst, himage]

/-- What `fwrite` does to the error indicators and the plan. -/
theorem fwrite_noted (d : BufferedDisk) (h : Handle) (data : ByteString) :
    (d.fwrite h data).2.failed =
        (fun k => if k = h then d.failed k || d.outcome.fails else d.failed k) ∧
      (d.fwrite h data).2.calls = d.calls + 1 ∧ (d.fwrite h data).2.plan = d.plan := by
  unfold fwrite
  simp only
  split
  · exact ⟨rfl, rfl, rfl⟩
  · exact ⟨rfl, rfl, rfl⟩

/-- `fclose` on a stream that is buffered. -/
theorem fclose_image {d : BufferedDisk} {h : Handle} {p : Path} {pos : ℕ} {image : ByteString}
    (hst : d.disk.stream h = some ⟨p, pos⟩) (himage : d.image h = some image) :
    d.fclose h = d.called ((settle d.disk p
      (if d.outcome.fails then image.take d.outcome.settled else image)).setStream h none) := by
  unfold fclose
  simp only [hst, himage]

/-- The first `fwrite` on a stream. -/
theorem fwrite_first {d : BufferedDisk} {h : Handle} {p : Path} (hst : d.disk.stream h = some ⟨p, 0⟩)
    (himage : d.image h = some []) (hnode : ∃ old, d.disk.node p = some (.file old))
    (data : ByteString) :
    (d.fwrite h data).1 = (d.taken data).length ∧
      (d.fwrite h data).2.disk.stream h = some ⟨p, (d.taken data).length⟩ ∧
      (d.fwrite h data).2.image h = some (d.taken data) ∧
      ∃ old, (d.fwrite h data).2.disk.node p = some (.file old) := by
  obtain ⟨old, hold⟩ := hnode
  have hempty : Disk.overwrite [] 0 (d.taken data) = d.taken data := by simp [Disk.overwrite]
  have hkept : (d.disk.setStream h (some ⟨p, 0 + (d.taken data).length⟩)).node p =
      some (.file old) := hold
  rw [fwrite_image hst himage, hempty]
  refine ⟨rfl, ?_, if_pos rfl, _, node_settle_self hkept _⟩
  refine (stream_settle _ _ _ _).trans ((Disk.stream_setStream_self hst _).trans ?_)
  rw [Nat.zero_add]

/-- The file of a buffered stream that is closed. -/
theorem node_fclose {d : BufferedDisk} {h : Handle} {p : Path} {pos : ℕ} {image : ByteString}
    (hst : d.disk.stream h = some ⟨p, pos⟩) (himage : d.image h = some image)
    (hnode : ∃ old, d.disk.node p = some (.file old)) :
    (d.fclose h).disk.node p =
        some (.file (if d.outcome.fails then image.take d.outcome.settled else image)) ∧
      (d.fclose h).calls = d.calls + 1 ∧ (d.fclose h).plan = d.plan := by
  obtain ⟨old, hold⟩ := hnode
  rw [fclose_image hst himage]
  exact ⟨node_settle_self hold _, rfl, rfl⟩

/-- `fclose` on a stream that is not. -/
theorem fclose_of_image_eq_none {d : BufferedDisk} {h : Handle} (himage : d.image h = none) :
    d.fclose h = d.called (d.disk.setStream h none) := by
  unfold fclose
  rw [himage]
  split
  · rename_i hnone
    cases hnone
  · rfl

end BufferedDisk

end Fsp
