import Fsp.BufferedDisk
import Fsp.Scenario
import Fsp.Server.PathGrammar
import Fsp.Server.Steps

/-!
# Copies

`copy_file` looks at the error indicators of its streams before it closes them, and does not look at
what `fclose` returns.  So it notices every call that fails except the last one: a copy is reported
good although bytes that were still in the buffer never got to the file.

`copies_complete_iff` says so of all the places where files are copied, `copy_file` by itself, when a
file is grabbed and when an upload is installed.

* `Copying` is the invariant of the loop: `pos` bytes have been read and written, and what was written
  is what the destination will hold once its buffer gets there.  `Copying.step` is a round that writes
  all it has read.
* Failures are found by counting calls.  `copyCalls` is how many the loop makes for a file of a size,
  and `Notes` says that an indicator is set, or that one of the calls to come fails.  A round neither
  adds to this nor takes away from it (`notes_afterRound`).  So where the loop ends an indicator is
  set if one of its calls fails (`copyLoop_notes`), and otherwise it has copied everything
  (`copyLoop_whole`).
* Then the streams are closed.  What is in the destination's buffer gets into the file, or a part of
  it (`Copying.closed`, `copyFile_of_uninterrupted`).

Where the name of the destination is that of the source, opening it has emptied the file, which is
why `leftToCopy` is not what the file had before.  A temporary name never is a name of the other file
(`resolve_tempName_ne`), so this cannot be when a file is grabbed or installed.
-/

namespace Fsp

open Bytes Effect

/-! ## The calls of a copy -/

/-- What `copy_file` finds in its source: nothing, if opening the destination has emptied it. -/
def leftToCopy (d : BufferedDisk) (cwd : Path) (n1 n2 : ByteString) : ByteString :=
  if Disk.resolve cwd n1 = Disk.resolve cwd n2 then []
  else (Posix.readFile d cwd n1).getD []

/-- How many calls of `fread` and `fwrite` it takes to copy so many bytes. -/
def copyCalls (size : ℕ) : ℕ := 2 * ((size + 1023) / 1024) + 1

/-- The source is a file, the destination can be one, and no call before the streams are closed
fails. -/
structure Uninterrupted (d : BufferedDisk) (cwd : Path) (n1 n2 : ByteString) : Prop where
  source : ∃ content, Posix.readFile d cwd n1 = some content
  writable : BufferedDisk.Writable d.disk (Disk.resolve cwd n2)
  calls : ∀ i < 2 + copyCalls (leftToCopy d cwd n1 n2).length,
    (d.plan (d.calls + i)).fails = false

/-- What becomes of the `fclose` of the destination, which is the call after the `fclose` of the source. -/
def closing (d : BufferedDisk) (cwd : Path) (n1 n2 : ByteString) : Outcome :=
  d.plan (d.calls + 2 + copyCalls (leftToCopy d cwd n1 n2).length + 1)

/-- The closing of the destination puts all bytes into the file. -/
def ClosesWhole (d : BufferedDisk) (cwd : Path) (n1 n2 : ByteString) : Prop :=
  (closing d cwd n1 n2).fails = false ∨
    (leftToCopy d cwd n1 n2).length ≤ (closing d cwd n1 n2).settled

theorem copyCalls_of_pos {size : ℕ} (h : 0 < size) :
    copyCalls size = copyCalls (size - 1024) + 2 := by
  unfold copyCalls
  omega

/-! ## The loop -/

section Loop

variable {Fs Cwd : Type} [Posix Fs Cwd]

/-- The state after `fread`. -/
def Server.read (s : Server Fs Cwd) (h : Handle) (n : ℕ) : Server Fs Cwd :=
  { s with
    fs := (Posix.fread s.fs h n).2
    trace := s.trace ++ [.fread h (Posix.fread s.fs h n).1] }

/-- The state after `fwrite`. -/
def Server.written (s : Server Fs Cwd) (h : Handle) (data : ByteString) : Server Fs Cwd :=
  { s with
    fs := (Posix.fwrite s.fs h data).2
    trace := s.trace ++ [.fwrite h data (Posix.fwrite s.fs h data).1] }

/-- One round of the loop. -/
theorem copyLoop_succ (fuel : ℕ) (ft fp : Handle) (s : Server Fs Cwd) :
    copyLoop (fuel + 1) ft fp s =
      if (Posix.fread s.fs ft 1024).1 = [] then .ok () (s.read ft 1024)
      else if (Posix.fwrite (s.read ft 1024).fs fp (Posix.fread s.fs ft 1024).1).1 =
          (Posix.fread s.fs ft 1024).1.length then
        copyLoop fuel ft fp ((s.read ft 1024).written fp (Posix.fread s.fs ft 1024).1)
      else .ok () ((s.read ft 1024).written fp (Posix.fread s.fs ft 1024).1) := by
  have hread : copyLoop (fuel + 1) ft fp s =
      (if (Posix.fread s.fs ft 1024).1 = [] then pure ()
      else do
        let bytes ← fwrite fp (Posix.fread s.fs ft 1024).1
        if bytes = (Posix.fread s.fs ft 1024).1.length then copyLoop fuel ft fp else pure () :
        Srv Fs Cwd Unit) (s.read ft 1024) := rfl
  rw [hread]
  by_cases hnil : (Posix.fread s.fs ft 1024).1 = []
  · rw [if_pos hnil, if_pos hnil]
    rfl
  · rw [if_neg hnil, if_neg hnil]
    by_cases hall : (Posix.fwrite (s.read ft 1024).fs fp (Posix.fread s.fs ft 1024).1).1 =
        (Posix.fread s.fs ft 1024).1.length
    · rw [if_pos hall]
      exact congrFun (if_pos hall) _
    · rw [if_neg hall]
      exact congrFun (if_neg hall) _

/-- The state after `fopen`. -/
def Server.fopened (s : Server Fs Cwd) (path : ByteString) (mode : OpenMode) : Server Fs Cwd :=
  { s with
    fs := (Posix.fopen s.fs s.cwd path mode).2
    trace := s.trace ++ [.fopen path mode (Posix.fopen s.fs s.cwd path mode).1] }

/-- The state after both files are closed. -/
def Server.closed (s : Server Fs Cwd) (ft fp : Handle) : Server Fs Cwd :=
  { s with
    fs := Posix.fclose (Posix.fclose s.fs ft) fp
    trace := s.trace ++ [.fclose ft] ++ [.fclose fp] }

theorem fopen_ok {s : Server Fs Cwd} {path : ByteString} {mode : OpenMode} {fp : Option Handle}
    (h : (Posix.fopen s.fs s.cwd path mode).1 = fp) :
    fopen path mode s = .ok fp (s.fopened path mode) := by
  rw [← h]
  rfl

variable {n1 n2 : ByteString} {s s' : Server Fs Cwd} {ft fp : Handle}

/-- A copy that cannot open its source. -/
theorem copyFile_of_source (h : (Posix.fopen s.fs s.cwd n1 .r).1 = none) :
    ∃ err s', copyFile n1 n2 s = .ok (some err) s' :=
  ⟨_, _, bind_of_ok (fopen_ok h)⟩

/-- A copy that cannot open its destination. -/
theorem copyFile_of_target (h1 : (Posix.fopen s.fs s.cwd n1 .r).1 = some ft)
    (h2 : (Posix.fopen (s.fopened n1 .r).fs s.cwd n2 .w).1 = none) :
    ∃ err s', copyFile n1 n2 s = .ok (some err) s' :=
  ⟨_, _, (bind_of_ok (fopen_ok h1)).trans (bind_of_ok (fopen_ok (s := s.fopened n1 .r) h2))⟩

/-- A copy is good if neither error indicator is set when the loop has ended. -/
theorem copyFile_of_opened (h1 : (Posix.fopen s.fs s.cwd n1 .r).1 = some ft)
    (h2 : (Posix.fopen (s.fopened n1 .r).fs s.cwd n2 .w).1 = some fp)
    (hloop : copyLoop (Posix.remaining ((s.fopened n1 .r).fopened n2 .w).fs ft + 1) ft fp
      ((s.fopened n1 .r).fopened n2 .w) = .ok () s') :
    copyFile n1 n2 s =
      if Posix.ferror s'.fs ft = true ∨ Posix.ferror s'.fs fp = true then
        (do let _ ← unlink n2; pure (some (text "Write error")) : Srv Fs Cwd (Option ByteString))
          (s'.closed ft fp)
      else .ok none { s'.closed ft fp with
        trace := (s'.closed ft fp).trace ++ [.copied n1 n2] } := by
  have hopen := fopen_ok h1
  have hopen' := fopen_ok (s := s.fopened n1 .r) h2
  refine ((bind_of_ok hopen).trans (bind_of_ok hopen')).trans ?_
  have hfuel : (query fun (fs : Fs) _ => Posix.remaining fs ft + 1 : Srv Fs Cwd ℕ)
      ((s.fopened n1 .r).fopened n2 .w) =
        .ok (Posix.remaining ((s.fopened n1 .r).fopened n2 .w).fs ft + 1)
          ((s.fopened n1 .r).fopened n2 .w) := rfl
  refine (bind_of_ok hfuel).trans ((bind_of_ok hloop).trans ?_)
  by_cases hnoted : Posix.ferror s'.fs ft = true ∨ Posix.ferror s'.fs fp = true
  · rw [if_pos hnoted]
    exact congrFun (if_pos hnoted) (s'.closed ft fp)
  · rw [if_neg hnoted]
    exact congrFun (if_neg hnoted) (s'.closed ft fp)

end Loop

variable {d : BufferedDisk} {ft fp : Handle} {src dst : Path} {content : ByteString} {pos : ℕ}

/-- The streams of a copy: `pos` bytes have been read and written. -/
structure Copying (d : BufferedDisk) (ft fp : Handle) (src dst : Path) (content : ByteString)
    (pos : ℕ) : Prop where
  source : d.disk.node src = some (.file content)
  target : ∃ old, d.disk.node dst = some (.file old)
  reads : d.disk.stream ft = some ⟨src, pos⟩
  writes : d.disk.stream fp = some ⟨dst, pos⟩
  reads_only : d.image ft = none
  image : d.image fp = some (content.take pos)
  distinct : ft ≠ fp
  /-- Where the source is the destination, it has been emptied. -/
  apart : src ≠ dst ∨ content = []

/-- One of the error indicators is set. -/
def Noted (d : BufferedDisk) (ft fp : Handle) : Prop := d.failed ft = true ∨ d.failed fp = true

/-- The bytes that the next `fread` of the loop delivers. -/
def nextBytes (d : BufferedDisk) (content : ByteString) (pos : ℕ) : ByteString :=
  (content.drop pos).take (if d.outcome.fails then min d.outcome.moved 1024 else 1024)

theorem Copying.content_eq (h : Copying d ft fp src dst content pos) :
    d.disk.content src = content := by
  unfold Disk.content
  rw [h.source]

theorem Copying.remaining (h : Copying d ft fp src dst content pos) :
    Posix.remaining d ft = content.length - pos := by
  simp only [Posix.remaining, h.reads, h.content_eq]

theorem Copying.fread (h : Copying d ft fp src dst content pos) :
    d.fread ft 1024 = (nextBytes d content pos, d.noted ft (d.disk.setStream ft
      (some ⟨src, pos + (nextBytes d content pos).length⟩))) := by
  unfold BufferedDisk.fread Disk.fread nextBytes
  rw [h.reads]
  simp only [h.content_eq]

/-- The content up to `pos`, with the next bytes written behind it. -/
theorem overwrite_take (content : ByteString) (pos n : ℕ) :
    Disk.overwrite (content.take pos) pos ((content.drop pos).take n) =
      content.take (pos + ((content.drop pos).take n).length) := by
  have hbehind : (content.take pos).drop (pos + ((content.drop pos).take n).length) = [] := by
    rw [List.drop_eq_nil_iff, List.length_take]
    omega
  have hlen : pos + ((content.drop pos).take n).length = pos + min n (content.drop pos).length := by
    rw [List.length_take]
  rw [Disk.overwrite, hbehind, List.append_nil, List.take_take, Nat.min_self, hlen, List.take_add,
    ← List.take_eq_take_min]

theorem Copying.writes_fread (h : Copying d ft fp src dst content pos) :
    (d.fread ft 1024).2.disk.stream fp = some ⟨dst, pos⟩ := by
  rw [h.fread]
  exact (Disk.stream_setStream_of_ne _ h.distinct.symm _).trans h.writes

theorem Copying.image_fread (h : Copying d ft fp src dst content pos) :
    (d.fread ft 1024).2.image fp = some (content.take pos) := by
  rw [h.fread]
  exact h.image

/-- The round of the loop that writes everything it has read. -/
theorem Copying.step (h : Copying d ft fp src dst content pos)
    (hne : nextBytes d content pos ≠ [])
    (hall : ((d.fread ft 1024).2.fwrite fp (nextBytes d content pos)).1 =
      (nextBytes d content pos).length) :
    Copying ((d.fread ft 1024).2.fwrite fp (nextBytes d content pos)).2 ft fp src dst content
      (pos + (nextBytes d content pos).length) := by
  obtain ⟨old, hold⟩ := h.target
  have hcontent : content ≠ [] := by
    intro hnil
    apply hne
    rw [nextBytes, hnil]
    simp
  have hapart : src ≠ dst := h.apart.resolve_right hcontent
  have hdisk : (d.fread ft 1024).2.disk = d.disk.setStream ft
      (some ⟨src, pos + (nextBytes d content pos).length⟩) := by
    rw [h.fread]
    rfl
  have himages : (d.fread ft 1024).2.image = d.image := by
    rw [h.fread]
    rfl
  rw [BufferedDisk.fwrite_image h.writes_fread h.image_fread] at hall ⊢
  rw [BufferedDisk.taken_eq_of_length hall]
  have hnode : ∀ p, ((d.fread ft 1024).2.disk.setStream fp
      (some ⟨dst, pos + (nextBytes d content pos).length⟩)).node p = d.disk.node p := by
    intro p
    rw [Disk.node_setStream, hdisk, Disk.node_setStream]
  refine ⟨?_, ⟨_, BufferedDisk.node_settle_self ((hnode dst).trans hold) _⟩, ?_, ?_, ?_, ?_,
    h.distinct, h.apart⟩
  · exact (BufferedDisk.node_settle_of_ne _ hapart _).trans ((hnode src).trans h.source)
  · show (BufferedDisk.settle _ _ _).stream ft = _
    rw [BufferedDisk.stream_settle, Disk.stream_setStream_of_ne _ h.distinct, hdisk]
    exact Disk.stream_setStream_self h.reads _
  · show (BufferedDisk.settle _ _ _).stream fp = _
    rw [BufferedDisk.stream_settle]
    exact Disk.stream_setStream_self h.writes_fread _
  · refine (if_neg h.distinct).trans ?_
    rw [himages]
    exact h.reads_only
  · refine (if_pos rfl).trans (congrArg some ?_)
    exact overwrite_take content pos _

/-- The last read of the loop. -/
theorem Copying.fread_nil (h : Copying d ft fp src dst content pos)
    (hnil : nextBytes d content pos = []) :
    Copying (d.fread ft 1024).2 ft fp src dst content pos where
  source := by rw [h.fread]; exact h.source
  target := by rw [h.fread]; exact h.target
  reads := by
    rw [h.fread, hnil]
    exact Disk.stream_setStream_self h.reads _
  writes := h.writes_fread
  reads_only := by rw [h.fread]; exact h.reads_only
  image := h.image_fread
  distinct := h.distinct
  apart := h.apart

/-- The disk after a round of the loop that writes. -/
def afterRound (d : BufferedDisk) (ft fp : Handle) (content : ByteString) (pos : ℕ) :
    BufferedDisk :=
  ((d.fread ft 1024).2.fwrite fp (nextBytes d content pos)).2

theorem calls_afterRound (d : BufferedDisk) (ft fp : Handle) (content : ByteString) (pos : ℕ) :
    (afterRound d ft fp content pos).calls = d.calls + 2 ∧
      (afterRound d ft fp content pos).plan = d.plan := by
  obtain ⟨-, hcalls, hplan⟩ :=
    BufferedDisk.fwrite_noted (d.fread ft 1024).2 fp (nextBytes d content pos)
  exact ⟨hcalls, hplan⟩

/-- A failure of either call of a round is noted, and so is what was noted before. -/
theorem noted_afterRound (hne : ft ≠ fp) (content : ByteString) (pos : ℕ) :
    Noted (afterRound d ft fp content pos) ft fp ↔
      Noted d ft fp ∨ (d.plan d.calls).fails = true ∨ (d.plan (d.calls + 1)).fails = true := by
  obtain ⟨hfailed, -⟩ :=
    BufferedDisk.fwrite_noted (d.fread ft 1024).2 fp (nextBytes d content pos)
  unfold Noted afterRound
  rw [hfailed]
  simp only [if_neg hne, if_true]
  show ((if ft = ft then d.failed ft || (d.plan d.calls).fails else d.failed ft) = true ∨
    ((if fp = ft then d.failed fp || (d.plan d.calls).fails else d.failed fp) ||
      (d.plan (d.calls + 1)).fails) = true) ↔ _
  rw [if_pos rfl, if_neg hne.symm, Bool.or_eq_true, Bool.or_eq_true]
  tauto

/-- With nothing left to read, or after a failure, the loop stops. -/
theorem noted_fread (hne : ft ≠ fp) :
    Noted (d.fread ft 1024).2 ft fp ↔ Noted d ft fp ∨ (d.plan d.calls).fails = true := by
  show ((if ft = ft then d.failed ft || (d.plan d.calls).fails else d.failed ft) = true ∨
    (if fp = ft then d.failed fp || (d.plan d.calls).fails else d.failed fp) = true) ↔ _
  rw [if_pos rfl, if_neg hne.symm, Bool.or_eq_true]
  unfold Noted
  tauto

theorem length_nextBytes (hquiet : (d.plan d.calls).fails = false) (content : ByteString)
    (pos : ℕ) : (nextBytes d content pos).length = min 1024 (content.length - pos) := by
  have houtcome : d.outcome.fails = false := hquiet
  rw [nextBytes, houtcome, List.length_take, List.length_drop]
  rfl

/-- The calls that are left after a round in which the read does not fail. -/
theorem copyCalls_afterRound (hquiet : (d.plan d.calls).fails = false)
    (hne : nextBytes d content pos ≠ []) :
    copyCalls (content.length - pos) =
      copyCalls (content.length - (pos + (nextBytes d content pos).length)) + 2 := by
  have hlen := length_nextBytes hquiet content pos
  have hpos : 0 < (nextBytes d content pos).length := List.length_pos_iff.mpr hne
  have hrest : content.length - pos - 1024 =
      content.length - (pos + (nextBytes d content pos).length) := by omega
  rw [copyCalls_of_pos (by omega), hrest]

/-- A failure has been noted, or one is to come before the loop ends. -/
def Notes (d : BufferedDisk) (ft fp : Handle) (content : ByteString) (pos : ℕ) : Prop :=
  Noted d ft fp ∨
    ∃ i < copyCalls (content.length - pos), (d.plan (d.calls + i)).fails = true

/-- The calls of a round that reads something are among those to come. -/
theorem two_lt_copyCalls (hbytes : nextBytes d content pos ≠ []) :
    2 < copyCalls (content.length - pos) := by
  have hpos : 0 < (nextBytes d content pos).length := List.length_pos_iff.mpr hbytes
  rw [nextBytes, List.length_take, List.length_drop] at hpos
  rw [copyCalls_of_pos (by omega), copyCalls]
  omega

/-- A round loses nothing of what is noted, or is to be noted. -/
theorem notes_afterRound (hne : ft ≠ fp) (hbytes : nextBytes d content pos ≠ []) :
    Notes (afterRound d ft fp content pos) ft fp content
      (pos + (nextBytes d content pos).length) ↔ Notes d ft fp content pos := by
  have hnow := noted_afterRound (d := d) hne content pos
  have htwo := two_lt_copyCalls hbytes
  obtain ⟨hcalls, hplan⟩ := calls_afterRound d ft fp content pos
  by_cases hround : Noted d ft fp ∨ (d.plan d.calls).fails = true ∨
      (d.plan (d.calls + 1)).fails = true
  -- a failure in this round has set the error flag of its stream
  · refine iff_of_true (Or.inl (hnow.mpr hround)) ?_
    rcases hround with hnoted | hfails | hfails
    · exact Or.inl hnoted
    · exact Or.inr ⟨0, by omega, hfails⟩
    · exact Or.inr ⟨1, by omega, hfails⟩
  -- otherwise both sides speak of the calls of the rounds to come
  · have hquiet : (d.plan d.calls).fails = false :=
      Bool.eq_false_iff.mpr fun h => hround (Or.inr (Or.inl h))
    have hcount := copyCalls_afterRound hquiet hbytes
    have hat : ∀ i, (afterRound d ft fp content pos).plan
        ((afterRound d ft fp content pos).calls + i) = d.plan (d.calls + (i + 2)) := by
      intro i
      rw [hcalls, hplan, Nat.add_assoc, Nat.add_comm 2 i]
    constructor
    · intro h
      obtain ⟨i, hi, hfails⟩ := h.resolve_left fun h => hround (hnow.mp h)
      exact Or.inr ⟨i + 2, by omega, hat i ▸ hfails⟩
    · intro h
      obtain ⟨i, hi, hfails⟩ := h.resolve_left fun h => hround (Or.inl h)
      have hlate : 2 ≤ i := by
        by_contra hlt
        have hcases : i = 0 ∨ i = 1 := by omega
        rcases hcases with rfl | rfl
        · exact hround (Or.inr (Or.inl hfails))
        · exact hround (Or.inr (Or.inr hfails))
      refine Or.inr ⟨i - 2, by omega, ?_⟩
      rw [hat, Nat.sub_add_cancel hlate]
      exact hfails

/-- When nothing is left to read, what is to be noted has been noted. -/
theorem notes_fread (hne : ft ≠ fp) (hnil : nextBytes d content pos = [])
    (h : Notes d ft fp content pos) : Noted (d.fread ft 1024).2 ft fp := by
  refine (noted_fread hne).mpr (h.imp_right fun ⟨i, hi, hfails⟩ => ?_)
  by_contra hquiet
  have hlen := length_nextBytes (Bool.eq_false_iff.mpr hquiet) content pos
  rw [hnil, List.length_nil] at hlen
  have hdone : content.length - pos = 0 := by omega
  obtain rfl : i = 0 := by
    rw [hdone, copyCalls] at hi
    omega
  exact hquiet hfails

/-- `fwrite` takes fewer bytes than it was given only if it fails. -/
theorem Copying.fails_of_short (h : Copying d ft fp src dst content pos)
    (hshort : ((d.fread ft 1024).2.fwrite fp (nextBytes d content pos)).1 ≠
      (nextBytes d content pos).length) : (d.plan (d.calls + 1)).fails = true := by
  rw [BufferedDisk.fwrite_image h.writes_fread h.image_fread] at hshort
  by_contra hquiet
  exact hshort (congrArg List.length (if_neg hquiet))

/-- A failure that has been noted, or is to come, is noted when the loop has ended. -/
theorem copyLoop_notes {fuel : ℕ} {s : Server BufferedDisk Path}
    (hcopying : Copying s.fs ft fp src dst content pos) (hfuel : content.length - pos < fuel)
    (hnotes : Notes s.fs ft fp content pos) :
    ∃ s', copyLoop fuel ft fp s = .ok () s' ∧ Noted s'.fs ft fp := by
  induction fuel generalizing s pos with
  | zero => omega
  | succ fuel ih =>
      have hread : (Posix.fread s.fs ft 1024).1 = nextBytes s.fs content pos := by
        show (s.fs.fread ft 1024).1 = _
        rw [hcopying.fread]
      rw [copyLoop_succ, hread]
      by_cases hnil : nextBytes s.fs content pos = []
      · exact ⟨s.read ft 1024, if_pos hnil, notes_fread hcopying.distinct hnil hnotes⟩
      · rw [if_neg hnil]
        have hpos : 0 < (nextBytes s.fs content pos).length := List.length_pos_iff.mpr hnil
        have hle : (nextBytes s.fs content pos).length ≤ content.length - pos := by
          rw [nextBytes, List.length_take, List.length_drop]
          exact Nat.min_le_right _ _
        by_cases hall : ((s.fs.fread ft 1024).2.fwrite fp (nextBytes s.fs content pos)).1 =
            (nextBytes s.fs content pos).length
        · obtain ⟨s', hs', hnoted⟩ := ih
            (s := (s.read ft 1024).written fp (nextBytes s.fs content pos))
            (hcopying.step hnil hall) (by omega)
            ((notes_afterRound hcopying.distinct hnil).mpr hnotes)
          exact ⟨s', (if_pos hall).trans hs', hnoted⟩
        · refine ⟨(s.read ft 1024).written fp (nextBytes s.fs content pos), if_neg hall, ?_⟩
          exact (noted_afterRound hcopying.distinct content pos).mpr
            (Or.inr (Or.inr (hcopying.fails_of_short hall)))

/-- Without a failure the loop copies everything. -/
theorem copyLoop_whole {fuel : ℕ} {s : Server BufferedDisk Path}
    (hcopying : Copying s.fs ft fp src dst content pos) (hfuel : content.length - pos < fuel)
    (hquiet : ¬ Notes s.fs ft fp content pos) :
    ∃ s' pos', copyLoop fuel ft fp s = .ok () s' ∧ s'.cwd = s.cwd ∧ ¬ Noted s'.fs ft fp ∧
      Copying s'.fs ft fp src dst content pos' ∧ content.length ≤ pos' ∧
      s'.fs.calls = s.fs.calls + copyCalls (content.length - pos) ∧ s'.fs.plan = s.fs.plan := by
  induction fuel generalizing s pos with
  | zero => omega
  | succ fuel ih =>
      have hread : (Posix.fread s.fs ft 1024).1 = nextBytes s.fs content pos := by
        show (s.fs.fread ft 1024).1 = _
        rw [hcopying.fread]
      -- this round reads without a failure, and ends the copy or moves both streams on
      have hfirst : (s.fs.plan s.fs.calls).fails = false :=
        Bool.eq_false_iff.mpr fun h => hquiet (Or.inr ⟨0, by unfold copyCalls; omega, h⟩)
      have hlen := length_nextBytes hfirst content pos
      rw [copyLoop_succ, hread]
      by_cases hnil : nextBytes s.fs content pos = []
      · rw [hnil, List.length_nil] at hlen
        have hdone : content.length - pos = 0 := by omega
        refine ⟨s.read ft 1024, pos, if_pos hnil, rfl, ?_, hcopying.fread_nil hnil, by omega, ?_, rfl⟩
        · intro hnoted
          exact hquiet (((noted_fread hcopying.distinct).mp hnoted).imp_right fun h =>
            ⟨0, by unfold copyCalls; omega, h⟩)
        · rw [hdone]
          rfl
      · rw [if_neg hnil]
        have hpos : 0 < (nextBytes s.fs content pos).length := List.length_pos_iff.mpr hnil
        have hall : ((s.fs.fread ft 1024).2.fwrite fp (nextBytes s.fs content pos)).1 =
            (nextBytes s.fs content pos).length := by
          by_contra hshort
          have htwo := two_lt_copyCalls hnil
          exact hquiet (Or.inr ⟨1, by omega, hcopying.fails_of_short hshort⟩)
        obtain ⟨hcalls, hplan⟩ := calls_afterRound s.fs ft fp content pos
        obtain ⟨s', pos', hs', hcwd, hclean, hcopied, hle, hcalls', hplan'⟩ := ih
          (s := (s.read ft 1024).written fp (nextBytes s.fs content pos))
          (hcopying.step hnil hall) (by omega)
          (fun h => hquiet ((notes_afterRound hcopying.distinct hnil).mp h))
        refine ⟨s', pos', (if_pos hall).trans hs', hcwd, hclean, hcopied, hle, ?_,
          hplan'.trans hplan⟩
        have hcount := copyCalls_afterRound hfirst hnil
        have hsum : s'.fs.calls = s.fs.calls + 2 +
            copyCalls (content.length - (pos + (nextBytes s.fs content pos).length)) :=
          hcalls'.trans (congrArg (· + _) hcalls)
        omega

/-! ## A copy -/

variable {cwd : Path} {n1 n2 : ByteString}

theorem fopen_r_iff : (Posix.fopen d cwd n1 .r).1 = none ↔
    (d.plan d.calls).fails = true ∨ ∀ content, Posix.readFile d cwd n1 ≠ some content := by
  have hcall : Posix.fopen d cwd n1 .r = d.fopen (Disk.resolve cwd n1) .r := rfl
  rw [hcall]
  by_cases hfails : d.outcome.fails = true
  · refine iff_of_true ?_ (Or.inl hfails)
    rw [BufferedDisk.fopen, if_pos hfails]
  · have hplan : ¬ (d.plan d.calls).fails = true := hfails
    rcases d.fopen_r (p := Disk.resolve cwd n1) (Bool.eq_false_iff.mpr hfails) with
      ⟨content, hnode, hopen⟩ | ⟨hnode, hopen⟩
    · rw [hopen]
      refine iff_of_false (by simp) ?_
      intro h
      exact h.resolve_left hplan content (BufferedDisk.readFile_eq_some.mpr hnode)
    · rw [hopen]
      exact iff_of_true rfl (Or.inr fun content h => hnode content (BufferedDisk.readFile_eq_some.mp h))

theorem fopen_w_iff : (Posix.fopen d cwd n2 .w).1 = none ↔
    (d.plan d.calls).fails = true ∨ ¬ BufferedDisk.Writable d.disk (Disk.resolve cwd n2) := by
  have hcall : Posix.fopen d cwd n2 .w = d.fopen (Disk.resolve cwd n2) .w := rfl
  rw [hcall]
  by_cases hfails : d.outcome.fails = true
  · refine iff_of_true ?_ (Or.inl hfails)
    rw [BufferedDisk.fopen, if_pos hfails]
  · have hplan : ¬ (d.plan d.calls).fails = true := hfails
    rcases d.fopen_w (p := Disk.resolve cwd n2) (Bool.eq_false_iff.mpr hfails) with
      ⟨hwritable, hopen⟩ | ⟨hwritable, hopen⟩
    · rw [hopen]
      exact iff_of_false (by simp) fun h => h.resolve_left hplan hwritable
    · rw [hopen]
      exact iff_of_true rfl (Or.inr hwritable)

/-- Opening the source changes nothing for the destination. -/
theorem fopen_r_w_iff {ft : Handle} (h : (Posix.fopen d cwd n1 .r).1 = some ft) :
    (Posix.fopen (Posix.fopen d cwd n1 .r).2 cwd n2 .w).1 = none ↔
      (d.plan (d.calls + 1)).fails = true ∨
        ¬ BufferedDisk.Writable d.disk (Disk.resolve cwd n2) := by
  have hr : (d.plan d.calls).fails = false := by
    refine Bool.eq_false_iff.mpr fun hfails => ?_
    rw [fopen_r_iff.mpr (Or.inl hfails)] at h
    cases h
  rw [fopen_w_iff]
  have hcall : Posix.fopen d cwd n1 .r = d.fopen (Disk.resolve cwd n1) .r := rfl
  rcases d.fopen_r (p := Disk.resolve cwd n1) hr with ⟨_, -, hopen⟩ | ⟨-, hopen⟩
  · rw [hcall, hopen]
    exact Iff.rfl
  · rw [hcall, hopen] at h
    cases h

/-- The streams of a copy when both files are open. -/
theorem copying_opened {content : ByteString} (hsource : Posix.readFile d cwd n1 = some content)
    (hwritable : BufferedDisk.Writable d.disk (Disk.resolve cwd n2))
    (hr : (d.plan d.calls).fails = false) (hw : (d.plan (d.calls + 1)).fails = false) :
    ∃ ft fp d', (Posix.fopen d cwd n1 .r).1 = some ft ∧
      Posix.fopen (Posix.fopen d cwd n1 .r).2 cwd n2 .w = (some fp, d') ∧
      Copying d' ft fp (Disk.resolve cwd n1) (Disk.resolve cwd n2) (leftToCopy d cwd n1 n2) 0 ∧
      ¬ Noted d' ft fp ∧ d'.calls = d.calls + 2 ∧ d'.plan = d.plan := by
  have hnode := BufferedDisk.readFile_eq_some.mp hsource
  have hcall : Posix.fopen d cwd n1 .r = d.fopen (Disk.resolve cwd n1) .r := rfl
  rcases d.fopen_r (p := Disk.resolve cwd n1) hr with ⟨_, -, hopen⟩ | ⟨hnone, -⟩
  · rw [hcall, hopen]
    obtain ⟨d₁, hd₁⟩ : ∃ d₁, d₁ = (d.fopen (Disk.resolve cwd n1) .r).2 := ⟨_, rfl⟩
    rw [hopen] at hd₁
    have hw₁ : d₁.outcome.fails = false := by rw [hd₁]; exact hw
    rcases d₁.fopen_w (p := Disk.resolve cwd n2) hw₁ with ⟨-, hopen'⟩ | ⟨hnot, -⟩
    · have hstream := Disk.stream_openStream_self d.disk (Disk.resolve cwd n1)
      obtain ⟨hne, hkept⟩ := Disk.stream_openStream_of_some hstream (Disk.resolve cwd n2)
      have hroot := hwritable.ne_nil
      have hwrites := Disk.stream_openStream_self (d.disk.openStream (Disk.resolve cwd n1)).2
        (Disk.resolve cwd n2)
      rw [hd₁] at hopen'
      refine ⟨_, _, _, rfl, hopen', ?_, ?_, rfl, rfl⟩
      · refine ⟨?_, ⟨[], ?_⟩, hkept, hwrites, (if_neg hne).trans (if_pos rfl), if_pos rfl, hne, ?_⟩
        · refine (Disk.node_write _ hroot _ _).trans ?_
          unfold leftToCopy
          by_cases hsame : Disk.resolve cwd n1 = Disk.resolve cwd n2
          · rw [if_pos hsame, if_pos hsame]
          · rw [if_neg hsame, if_neg hsame, hsource]
            exact hnode
        · exact (Disk.node_write _ hroot _ _).trans (if_pos rfl)
        · by_cases hsame : Disk.resolve cwd n1 = Disk.resolve cwd n2
          · exact Or.inr (if_pos hsame)
          · exact Or.inl hsame
      · unfold Noted
        simp
    · rw [hd₁] at hnot
      exact absurd hwritable hnot
  · exact absurd hnode (hnone content)

/-- With both files open, what can still interrupt the copy is what is to be noted. -/
theorem notes_iff {d' : BufferedDisk} (hsource : ∃ content, Posix.readFile d cwd n1 = some content)
    (hwritable : BufferedDisk.Writable d.disk (Disk.resolve cwd n2))
    (hr : (d.plan d.calls).fails = false) (hw : (d.plan (d.calls + 1)).fails = false)
    (hclean : ¬ Noted d' ft fp) (hcalls : d'.calls = d.calls + 2) (hplan : d'.plan = d.plan) :
    Notes d' ft fp (leftToCopy d cwd n1 n2) 0 ↔ ¬ Uninterrupted d cwd n1 n2 := by
  have hat : ∀ i, d'.plan (d'.calls + i) = d.plan (d.calls + (i + 2)) := by
    intro i
    rw [hcalls, hplan, Nat.add_assoc, Nat.add_comm 2 i]
  constructor
  · intro h huninterrupted
    obtain ⟨i, hi, hfails⟩ := h.resolve_left hclean
    rw [hat, huninterrupted.calls (i + 2) (by rw [Nat.sub_zero] at hi; omega)] at hfails
    cases hfails
  · intro h
    by_contra hquiet
    refine h ⟨hsource, hwritable, fun i hi => Bool.eq_false_iff.mpr fun hfails => ?_⟩
    have hlate : 2 ≤ i := by
      by_contra hlt
      have hcases : i = 0 ∨ i = 1 := by omega
      rcases hcases with rfl | rfl
      · exact absurd hfails (Bool.eq_false_iff.mp hr)
      · exact absurd hfails (Bool.eq_false_iff.mp hw)
    refine hquiet (Or.inr ⟨i - 2, by rw [Nat.sub_zero]; omega, ?_⟩)
    rw [hat, Nat.sub_add_cancel hlate]
    exact hfails

/-- A copy that is interrupted is reported bad. -/
theorem copyFile_of_interrupted {s : Server BufferedDisk Path}
    (h : ¬ Uninterrupted s.fs s.cwd n1 n2) : ∃ err s', copyFile n1 n2 s = .ok (some err) s' := by
  by_cases hr : (s.fs.plan s.fs.calls).fails = true ∨
      ∀ content, Posix.readFile s.fs s.cwd n1 ≠ some content
  · exact copyFile_of_source (fopen_r_iff.mpr hr)
  · obtain ⟨hr, hsource⟩ := not_or.mp hr
    obtain ⟨content, hsource⟩ := not_forall_not.mp hsource
    cases hft : (Posix.fopen s.fs s.cwd n1 .r).1 with
    | none => exact copyFile_of_source hft
    | some ft =>
        by_cases hw : (s.fs.plan (s.fs.calls + 1)).fails = true ∨
            ¬ BufferedDisk.Writable s.fs.disk (Disk.resolve s.cwd n2)
        · exact copyFile_of_target hft ((fopen_r_w_iff hft).mpr hw)
        · obtain ⟨hw, hwritable⟩ := not_or.mp hw
          rw [not_not] at hwritable
          obtain ⟨ft, fp, d', hft, hfp, hcopying, hclean, hcalls, hplan⟩ := copying_opened hsource
            hwritable (Bool.eq_false_iff.mpr hr) (Bool.eq_false_iff.mpr hw)
          have hopened : ((s.fopened n1 .r).fopened n2 .w).fs = d' := congrArg Prod.snd hfp
          rw [← hopened] at hcopying hclean hcalls hplan
          have hfuel : (leftToCopy s.fs s.cwd n1 n2).length - 0 <
              Posix.remaining ((s.fopened n1 .r).fopened n2 .w).fs ft + 1 := by
            rw [hcopying.remaining]
            exact Nat.lt_succ_self _
          obtain ⟨s', hloop, hnoted⟩ := copyLoop_notes hcopying hfuel
            ((notes_iff ⟨content, hsource⟩ hwritable (Bool.eq_false_iff.mpr hr)
              (Bool.eq_false_iff.mpr hw) hclean hcalls hplan).mpr h)
          exact ⟨_, _, (copyFile_of_opened hft (congrArg Prod.fst hfp) hloop).trans (if_pos hnoted)⟩

/-- The destination when both streams are closed. -/
theorem Copying.closed (h : Copying d ft fp src dst content pos) (hall : content.length ≤ pos) :
    (Posix.fclose (Posix.fclose d ft) fp).disk.node dst =
        some (.file (if (d.plan (d.calls + 1)).fails then
          content.take (d.plan (d.calls + 1)).settled else content)) ∧
      (src ≠ dst → (Posix.fclose (Posix.fclose d ft) fp).disk.node src = some (.file content)) ∧
      (Posix.fclose (Posix.fclose d ft) fp).calls = d.calls + 2 ∧
      (Posix.fclose (Posix.fclose d ft) fp).plan = d.plan := by
  obtain ⟨old, hold⟩ := h.target
  have hfirst : Posix.fclose d ft = d.called (d.disk.setStream ft none) :=
    BufferedDisk.fclose_of_image_eq_none h.reads_only
  have hwrites : (d.called (d.disk.setStream ft none)).disk.stream fp = some ⟨dst, pos⟩ :=
    (Disk.stream_setStream_of_ne _ h.distinct.symm _).trans h.writes
  have himage : (d.called (d.disk.setStream ft none)).image fp = some (content.take pos) := h.image
  have hlast : Posix.fclose (d.called (d.disk.setStream ft none)) fp =
      (d.called (d.disk.setStream ft none)).fclose fp := rfl
  rw [hfirst, hlast, BufferedDisk.fclose_image hwrites himage, List.take_of_length_le hall]
  have hold' : (d.disk.setStream ft none).node dst = some (.file old) := hold
  exact ⟨BufferedDisk.node_settle_self hold' _,
    fun hne => (BufferedDisk.node_settle_of_ne _ hne _).trans h.source, rfl, rfl⟩

/-- A copy that is not interrupted is reported good, and its destination has what closing it puts there. -/
theorem copyFile_of_uninterrupted {s : Server BufferedDisk Path}
    (h : Uninterrupted s.fs s.cwd n1 n2) :
    ∃ s', copyFile n1 n2 s = .ok none s' ∧ s'.cwd = s.cwd ∧
      Posix.readFile s'.fs s.cwd n2 = some (if (closing s.fs s.cwd n1 n2).fails then
          (leftToCopy s.fs s.cwd n1 n2).take (closing s.fs s.cwd n1 n2).settled
        else leftToCopy s.fs s.cwd n1 n2) ∧
      (Disk.resolve s.cwd n1 ≠ Disk.resolve s.cwd n2 →
        s'.fs.disk.node (Disk.resolve s.cwd n1) = some (.file (leftToCopy s.fs s.cwd n1 n2))) ∧
      s'.fs.calls = s.fs.calls + 4 + copyCalls (leftToCopy s.fs s.cwd n1 n2).length ∧
      s'.fs.plan = s.fs.plan := by
  obtain ⟨content, hsource⟩ := h.source
  have hr := h.calls 0 (by unfold copyCalls; omega)
  have hw := h.calls 1 (by unfold copyCalls; omega)
  obtain ⟨ft, fp, d', hft, hfp, hcopying, hclean, hcalls, hplan⟩ :=
    copying_opened hsource h.writable hr hw
  have hopened : ((s.fopened n1 .r).fopened n2 .w).fs = d' := congrArg Prod.snd hfp
  rw [← hopened] at hcopying hclean hcalls hplan
  have hfuel : (leftToCopy s.fs s.cwd n1 n2).length - 0 <
      Posix.remaining ((s.fopened n1 .r).fopened n2 .w).fs ft + 1 := by
    rw [hcopying.remaining]
    exact Nat.lt_succ_self _
  obtain ⟨s', pos', hloop, hcwd, hclean', hcopied, hall, hcalls', hplan'⟩ :=
    copyLoop_whole hcopying hfuel
      (fun hnotes => (notes_iff ⟨content, hsource⟩ h.writable hr hw hclean hcalls hplan).mp hnotes h)
  -- closing the copy writes out what its stream still holds, and no one looks how that went
  obtain ⟨hnode, hsrc, hcount, hkept⟩ := hcopied.closed hall
  refine ⟨_, (copyFile_of_opened hft (congrArg Prod.fst hfp) hloop).trans (if_neg hclean'), hcwd,
    ?_, hsrc, ?_, ?_⟩
  · rw [BufferedDisk.readFile_eq_some]
    have hat : s'.fs.calls + 1 =
        s.fs.calls + 2 + copyCalls (leftToCopy s.fs s.cwd n1 n2).length + 1 := by
      rw [hcalls', hcalls, Nat.sub_zero]
    rw [hplan', hplan, hat] at hnode
    exact hnode
  · refine hcount.trans ?_
    rw [hcalls', hcalls, Nat.sub_zero]
    omega
  · exact hkept.trans (hplan'.trans hplan)

/-- A call before the last one fails, or else the destination is another file (unless there is nothing
to copy) and closing it puts all bytes there. -/
def CopyHolds (d : BufferedDisk) (cwd : Path) (n1 n2 : ByteString) : Prop :=
  Uninterrupted d cwd n1 n2 →
    (Disk.resolve cwd n1 = Disk.resolve cwd n2 → Posix.readFile d cwd n1 = some []) ∧
      ClosesWhole d cwd n1 n2

theorem take_settled_iff {content : ByteString} {o : Outcome} :
    (if o.fails then content.take o.settled else content) = content ↔
      o.fails = false ∨ content.length ≤ o.settled := by
  cases o.fails with
  | false => exact iff_of_true rfl (Or.inl rfl)
  | true =>
      constructor
      · intro h
        have hlen := congrArg List.length h
        simp only [if_true, List.length_take] at hlen
        exact Or.inr (by omega)
      · intro h
        exact List.take_of_length_le (h.resolve_left (by decide))

/-- The destination of a copy that is not interrupted has all bytes of the source. -/
theorem copied_iff {s : Server BufferedDisk Path} (h : Uninterrupted s.fs s.cwd n1 n2) :
    some (if (closing s.fs s.cwd n1 n2).fails then
        (leftToCopy s.fs s.cwd n1 n2).take (closing s.fs s.cwd n1 n2).settled
      else leftToCopy s.fs s.cwd n1 n2) = Posix.readFile s.fs s.cwd n1 ↔
      CopyHolds s.fs s.cwd n1 n2 := by
  obtain ⟨content, hsource⟩ := h.source
  have hholds : CopyHolds s.fs s.cwd n1 n2 ↔
      (Disk.resolve s.cwd n1 = Disk.resolve s.cwd n2 → content = []) ∧
        ClosesWhole s.fs s.cwd n1 n2 := by
    unfold CopyHolds
    rw [hsource, Option.some_inj]
    exact ⟨fun hc => hc h, fun hc _ => hc⟩
  rw [hholds, hsource, Option.some_inj, ClosesWhole]
  by_cases hsame : Disk.resolve s.cwd n1 = Disk.resolve s.cwd n2
  · have hleft : leftToCopy s.fs s.cwd n1 n2 = [] := if_pos hsame
    have hnothing : (if (closing s.fs s.cwd n1 n2).fails then
        ([] : ByteString).take (closing s.fs s.cwd n1 n2).settled else []) = [] :=
      take_settled_iff.mpr (Or.inr (Nat.zero_le _))
    rw [hleft, hnothing]
    exact ⟨fun h => ⟨fun _ => h.symm, Or.inr (Nat.zero_le _)⟩, fun h => (h.1 hsame).symm⟩
  · have hleft : leftToCopy s.fs s.cwd n1 n2 = content := by
      rw [leftToCopy, if_neg hsame, hsource]
      rfl
    rw [hleft, take_settled_iff]
    exact ⟨fun h => ⟨fun hc => absurd hc hsame, h⟩, fun h => h.2⟩

/-- A copy that is not interrupted is reported good; it is complete if and only if `CopyHolds`. -/
theorem copyFile_good {s : Server BufferedDisk Path} (h : Uninterrupted s.fs s.cwd n1 n2) :
    ∃ s', copyFile n1 n2 s = .ok none s' ∧ s'.cwd = s.cwd ∧
      (Posix.readFile s'.fs s.cwd n2 = Posix.readFile s.fs s.cwd n1 ↔
        CopyHolds s.fs s.cwd n1 n2) ∧
      (Disk.resolve s.cwd n1 ≠ Disk.resolve s.cwd n2 →
        s'.fs.disk.node (Disk.resolve s.cwd n1) = some (.file (leftToCopy s.fs s.cwd n1 n2))) ∧
      s'.fs.calls = s.fs.calls + 4 + copyCalls (leftToCopy s.fs s.cwd n1 n2).length ∧
      s'.fs.plan = s.fs.plan := by
  obtain ⟨s', hcopy, hcwd, hread, hsrc, hcalls, hplan⟩ := copyFile_of_uninterrupted h
  exact ⟨s', hcopy, hcwd, hread ▸ copied_iff h, hsrc, hcalls, hplan⟩

/-- A copy that is reported good is complete if and only if `CopyHolds`. -/
theorem copyFile_complete_iff (s : Server BufferedDisk Path) (n1 n2 : ByteString) :
    (∀ s', copyFile n1 n2 s = .ok none s' →
        Posix.readFile s'.fs s'.cwd n2 = Posix.readFile s.fs s.cwd n1) ↔
      CopyHolds s.fs s.cwd n1 n2 := by
  by_cases h : Uninterrupted s.fs s.cwd n1 n2
  · obtain ⟨s', hcopy, hcwd, hholds, -⟩ := copyFile_good h
    rw [← hholds, hcopy]
    constructor
    · intro hall
      exact hcwd ▸ hall s' rfl
    · rintro heq _ ⟨⟩
      exact hcwd ▸ heq
  · obtain ⟨err, s', hcopy⟩ := copyFile_of_interrupted h
    rw [hcopy]
    exact iff_of_true (fun _ h => by cases h) fun huninterrupted => absurd huninterrupted h

/-! ## Places -/

theorem names_append_slash {name : ByteString} (hslash : slash ∉ name) (hnil : name ≠ [])
    (hdot : name ≠ [dot]) (path : ByteString) :
    Disk.names (path ++ slash :: name) = Disk.names path ++ [name] := by
  have hsplit : (path ++ slash :: name).splitOn slash = path.splitOn slash ++ [name] := by
    rw [List.splitOn_append_cons_self, List.splitOn_eq_singleton hslash]
  have hkept : (name != [] && name != [0x2E]) = true := by
    rw [Bool.and_eq_true, bne_iff_ne, bne_iff_ne]
    exact ⟨hnil, hdot⟩
  show ((path ++ slash :: name).splitOn slash).filter _ = _
  rw [hsplit, List.filter_append, List.filter_singleton, hkept]
  rfl

/-- The place of a temporary file has a name that begins with a dot. -/
theorem resolve_tempName (cfg : Config) {letter : UInt8} (hletter : slash ≠ letter)
    (inetNum : UInt32) (portNum : UInt16) (cwd : Path) :
    ∃ name, (Disk.resolve cwd (tempName cfg letter inetNum portNum)).getLast? = some name ∧
      name.head? = some dot := by
  let name : ByteString := dot :: letter :: (hexDigits 8 inetNum.toNat ++ hexDigits 4 portNum.toNat)
  have hpath : tempName cfg letter inetNum portNum = cfg.tmpDir ++ slash :: name := by
    simp [tempName, name]
  have hslash : slash ∉ name := by
    simp only [name, List.mem_cons, List.mem_append, not_or]
    exact ⟨by decide, hletter, slash_notMem_hexDigits _ _, slash_notMem_hexDigits _ _⟩
  have hnames := names_append_slash hslash (by simp [name]) (by simp [name]) cfg.tmpDir
  refine ⟨name, ?_, rfl⟩
  unfold Disk.resolve
  rw [hpath, hnames]
  split
  · rw [List.getLast?_concat]
  · rw [← List.append_assoc, List.getLast?_concat]

/-- The place of a path that the server accepts does not, unless it is the home directory. -/
theorem Descends.resolve {path : ByteString} (h : Descends path) (hdot : path ≠ [dot])
    (hnil : path ≠ []) (cwd : Path) :
    ∃ name, (Disk.resolve cwd path).getLast? = some name ∧ name.head? ≠ some dot := by
  have hwell := h.no_dots.resolve_left hdot
  have hnames : Disk.names path ≠ [] := by
    obtain ⟨c, rest, rfl⟩ := List.exists_cons_of_ne_nil hnil
    have hc : c ≠ slash := fun hc => h.relative (by rw [hc]; rfl)
    have hsplit := splitOn_cons_of_ne hc rest
    obtain ⟨w, ws, hws⟩ := List.exists_cons_of_ne_nil (List.splitOn_ne_nil slash rest)
    have hfirst : c :: w ∈ (c :: rest).splitOn slash := by
      rw [hsplit, hws]
      exact List.mem_cons_self
    have hkept : (c :: w != [] && c :: w != [0x2E]) = true := by
      rw [Bool.and_eq_true, bne_iff_ne, bne_iff_ne]
      refine ⟨List.cons_ne_nil _ _, fun heq => hwell _ hfirst ?_⟩
      rw [heq]
      rfl
    exact List.ne_nil_of_mem (List.mem_filter.mpr ⟨hfirst, hkept⟩)
  have hrelative : Disk.resolve cwd path = cwd ++ Disk.names path := if_neg h.relative
  obtain ⟨name, hname⟩ := List.getLast?_isSome.mpr hnames |> Option.isSome_iff_exists.mp
  refine ⟨name, ?_, ?_⟩
  · rw [hrelative, List.getLast?_append, hname]
    rfl
  · exact hwell name (List.mem_of_mem_filter (List.mem_of_getLast? hname))

theorem resolve_tempName_ne {raw : ByteString} {pp : PPath} (hpp : parsePath raw = .ok pp)
    (hdot : pp.fullp ≠ [dot]) (cfg : Config) {letter : UInt8} (hletter : slash ≠ letter)
    (inetNum : UInt32) (portNum : UInt16) (cwd : Path) :
    Disk.resolve cwd pp.fullp ≠ Disk.resolve cwd (tempName cfg letter inetNum portNum) := by
  have hgrammar := parsePath_grammar raw
  rw [hpp] at hgrammar
  obtain ⟨-, hsplit, hdescends⟩ := hgrammar
  have hnil : pp.fullp ≠ [] := by
    rw [hsplit.fullp, orDot]
    split
    · exact List.cons_ne_nil _ _
    · assumption
  obtain ⟨name, hname, hne⟩ := hdescends.resolve hdot hnil cwd
  obtain ⟨name', hname', heq⟩ := resolve_tempName cfg hletter inetNum portNum cwd
  intro hsame
  rw [hsame, hname', Option.some_inj] at hname
  exact hne (hname ▸ heq)

/-! ## Grabbing -/

section Callers

variable {s : Server BufferedDisk Path} {cfg : Config} {pp : PPath} {inetNum : UInt32}
  {portNum : UInt16} {di : ℕ}

/-- The state after `FSP_STAT`. -/
def Server.statted (s : Server BufferedDisk Path) (path : ByteString) : Server BufferedDisk Path :=
  { s with trace := s.trace ++ [.stat path (Posix.stat s.fs s.cwd path)] }

/-- The state after `unlink`. -/
def Server.unlinked (s : Server BufferedDisk Path) (path : ByteString) :
    Server BufferedDisk Path :=
  { s with
    fs := (s.fs.unlink s.cwd path).2
    trace := s.trace ++ [.unlink path (s.fs.unlink s.cwd path).1] }

theorem stat_file {path content : ByteString} (h : Posix.readFile s.fs s.cwd path = some content) :
    stat path s = .ok (some ⟨.reg, content.length, 0⟩) (s.statted path) := by
  have hnode := BufferedDisk.readFile_eq_some.mp h
  have hstat : Posix.stat s.fs s.cwd path = some ⟨.reg, content.length, 0⟩ := by
    show (s.fs.disk.node (Disk.resolve s.cwd path)).map Disk.statNode = _
    rw [hnode]
    rfl
  rw [Server.statted, hstat, ← hstat]
  rfl

theorem unlink_ok {path : ByteString} {ok : Bool} (h : (s.fs.unlink s.cwd path).1 = ok) :
    unlink path s = .ok ok (s.unlinked path) := by
  rw [← h]
  rfl

/-- The state in which `server_secure_file` makes its copy. -/
def grabStart (cfg : Config) (pp : PPath) (inetNum : UInt32) (portNum : UInt16)
    (s : Server BufferedDisk Path) : Server BufferedDisk Path :=
  (s.statted pp.fullp).unlinked (grabName cfg inetNum portNum)

theorem serverSecureFile_of_bad {content err : ByteString} {s' : Server BufferedDisk Path}
    (hsource : Posix.readFile s.fs s.cwd pp.fullp = some content)
    (hcopy : copyFile pp.fullp (grabName cfg inetNum portNum) (grabStart cfg pp inetNum portNum s) =
      .ok (some err) s') :
    serverSecureFile cfg pp inetNum portNum di s = .ok (some err) s' :=
  (bind_of_ok (stat_file hsource)).trans
    ((bind_of_ok (unlink_ok rfl)).trans (bind_of_ok hcopy))

/-- With a good copy, the original is deleted; if that fails, the copy is. -/
theorem serverSecureFile_of_good (di : ℕ) {content : ByteString}
    {s' : Server BufferedDisk Path} (hsource : Posix.readFile s.fs s.cwd pp.fullp = some content)
    (hcopy : copyFile pp.fullp (grabName cfg inetNum portNum) (grabStart cfg pp inetNum portNum s) =
      .ok none s') :
    ∃ s'',
      if (s'.fs.unlink s'.cwd pp.fullp).1 then
        serverSecureFile cfg pp inetNum portNum di s = .ok none s'' ∧ s''.cwd = s'.cwd ∧
          s''.fs = (s'.fs.unlink s'.cwd pp.fullp).2
      else ∃ err, serverSecureFile cfg pp inetNum portNum di s = .ok (some err) s'' := by
  cases hok : (s'.fs.unlink s'.cwd pp.fullp).1 with
  | true =>
      exact ⟨_, (bind_of_ok (stat_file hsource)).trans ((bind_of_ok (unlink_ok rfl)).trans
        ((bind_of_ok hcopy).trans (bind_of_ok (unlink_ok hok)))), rfl, rfl⟩
  | false =>
      exact ⟨_, _, (bind_of_ok (stat_file hsource)).trans ((bind_of_ok (unlink_ok rfl)).trans
        ((bind_of_ok hcopy).trans (bind_of_ok (unlink_ok hok))))⟩

/-- A grab that is reported good leaves all bytes of the original under the other name if and only if
its copy holds, or the original could not be deleted after it. -/
theorem serverSecureFile_complete_iff {raw content : ByteString} (hpp : parsePath raw = .ok pp)
    (hcwd : s.fs.disk.isDir s.cwd = true)
    (hsource : Posix.readFile s.fs s.cwd pp.fullp = some content) :
    (∀ s', serverSecureFile cfg pp inetNum portNum di s = .ok none s' →
        Posix.readFile s'.fs s'.cwd (grabName cfg inetNum portNum) = some content) ↔
      CopyHolds (s.fs.unlink s.cwd (grabName cfg inetNum portNum)).2 s.cwd pp.fullp
          (grabName cfg inetNum portNum) ∨
        (s.fs.plan (s.fs.calls + 5 + copyCalls content.length)).fails = true := by
  have hnode := BufferedDisk.readFile_eq_some.mp hsource
  -- a directory cannot be read as a file
  have hdot : pp.fullp ≠ [dot] := by
    intro hdot
    rw [hdot] at hnode
    have hhere : Disk.resolve s.cwd [dot] = s.cwd := by
      have hnames : Disk.names [dot] = [] := by decide +kernel
      show (if [dot].head? = some 0x2F then _ else s.cwd ++ Disk.names [dot]) = s.cwd
      rw [if_neg (by decide), hnames, List.append_nil]
    rw [hhere] at hnode
    rw [Disk.isDir, hnode] at hcwd
    cases hcwd
  have happart := resolve_tempName_ne hpp hdot cfg (by decide : slash ≠ 0x47) inetNum portNum s.cwd
  have hread₁ : Posix.readFile (grabStart cfg pp inetNum portNum s).fs s.cwd pp.fullp =
      some content :=
    (BufferedDisk.readFile_congr (s.fs.node_unlink_of_ne happart)).trans hsource
  have hleft : leftToCopy (grabStart cfg pp inetNum portNum s).fs s.cwd pp.fullp
      (grabName cfg inetNum portNum) = content := by
    rw [leftToCopy, hread₁]
    exact if_neg happart
  by_cases h : Uninterrupted (grabStart cfg pp inetNum portNum s).fs s.cwd pp.fullp
      (grabName cfg inetNum portNum)
  · obtain ⟨s', hcopy, hcwd', hholds, hsrc, hcalls, hplan⟩ :=
      copyFile_good (s := grabStart cfg pp inetNum portNum s) h
    obtain ⟨s'', hgrab⟩ := serverSecureFile_of_good di hsource hcopy
    -- the copy was made; the next call deletes the original, with the outcome planned for it
    have houtcome : s'.fs.outcome = s.fs.plan (s.fs.calls + 5 + copyCalls content.length) := by
      have hcalls₁ : (grabStart cfg pp inetNum portNum s).fs.calls = s.fs.calls + 1 :=
        s.fs.calls_unlink _ _
      have hplan₁ : (grabStart cfg pp inetNum portNum s).fs.plan = s.fs.plan :=
        s.fs.plan_unlink _ _
      rw [BufferedDisk.outcome, hplan, hplan₁, hcalls, hcalls₁]
      exact congrArg (fun n => s.fs.plan (s.fs.calls + 1 + 4 + copyCalls n))
        (congrArg List.length hleft)
    have hok : (s'.fs.unlink s'.cwd pp.fullp).1 = !s'.fs.outcome.fails :=
      BufferedDisk.unlink_file (hcwd' ▸ hsrc happart)
    rw [← houtcome]
    rw [hok] at hgrab
    cases hfails : s'.fs.outcome.fails with
    | true =>
        rw [hfails] at hgrab
        obtain ⟨err, hrun⟩ := hgrab
        rw [hrun]
        exact iff_of_true (fun _ h => by cases h) (Or.inr rfl)
    | false =>
        rw [hfails] at hgrab
        obtain ⟨hrun, hcwd'', hfs⟩ := hgrab
        have hcopied : Posix.readFile s''.fs s''.cwd (grabName cfg inetNum portNum) =
            Posix.readFile s'.fs s.cwd (grabName cfg inetNum portNum) := by
          rw [hcwd'', hcwd', hfs, hcwd']
          exact BufferedDisk.readFile_congr (s'.fs.node_unlink_of_ne happart.symm)
        have hgood : Posix.readFile s''.fs s''.cwd (grabName cfg inetNum portNum) = some content ↔
            CopyHolds (s.fs.unlink s.cwd (grabName cfg inetNum portNum)).2 s.cwd pp.fullp
              (grabName cfg inetNum portNum) := by
          rw [hcopied, ← hread₁]
          exact hholds
        rw [hrun]
        constructor
        · intro hall
          exact Or.inl (hgood.mp (hall s'' rfl))
        · rintro hor _ ⟨⟩
          exact hgood.mpr (hor.resolve_right (by decide))
  -- a call that failed was noticed, and no success is reported
  · obtain ⟨err, s', hcopy⟩ := copyFile_of_interrupted (s := grabStart cfg pp inetNum portNum s) h
    rw [serverSecureFile_of_bad hsource hcopy]
    exact iff_of_true (fun _ h => by cases h) (Or.inl fun huninterrupted => absurd huninterrupted h)

/-! ## Installing -/

variable {acc s2 : ByteString}

/-- The state in which `server_install` has closed the upload. -/
def uploadClosed (cfg : Config) (inetNum : UInt32) (portNum : UInt16)
    (s : Server BufferedDisk Path) : Server BufferedDisk Path :=
  final ((do
    let cacheF ← findFp (uploadName cfg inetNum portNum)
    deleteFp cacheF) s)

/-- The state in which `server_install` makes its copy. -/
def installStart (cfg : Config) (pp : PPath) (inetNum : UInt32) (portNum : UInt16) (di : ℕ)
    (s : Server BufferedDisk Path) : Server BufferedDisk Path :=
  (final (touchDirInfo di (uploadClosed cfg inetNum portNum s))).unlinked pp.fullp

/-- The file exists, and the client may not replace it. -/
def MayNotReplace (cfg : Config) (pp : PPath) (inetNum : UInt32) (portNum : UInt16)
    (acc : ByteString) (di : ℕ) (s : Server BufferedDisk Path) : Prop :=
  Posix.access (uploadClosed cfg inetNum portNum s).fs s.cwd pp.fullp = true ∧
    ¬ permits (s.dirStatCache.entry di).protection dirDel ∧ acc.head? ≠ some 0x4F

theorem mayNotReplace_iff : MayNotReplace cfg pp inetNum portNum acc di s ↔
    Posix.access (uploadClosed cfg inetNum portNum s).fs
        (uploadClosed cfg inetNum portNum s).cwd pp.fullp = true ∧
      ¬ permits ((uploadClosed cfg inetNum portNum s).dirStatCache.entry di).protection dirDel ∧
      acc.head? ≠ some 0x4F := by
  obtain ⟨-, -, hcwd, hcache⟩ :=
    deleteFp_ok (s.fpCache.fCacheFind (uploadName cfg inetNum portNum)) s
  have hcwd' : (uploadClosed cfg inetNum portNum s).cwd = s.cwd := hcwd
  have hcache' : (uploadClosed cfg inetNum portNum s).dirStatCache = s.dirStatCache := hcache
  rw [hcwd', hcache']
  exact Iff.rfl

/-- The file is not replaced. -/
theorem serverInstall_refused (s2 : ByteString) (hdot : pp.fullp ≠ [dot])
    (h : MayNotReplace cfg pp inetNum portNum acc di s) :
    ∃ err s', serverInstall cfg pp inetNum portNum acc di s2 s = .ok (some err) s' := by
  obtain ⟨hdelete, -⟩ :=
    deleteFp_ok (s.fpCache.fCacheFind (uploadName cfg inetNum portNum)) s
  have hfind : findFp (uploadName cfg inetNum portNum) s =
    .ok (s.fpCache.fCacheFind (uploadName cfg inetNum portNum)) s := rfl
  exact ⟨_, _, (bind_of_ok hfind).trans ((bind_of_ok hdelete).trans ((congrFun (if_neg hdot) _).trans
    ((bind_of_ok rfl).trans ((bind_of_ok rfl).trans
      ((congrFun (if_pos (mayNotReplace_iff.mp h)) _).trans (bind_of_ok (unlink_ok rfl)))))))⟩

/-- The last lines of `server_install`. -/
def stampInstalled (pp : PPath) (s2 : ByteString) (tmp : Option ByteString) :
    Srv BufferedDisk Path (Option ByteString) :=
  match requestedMtime s2 with
  | some modtime => do
      let s ← get
      utime pp.fullp s.curTime modtime
      pure tmp
  | none => pure tmp

theorem stampInstalled_ok (pp : PPath) (s2 : ByteString) (tmp : Option ByteString)
    (s : Server BufferedDisk Path) :
    ∃ s', stampInstalled pp s2 tmp s = .ok tmp s' ∧ s'.cwd = s.cwd ∧ s'.fs.disk = s.fs.disk := by
  unfold stampInstalled
  cases requestedMtime s2 with
  | none => exact ⟨_, rfl, rfl, rfl⟩
  | some modtime => exact ⟨_, rfl, rfl, rfl⟩

/-- The upload is copied and deleted, whatever has become of the copy. -/
theorem serverInstall_of_copy (s2 : ByteString) {tmp : Option ByteString}
    {s' : Server BufferedDisk Path} (hdot : pp.fullp ≠ [dot]) (h : ¬ MayNotReplace cfg pp inetNum portNum acc di s)
    (hcopy : copyFile (uploadName cfg inetNum portNum) pp.fullp
      (installStart cfg pp inetNum portNum di s) = .ok tmp s') :
    ∃ s'', serverInstall cfg pp inetNum portNum acc di s2 s = .ok tmp s'' ∧ s''.cwd = s'.cwd ∧
      s''.fs.disk = (s'.fs.unlink s'.cwd (uploadName cfg inetNum portNum)).2.disk := by
  obtain ⟨hdelete, -⟩ :=
    deleteFp_ok (s.fpCache.fCacheFind (uploadName cfg inetNum portNum)) s
  have hfind : findFp (uploadName cfg inetNum portNum) s =
    .ok (s.fpCache.fCacheFind (uploadName cfg inetNum portNum)) s := rfl
  have htouch : touchDirInfo di (uploadClosed cfg inetNum portNum s) =
    .ok () (final (touchDirInfo di (uploadClosed cfg inetNum portNum s))) := rfl
  obtain ⟨s'', hlast, hcwd, hdisk⟩ := stampInstalled_ok pp s2 tmp
    (s'.unlinked (uploadName cfg inetNum portNum))
  refine ⟨s'', ?_, hcwd, hdisk⟩
  exact (bind_of_ok hfind).trans ((bind_of_ok hdelete).trans ((congrFun (if_neg hdot) _).trans
    ((bind_of_ok rfl).trans ((bind_of_ok rfl).trans
      ((congrFun (if_neg (mt mayNotReplace_iff.mpr h)) _).trans
        ((bind_of_ok htouch).trans ((bind_of_ok (unlink_ok rfl)).trans
          ((bind_of_ok hcopy).trans ((bind_of_ok (unlink_ok rfl)).trans hlast)))))))))

/-- An install that is reported good leaves all bytes of the upload in the file if and only if its copy
holds, or it was not allowed. -/
theorem serverInstall_complete_iff {raw : ByteString} (hpp : parsePath raw = .ok pp)
    (hdot : pp.fullp ≠ [dot]) :
    (∀ s', serverInstall cfg pp inetNum portNum acc di s2 s = .ok none s' →
        Posix.readFile s'.fs s'.cwd pp.fullp =
          Posix.readFile (uploadClosed cfg inetNum portNum s).fs s.cwd
            (uploadName cfg inetNum portNum)) ↔
      MayNotReplace cfg pp inetNum portNum acc di s ∨
        CopyHolds (installStart cfg pp inetNum portNum di s).fs s.cwd
          (uploadName cfg inetNum portNum) pp.fullp := by
  have happart := resolve_tempName_ne hpp hdot cfg (by decide : slash ≠ 0x54) inetNum portNum s.cwd
  by_cases hmay : MayNotReplace cfg pp inetNum portNum acc di s
  · obtain ⟨err, s', hrun⟩ := serverInstall_refused s2 hdot hmay
    rw [hrun]
    exact iff_of_true (fun _ h => by cases h) (Or.inl hmay)
  · obtain ⟨-, -, hcwd, -⟩ := deleteFp_ok (s.fpCache.fCacheFind (uploadName cfg inetNum portNum)) s
    have hstart : (installStart cfg pp inetNum portNum di s).cwd = s.cwd := hcwd
    have hsource : Posix.readFile (installStart cfg pp inetNum portNum di s).fs s.cwd
        (uploadName cfg inetNum portNum) =
        Posix.readFile (uploadClosed cfg inetNum portNum s).fs s.cwd
          (uploadName cfg inetNum portNum) := by
      refine BufferedDisk.readFile_congr (BufferedDisk.node_unlink_of_ne _ ?_)
      have hcwd' : (final (touchDirInfo di (uploadClosed cfg inetNum portNum s))).cwd = s.cwd := hcwd
      rw [hcwd']
      exact happart.symm
    rw [or_iff_right hmay, ← hsource, ← hstart]
    by_cases h : Uninterrupted (installStart cfg pp inetNum portNum di s).fs
        (installStart cfg pp inetNum portNum di s).cwd (uploadName cfg inetNum portNum) pp.fullp
    · obtain ⟨s', hcopy, hcwd', hholds, -⟩ := copyFile_good h
      obtain ⟨s'', hrun, hcwd'', hdisk⟩ := serverInstall_of_copy s2 hdot hmay hcopy
      have hcopied : Posix.readFile s''.fs s''.cwd pp.fullp = Posix.readFile s'.fs
          (installStart cfg pp inetNum portNum di s).cwd pp.fullp := by
        rw [hcwd'', hcwd', hstart]
        refine BufferedDisk.readFile_congr ?_
        rw [hdisk, hcwd', hstart]
        exact s'.fs.node_unlink_of_ne happart
      rw [← hholds, hrun]
      constructor
      · intro hall
        exact hcopied ▸ hall s'' rfl
      · rintro heq _ ⟨⟩
        exact hcopied ▸ heq
    · obtain ⟨err, s', hcopy⟩ := copyFile_of_interrupted h
      obtain ⟨s'', hrun, -⟩ := serverInstall_of_copy s2 hdot hmay hcopy
      rw [hrun]
      exact iff_of_true (fun _ h => by cases h) fun huninterrupted => absurd huninterrupted h

end Callers

/-! ## All copies -/

/-- A copy that is reported good is complete, and the copies for which the server then deletes the
original are, if and only if closing the destination puts all bytes into the file, or a call before it
fails. -/
theorem copies_complete_iff (s : Server BufferedDisk Path) :
    (∀ n1 n2, (∀ s', copyFile n1 n2 s = .ok none s' →
        Posix.readFile s'.fs s'.cwd n2 = Posix.readFile s.fs s.cwd n1) ↔
      CopyHolds s.fs s.cwd n1 n2) ∧
    (∀ cfg raw pp inetNum portNum acc di s2, parsePath raw = .ok pp → pp.fullp ≠ [dot] →
      ((∀ s', serverInstall cfg pp inetNum portNum acc di s2 s = .ok none s' →
          Posix.readFile s'.fs s'.cwd pp.fullp =
            Posix.readFile (uploadClosed cfg inetNum portNum s).fs s.cwd
              (uploadName cfg inetNum portNum)) ↔
        MayNotReplace cfg pp inetNum portNum acc di s ∨
          CopyHolds (installStart cfg pp inetNum portNum di s).fs s.cwd
            (uploadName cfg inetNum portNum) pp.fullp)) ∧
    (∀ cfg raw pp inetNum portNum di content, parsePath raw = .ok pp →
      s.fs.disk.isDir s.cwd = true → Posix.readFile s.fs s.cwd pp.fullp = some content →
      ((∀ s', serverSecureFile cfg pp inetNum portNum di s = .ok none s' →
          Posix.readFile s'.fs s'.cwd (grabName cfg inetNum portNum) = some content) ↔
        CopyHolds (s.fs.unlink s.cwd (grabName cfg inetNum portNum)).2 s.cwd pp.fullp
            (grabName cfg inetNum portNum) ∨
          (s.fs.plan (s.fs.calls + 5 + copyCalls content.length)).fails = true)) :=
  ⟨copyFile_complete_iff s,
    fun _ _ _ _ _ _ _ _ hpp hdot => serverInstall_complete_iff hpp hdot,
    fun _ _ _ _ _ _ _ hpp hcwd hsource => serverSecureFile_complete_iff hpp hcwd hsource⟩

/-- A server whose call number `n` fails, on a disk that has nothing of a stream before it is closed. -/
def lossyStart (n : ℕ) : Server BufferedDisk Path :=
  initServer Scenario.config
    { disk := Scenario.disk [("h/a", .file (text "xy"))]
      image := fun _ => none
      failed := fun _ => false
      calls := 0
      plan := fun i => ⟨i == n, 0, 0⟩ } [text "h"] 0

/-- The path of the file. -/
def lossyPath : PPath := ⟨text "a", text "a", 1, text ".", 1, none⟩

def reportedGood :
    EStateM.Result Halt (Server BufferedDisk Path) (Option ByteString) → Bool
  | .ok none _ => true
  | _ => false

theorem eq_ok_of_reportedGood
    {r : EStateM.Result Halt (Server BufferedDisk Path) (Option ByteString)}
    (h : reportedGood r = true) : r = .ok none (final r) := by
  unfold reportedGood at h
  split at h
  · rfl
  · cases h

/-- The closing of the destination fails: the copy is empty and reported good, and a grab deletes the
original. -/
theorem copy_incomplete :
    (∃ s', copyFile (text "a") (text "b") (lossyStart 6) = .ok none s' ∧
      Posix.readFile (lossyStart 6).fs (lossyStart 6).cwd (text "a") = some (text "xy") ∧
      Posix.readFile s'.fs s'.cwd (text "b") = some []) ∧
    ∃ s', serverSecureFile Scenario.config lossyPath 0x0100007F 0x1234 0 (lossyStart 7) =
        .ok none s' ∧
      Posix.readFile s'.fs s'.cwd (text "a") = none ∧
      Posix.readFile s'.fs s'.cwd (grabName Scenario.config 0x0100007F 0x1234) = some [] := by
  constructor
  · exact ⟨_, eq_ok_of_reportedGood (by decide +kernel), by decide +kernel, by decide +kernel⟩
  · exact ⟨_, eq_ok_of_reportedGood (by decide +kernel), by decide +kernel, by decide +kernel⟩

end Fsp
