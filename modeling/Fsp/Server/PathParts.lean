import Fsp.Server.File

/-!
# What a parsed path denotes

A path without its leading slashes consists of a directory part, a run of slashes and a last
component (`PathParts`), and the pass of `parse_path` computes just that.  Paths that differ in the
lengths of their runs of slashes denote the same object; `collapse` brings them to one spelling.

`validate_path` does not use the split as it is.  When it wants the whole path as a directory, it
takes as many bytes of it as the directory part, the last component and one slash have, which is
too few when there are more slashes between the two: `collapse_work_iff`.
-/

namespace Fsp

open Bytes

/-! ## Slashes -/

/-- A path with each run of slashes replaced by one. -/
def collapse : ByteString → ByteString
  | [] => []
  | [c] => [c]
  | c :: c' :: rest =>
      if c = slash ∧ c' = slash then collapse (c' :: rest) else c :: collapse (c' :: rest)

/-- The part of a path before its last run of slashes, or a dot. -/
def parentPart (path : ByteString) : ByteString :=
  let dir := ((path.reverse.dropWhile (· != slash)).dropWhile (· == slash)).reverse
  if dir = [] then [dot] else dir

/-- Whether the last component of a path is not empty and stands behind two slashes or more. -/
def DoubledLast (path : ByteString) : Prop :=
  path.getLast? ≠ some slash ∧ [slash, slash] <+: path.reverse.dropWhile (· != slash)

instance (path : ByteString) : Decidable (DoubledLast path) := by
  unfold DoubledLast
  infer_instance

theorem collapse_cons_of_ne {c : UInt8} (h : c ≠ slash) (rest : ByteString) :
    collapse (c :: rest) = c :: collapse rest := by
  cases rest with
  | nil => rfl
  | cons c' rest =>
      rw [collapse, if_neg]
      exact fun hc => h hc.1

theorem collapse_eq_self {path : ByteString} (h : slash ∉ path) : collapse path = path := by
  induction path with
  | nil => rfl
  | cons c rest ih =>
      rw [List.mem_cons, not_or] at h
      rw [collapse_cons_of_ne (Ne.symm h.1), ih h.2]

theorem collapse_slashes {n : ℕ} {rest : ByteString} (h : slash ∉ rest) :
    collapse (List.replicate (n + 1) slash ++ rest) = slash :: rest := by
  induction n with
  | zero =>
      cases rest with
      | nil => rfl
      | cons c rest =>
          have hc : c ≠ slash := fun hc => h (by rw [hc]; exact List.mem_cons_self)
          rw [List.replicate_one, List.singleton_append, collapse, if_neg (fun hs => hc hs.2),
            collapse_eq_self h]
  | succ n ih =>
      rw [List.replicate_succ, List.replicate_succ, List.cons_append, List.cons_append, collapse,
        if_pos ⟨rfl, rfl⟩, ← List.cons_append, ← List.replicate_succ, ih]

/-- Two paths can be collapsed apart where the first does not end with a slash. -/
theorem collapse_append {path rest : ByteString} (h : path.getLast? ≠ some slash) :
    collapse (path ++ rest) = collapse path ++ collapse rest := by
  induction path with
  | nil => rfl
  | cons c path ih =>
      cases path with
      | nil =>
          have hc : c ≠ slash := by simpa using h
          rw [List.singleton_append, collapse_cons_of_ne hc]
          rfl
      | cons c' path =>
          have ih := ih (by rw [List.getLast?_cons_cons] at h; exact h)
          simp only [List.cons_append] at ih ⊢
          rw [collapse, collapse]
          split
          · exact ih
          · rw [ih, List.cons_append]

/-! ## The parts of a path -/

/-- A path without leading slashes, in its parts. -/
structure PathParts where
  dir : ByteString
  slashes : ℕ
  file : ByteString
  slash_notMem_file : slash ∉ file
  dir_eq_nil : dir = [] ↔ slashes = 0
  getLast?_dir : dir.getLast? ≠ some slash

namespace PathParts

/-- The path that has the parts. -/
def path (p : PathParts) : ByteString := p.dir ++ List.replicate p.slashes slash ++ p.file

/-- The empty path. -/
def empty : PathParts := ⟨[], 0, [], by simp, by simp, by simp⟩

theorem length_path (p : PathParts) :
    p.path.length = p.dir.length + p.slashes + p.file.length := by
  simp [path]
  omega

theorem collapse_path (p : PathParts) (h : 0 < p.slashes) :
    collapse p.path = collapse p.dir ++ slash :: p.file := by
  obtain ⟨n, hn⟩ := Nat.exists_eq_succ_of_ne_zero (Nat.pos_iff_ne_zero.mp h)
  unfold path
  rw [List.append_assoc, collapse_append p.getLast?_dir, hn, collapse_slashes p.slash_notMem_file]

theorem path_of_slashes_eq_zero (p : PathParts) (h : p.slashes = 0) : p.path = p.file := by
  rw [path, p.dir_eq_nil.mpr h, h]
  rfl

/-- The last component is what stands behind the last slash. -/
theorem dropWhile_path (p : PathParts) :
    p.path.reverse.dropWhile (· != slash) =
      List.replicate p.slashes slash ++ p.dir.reverse := by
  have hfile : ∀ c ∈ p.file.reverse, (c != slash) = true := by
    intro c hc
    rw [bne_iff_ne]
    rintro rfl
    exact p.slash_notMem_file (List.mem_reverse.mp hc)
  unfold path
  rw [List.reverse_append, List.reverse_append, List.reverse_replicate,
    List.dropWhile_append_of_pos hfile]
  cases hn : p.slashes with
  | zero =>
      rw [p.dir_eq_nil.mpr hn]
      rfl
  | succ n =>
      rw [List.replicate_succ, List.cons_append, List.dropWhile_cons_of_neg (by simp)]

theorem parentPart_path (p : PathParts) :
    parentPart p.path = if p.dir = [] then [dot] else p.dir := by
  have hdir : (List.replicate p.slashes slash ++ p.dir.reverse).dropWhile (· == slash) =
      p.dir.reverse := by
    rw [List.dropWhile_append_of_pos (by simp)]
    cases hrev : p.dir.reverse with
    | nil => rfl
    | cons c rest =>
        have hc : p.dir.getLast? = some c := by
          rw [List.getLast?_eq_head?_reverse, hrev]
          rfl
        rw [List.dropWhile_cons_of_neg]
        rw [beq_iff_eq]
        rintro rfl
        exact p.getLast?_dir hc
  unfold parentPart
  rw [p.dropWhile_path, hdir, List.reverse_reverse]

theorem doubledLast_path (p : PathParts) :
    DoubledLast p.path ↔ p.file ≠ [] ∧ 2 ≤ p.slashes := by
  unfold DoubledLast
  rw [p.dropWhile_path]
  have hlast : p.path.getLast? ≠ some slash ↔ p.file ≠ [] ∨ p.slashes = 0 := by
    unfold path
    cases hrev : p.file.reverse with
    | nil =>
        rw [List.reverse_eq_nil_iff.mp hrev, List.append_nil]
        cases hn : p.slashes with
        | zero =>
            rw [p.dir_eq_nil.mpr hn]
            simp
        | succ n =>
            rw [List.replicate_succ', ← List.append_assoc, List.getLast?_concat]
            simp
    | cons c rest =>
        have hfile : p.file ≠ [] := by
          intro hnil
          rw [hnil] at hrev
          simp at hrev
        have hc : p.file.getLast? = some c := by
          rw [List.getLast?_eq_head?_reverse, hrev]
          rfl
        rw [List.getLast?_append, hc]
        simp only [Option.some_or, ne_eq, Option.some.injEq, hfile, not_false_eq_true, true_or,
          iff_true]
        rintro rfl
        exact p.slash_notMem_file (List.mem_of_getLast? hc)
  rw [hlast]
  constructor
  · rintro ⟨hfile, hprefix⟩
    have hlen := hprefix.length_le
    match hn : p.slashes with
    | 0 =>
        rw [hn, p.dir_eq_nil.mpr hn] at hprefix
        simp at hprefix
    | 1 =>
        rw [hn, List.replicate_one, List.singleton_append, List.prefix_cons_iff] at hprefix
        rcases hprefix with hnil | ⟨t, ht, hpre⟩
        · simp at hnil
        · injection ht with _ ht
          subst ht
          obtain ⟨rest, hrest⟩ := hpre
          have hc : p.dir.getLast? = some slash := by
            rw [List.getLast?_eq_head?_reverse, ← hrest]
            rfl
          exact absurd hc p.getLast?_dir
    | n + 2 => exact ⟨hfile.resolve_right (by omega), by omega⟩
  · rintro ⟨hfile, hslashes⟩
    obtain ⟨n, hn⟩ := Nat.exists_eq_add_of_le hslashes
    refine ⟨Or.inl hfile, ?_⟩
    rw [hn, Nat.add_comm, List.replicate_succ, List.replicate_succ]
    exact ⟨List.replicate n slash ++ p.dir.reverse, rfl⟩

end PathParts

/-! ## What the pass computes -/

/-- After the bytes `read`, the variables of the pass describe the parts of the path so far. -/
structure Scanned (read : ByteString) (v : PathScan) (p : PathParts) : Prop where
  read_eq : read = List.replicate v.fullp slash ++ p.path
  dPtr : v.dPtr = v.fullp
  fPtr : v.fPtr = v.fullp + p.dir.length + p.slashes
  dLen : v.dLen = p.dir.length
  state : match v.state with
    | .frontSlashes => p = .empty
    | .component => p.file ≠ []
    | .slashes => p.file = [] ∧ 0 < p.slashes

theorem scanned_start : Scanned [] .start .empty := ⟨rfl, rfl, rfl, rfl, rfl⟩

theorem Scanned.length {read : ByteString} {v : PathScan} {p : PathParts}
    (h : Scanned read v p) : read.length = v.fullp + p.path.length := by
  rw [h.read_eq, List.length_append, List.length_replicate]

/-- One more byte of the last component. -/
def PathParts.push (p : PathParts) (c : UInt8) (hc : c ≠ slash) : PathParts :=
  { p with
    file := p.file ++ [c]
    slash_notMem_file := by
      rw [List.mem_append, List.mem_singleton, not_or]
      exact ⟨p.slash_notMem_file, Ne.symm hc⟩ }

theorem Scanned.push {read : ByteString} {v : PathScan} {p : PathParts} (h : Scanned read v p)
    {c : UInt8} (hc : c ≠ slash) :
    Scanned (read ++ [c]) { v with state := .component } (p.push c hc) where
  read_eq := by
    rw [h.read_eq, PathParts.path, PathParts.path]
    simp only [PathParts.push, List.append_assoc]
  dPtr := h.dPtr
  fPtr := h.fPtr
  dLen := h.dLen
  state := by simp [PathParts.push]

theorem PathParts.head?_push (p : PathParts) {c : UInt8} (hc : c ≠ slash)
    (hdot : p.file = [] → c ≠ dot) (h : p.file.head? ≠ some dot) :
    (p.push c hc).file.head? ≠ some dot := by
  show (p.file ++ [c]).head? ≠ some dot
  cases hfile : p.file with
  | nil => simpa using hdot hfile
  | cons b file =>
      rw [hfile] at h
      exact h

/-- One byte of the pass.  A dot only gets into a component, and not to its beginning. -/
theorem scanByte_spec {read : ByteString} {v v' : PathScan} {p : PathParts} {c : UInt8}
    (h : Scanned read v p) (hv : scanByte c read.length v = .ok v') :
    ∃ p', Scanned (read ++ [c]) v' p' ∧ (p.file.head? ≠ some dot → p'.file.head? ≠ some dot) := by
  unfold scanByte at hv
  split at hv
  · rename_i hdot
    have hc : c ≠ slash := by
      rintro rfl
      revert hdot
      decide
    split at hv
    · cases hv
    · cases hv
    · rename_i hstate
      injection hv with hv
      subst hv
      have hpush := h.push hc
      have hfile : p.file ≠ [] := by
        have := h.state
        rwa [hstate] at this
      rw [← hstate] at hpush
      exact ⟨_, hpush, p.head?_push hc fun hnil => absurd hnil hfile⟩
  · split at hv
    · rename_i hc
      subst hc
      have hlen := h.length
      have hpath := p.length_path
      split at hv
      · -- one more leading slash
        rename_i hstate
        injection hv with hv
        subst hv
        have hp : p = .empty := by
          have := h.state
          rwa [hstate] at this
        subst hp
        refine ⟨.empty, ⟨?_, rfl, ?_, rfl, ?_⟩, fun _ => by simp [PathParts.empty]⟩
        · rw [hlen, h.read_eq]
          simp [PathParts.empty, PathParts.path, List.replicate_succ']
        · simp [PathParts.empty]
        · rw [hstate]
      · -- the path so far is the new directory part
        rename_i hstate
        injection hv with hv
        subst hv
        have hfile : p.file ≠ [] := by
          have := h.state
          rwa [hstate] at this
        refine ⟨⟨p.path, 1, [], by simp, ?_, ?_⟩, ⟨?_, ?_, ?_, ?_, ?_⟩, fun _ => by simp⟩
        · have : p.path ≠ [] := by simp [PathParts.path, hfile]
          simpa using this
        · rw [PathParts.path, List.getLast?_append]
          obtain ⟨c, hc⟩ := Option.ne_none_iff_exists'.mp
            (fun hnone => hfile (List.getLast?_eq_none_iff.mp hnone))
          rw [hc]
          simp only [Option.some_or, ne_eq, Option.some.injEq]
          rintro rfl
          exact p.slash_notMem_file (List.mem_of_getLast? hc)
        · rw [h.read_eq]
          simp [PathParts.path]
        · exact h.dPtr
        · simp only
          omega
        · simp only
          omega
        · simp
      · -- one more slash behind the directory part
        rename_i hstate
        injection hv with hv
        subst hv
        obtain ⟨hfile, hslashes⟩ : p.file = [] ∧ 0 < p.slashes := by
          have := h.state
          rwa [hstate] at this
        refine ⟨⟨p.dir, p.slashes + 1, [], by simp, ?_, p.getLast?_dir⟩, ⟨?_, ?_, ?_, ?_, ?_⟩,
          fun _ => by simp⟩
        · have hdir : p.dir ≠ [] := fun hnil => by
            have := p.dir_eq_nil.mp hnil
            omega
          simpa using hdir
        · rw [h.read_eq]
          simp [PathParts.path, hfile, List.replicate_succ']
        · exact h.dPtr
        · rw [hfile, List.length_nil] at hpath
          simp only
          omega
        · exact h.dLen
        · rw [hstate]
          simp
    · rename_i hdot hc
      injection hv with hv
      subst hv
      exact ⟨_, h.push hc, p.head?_push hc fun _ hcdot => hdot (Or.inr hcdot)⟩

/-- The whole pass. -/
theorem scanPath_spec {bytes read : ByteString} {v v' : PathScan} {p : PathParts} {e : ℕ}
    {passwd : Option ByteString} (h : Scanned read v p)
    (hv : scanPath bytes read.length v = .ok (v', e, passwd)) :
    ∃ p', Scanned ((read ++ bytes).take e) v' p' ∧ e ≤ (read ++ bytes).length ∧
      (p.file.head? ≠ some dot → p'.file.head? ≠ some dot) := by
  induction bytes generalizing read v p with
  | nil =>
      simp only [scanPath, Except.ok.injEq, Prod.mk.injEq] at hv
      obtain ⟨rfl, rfl, -⟩ := hv
      exact ⟨p, by simpa using h, by simp, fun hp => hp⟩
  | cons c rest ih =>
      have hend : v = v' → read.length = e →
          ∃ p', Scanned ((read ++ c :: rest).take e) v' p' ∧ e ≤ (read ++ c :: rest).length ∧
            (p.file.head? ≠ some dot → p'.file.head? ≠ some dot) := by
        rintro rfl rfl
        exact ⟨p, by simpa using h, by simp, fun hp => hp⟩
      rw [scanPath] at hv
      split at hv
      · simp only [Except.ok.injEq, Prod.mk.injEq] at hv
        exact hend hv.1 hv.2.1
      · split at hv
        · simp only [Except.ok.injEq, Prod.mk.injEq] at hv
          exact hend hv.1 hv.2.1
        · split at hv
          · cases hv
          · split at hv
            · cases hv
            · split at hv
              · cases hv
              · rename_i v'' hbyte
                obtain ⟨p'', h'', hdot''⟩ := scanByte_spec h hbyte
                obtain ⟨p', h', hle, hdot'⟩ := ih h'' (by rw [List.length_append]; exact hv)
                rw [List.append_assoc] at h' hle
                exact ⟨p', h', hle, fun hp => hdot' (hdot'' hp)⟩

/-- The substitutions after the pass, in terms of the parts of the path. -/
theorem finishPath_parts {bytes : ByteString} {v : PathScan} {p : PathParts} {e : ℕ}
    (h : Scanned (bytes.take e) v p) (hle : e ≤ bytes.length) (passwd : Option ByteString) :
    finishPath bytes v e passwd =
      { fullp := if p.path = [] then [dot] else p.path
        fPtr := if p.file = [] then [dot] else p.file
        fLen := if p.file = [] then 1 else p.file.length
        dPtr := if p.dir = [] then [dot] else p.path
        dLen := if p.dir = [] then 1 else p.dir.length
        passwd := passwd } := by
  have hlen := h.length
  rw [List.length_take, Nat.min_eq_left hle] at hlen
  have hpath := p.length_path
  have hfull : strAt bytes v.fullp e = p.path := by
    rw [strAt, h.read_eq, List.drop_left' (by simp)]
  have hfile : strAt bytes v.fPtr e = p.file := by
    rw [strAt, h.read_eq, PathParts.path, ← List.append_assoc, ← List.append_assoc,
      List.drop_left' (by simp [h.fPtr, Nat.add_assoc])]
  have hflen : e - v.fPtr = p.file.length := by
    rw [h.fPtr]
    omega
  simp only [finishPath, hfull, hfile, hflen, h.dPtr, h.dLen, List.length_eq_zero_iff]

/-- What `parse_path` returns, in terms of the parts of the path. -/
theorem parsePath_parts {fullp : ByteString} {pp : PPath} (h : parsePath fullp = .ok pp) :
    ∃ p : PathParts,
      pp.fullp = (if p.path = [] then [dot] else p.path) ∧
      pp.fPtr = (if p.file = [] then [dot] else p.file) ∧
      pp.fLen = (if p.file = [] then 1 else p.file.length) ∧
      pp.dPtr = (if p.dir = [] then [dot] else p.path) ∧
      pp.dLen = (if p.dir = [] then 1 else p.dir.length) ∧ p.file.head? ≠ some dot := by
  unfold parsePath at h
  split at h
  · cases h
  · split at h
    · cases h
    · split at h
      · cases h
      · rename_i v e passwd hscan
        injection h with h
        subst h
        obtain ⟨p, hp, hle, hdot⟩ := scanPath_spec scanned_start hscan
        rw [List.nil_append] at hp hle
        rw [finishPath_parts hp hle]
        exact ⟨p, rfl, rfl, rfl, rfl, rfl, hdot (by simp [PathParts.empty])⟩

theorem PathParts.take_dir (p : PathParts) :
    (if p.dir = [] then [dot] else p.path).take (if p.dir = [] then 1 else p.dir.length) =
      parentPart (if p.path = [] then [dot] else p.path) := by
  by_cases hnil : p.path = []
  · have hdir : p.dir = [] := by
      rw [PathParts.path, List.append_assoc] at hnil
      exact (List.append_eq_nil_iff.mp hnil).1
    rw [if_pos hdir, if_pos hdir, if_pos hnil]
    decide
  · rw [if_neg hnil, p.parentPart_path]
    by_cases hdir : p.dir = []
    · rw [if_pos hdir, if_pos hdir, if_pos hdir]
      rfl
    · rw [if_neg hdir, if_neg hdir, if_neg hdir, PathParts.path, List.append_assoc,
        List.take_left]

theorem work_file {fullp : ByteString} {pp : PPath} (h : parsePath fullp = .ok pp) :
    (directoryPart pp false).work = parentPart pp.fullp := by
  obtain ⟨p, hfullp, -, -, hdPtr, hdLen, -⟩ := parsePath_parts h
  simp only [directoryPart, PPath.work, Bool.false_eq_true, if_false, hdPtr, hdLen, hfullp]
  exact p.take_dir

/-- With a whole path as the directory, the string that is looked up is cut short when more than
one slash precedes the last component. -/
theorem collapse_work_iff {fullp : ByteString} {pp : PPath} (h : parsePath fullp = .ok pp) :
    collapse (directoryPart pp true).work = collapse pp.fullp ↔ ¬ DoubledLast pp.fullp := by
  obtain ⟨p, hfullp, -, hfLen, -, hdLen, -⟩ := parsePath_parts h
  have hlen := p.length_path
  simp only [directoryPart, PPath.work, if_true, hdLen, hfLen]
  by_cases hnil : p.path = []
  · have hparts : p.dir = [] ∧ p.file = [] := by
      rw [PathParts.path, List.append_assoc, List.append_eq_nil_iff,
        List.append_eq_nil_iff] at hnil
      exact ⟨hnil.1, hnil.2.2⟩
    rw [hfullp, if_pos hnil, if_pos hparts.1, if_pos hparts.2]
    decide
  rw [hfullp, if_neg hnil, p.doubledLast_path]
  by_cases hslashes : p.slashes = 0
  · have hdir := p.dir_eq_nil.mpr hslashes
    have hpath := p.path_of_slashes_eq_zero hslashes
    have hfile : p.file ≠ [] := by rw [← hpath]; exact hnil
    rw [if_pos hdir, if_neg hfile, List.take_of_length_le (by rw [hpath]; omega)]
    simp [hslashes]
  have hdir : p.dir ≠ [] := fun hdir => hslashes (p.dir_eq_nil.mp hdir)
  rw [if_neg hdir, p.collapse_path (by omega)]
  by_cases hfile : p.file = []
  · have htake : p.path.take (p.dir.length + 1 + 1) =
        p.dir ++ (List.replicate (min 2 p.slashes) slash ++ []) := by
      rw [PathParts.path, hfile, List.append_nil, Nat.add_assoc, List.take_length_add_append,
        List.take_replicate, List.append_nil]
    obtain ⟨n, hn⟩ := Nat.exists_eq_succ_of_ne_zero (show min 2 p.slashes ≠ 0 by omega)
    rw [if_pos hfile, htake, collapse_append p.getLast?_dir, hn, collapse_slashes (by simp), hfile]
    simp
  · have htake : p.path.take (p.dir.length + p.file.length + 1) =
        p.dir ++ (List.replicate (min (p.file.length + 1) p.slashes) slash ++
          p.file.take (p.file.length + 1 - p.slashes)) := by
      rw [PathParts.path, List.append_assoc, Nat.add_assoc, List.take_length_add_append,
        List.take_append, List.take_replicate, List.length_replicate]
    obtain ⟨n, hn⟩ := Nat.exists_eq_succ_of_ne_zero
      (show min (p.file.length + 1) p.slashes ≠ 0 by omega)
    have hnotMem : slash ∉ p.file.take (p.file.length + 1 - p.slashes) :=
      fun hmem => p.slash_notMem_file (List.mem_of_mem_take hmem)
    have hpos := List.length_pos_iff.mpr hfile
    rw [if_neg hfile, htake, collapse_append p.getLast?_dir, hn, collapse_slashes hnotMem,
      List.append_cancel_left_eq, List.cons.injEq]
    have htakes : p.file.take (p.file.length + 1 - p.slashes) = p.file ↔ p.slashes < 2 := by
      constructor
      · intro heq
        have := congrArg List.length heq
        rw [List.length_take] at this
        omega
      · intro hlt
        exact List.take_of_length_le (by omega)
    simp only [htakes, hfile, ne_eq, not_false_eq_true, true_and]
    omega

/-! ## Temporary files -/

theorem slash_notMem_hexDigits (width n : ℕ) : slash ∉ hexDigits width n := by
  have hdigit : ∀ d, d < 16 → slash ≠ hexDigit d := by decide
  induction width generalizing n with
  | zero => simp [hexDigits]
  | succ width ih =>
      rw [hexDigits, List.mem_append, List.mem_singleton]
      exact not_or.mpr ⟨ih _, hdigit _ (Nat.mod_lt _ (by omega))⟩

end Fsp
