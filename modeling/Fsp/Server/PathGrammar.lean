import Fsp.Server.PathParts

/-!
# The paths that are accepted

`parse_path` is one pass over the bytes of the path field.  What it accepts is said here without
the pass: the field ends with a zero, its text is printable, and no component of the text begins
with a dot or a backslash (`PathGrammar`).  What it returns is said in terms of the text as well
(`PathSplit`), and it follows that an accepted path leads down from the home directory (`Descends`).

The text ends at the first zero or newline.  Where it ends at a newline, a password follows, which
is what stands behind the last newline of the C string.
-/

namespace Fsp

open Bytes

/-! ## The grammar -/

/-- The text of a path field: what precedes its first zero or newline. -/
def pathText (bytes : ByteString) : ByteString :=
  bytes.takeWhile fun c => c != 0 && c != newline

/-- A component that begins with neither a dot nor a backslash. -/
def StartsWell (w : ByteString) : Prop := w.head? ≠ some dot ∧ w.head? ≠ some backslash

/-- The path fields that `parse_path` accepts. -/
structure PathGrammar (bytes : ByteString) : Prop where
  nonempty : 1 ≤ bytes.length
  terminated : bytes.getLast? = some 0
  printable : ∀ c ∈ pathText bytes, 0x20 ≤ c ∧ c ≤ 0x7D
  startsWell : ∀ w ∈ (pathText bytes).splitOn slash, StartsWell w

/-- A dot in place of an empty string. -/
def orDot (l : ByteString) : ByteString := if l = [] then [dot] else l

/-- The parts of an accepted path field. -/
structure PathSplit (bytes : ByteString) (pp : PPath) : Prop where
  fullp : pp.fullp = orDot ((pathText bytes).dropWhile (· == slash))
  fPtr : pp.fPtr = orDot (afterLast slash (pathText bytes))
  fLen : pp.fLen = pp.fPtr.length
  dPtr : pp.dPtr.take pp.dLen = parentPart pp.fullp
  dLen : pp.dLen = (parentPart pp.fullp).length
  passwd : pp.passwd =
    if newline ∈ cstr bytes then some (afterLast newline (cstr bytes)) else none

/-- A path that is not absolute and, unless it is the dot, has no component that begins with a
dot. -/
structure Descends (path : ByteString) : Prop where
  relative : path.head? ≠ some slash
  no_dots : path = [dot] ∨ ∀ w ∈ path.splitOn slash, w.head? ≠ some dot

/-! ## What the pass accepts -/

theorem splitOn_cons_slash (l : ByteString) :
    (slash :: l).splitOn slash = [] :: l.splitOn slash := by
  rw [List.splitOn, List.splitOnP_cons_eq_if_modifyHead, if_pos (by decide)]
  rfl

theorem splitOn_cons_of_ne {c : UInt8} (h : c ≠ slash) (l : ByteString) :
    (c :: l).splitOn slash = (l.splitOn slash).modifyHead (c :: ·) := by
  rw [List.splitOn, List.splitOnP_cons_eq_if_modifyHead, if_neg (by simpa using h)]
  rfl

/-- The components a scan still has to check: in the middle of a component, the rest of it may
begin with any byte. -/
def toCheck (state : ScanState) (ws : List ByteString) : List ByteString :=
  match state with
  | .component => ws.tail
  | .frontSlashes | .slashes => ws

@[simp] theorem toCheck_component (ws : List ByteString) : toCheck .component ws = ws.tail := rfl

@[simp] theorem toCheck_frontSlashes (ws : List ByteString) : toCheck .frontSlashes ws = ws := rfl

@[simp] theorem toCheck_slashes (ws : List ByteString) : toCheck .slashes ws = ws := rfl

/-- One byte: what is left to check holds after it if and only if it holds before. -/
theorem scanByte_startsWell (c : UInt8) (s : ℕ) (v : PathScan) (rest : ByteString) :
    match scanByte c s v with
    | .ok v' => (∀ w ∈ toCheck v.state ((c :: rest).splitOn slash), StartsWell w) ↔
        ∀ w ∈ toCheck v'.state (rest.splitOn slash), StartsWell w
    | .error _ => ¬ ∀ w ∈ toCheck v.state ((c :: rest).splitOn slash), StartsWell w := by
  obtain ⟨w, ws, hws⟩ : ∃ w ws, rest.splitOn slash = w :: ws :=
    List.exists_cons_of_ne_nil (List.splitOnP_ne_nil (· == slash) rest)
  by_cases hdot : c = backslash ∨ c = dot
  · have hc : c ≠ slash := by
      rintro rfl
      revert hdot
      decide
    have hbad : ¬ StartsWell (c :: w) := by
      rintro ⟨h, h'⟩
      rcases hdot with rfl | rfl
      · exact h' rfl
      · exact h rfl
    rw [splitOn_cons_of_ne hc, hws, List.modifyHead_cons]
    rw [scanByte, if_pos hdot]
    cases hstate : v.state with
    | frontSlashes => exact fun h => hbad (h _ List.mem_cons_self)
    | slashes => exact fun h => hbad (h _ List.mem_cons_self)
    | component => simp only [hstate, toCheck_component, List.tail_cons]
  · rw [scanByte, if_neg hdot]
    by_cases hc : c = slash
    · subst hc
      have hnil : StartsWell [] := ⟨by simp, by simp⟩
      rw [if_pos rfl, splitOn_cons_slash]
      cases hstate : v.state with
      | frontSlashes => simp [hnil]
      | slashes => simp [hnil]
      | component => simp
    · have hgood : StartsWell (c :: w) := by
        rw [not_or] at hdot
        exact ⟨by simpa using hdot.2, by simpa using hdot.1⟩
      rw [if_neg hc, splitOn_cons_of_ne hc, hws, List.modifyHead_cons]
      simp only [toCheck_component, List.tail_cons]
      cases v.state with
      | component => rfl
      | frontSlashes => simp [hgood]
      | slashes => simp [hgood]

theorem pathText_of_ends {c : UInt8} (h : c = 0 ∨ c = newline) (rest : ByteString) :
    pathText (c :: rest) = [] := by
  rcases h with rfl | rfl <;> rfl

theorem pathText_cons {c : UInt8} (hzero : c ≠ 0) (hnewline : c ≠ newline) (rest : ByteString) :
    pathText (c :: rest) = c :: pathText rest := by
  rw [pathText, List.takeWhile_cons_of_pos (by simp [hzero, hnewline])]
  rfl

theorem printable_iff (c : UInt8) :
    0x20 ≤ c ∧ c ≤ 0x7D ↔ ¬ (c < 0x20 ∨ 0x80 ≤ c) ∧ ¬ 0x7E ≤ c := by
  revert c
  apply forall_byte
  decide +kernel

theorem startsWell_of_empty (state : ScanState) :
    ∀ w ∈ toCheck state (([] : ByteString).splitOn slash), StartsWell w := by
  intro w hw
  have hnil : w ∈ [([] : ByteString)] := by
    cases state with
    | component => cases hw
    | frontSlashes => exact hw
    | slashes => exact hw
  rw [List.mem_singleton.mp hnil]
  exact ⟨by simp, by simp⟩

/-- The pass succeeds where the text is printable and what is left to check holds. -/
theorem scanPath_ok_iff (bytes : ByteString) (s : ℕ) (v : PathScan) :
    (∃ r, scanPath bytes s v = .ok r) ↔ (∀ c ∈ pathText bytes, 0x20 ≤ c ∧ c ≤ 0x7D) ∧
      ∀ w ∈ toCheck v.state ((pathText bytes).splitOn slash), StartsWell w := by
  induction bytes generalizing s v with
  | nil => exact iff_of_true ⟨_, rfl⟩ ⟨by simp [pathText], startsWell_of_empty _⟩
  | cons c rest ih =>
      by_cases hend : c = 0 ∨ c = newline
      · rw [pathText_of_ends hend]
        refine iff_of_true ?_ ⟨by simp, startsWell_of_empty _⟩
        rw [scanPath]
        split_ifs with hzero hnewline
        · exact ⟨_, rfl⟩
        · exact ⟨_, rfl⟩
        · exact absurd hend (by simp [hzero, hnewline])
        · exact absurd hend (by simp [hzero, hnewline])
        · exact absurd hend (by simp [hzero, hnewline])
      · obtain ⟨hzero, hnewline⟩ := not_or.mp hend
        rw [pathText_cons hzero hnewline, scanPath, if_neg hzero, if_neg hnewline,
          List.forall_mem_cons, printable_iff]
        by_cases hcontrol : c < 0x20 ∨ 0x80 ≤ c
        · simp [hcontrol]
        by_cases hhigh : 0x7E ≤ c
        · simp [hcontrol, hhigh]
        have hbyte := scanByte_startsWell c s v (pathText rest)
        rw [if_neg hcontrol, if_neg hhigh]
        cases hscan : scanByte c s v with
        | error e =>
            rw [hscan] at hbyte
            exact iff_of_false (by simp) fun h => hbyte h.2
        | ok v' =>
            simp only [hscan] at hbyte
            show (∃ r, scanPath rest (s + 1) v' = .ok r) ↔ _
            rw [ih (s + 1) v', hbyte]
            simp [hcontrol, hhigh]

/-! ## Where the pass ends -/

theorem afterLast_cons_self (b : UInt8) (l : ByteString) :
    afterLast b (b :: l) = afterLast b l := by
  unfold afterLast
  rw [List.reverse_cons, List.takeWhile_append]
  split
  · rename_i hlen
    rw [(List.takeWhile_prefix _).eq_of_length hlen]
    simp
  · rfl

theorem afterLast_cons_of_mem {b c : UInt8} {l : ByteString} (h : b ∈ l) :
    afterLast b (c :: l) = afterLast b l := by
  have hlen : (l.reverse.takeWhile (· != b)).length ≠ l.reverse.length := by
    intro hlen
    have hself := (List.takeWhile_prefix (· != b) (l := l.reverse)).eq_of_length hlen
    have := List.takeWhile_eq_self_iff.mp hself b (List.mem_reverse.mpr h)
    simp at this
  unfold afterLast
  rw [List.reverse_cons, List.takeWhile_append, if_neg hlen]

theorem afterLast_eq_self {b : UInt8} {l : ByteString} (h : b ∉ l) : afterLast b l = l := by
  unfold afterLast
  rw [List.takeWhile_eq_self_iff.mpr, List.reverse_reverse]
  intro c hc
  rw [bne_iff_ne]
  rintro rfl
  exact h (List.mem_reverse.mp hc)

theorem afterLast_append_cons {b : UInt8} {l : ByteString} (h : b ∉ l) (before : ByteString) :
    afterLast b (before ++ b :: l) = l := by
  induction before with
  | nil => rw [List.nil_append, afterLast_cons_self, afterLast_eq_self h]
  | cons c before ih =>
      rw [List.cons_append, afterLast_cons_of_mem (by simp), ih]

/-- The pass ends with the text, and the password stands behind the last newline. -/
theorem scanPath_end {bytes : ByteString} {s e : ℕ} {v v' : PathScan} {passwd : Option ByteString}
    (h : scanPath bytes s v = .ok (v', e, passwd)) :
    e = s + (pathText bytes).length ∧ passwd =
      if newline ∈ cstr bytes then some (afterLast newline (cstr bytes)) else none := by
  induction bytes generalizing s v with
  | nil =>
      simp only [scanPath, Except.ok.injEq, Prod.mk.injEq] at h
      obtain ⟨-, rfl, rfl⟩ := h
      exact ⟨rfl, rfl⟩
  | cons c rest ih =>
      rw [scanPath] at h
      by_cases hzero : c = 0
      · rw [if_pos hzero] at h
        simp only [Except.ok.injEq, Prod.mk.injEq] at h
        obtain ⟨-, rfl, rfl⟩ := h
        subst hzero
        exact ⟨rfl, rfl⟩
      have hcstr : cstr (c :: rest) = c :: cstr rest := by
        rw [cstr, List.takeWhile_cons_of_pos (by simpa using hzero)]
        rfl
      rw [if_neg hzero] at h
      by_cases hnewline : c = newline
      · rw [if_pos hnewline] at h
        simp only [Except.ok.injEq, Prod.mk.injEq] at h
        obtain ⟨-, rfl, rfl⟩ := h
        refine ⟨by rw [pathText_of_ends (Or.inr hnewline)]; rfl, ?_⟩
        rw [hcstr, hnewline, if_pos List.mem_cons_self, afterLast_cons_self]
      · rw [if_neg hnewline] at h
        split at h
        · cases h
        · split at h
          · cases h
          · split at h
            · cases h
            · obtain ⟨he, hpasswd⟩ := ih h
              refine ⟨by rw [pathText_cons hzero hnewline, List.length_cons]; omega, ?_⟩
              have hmem : newline ∈ c :: cstr rest ↔ newline ∈ cstr rest := by
                rw [List.mem_cons]
                exact or_iff_right (Ne.symm hnewline)
              rw [hcstr, hpasswd]
              by_cases hrest : newline ∈ cstr rest
              · rw [if_pos hrest, if_pos (hmem.mpr hrest), afterLast_cons_of_mem hrest]
              · rw [if_neg hrest, if_neg (fun h => hrest (hmem.mp h))]

/-! ## Leading slashes -/

/-- The pointer to the path stands behind the leading slashes: at the end as long as there was
nothing else, and at another byte afterwards. -/
def BehindSlashes (read : ByteString) (v : PathScan) : Prop :=
  match v.state with
  | .frontSlashes => v.fullp = read.length
  | .component | .slashes => ∃ c rest, c ≠ slash ∧ read.drop v.fullp = c :: rest

theorem behindSlashes_append {read : ByteString} {v : PathScan} (h : BehindSlashes read v)
    (hstate : v.state ≠ .frontSlashes) (v' : PathScan) (hstate' : v'.state ≠ .frontSlashes)
    (hfullp : v'.fullp = v.fullp) (new : ByteString) : BehindSlashes (read ++ new) v' := by
  obtain ⟨c, rest, hc, hdrop⟩ : ∃ c rest, c ≠ slash ∧ read.drop v.fullp = c :: rest := by
    unfold BehindSlashes at h
    split at h
    · exact absurd ‹_› hstate
    · exact h
    · exact h
  have hlt : v.fullp < read.length := by
    rw [← not_le]
    intro hle
    rw [List.drop_of_length_le hle] at hdrop
    cases hdrop
  have hdrop' : (read ++ new).drop v'.fullp = c :: (rest ++ new) := by
    rw [hfullp, List.drop_append_of_le_length hlt.le, hdrop, List.cons_append]
  unfold BehindSlashes
  split
  · exact absurd ‹_› hstate'
  · exact ⟨c, _, hc, hdrop'⟩
  · exact ⟨c, _, hc, hdrop'⟩

theorem behindSlashes_component {read : ByteString} {v : PathScan} (h : BehindSlashes read v)
    {c : UInt8} (hc : c ≠ slash) :
    BehindSlashes (read ++ [c]) { v with state := .component } := by
  by_cases hstate : v.state = .frontSlashes
  · have hfullp : v.fullp = read.length := by
      rw [BehindSlashes, hstate] at h
      exact h
    exact ⟨c, [], hc, by simp [hfullp]⟩
  · exact behindSlashes_append h hstate { v with state := .component } (by simp) rfl _

theorem behindSlashes_scanByte {read : ByteString} {v v' : PathScan} {c : UInt8}
    (h : BehindSlashes read v) (hv : scanByte c read.length v = .ok v') :
    BehindSlashes (read ++ [c]) v' := by
  unfold scanByte at hv
  split at hv
  · rename_i hdot
    have hc : c ≠ slash := by
      rintro rfl
      revert hdot
      decide
    split at hv
    · cases hv
    · cases hv
    · rename_i hstate
      cases hv
      exact behindSlashes_append h (by simp [hstate]) _ (by simp [hstate]) rfl _
  · split at hv
    · split at hv
      · rename_i hstate
        cases hv
        simp [BehindSlashes, hstate]
      · rename_i hstate
        cases hv
        exact behindSlashes_append h (by simp [hstate])
          { v with fPtr := read.length + 1, dLen := read.length - v.fullp, state := .slashes }
          (by simp) rfl _
      · rename_i hstate
        cases hv
        exact behindSlashes_append h (by simp [hstate]) _ (by simp [hstate]) rfl _
    · rename_i hc
      cases hv
      exact behindSlashes_component h hc

theorem behindSlashes_scanPath {bytes read : ByteString} {v v' : PathScan} {e : ℕ}
    {passwd : Option ByteString} (h : BehindSlashes read v)
    (hv : scanPath bytes read.length v = .ok (v', e, passwd)) :
    BehindSlashes ((read ++ bytes).take e) v' := by
  induction bytes generalizing read v with
  | nil =>
      simp only [scanPath, Except.ok.injEq, Prod.mk.injEq] at hv
      obtain ⟨rfl, rfl, -⟩ := hv
      simpa using h
  | cons c rest ih =>
      have hend : v = v' → read.length = e → BehindSlashes ((read ++ c :: rest).take e) v' := by
        rintro rfl rfl
        simpa using h
      rw [scanPath] at hv
      split at hv
      · simp only [Except.ok.injEq, Prod.mk.injEq] at hv
        exact hend hv.1 hv.2.1
      · split at hv
        · simp only [Except.ok.injEq, Prod.mk.injEq] at hv
          exact hend hv.1 hv.2.1
        · split at hv
          · cases hv
          · split at hv
            · cases hv
            · split at hv
              · cases hv
              · rename_i hbyte
                have hrest := ih (behindSlashes_scanByte h hbyte)
                  (by rw [List.length_append]; exact hv)
                rwa [List.append_assoc] at hrest

/-! ## The parts -/

theorem splitOn_append_slashes (n : ℕ) (path : ByteString) {w : ByteString}
    (h : w ∈ path.splitOn slash) : w ∈ (List.replicate n slash ++ path).splitOn slash := by
  induction n with
  | zero => exact h
  | succ n ih =>
      rw [List.replicate_succ, List.cons_append, splitOn_cons_slash]
      exact List.mem_cons_of_mem _ ih

/-- What stands behind the last slash of a text is the last component. -/
theorem PathParts.afterLast_path (p : PathParts) (n : ℕ) :
    afterLast slash (List.replicate n slash ++ p.path) = p.file := by
  have hslashes : ∀ m, afterLast slash (List.replicate m slash ++ p.file) = p.file := by
    intro m
    cases m with
    | zero => exact afterLast_eq_self p.slash_notMem_file
    | succ m =>
        rw [List.replicate_succ', List.append_assoc, List.singleton_append,
          afterLast_append_cons p.slash_notMem_file]
  cases hn : p.slashes with
  | zero => rw [p.path_of_slashes_eq_zero hn, hslashes]
  | succ m =>
      have hpath : List.replicate n slash ++ p.path =
          (List.replicate n slash ++ p.dir ++ List.replicate m slash) ++ slash :: p.file := by
        rw [PathParts.path, hn, List.replicate_succ']
        simp
      rw [hpath, afterLast_append_cons p.slash_notMem_file]

theorem length_orDot (l : ByteString) : (orDot l).length = if l = [] then 1 else l.length := by
  unfold orDot
  split <;> simp

/-- Without its leading slashes, the text is the path of the parts. -/
theorem BehindSlashes.dropWhile_eq {read : ByteString} {v : PathScan} {p : PathParts}
    (h : BehindSlashes read v) (hp : Scanned read v p) :
    read.dropWhile (· == slash) = p.path := by
  rw [hp.read_eq, List.dropWhile_append_of_pos (by simp)]
  have hdrop : read.drop v.fullp = p.path := by
    rw [hp.read_eq, List.drop_left' (by simp)]
  cases hpath : p.path with
  | nil => rfl
  | cons c rest =>
      rw [hpath] at hdrop
      rw [List.dropWhile_cons_of_neg]
      unfold BehindSlashes at h
      split at h
      · rw [h, List.drop_length] at hdrop
        cases hdrop
      · obtain ⟨c', rest', hc, hdrop'⟩ := h
        rw [hdrop'] at hdrop
        cases hdrop
        simpa using hc
      · obtain ⟨c', rest', hc, hdrop'⟩ := h
        rw [hdrop'] at hdrop
        cases hdrop
        simpa using hc

/-- What a successful pass computes. -/
theorem finishPath_split {bytes : ByteString} {v : PathScan} {e : ℕ} {passwd : Option ByteString}
    (h : scanPath bytes 0 .start = .ok (v, e, passwd)) :
    PathSplit bytes (finishPath bytes v e passwd) ∧
      ((∀ w ∈ (pathText bytes).splitOn slash, StartsWell w) →
        Descends (finishPath bytes v e passwd).fullp) := by
  obtain ⟨he, hpasswd⟩ := scanPath_end h
  have htext : bytes.take e = pathText bytes := by
    rw [he, Nat.zero_add]
    exact (List.prefix_iff_eq_take.mp (List.takeWhile_prefix _)).symm
  obtain ⟨p, hp, hle, -⟩ := scanPath_spec scanned_start h
  have hbehind := behindSlashes_scanPath (show BehindSlashes [] .start from rfl) h
  rw [List.nil_append] at hle
  rw [List.nil_append, htext] at hp hbehind
  have hstripped := hbehind.dropWhile_eq hp
  have hlast : afterLast slash (pathText bytes) = p.file := by
    rw [hp.read_eq, p.afterLast_path]
  rw [finishPath_parts (by rw [htext]; exact hp) hle]
  refine ⟨⟨?_, ?_, ?_, p.take_dir, ?_, hpasswd⟩, fun hwell => ⟨?_, ?_⟩⟩
  · rw [hstripped]
    rfl
  · rw [hlast]
    rfl
  · exact (length_orDot p.file).symm
  · rw [← p.take_dir, List.length_take]
    refine (Nat.min_eq_left ?_).symm
    by_cases hdir : p.dir = []
    · simp [hdir]
    · simp only [if_neg hdir, p.length_path]
      omega
  · show (orDot p.path).head? ≠ some slash
    have hhead := List.head?_dropWhile_not (· == slash) (pathText bytes)
    rw [hstripped] at hhead
    unfold orDot
    split
    · decide
    · intro hslash
      rw [hslash] at hhead
      simp at hhead
  · show orDot p.path = [dot] ∨ ∀ w ∈ (orDot p.path).splitOn slash, w.head? ≠ some dot
    unfold orDot
    split
    · exact Or.inl rfl
    · refine Or.inr fun w hw => (hwell w ?_).1
      rw [hp.read_eq]
      exact splitOn_append_slashes _ _ hw

/-- A path field is accepted if and only if it is in the grammar, and then it is split into its
parts, and leads down from the home directory. -/
theorem parsePath_grammar (bytes : ByteString) :
    match parsePath bytes with
    | .ok pp => PathGrammar bytes ∧ PathSplit bytes pp ∧ Descends pp.fullp
    | .error _ => ¬ PathGrammar bytes := by
  have hscans := scanPath_ok_iff bytes 0 .start
  unfold parsePath
  cases hlast : bytes.getLast? with
  | none =>
      intro hgrammar
      rw [hgrammar.terminated] at hlast
      cases hlast
  | some last =>
      by_cases hzero : last = 0
      · subst hzero
        simp only [ne_eq, not_true_eq_false, if_false]
        cases hscan : scanPath bytes 0 .start with
        | error e =>
            intro hgrammar
            obtain ⟨r, hr⟩ := hscans.mpr ⟨hgrammar.printable, hgrammar.startsWell⟩
            rw [hscan] at hr
            cases hr
        | ok r =>
            obtain ⟨v, e, passwd⟩ := r
            obtain ⟨hprintable, hwell⟩ := hscans.mp ⟨_, hscan⟩
            obtain ⟨hsplit, hdescends⟩ := finishPath_split hscan
            have hlen : 1 ≤ bytes.length := by
              rw [Nat.one_le_iff_ne_zero, ne_eq, List.length_eq_zero_iff]
              rintro rfl
              cases hlast
            exact ⟨⟨hlen, hlast, hprintable, hwell⟩, hsplit, hdescends hwell⟩
      · simp only [ne_eq, hzero, not_false_eq_true, if_true]
        intro hgrammar
        rw [hgrammar.terminated] at hlast
        cases hlast
        exact hzero rfl

/-- A field of the repository's own test, with two newlines. -/
example : parsePath (text "filename\nsymlink\npasswd" ++ [0]) =
    .ok ⟨text "filename", text "filename", 8, [dot], 1, some (text "passwd")⟩ := by
  decide +kernel

end Fsp
