import Fsp.Client.PasswordSuffix
import Fsp.Client.Requests

/-!
# Where `util_stat` looks

Without `CC_STAT`, `util_stat` looks for an object in a listing: in that of the directory its path is
cut at, or, for the current directory, in that of the object itself, where it looks for a dot.  What
it asks the server for is what `util_abs_path` makes of the directory, twice.

A path that `util_abs_path` has made is a tidy text behind a slash or two, and perhaps the password.
-/

namespace Fsp

open Bytes

/-- The directory in whose listing `util_stat` looks for an object, and the name it looks for. -/
def searchedAt (env : ClientEnv) (path : ByteString) : ByteString × ByteString :=
  let fpath := utilAbsPath env path
  if fpath = env.envDir then (fpath, [dot]) else utilSplitPath fpath

/-- The path in the requests for a listing that `util_opendir` makes. -/
def listedPath (env : ClientEnv) (ppath : ByteString) : ByteString :=
  utilAbsPath env (utilAbsPath env ppath)

/-! ## Tidy texts -/

/-- A text of names with slashes between them. -/
def Tidy (t : ByteString) : Prop :=
  t = [] ∨ ∀ n ∈ t.splitOn slash, n ≠ [] ∧ n ≠ [dot] ∧ n ≠ dots

/-- The path is the text `t` behind a slash, or behind two. -/
def SpelledBy (t path : ByteString) : Prop := path = slash :: t ∨ path = slash :: slash :: t

/-- What `util_abs_path` looks at of an absolute path. -/
def ClientEnv.kept (env : ClientEnv) (path : ByteString) : ByteString :=
  if env.envPasswd = [] then path else path.takeWhile (· != newline)

section

variable {env : ClientEnv} {t path : ByteString}

theorem SpelledBy.head? (h : SpelledBy t path) : path.head? = some slash := by
  rcases h with rfl | rfl <;> rfl

theorem Tidy.head? (h : Tidy t) : t.head? ≠ some slash := by
  intro hslash
  obtain ⟨rest, rfl⟩ : ∃ rest, t = slash :: rest := by
    cases t with
    | nil => cases hslash
    | cons c rest => exact ⟨rest, by rw [Option.some.inj hslash]⟩
  rcases h with h | h
  · cases h
  · rw [splitOn_cons_slash] at h
    exact (h [] List.mem_cons_self).1 rfl

/-- What stands before a slash in a tidy text is tidy, and so is what follows. -/
theorem Tidy.split {before rest : ByteString} (h : Tidy (before ++ slash :: rest)) :
    Tidy before ∧ before ≠ [] ∧ Tidy rest ∧ rest ≠ [] := by
  have hnames := h.resolve_left (by simp)
  rw [List.splitOn_append_cons_self] at hnames
  have hbefore : ∀ n ∈ before.splitOn slash, n ≠ [] ∧ n ≠ [dot] ∧ n ≠ dots :=
    fun n hn => hnames n (List.mem_append_left _ hn)
  have hrest : ∀ n ∈ rest.splitOn slash, n ≠ [] ∧ n ≠ [dot] ∧ n ≠ dots :=
    fun n hn => hnames n (List.mem_append_right _ hn)
  refine ⟨Or.inr hbefore, ?_, Or.inr hrest, ?_⟩
  · rintro rfl
    exact (hbefore [] List.mem_cons_self).1 rfl
  · rintro rfl
    exact (hrest [] List.mem_cons_self).1 rfl

/-- There are no two slashes in a row. -/
theorem Tidy.not_doubled (h : Tidy t) (before rest : ByteString) :
    t ≠ before ++ slash :: slash :: rest := by
  rintro rfl
  exact h.split.2.2.1.head? rfl

/-- The loop of `util_abs_path` leaves a tidy text. -/
theorem tidy_resolved (p : ByteString) : ∃ t, Tidy t ∧ SpelledBy t (resolved p) := by
  have hnames : ∀ n ∈ (pathLevels [] (p.splitOn slash)).reverse,
      slash ∉ n ∧ n ≠ [] ∧ n ≠ [dot] ∧ n ≠ dots := fun n hn => mem_pathLevels (List.mem_reverse.mp hn)
  refine ⟨[slash].intercalate (pathLevels [] (p.splitOn slash)).reverse, ?_, ?_⟩
  · by_cases hnil : (pathLevels [] (p.splitOn slash)).reverse = []
    · rw [hnil]
      exact Or.inl rfl
    · rw [Tidy, List.splitOn_intercalate slash (fun n hn => (hnames n hn).1) hnil]
      exact Or.inr fun n hn => (hnames n hn).2
  · rcases resolved_eq p with ⟨-, hp⟩ | ⟨-, hp⟩
    · exact Or.inr hp
    · exact Or.inl hp

/-- The loop of `util_abs_path` takes a tidy text as it is. -/
theorem resolved_spelled (htidy : Tidy t) (h : SpelledBy t path) : resolved path = slash :: t := by
  have hone : resolved (slash :: t) = slash :: t := by
    rw [resolved, splitOn_cons_slash, ofPath_nil_cons]
    rcases htidy with rfl | hnames
    · rfl
    · rw [Walk.ofPath, foldl_step_names hnames, List.append_nil]
      have hpath := ((Walk.clean (t.splitOn slash).reverse).path_eq.resolve_left fun h => h.1).2
      rw [hpath]
      show slash :: [slash].intercalate (t.splitOn slash).reverse.reverse = slash :: t
      rw [List.reverse_reverse, List.intercalate_splitOn]
  rcases h with rfl | rfl
  · exact hone
  · rw [resolved_slash_cons, hone]

theorem not_endsAtSlash_spelled (htidy : Tidy t) (h : SpelledBy t path) : ¬ EndsAtSlash path := by
  have hone : ¬ EndsAtSlash (slash :: t) := by
    rw [← resolved_spelled htidy (Or.inl rfl)]
    exact not_endsAtSlash_resolved _
  rcases h with rfl | rfl
  · exact hone
  · rw [endsAtSlash_slash_cons]
    exact hone

/-- What `util_abs_path` makes of a tidy path. -/
theorem utilAbsPath_spelled (htidy : Tidy t) (h : SpelledBy t (env.kept path)) :
    utilAbsPath env path = slash :: t ++ env.passwordSuffix := by
  unfold ClientEnv.kept at h
  by_cases hpasswd : env.envPasswd = []
  · rw [if_pos hpasswd] at h
    have hnamed : namedPath env.envDir path = path := if_pos h.head?
    have hsuffix : env.passwordSuffix = [] := if_pos hpasswd
    rw [utilAbsPath_eq_resolved hpasswd, hnamed, resolved_spelled htidy h, hsuffix, List.append_nil]
  · rw [if_neg hpasswd] at h
    have hhead : path.head? = some slash := by
      have hprefix := List.takeWhile_prefix (· != newline) (l := path)
      obtain ⟨rest, hrest⟩ := hprefix
      rw [← hrest, List.head?_append, h.head?]
      rfl
    have hnamed : namedPath env.envDir path = path := if_pos hhead
    have hsuffix : env.passwordSuffix = newline :: env.envPasswd := if_neg hpasswd
    have habs := utilAbsPath_of_password hpasswd path
    simp only [hnamed] at habs
    rw [habs, resolved_spelled htidy h, if_neg (not_endsAtSlash_spelled htidy h), hsuffix]

theorem newline_notMem_kept (h : env.envPasswd ≠ []) (path : ByteString) :
    newline ∉ env.kept path := by
  unfold ClientEnv.kept
  rw [if_neg h]
  intro hmem
  simpa using List.mem_takeWhile_imp hmem

/-- The suffix is not looked at. -/
theorem kept_append_suffix (h : env.envPasswd ≠ [] → newline ∉ path) :
    env.kept (path ++ env.passwordSuffix) = path ∧ env.kept path = path := by
  unfold ClientEnv.kept ClientEnv.passwordSuffix
  by_cases hpasswd : env.envPasswd = []
  · rw [if_pos hpasswd, if_pos hpasswd, if_pos hpasswd, List.append_nil]
    exact ⟨rfl, rfl⟩
  · rw [if_neg hpasswd, if_neg hpasswd, if_neg hpasswd]
    exact ⟨takeWhile_append_newline (h hpasswd) _, takeWhile_of_notMem (h hpasswd)⟩

/-- A path that `util_abs_path` has made. -/
theorem exists_spelled_utilAbsPath (env : ClientEnv) (path : ByteString) :
    ∃ t x, Tidy t ∧ SpelledBy t x ∧ (env.envPasswd ≠ [] → newline ∉ x) ∧
      (utilAbsPath env path = x ∨ utilAbsPath env path = x ++ env.passwordSuffix) := by
  by_cases hpasswd : env.envPasswd = []
  · obtain ⟨t, htidy, hspelled⟩ := tidy_resolved (namedPath env.envDir path)
    exact ⟨t, _, htidy, hspelled, fun h => absurd hpasswd h,
      Or.inl (utilAbsPath_eq_resolved hpasswd path)⟩
  · have habs := utilAbsPath_of_password hpasswd path
    simp only at habs
    have hcut : newline ∉ (namedPath env.envDir path).takeWhile (· != newline) := by
      intro hmem
      simpa using List.mem_takeWhile_imp hmem
    obtain ⟨t, htidy, hspelled⟩ :=
      tidy_resolved ((namedPath env.envDir path).takeWhile (· != newline))
    refine ⟨t, _, htidy, hspelled, fun _ => newline_notMem_resolved hcut, ?_⟩
    have hsuffix : env.passwordSuffix = newline :: env.envPasswd := if_neg hpasswd
    rw [habs, hsuffix]
    split_ifs
    · exact Or.inl (List.append_nil _)
    · exact Or.inr rfl

/-- The path in the requests for the listing of a tidy directory. -/
theorem listedPath_spelled (htidy : Tidy t) (h : SpelledBy t (env.kept path)) :
    listedPath env path = slash :: t ++ env.passwordSuffix := by
  have hnewline : env.envPasswd ≠ [] → newline ∉ slash :: t := by
    intro hpasswd hmem
    have hkept := newline_notMem_kept hpasswd path
    rcases h with h | h
    · rw [h] at hkept
      exact hkept hmem
    · rw [h] at hkept
      exact hkept (List.mem_cons_of_mem _ hmem)
  rw [listedPath, utilAbsPath_spelled htidy h]
  apply utilAbsPath_spelled htidy
  rw [(kept_append_suffix hnewline).1]
  exact Or.inl rfl

/-- The directory part of a path that spells a tidy text, and the name. -/
theorem split_spelled (h : SpelledBy t path) :
    ∃ t', SpelledBy t' (utilSplitPath path).1 ∧
      (slash ∉ t ∧ t' = [] ∧ (utilSplitPath path).2 = orDot t ∨
        ∃ name, t = t' ++ slash :: name ∧ slash ∉ name ∧ (utilSplitPath path).2 = orDot name) := by
  have hsnd : ∀ u, (utilSplitPath (slash :: u)).2 = orDot (afterLast slash u) := fun _ => rfl
  rcases h with rfl | rfl
  · rw [hsnd]
    rcases fst_utilSplitPath t with ⟨hdir, hslash⟩ | ⟨before, name, hdir, ht, hname⟩
    · refine ⟨[], Or.inl hdir, Or.inl ⟨hslash, rfl, ?_⟩⟩
      rw [afterLast_eq_self hslash]
    · refine ⟨before, Or.inl hdir, Or.inr ⟨name, ht, hname, ?_⟩⟩
      rw [ht, afterLast_append_cons hname]
  · rw [hsnd, afterLast_cons_self]
    rcases fst_utilSplitPath (slash :: t) with ⟨-, hslash⟩ | ⟨before, name, hdir, ht, hname⟩
    · exact absurd List.mem_cons_self hslash
    · cases before with
      | nil =>
          obtain rfl : t = name := List.cons_injective ht
          refine ⟨[], Or.inl hdir, Or.inl ⟨hname, rfl, ?_⟩⟩
          rw [afterLast_eq_self hname]
      | cons c before =>
          rw [List.cons_append, List.cons.injEq] at ht
          obtain ⟨rfl, ht⟩ := ht
          refine ⟨before, Or.inr hdir, Or.inr ⟨name, ht, hname, ?_⟩⟩
          rw [ht, afterLast_append_cons hname]

end

/-! ## What the server makes of them -/

section

variable {t u rest path bytes : ByteString} {pp : PPath}

/-- A byte at which the server ends a path. -/
def EndsText (rest : ByteString) : Prop := rest.head? = some 0 ∨ rest.head? = some newline

theorem pathText_append (h : EndsText rest) (u : ByteString) : pathText (u ++ rest) = pathText u := by
  obtain ⟨c, rest, rfl, hc⟩ : ∃ c r, rest = c :: r ∧ (c = 0 ∨ c = newline) := by
    cases rest with
    | nil => rcases h with h | h <;> cases h
    | cons c r => exact ⟨c, r, rfl, h.imp Option.some.inj Option.some.inj⟩
  induction u with
  | nil => exact pathText_of_ends hc rest
  | cons b u ih =>
      by_cases hb : b = 0 ∨ b = newline
      · rw [List.cons_append, pathText_of_ends hb, pathText_of_ends hb]
      · rw [not_or] at hb
        rw [List.cons_append, pathText_cons hb.1 hb.2, pathText_cons hb.1 hb.2, ih]

/-- Nothing is read behind a newline. -/
theorem pathText_append_of_mem (h : newline ∈ u) (rest : ByteString) :
    pathText (u ++ rest) = pathText u := by
  obtain ⟨before, after, rfl⟩ := List.append_of_mem h
  have hends : ∀ after, EndsText (newline :: after) := fun _ => Or.inr rfl
  rw [List.append_assoc, List.cons_append, pathText_append (hends _), pathText_append (hends _)]

theorem pathText_eq_self (hzero : (0 : UInt8) ∉ u) (hnewline : newline ∉ u) : pathText u = u := by
  apply List.takeWhile_eq_self_iff.mpr
  intro c hc
  have hne : c ≠ 0 ∧ c ≠ newline := ⟨fun h => hzero (h ▸ hc), fun h => hnewline (h ▸ hc)⟩
  simp [hne.1, hne.2]

/-- What the server reads of a path, with a slash before it perhaps. -/
theorem pathText_spelled (h : SpelledBy t path) (hrest : EndsText rest) :
    pathText (path.tail ++ rest) = pathText t ∨
      pathText (path.tail ++ rest) = slash :: pathText t := by
  rw [pathText_append hrest]
  rcases h with rfl | rfl
  · exact Or.inl rfl
  · exact Or.inr (pathText_cons (by decide) (by decide) t)

theorem head?_pathText (htidy : Tidy t) : (pathText t).head? ≠ some slash := by
  intro hslash
  obtain ⟨rest, hrest⟩ : pathText t <+: t := List.takeWhile_prefix _
  apply htidy.head?
  rw [← hrest, List.head?_append, hslash]
  rfl

theorem pathSplit_of_parsePath (h : parsePath bytes = .ok pp) : PathSplit bytes pp := by
  have hgrammar := parsePath_grammar bytes
  rw [h] at hgrammar
  exact hgrammar.2.1

/-- The parts of a path that spells a tidy text. -/
theorem parsePath_spelled (htidy : Tidy t) (h : SpelledBy t path) (hrest : EndsText rest)
    (hparse : parsePath (path.tail ++ rest) = .ok pp) :
    pp.fullp = orDot (pathText t) ∧ pp.fPtr = orDot (afterLast slash (pathText t)) ∧
      (directoryPart pp true).work = pp.fullp := by
  have hsplit := pathSplit_of_parsePath hparse
  have hstrip : (pathText t).dropWhile (· == slash) = pathText t := by
    have hhead := head?_pathText htidy
    cases htext : pathText t with
    | nil => rfl
    | cons c text =>
        rw [htext] at hhead
        refine List.dropWhile_cons_of_neg fun hc => hhead ?_
        rw [eq_of_beq hc]
        rfl
  have hfullp : pp.fullp = orDot (pathText t) := by
    rw [hsplit.fullp]
    rcases pathText_spelled h hrest with htext | htext
    · rw [htext, hstrip]
    · rw [htext, List.dropWhile_cons_of_pos (by decide), hstrip]
  refine ⟨hfullp, ?_, ?_⟩
  · rw [hsplit.fPtr]
    rcases pathText_spelled h hrest with htext | htext
    · rw [htext]
    · rw [htext, afterLast_cons_self]
  -- there are no two slashes before the last component
  obtain ⟨p, hpath, -, hfLen, -, hdLen, -⟩ := parsePath_parts hparse
  have hlen := p.length_path
  have hshort : p.slashes ≤ 1 := by
    by_contra hlong
    obtain ⟨n, hn⟩ : ∃ n, p.slashes = n + 2 := ⟨p.slashes - 2, by omega⟩
    have hdoubled : p.path = p.dir ++ slash :: slash :: (List.replicate n slash ++ p.file) := by
      rw [PathParts.path, hn, List.replicate_succ, List.replicate_succ]
      simp
    have hne : p.path ≠ [] := by
      rw [hdoubled]
      simp
    rw [if_neg hne, hfullp] at hpath
    have htext : pathText t = p.path := by
      unfold orDot at hpath
      split_ifs at hpath
      · rw [← hpath] at hlen
        simp only [List.length_singleton] at hlen
        omega
      · exact hpath
    obtain ⟨after, hafter⟩ : pathText t <+: t := List.takeWhile_prefix _
    apply htidy.not_doubled p.dir (List.replicate n slash ++ p.file ++ after)
    rw [← hafter, htext, hdoubled]
    simp
  apply List.take_of_length_le
  show pp.fullp.length ≤ pp.dLen + pp.fLen + 1
  have hdots : ([dot] : ByteString).length = 1 := rfl
  rw [hpath, hfLen, hdLen]
  split_ifs <;> simp_all <;> omega

theorem parentPart_name (h : slash ∉ t) : parentPart (orDot t) = [dot] := by
  have hparts := PathParts.parentPart_path ⟨[], 0, t, h, by simp, by simp⟩
  by_cases hnil : t = []
  · rw [hnil]
    decide
  · rw [orDot, if_neg hnil]
    simpa [PathParts.path] using hparts

/-- The directory of a name in a tidy text. -/
theorem Tidy.parentPart {name : ByteString} (htidy : Tidy (t ++ slash :: name))
    (h : slash ∉ name) : parentPart (orDot (t ++ slash :: name)) = orDot t := by
  have hne := htidy.split.2.1
  have hlast : t.getLast? ≠ some slash := by
    intro hlast
    obtain ⟨before, rfl⟩ := List.getLast?_eq_some_iff.mp hlast
    apply htidy.not_doubled before name
    rw [List.append_assoc]
    rfl
  have hparts := PathParts.parentPart_path ⟨t, 1, name, h, by simp [hne], hlast⟩
  rw [orDot, if_neg (by simp), orDot]
  simpa [PathParts.path] using hparts

/-- Only the home directory is its own directory. -/
theorem parentPart_ne (h : parsePath bytes = .ok pp) (hne : pp.fullp ≠ [dot]) :
    Fsp.parentPart pp.fullp ≠ pp.fullp := by
  obtain ⟨p, hfullp, -⟩ := parsePath_parts h
  have hpath : pp.fullp = p.path := by
    rw [hfullp]
    apply if_neg
    intro hnil
    rw [if_pos hnil] at hfullp
    exact hne hfullp
  rw [hpath] at hne ⊢
  rw [p.parentPart_path]
  split_ifs with hdir
  · exact Ne.symm hne
  · intro heq
    have hlen := congrArg List.length heq
    have hslashes : p.slashes ≠ 0 := fun h => hdir (p.dir_eq_nil.mpr h)
    rw [p.length_path] at hlen
    omega

/-- A path field is accepted if its text has only bytes and components of one that is. -/
theorem exists_parsePath {bytes' : ByteString} (hparse : parsePath bytes = .ok pp)
    (hlast : bytes'.getLast? = some 0) (hbytes : ∀ c ∈ pathText bytes', c ∈ pathText bytes)
    (hcomps : ∀ w ∈ (pathText bytes').splitOn slash, w = [] ∨ w ∈ (pathText bytes).splitOn slash) :
    ∃ pp', parsePath bytes' = .ok pp' := by
  have hgrammar := parsePath_grammar bytes
  rw [hparse] at hgrammar
  have hgrammar' := parsePath_grammar bytes'
  cases hparse' : parsePath bytes' with
  | ok pp' => exact ⟨pp', rfl⟩
  | error e =>
      rw [hparse'] at hgrammar'
      refine absurd ⟨?_, hlast, fun c hc => hgrammar.1.printable c (hbytes c hc), ?_⟩ hgrammar'
      · rw [Nat.one_le_iff_ne_zero, ne_eq, List.length_eq_zero_iff]
        rintro rfl
        cases hlast
      · intro w hw
        rcases hcomps w hw with rfl | hmem
        · exact startsWell_of_empty .slashes [] (by simp)
        · exact hgrammar.1.startsWell w hmem

theorem endsText_suffix (env : ClientEnv) : EndsText (env.passwordSuffix ++ [0]) := by
  unfold ClientEnv.passwordSuffix
  split_ifs
  · exact Or.inl rfl
  · exact Or.inr rfl

/-- The same for a text `t'` of names of `t`: what the server reads is accepted as well. -/
theorem exists_parsePath_listed {env : ClientEnv} {t' ppath : ByteString}
    (h : SpelledBy t path) (hrest : EndsText rest) (hparse : parsePath (path.tail ++ rest) = .ok pp)
    (htidy' : Tidy t') (h' : SpelledBy t' (env.kept ppath))
    (hbytes : ∀ c ∈ pathText t', c ∈ pathText t)
    (hcomps : ∀ w ∈ (pathText t').splitOn slash, w = [] ∨ w ∈ (pathText t).splitOn slash) :
    ∃ pp', parsePath ((listedPath env ppath).tail ++ [0]) = .ok pp' ∧
      (directoryPart pp' true).work = orDot (pathText t') := by
  have hlisted : (listedPath env ppath).tail ++ [0] =
      (slash :: t').tail ++ (env.passwordSuffix ++ [0]) := by
    rw [listedPath_spelled htidy' h', ← List.append_assoc]
    rfl
  have hends := endsText_suffix env
  have htext : pathText ((slash :: t').tail ++ (env.passwordSuffix ++ [0])) = pathText t' :=
    pathText_append hends t'
  obtain ⟨pp', hparse'⟩ : ∃ pp', parsePath ((slash :: t').tail ++ (env.passwordSuffix ++ [0])) =
      .ok pp' := by
    apply exists_parsePath hparse
    · rw [← List.append_assoc, List.getLast?_concat]
    · rw [htext]
      intro c hc
      rcases pathText_spelled h hrest with heq | heq
      · rw [heq]
        exact hbytes c hc
      · rw [heq]
        exact List.mem_cons_of_mem _ (hbytes c hc)
    · rw [htext]
      intro w hw
      rcases pathText_spelled h hrest with heq | heq
      · rw [heq]
        exact hcomps w hw
      · rw [heq, splitOn_cons_slash]
        exact (hcomps w hw).imp_right (List.mem_cons_of_mem _)
  obtain ⟨hfullp, -, hwork⟩ := parsePath_spelled htidy' (Or.inl rfl) hends hparse'
  refine ⟨pp', ?_, by rw [hwork, hfullp]⟩
  rw [hlisted, hparse']

/-- The directory of a path depends on no more of it than its text. -/
theorem work_of_pathText_eq {bytes' : ByteString} {pp' : PPath} (h : parsePath bytes = .ok pp)
    (h' : parsePath bytes' = .ok pp') (htext : pathText bytes' = pathText bytes)
    (wantDirectory : Bool) :
    (directoryPart pp' wantDirectory).work = (directoryPart pp wantDirectory).work := by
  have hsplit := pathSplit_of_parsePath h
  have hsplit' := pathSplit_of_parsePath h'
  have hfullp : pp'.fullp = pp.fullp := by rw [hsplit'.fullp, htext, hsplit.fullp]
  have hfPtr : pp'.fPtr = pp.fPtr := by rw [hsplit'.fPtr, htext, hsplit.fPtr]
  cases wantDirectory with
  | false =>
      show pp'.dPtr.take pp'.dLen = pp.dPtr.take pp.dLen
      rw [hsplit'.dPtr, hsplit.dPtr, hfullp]
  | true =>
      show pp'.fullp.take (pp'.dLen + pp'.fLen + 1) = pp.fullp.take (pp.dLen + pp.fLen + 1)
      rw [hsplit'.dLen, hsplit.dLen, hsplit'.fLen, hsplit.fLen, hfullp, hfPtr]

theorem pathText_cutPassword (bytes : ByteString) : pathText (cutPassword bytes) = pathText bytes := by
  unfold cutPassword
  simp only
  have htext : bytes.takeWhile (fun c => c != 0 && c != newline) = pathText bytes := rfl
  rw [htext]
  cases hrest : bytes.drop (pathText bytes).length with
  | nil => rfl
  | cons c rest =>
      simp only
      split_ifs
      · have hself : pathText (pathText bytes) = pathText bytes := by
          apply List.takeWhile_eq_self_iff.mpr
          intro c hc
          exact (List.mem_takeWhile_imp hc :)
        rw [pathText_append (Or.inl rfl), hself]
      · rfl

theorem newline_notMem_pathText (bytes : ByteString) : newline ∉ pathText bytes := by
  intro hmem
  simpa using List.mem_takeWhile_imp hmem

/-- The last component of a path has no newline. -/
theorem newline_notMem_fPtr (h : parsePath bytes = .ok pp) : newline ∉ pp.fPtr := by
  rw [(pathSplit_of_parsePath h).fPtr]
  unfold orDot
  split_ifs
  · decide
  · intro hmem
    apply newline_notMem_pathText bytes
    have hmem' := List.mem_reverse.mp hmem
    exact List.mem_reverse.mp ((List.takeWhile_prefix _).subset hmem')

/-- The last component of the path of the home directory. -/
theorem fPtr_of_home (h : parsePath bytes = .ok pp) (hhome : pp.fullp = [dot]) : pp.fPtr = [dot] := by
  obtain ⟨p, hfullp, hfPtr, -, -, -, hfile⟩ := parsePath_parts h
  have hlen := p.length_path
  have hpath : p.path = [] := by
    by_contra hne
    rw [hfullp, if_neg hne] at hhome
    rw [hhome, List.length_singleton] at hlen
    have hslashes : p.slashes = 0 := by
      by_contra hslashes
      have hdir := List.length_pos_iff.mpr fun h => hslashes (p.dir_eq_nil.mp h)
      omega
    rw [p.path_of_slashes_eq_zero hslashes] at hhome
    rw [hhome] at hfile
    exact hfile rfl
  rw [hpath, List.length_nil] at hlen
  rw [hfPtr]
  exact if_pos (List.length_eq_zero_iff.mp (by omega))

end

/-! ## What the client looks at -/

section

variable {env : ClientEnv} {path : ByteString} {pp : PPath}

/-- The path of an object in the request for information about it. -/
abbrev statField (env : ClientEnv) (path : ByteString) : ByteString :=
  (utilAbsPath env path).tail ++ [0]

/-- The path of the directory in the requests for its listing. -/
abbrev listField (env : ClientEnv) (path : ByteString) : ByteString :=
  (listedPath env (searchedAt env path).1).tail ++ [0]

/-- `util_stat` looks for the object in the listing of the object itself. -/
def SearchesItself (env : ClientEnv) (path : ByteString) : Prop :=
  utilAbsPath env path = env.envDir ∨
    newline ∈ utilAbsPath env path ∧ (searchedAt env path).2 = [dot]

instance (env : ClientEnv) (path : ByteString) : Decidable (SearchesItself env path) := by
  unfold SearchesItself
  infer_instance

/-- Then it looks for a dot. -/
theorem SearchesItself.cut (h : SearchesItself env path) :
    (searchedAt env path).2 = [dot] ∧ (utilAbsPath env path = env.envDir ∨
      newline ∈ utilAbsPath env path ∧ newline ∉ (searchedAt env path).2) := by
  have hname : (searchedAt env path).2 = [dot] := by
    rcases h with hdir | ⟨-, hname⟩
    · unfold searchedAt
      simp only
      rw [if_pos hdir]
    · exact hname
  refine ⟨hname, h.imp_right fun hnewline => ⟨hnewline.1, ?_⟩⟩
  rw [hname]
  decide

/-- The path in the request for information is one that `util_abs_path` has made. -/
theorem statField_spelled {t x : ByteString} (hx : SpelledBy t x)
    (habs : utilAbsPath env path = x ∨ utilAbsPath env path = x ++ env.passwordSuffix) :
    ∃ rest, EndsText rest ∧ statField env path = x.tail ++ rest := by
  rcases habs with habs | habs
  · exact ⟨[0], Or.inl rfl, by rw [statField, habs]⟩
  · refine ⟨env.passwordSuffix ++ [0], endsText_suffix env, ?_⟩
    have hne : x ≠ [] := by
      rcases hx with rfl | rfl <;> simp
    rw [statField, habs, List.tail_append_of_ne_nil hne, List.append_assoc]

/-- What the server makes of the path is tidy. -/
theorem work_statField (hparse : parsePath (statField env path) = .ok pp) :
    (directoryPart pp true).work = pp.fullp := by
  obtain ⟨t, x, htidy, hx, -, habs⟩ := exists_spelled_utilAbsPath env path
  obtain ⟨rest, hrest, hfield⟩ := statField_spelled hx habs
  rw [hfield] at hparse
  exact (parsePath_spelled htidy hx hrest hparse).2.2

/-- A path with no newline is cut at its last component. -/
theorem searchedAt_plain (hne : utilAbsPath env path ≠ env.envDir)
    (hzero : (0 : UInt8) ∉ utilAbsPath env path) (hnewline : newline ∉ utilAbsPath env path)
    (hparse : parsePath (statField env path) = .ok pp) :
    (searchedAt env path).2 = pp.fPtr ∧ ∃ pp', parsePath (listField env path) = .ok pp' ∧
      (directoryPart pp' true).work = (directoryPart pp false).work := by
  obtain ⟨t, x, htidy, hx, -, habs⟩ := exists_spelled_utilAbsPath env path
  have habs : utilAbsPath env path = x := by
    rcases habs with habs | habs
    · exact habs
    · by_cases hpasswd : env.envPasswd = []
      · rw [habs, show env.passwordSuffix = [] from if_pos hpasswd, List.append_nil]
      · rw [habs, show env.passwordSuffix = newline :: env.envPasswd from if_neg hpasswd] at hnewline
        exact absurd (List.mem_append_right _ List.mem_cons_self) hnewline
  have hsearched : searchedAt env path = utilSplitPath x := by
    unfold searchedAt
    simp only
    rw [if_neg hne, habs]
  unfold statField at hparse
  rw [habs] at hzero hnewline hparse
  have hmem : ∀ {c}, c ∈ t → c ∈ x := by
    intro c hc
    rcases hx with rfl | rfl
    · exact List.mem_cons_of_mem _ hc
    · exact List.mem_cons_of_mem _ (List.mem_cons_of_mem _ hc)
  have htext : ∀ {u : ByteString}, (∀ c ∈ u, c ∈ t) → pathText u = u := fun hu =>
    pathText_eq_self (fun h => hzero (hmem (hu _ h))) fun h => hnewline (hmem (hu _ h))
  have hends : EndsText [0] := Or.inl rfl
  obtain ⟨hfullp, hfPtr, -⟩ := parsePath_spelled htidy hx hends hparse
  rw [htext fun _ h => h] at hfullp hfPtr
  obtain ⟨t', ht', hcases⟩ := split_spelled hx
  have hkept : env.kept (searchedAt env path).1 = (utilSplitPath x).1 := by
    rw [hsearched]
    unfold ClientEnv.kept
    split_ifs
    · rfl
    · apply takeWhile_of_notMem
      have hparent : IsParent (utilSplitPath x).1 x := by
        rcases hx with rfl | rfl
        · exact isParent_utilSplitPath _
        · exact isParent_utilSplitPath _
      exact newline_notMem_of_isParent hparent hnewline
  rw [work_file hparse, hfPtr]
  rcases hcases with ⟨hslash, rfl, hname⟩ | ⟨name, hname, hslash, hsnd⟩
  · refine ⟨by rw [hsearched, hname, afterLast_eq_self hslash], ?_⟩
    obtain ⟨pp', hparse', hwork⟩ := exists_parsePath_listed hx hends hparse (Or.inl rfl)
      (by rw [hkept]; exact ht') (fun c hc => absurd hc List.not_mem_nil)
      fun w hw => Or.inl (List.mem_singleton.mp hw)
    refine ⟨pp', hparse', ?_⟩
    rw [hwork, hfullp, parentPart_name hslash]
    rfl
  · subst hname
    refine ⟨by rw [hsearched, hsnd, afterLast_append_cons hslash], ?_⟩
    have htext' : pathText t' = t' := htext fun c hc => List.mem_append_left _ hc
    obtain ⟨pp', hparse', hwork⟩ := exists_parsePath_listed hx hends hparse htidy.split.1
      (by rw [hkept]; exact ht')
      (fun c hc => by
        rw [htext fun _ h => h]
        rw [htext'] at hc
        exact List.mem_append_left _ hc)
      fun w hw => by
        rw [htext fun _ h => h, List.splitOn_append_cons_self]
        rw [htext'] at hw
        exact Or.inr (List.mem_append_left _ hw)
    refine ⟨pp', hparse', ?_⟩
    rw [hwork, htext', hfullp, htidy.parentPart hslash]

/-- The directory of a path that is cut behind its first newline spells the same text, as far as the
server reads it. -/
theorem split_newline {t x : ByteString} (htidy : Tidy t) (hx : SpelledBy t x)
    (hnewline : env.envPasswd ≠ [] → newline ∉ x)
    (habs : utilAbsPath env path = x ∨ utilAbsPath env path = x ++ env.passwordSuffix)
    (hmem : newline ∈ utilAbsPath env path)
    (hname : newline ∉ (utilSplitPath (utilAbsPath env path)).2) :
    ∃ t', Tidy t' ∧ SpelledBy t' (env.kept (utilSplitPath (utilAbsPath env path)).1) ∧
      pathText t' = pathText t := by
  have horDot : ∀ {u : ByteString}, newline ∈ u → newline ∈ orDot u := by
    intro u hu
    rwa [orDot, if_neg fun h => absurd (h ▸ hu) List.not_mem_nil]
  by_cases hpasswd : env.envPasswd = []
  · have habs : utilAbsPath env path = x := by
      rcases habs with habs | habs
      · exact habs
      · rw [habs, show env.passwordSuffix = [] from if_pos hpasswd, List.append_nil]
    rw [habs] at hmem hname ⊢
    have ht : newline ∈ t := by
      rcases hx with rfl | rfl
      · exact (List.mem_cons.mp hmem).resolve_left (by decide)
      · exact (List.mem_cons.mp ((List.mem_cons.mp hmem).resolve_left (by decide))).resolve_left
          (by decide)
    have hkept : ∀ path, env.kept path = path := fun _ => if_pos hpasswd
    rw [hkept]
    obtain ⟨t', ht', ⟨-, -, hsnd⟩ | ⟨name, rfl, -, hsnd⟩⟩ := split_spelled hx
    · rw [hsnd] at hname
      exact absurd (horDot ht) hname
    · rw [hsnd] at hname
      refine ⟨t', htidy.split.1, ht', ?_⟩
      have hbefore : newline ∈ t' := by
        rcases List.mem_append.mp ht with h | h
        · exact h
        · exact absurd (horDot ((List.mem_cons.mp h).resolve_left (by decide))) hname
      exact (pathText_append_of_mem hbefore _).symm
  · have hx' := hnewline hpasswd
    have habs : utilAbsPath env path = x ++ env.passwordSuffix := by
      rcases habs with habs | habs
      · rw [habs] at hmem
        exact absurd hmem hx'
      · exact habs
    refine ⟨t, htidy, ?_, rfl⟩
    -- the directory keeps the newline, and all that stands before it
    obtain ⟨u, hu⟩ : ∃ u, utilAbsPath env path = slash :: u := by
      rcases hx with rfl | rfl
      · exact ⟨_, habs⟩
      · exact ⟨_, habs⟩
    have hcut : env.kept (utilAbsPath env path) = x := by
      rw [habs]
      exact (kept_append_suffix hnewline).1
    have hsnd : (utilSplitPath (slash :: u)).2 = orDot (afterLast slash u) := rfl
    rw [hu] at hmem hname hcut ⊢
    rw [hsnd] at hname
    have humem : newline ∈ u := (List.mem_cons.mp hmem).resolve_left (by decide)
    rcases fst_utilSplitPath u with ⟨-, hslash⟩ | ⟨before, name, hdir, hsplit, hslash⟩
    · rw [afterLast_eq_self hslash] at hname
      exact absurd (horDot humem) hname
    · rw [hsplit, afterLast_append_cons hslash] at hname
      rw [hsplit] at humem
      have hbefore : newline ∈ before := by
        rcases List.mem_append.mp humem with h | h
        · exact h
        · exact absurd (horDot ((List.mem_cons.mp h).resolve_left (by decide))) hname
      obtain ⟨l, r, rfl, hl⟩ := List.eq_append_cons_of_mem hbefore
      have hhead : newline ∉ slash :: l := by
        rw [List.mem_cons, not_or]
        exact ⟨by decide, hl⟩
      unfold ClientEnv.kept at hcut ⊢
      rw [if_neg hpasswd] at hcut ⊢
      rw [hsplit, List.append_assoc, List.cons_append, ← List.cons_append,
        takeWhile_append_newline hhead] at hcut
      rw [hdir, ← List.cons_append, takeWhile_append_newline hhead, hcut]
      exact hx

/-- A path with a newline before its last component is cut behind the newline, so that the object is
looked for in its own listing. -/
theorem searchedAt_self (hself : utilAbsPath env path = env.envDir ∨
      newline ∈ utilAbsPath env path ∧ newline ∉ (searchedAt env path).2)
    (hparse : parsePath (statField env path) = .ok pp) :
    ∃ pp', parsePath (listField env path) = .ok pp' ∧
      (directoryPart pp' true).work = (directoryPart pp true).work := by
  obtain ⟨t, x, htidy, hx, hnewline, habs⟩ := exists_spelled_utilAbsPath env path
  obtain ⟨rest, hrest, hfield⟩ := statField_spelled hx habs
  rw [hfield] at hparse
  obtain ⟨t', htidy', ht', htext⟩ : ∃ t', Tidy t' ∧
      SpelledBy t' (env.kept (searchedAt env path).1) ∧ pathText t' = pathText t := by
    by_cases henv : utilAbsPath env path = env.envDir
    · have hsearched : (searchedAt env path).1 = utilAbsPath env path := by
        unfold searchedAt
        simp only
        rw [if_pos henv]
      refine ⟨t, htidy, ?_, rfl⟩
      rw [hsearched]
      rcases habs with habs | habs
      · rw [habs, (kept_append_suffix hnewline).2]
        exact hx
      · rw [habs, (kept_append_suffix hnewline).1]
        exact hx
    · obtain ⟨hmem, hname⟩ := hself.resolve_left henv
      have hsearched : searchedAt env path = utilSplitPath (utilAbsPath env path) := by
        unfold searchedAt
        simp only
        rw [if_neg henv]
      rw [hsearched] at hname ⊢
      exact split_newline htidy hx hnewline habs hmem hname
  obtain ⟨hfullp, -, hwork⟩ := parsePath_spelled htidy hx hrest hparse
  obtain ⟨pp', hparse', hwork'⟩ := exists_parsePath_listed hx hrest hparse htidy' ht'
    (fun c hc => by rwa [htext] at hc) fun w hw => Or.inr (by rwa [htext] at hw)
  refine ⟨pp', hparse', ?_⟩
  rw [hwork', htext, hwork, hfullp]

end

end Fsp
