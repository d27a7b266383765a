import Fsp.Client.PathLevels

/-!
# The password after a path

`util_abs_path` appends the password to the path that it returns.  It does not when its loop ends at
a slash, and the current directory of a client with a password is such a path, with the password:
what a relative path adds to it then stands after the newline and is cut off before the loop.
`utilAbsPath_password_iff` says when the client gets the path it asked for, with the password.
-/

namespace Fsp

open Bytes

/-- The loop ends at a slash: the path ends with one, and what comes before it is not the root. -/
def EndsAtSlash (path : ByteString) : Prop :=
  (path.splitOn slash).getLast? = some [] ∧
    (Walk.ofPath (path.splitOn slash).dropLast).before ≠ []

instance decidableEndsAtSlash (path : ByteString) : Decidable (EndsAtSlash path) :=
  inferInstanceAs (Decidable (_ ∧ _))

/-- Where the calls of `util_cd2` lead, and the directory that got the password at the first of them
since the last one with an absolute path. -/
structure Cwd where
  dir : ByteString
  held : Option ByteString

/-- One more call. -/
def Cwd.cd (c : Cwd) (p : ByteString) : Cwd :=
  let path := namedPath c.dir p
  ⟨resolved path,
    if p.head? = some slash ∨ c.held = none then
      if EndsAtSlash path then none else some (resolved path)
    else c.held⟩

/-- The calls of `util_cd2` from a directory on. -/
def cwdAfter (dir : ByteString) (calls : List ByteString) : Cwd := calls.foldl Cwd.cd ⟨dir, none⟩

/-- The path `s2` gets the password: it does not end at a slash or, where the current directory has
the password already and `s2` is relative, the calls since it got it lead back to it with `s2`. -/
def SuffixAttached (c : Cwd) (s2 : ByteString) : Prop :=
  if s2.head? = some slash ∨ c.held = none then ¬ EndsAtSlash (namedPath c.dir s2)
  else resolved (c.held.getD []) = resolved (namedPath c.dir s2)

instance decidableSuffixAttached (c : Cwd) (s2 : ByteString) : Decidable (SuffixAttached c s2) :=
  inferInstanceAs (Decidable (if s2.head? = some slash ∨ c.held = none then _ else _ = _))

/-! ## What the loop leaves -/

theorem splitOn_slash_cons (path : ByteString) :
    ∃ c rest, path.splitOn slash = c :: rest ∧ (slash :: path).splitOn slash = [] :: c :: rest := by
  obtain ⟨c, rest, h⟩ := List.exists_cons_of_ne_nil (List.splitOn_ne_nil slash path)
  exact ⟨c, rest, h, by rw [splitOn_cons_slash, h]⟩

/-- One more slash before a path makes no difference. -/
theorem ofPath_nil_cons (path : List ByteString) : Walk.ofPath ([] :: path) = Walk.ofPath path := by
  rw [Walk.ofPath, List.foldl_cons, Walk.step_empty fun h => by cases h]
  rfl

theorem resolved_slash_cons (path : ByteString) : resolved (slash :: path) = resolved path := by
  rw [resolved, splitOn_cons_slash, ofPath_nil_cons]
  rfl

theorem endsAtSlash_slash_cons (path : ByteString) :
    EndsAtSlash (slash :: path) ↔ EndsAtSlash path := by
  obtain ⟨c, rest, h, hslash⟩ := splitOn_slash_cons path
  rw [EndsAtSlash, EndsAtSlash, h, hslash, List.dropLast_cons_cons, ofPath_nil_cons,
    List.getLast?_cons_cons]

/-- What the loop has left it makes normal the next time. -/
theorem resolved_resolved (path : ByteString) : resolved (resolved path) = normalPath path := by
  rcases resolved_eq path with ⟨-, h⟩ | ⟨-, h⟩
  · rw [h, resolved_slash_cons, resolved_normalPath]
  · rw [h, resolved_normalPath]

theorem not_endsAtSlash_normalPath (path : ByteString) : ¬ EndsAtSlash (normalPath path) := by
  have hnames : ∀ n ∈ pathLevels [] (path.splitOn slash), slash ∉ n ∧ n ≠ [] ∧ n ≠ [dot] ∧
      n ≠ dots := fun _ hn => mem_pathLevels hn
  rw [EndsAtSlash, normalPath, splitOn_joinNames fun n hn => (hnames n hn).1]
  rintro ⟨hlast, hbefore⟩
  split_ifs at hlast hbefore with h
  · exact hbefore rfl
  · obtain ⟨n, names, hcons⟩ := List.exists_cons_of_ne_nil h
    have hn : n ∈ pathLevels [] (path.splitOn slash) := by
      rw [hcons]
      exact List.mem_cons_self
    rw [hcons, List.reverse_cons, ← List.cons_append, List.getLast?_concat] at hlast
    exact (hnames n hn).2.1 (Option.some.inj hlast)

theorem not_endsAtSlash_resolved (path : ByteString) : ¬ EndsAtSlash (resolved path) := by
  rcases resolved_eq path with ⟨-, h⟩ | ⟨-, h⟩
  · rw [h, endsAtSlash_slash_cons]
    exact not_endsAtSlash_normalPath path
  · rw [h]
    exact not_endsAtSlash_normalPath path

theorem newline_notMem_resolved {path : ByteString} (h : newline ∉ path) :
    newline ∉ resolved path := by
  intro hmem
  have hloop : resolved path = (absLoop [] (slash :: path)).path := by
    rw [absLoop_path]
    rfl
  rw [hloop] at hmem
  rcases mem_of_mem_absLoop hmem with hmem | hmem
  · exact absurd hmem List.not_mem_nil
  · rcases List.mem_cons.mp hmem with hmem | hmem
    · exact absurd hmem (by decide)
    · exact h hmem

/-- What `util_abs_path` returns to a client with a password. -/
theorem utilAbsPath_of_password {env : ClientEnv} (h : env.envPasswd ≠ []) (s2 : ByteString) :
    let path := (namedPath env.envDir s2).takeWhile (· != newline)
    utilAbsPath env s2 =
      resolved path ++ if EndsAtSlash path then [] else newline :: env.envPasswd := by
  intro path
  have hraw : rawPath env s2 = slash :: path := by
    have hcut : ∀ l : ByteString, (slash :: l).takeWhile (· != newline) =
        slash :: l.takeWhile (· != newline) := fun l => List.takeWhile_cons_of_pos (by decide)
    unfold rawPath
    simp only [if_neg h]
    by_cases hs2 : s2.head? = some slash
    · have hpath : path = s2.takeWhile (· != newline) := by
        show (namedPath env.envDir s2).takeWhile _ = _
        rw [namedPath, if_pos hs2]
      rw [if_pos hs2, hcut, hpath]
    · have hpath : path = (env.envDir ++ slash :: s2).takeWhile (· != newline) := by
        show (namedPath env.envDir s2).takeWhile _ = _
        rw [namedPath, if_neg hs2]
      rw [if_neg hs2, List.cons_append, hcut, hpath]
  have hends : stopsAtSlash env s2 = true ↔ EndsAtSlash path := by
    rw [stopsAtSlash, hraw, absLoop_path, EndsAtSlash]
    simp only [Walk.endOf, decide_eq_true_eq]
    rfl
  have hcanonical : canonicalPath env s2 = resolved path := by
    rw [canonicalPath, hraw, absLoop_path]
    rfl
  have hsuffix : env.passwordSuffix = newline :: env.envPasswd := if_neg h
  rw [utilAbsPath, hcanonical, hsuffix]
  by_cases hpath : EndsAtSlash path
  · rw [if_pos (hends.mpr hpath), if_pos hpath, List.append_nil]
  · rw [if_neg fun h => hpath (hends.mp h), if_neg hpath]

/-! ## The current directory with a password and without -/

/-- The current directory of a client with a password, after calls that lead to `c`. -/
def Tracks (passwd : ByteString) (c : Cwd) (envDir : ByteString) : Prop :=
  newline ∉ c.dir ∧
    match c.held with
    | none => envDir = c.dir
    | some held => ∃ path, newline ∉ resolved path ∧ resolved (resolved path) = resolved held ∧
        envDir = resolved path ++ newline :: passwd

/-- What follows a newline is cut off. -/
theorem takeWhile_append_newline {l : ByteString} (h : newline ∉ l) (rest : ByteString) :
    (l ++ newline :: rest).takeWhile (· != newline) = l := by
  have hl : ∀ b ∈ l, (b != newline) = true :=
    fun _ hb => bne_iff_ne.mpr fun heq => h (heq ▸ hb)
  rw [List.takeWhile_append_of_pos hl, List.takeWhile_cons_of_neg (by simp), List.append_nil]

theorem takeWhile_of_notMem {l : ByteString} (h : newline ∉ l) :
    l.takeWhile (· != newline) = l :=
  List.takeWhile_eq_self_iff.mpr fun _ hb => bne_iff_ne.mpr fun heq => h (heq ▸ hb)

theorem newline_notMem_namedPath {dir s2 : ByteString} (hdir : newline ∉ dir)
    (hs2 : newline ∉ s2) : newline ∉ namedPath dir s2 := by
  rw [namedPath]
  split_ifs
  · exact hs2
  · rw [List.mem_append, List.mem_cons, not_or, not_or]
    exact ⟨hdir, by decide, hs2⟩

section Calls

variable {env : ClientEnv} {c : Cwd} {s2 : ByteString}

/-- The path is absolute or the current directory has no password. -/
theorem Tracks.utilAbsPath_fresh (hpasswd : env.envPasswd ≠ [])
    (h : Tracks env.envPasswd c env.envDir) (hs2 : newline ∉ s2)
    (hfresh : s2.head? = some slash ∨ c.held = none) :
    utilAbsPath env s2 = resolved (namedPath c.dir s2) ++
      if EndsAtSlash (namedPath c.dir s2) then [] else newline :: env.envPasswd := by
  have hnamed : namedPath env.envDir s2 = namedPath c.dir s2 := by
    rcases hfresh with hslash | hheld
    · rw [namedPath, namedPath, if_pos hslash, if_pos hslash]
    · have henv := h.2
      rw [hheld] at henv
      rw [henv]
  rw [utilAbsPath_of_password hpasswd, hnamed,
    takeWhile_of_notMem (newline_notMem_namedPath h.1 hs2)]

/-- The path is relative to a directory that has the password: it is cut off. -/
theorem Tracks.utilAbsPath_held (hpasswd : env.envPasswd ≠ [])
    (h : Tracks env.envPasswd c env.envDir) (hrelative : s2.head? ≠ some slash)
    {held : ByteString} (hheld : c.held = some held) :
    utilAbsPath env s2 = resolved held ++ newline :: env.envPasswd := by
  have henv := h.2
  rw [hheld] at henv
  obtain ⟨path, hnewline, hsame, henv⟩ := henv
  have hcut : (namedPath env.envDir s2).takeWhile (· != newline) = resolved path := by
    rw [namedPath, if_neg hrelative, henv, List.append_assoc, List.cons_append]
    exact takeWhile_append_newline hnewline _
  rw [utilAbsPath_of_password hpasswd, hcut, if_neg (not_endsAtSlash_resolved path), hsame]

/-- One call of `util_cd2`. -/
theorem Tracks.cd (hpasswd : env.envPasswd ≠ []) (h : Tracks env.envPasswd c env.envDir)
    {p : ByteString} (hp : newline ∉ p) :
    Tracks env.envPasswd (c.cd p) (utilCd2 env p).envDir := by
  have hdir : newline ∉ resolved (namedPath c.dir p) :=
    newline_notMem_resolved (newline_notMem_namedPath h.1 hp)
  refine ⟨hdir, ?_⟩
  by_cases hfresh : p.head? = some slash ∨ c.held = none
  · have hpath := h.utilAbsPath_fresh hpasswd hp hfresh
    by_cases hends : EndsAtSlash (namedPath c.dir p)
    · rw [if_pos hends, List.append_nil] at hpath
      simp only [Cwd.cd, if_pos hfresh, if_pos hends]
      exact hpath
    · rw [if_neg hends] at hpath
      simp only [Cwd.cd, if_pos hfresh, if_neg hends]
      exact ⟨namedPath c.dir p, hdir, rfl, hpath⟩
  · rw [not_or] at hfresh
    obtain ⟨held, hheld⟩ := Option.ne_none_iff_exists'.mp hfresh.2
    have hpath := h.utilAbsPath_held hpasswd hfresh.1 hheld
    have henv := h.2
    rw [hheld] at henv
    obtain ⟨path, hnewline, hsame, -⟩ := henv
    have hkeep : (c.cd p).held = some held := by
      show (if _ then _ else c.held) = _
      rw [if_neg (not_or.mpr hfresh), hheld]
    rw [hkeep]
    refine ⟨held, ?_, ?_, hpath⟩
    · rw [← hsame]
      exact newline_notMem_resolved hnewline
    · calc resolved (resolved held) = resolved (resolved (resolved path)) := by rw [hsame]
        _ = resolved (resolved path) := by rw [resolved_resolved path, resolved_normalPath]
        _ = resolved held := hsame

/-- All calls, from a directory that has no password on. -/
theorem tracks_foldl (hpasswd : env.envPasswd ≠ []) {calls : List ByteString}
    (h : Tracks env.envPasswd c env.envDir) (hcalls : ∀ p ∈ calls, newline ∉ p) :
    Tracks env.envPasswd (calls.foldl Cwd.cd c) (calls.foldl utilCd2 env).envDir ∧
      (calls.foldl utilCd2 env).envPasswd = env.envPasswd := by
  induction calls generalizing env c with
  | nil => exact ⟨h, rfl⟩
  | cons p calls ih =>
      have hstep := h.cd hpasswd (hcalls p List.mem_cons_self)
      exact ih hpasswd hstep fun q hq => hcalls q (List.mem_cons_of_mem _ hq)

/-- Without a password the calls lead where they say. -/
theorem envDir_foldl_utilCd2 (hpasswd : env.envPasswd = []) (henv : env.envDir = c.dir)
    (calls : List ByteString) :
    (calls.foldl utilCd2 env).envDir = (calls.foldl Cwd.cd c).dir ∧
      (calls.foldl utilCd2 env).envPasswd = [] := by
  induction calls generalizing env c with
  | nil => exact ⟨henv, hpasswd⟩
  | cons p calls ih =>
      refine ih hpasswd ?_
      show utilAbsPath env p = resolved (namedPath c.dir p)
      rw [utilAbsPath_eq_resolved hpasswd, henv]

end Calls

/-- After any calls of `util_cd2`, a client with a password gets the path that it gets without one,
followed by a newline and the password, if and only if the password is attached to the path it asked
for. -/
theorem utilAbsPath_password_iff (envDir passwd : ByteString) (clientBufLen : UInt16)
    (calls : List ByteString) (s2 : ByteString) (hpasswd : passwd ≠ []) (hdir : newline ∉ envDir)
    (hcalls : ∀ p ∈ calls, newline ∉ p) (hs2 : newline ∉ s2) :
    let path := utilAbsPath (calls.foldl utilCd2 ⟨envDir, [], clientBufLen⟩) s2
    newline ∉ path ∧
      (utilAbsPath (calls.foldl utilCd2 ⟨envDir, passwd, clientBufLen⟩) s2 =
          path ++ newline :: passwd ↔
        SuffixAttached (cwdAfter envDir calls) s2) := by
  intro path
  set env : ClientEnv := ⟨envDir, passwd, clientBufLen⟩
  set c : Cwd := cwdAfter envDir calls
  obtain ⟨htracks, hkept⟩ : Tracks passwd c (calls.foldl utilCd2 env).envDir ∧
      (calls.foldl utilCd2 env).envPasswd = passwd :=
    tracks_foldl hpasswd ⟨hdir, rfl⟩ hcalls
  obtain ⟨hplain, hnone⟩ :
      (calls.foldl utilCd2 ⟨envDir, [], clientBufLen⟩).envDir = c.dir ∧
        (calls.foldl utilCd2 ⟨envDir, [], clientBufLen⟩).envPasswd = [] :=
    envDir_foldl_utilCd2 rfl rfl calls
  have hpath : path = resolved (namedPath c.dir s2) := by
    show utilAbsPath _ s2 = _
    rw [utilAbsPath_eq_resolved hnone, hplain]
  have hnewline : newline ∉ path := by
    rw [hpath]
    exact newline_notMem_resolved (newline_notMem_namedPath htracks.1 hs2)
  refine ⟨hnewline, ?_⟩
  have hpasswd' : (calls.foldl utilCd2 env).envPasswd ≠ [] := by rwa [hkept]
  rw [hpath] at hnewline ⊢
  rw [← hkept] at htracks
  rw [SuffixAttached]
  by_cases hfresh : s2.head? = some slash ∨ c.held = none
  · rw [if_pos hfresh, htracks.utilAbsPath_fresh hpasswd' hs2 hfresh, hkept]
    by_cases hends : EndsAtSlash (namedPath c.dir s2)
    · refine iff_of_false (fun h => hnewline ?_) fun h => h hends
      rw [if_pos hends, List.append_nil] at h
      rw [h]
      simp
    · rw [if_neg hends]
      exact iff_of_true rfl hends
  · rw [if_neg hfresh]
    rw [not_or] at hfresh
    obtain ⟨held, hheld⟩ := Option.ne_none_iff_exists'.mp hfresh.2
    rw [htracks.utilAbsPath_held hpasswd' hfresh.1 hheld, hkept, hheld, List.append_left_inj,
      Option.getD_some]

/-- In `/a`, a client with the password `pw` asks for `/b`. -/
theorem utilAbsPath_password_b :
    utilAbsPath ([text "/a"].foldl utilCd2 ⟨[], text "pw", 1024⟩) (text "/b") =
      utilAbsPath ([text "/a"].foldl utilCd2 ⟨[], [], 1024⟩) (text "/b") ++ text "\npw" :=
  (utilAbsPath_password_iff [] (text "pw") 1024 [text "/a"] (text "/b") (by decide) (by decide)
    (by decide) (by decide)).2.mpr (by decide +kernel)

/-- In `/a`, it asks for `b` and gets `/a`; for `/b/` it gets the path without the password. -/
theorem utilAbsPath_password_lost :
    (utilAbsPath ([text "/a"].foldl utilCd2 ⟨[], [], 1024⟩) (text "b") = text "/a/b" ∧
      utilAbsPath ([text "/a"].foldl utilCd2 ⟨[], text "pw", 1024⟩) (text "b") = text "/a\npw") ∧
    (utilAbsPath ([text "/a"].foldl utilCd2 ⟨[], [], 1024⟩) (text "/b/") = text "/b" ∧
      utilAbsPath ([text "/a"].foldl utilCd2 ⟨[], text "pw", 1024⟩) (text "/b/") = text "/b") := by
  decide +kernel

end Fsp
