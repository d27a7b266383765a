import Mathlib.Data.List.TakeWhile
import Fsp.Client.Interact
import Fsp.Server.Path

/-!
# The client's paths

`client/util.c`: `util_abs_path` merges a path with the current directory, takes `.` and `..` out of
it and appends the password; `util_cd2` makes the result the current directory; `util_split_path`
cuts the last component off.

The loop of `util_abs_path` edits one buffer in place with a pointer `t` into it.  `absLoop` has the
bytes before `t`, the last one first, and those from `t` on.
-/

namespace Fsp

open Bytes

/-- The variables a client gets from its environment. -/
structure ClientEnv where
  envDir : ByteString
  envPasswd : ByteString
  clientBufLen : UInt16

/-- `APPEND_PASSWORD`: what it appends. -/
def ClientEnv.passwordSuffix (env : ClientEnv) : ByteString :=
  if env.envPasswd = [] then [] else newline :: env.envPasswd

/-! ## Absolute paths -/

/-- How the loop of `util_abs_path` ends: in one place it returns without appending the password. -/
structure AbsEnd where
  path : ByteString
  atSlash : Bool
  deriving DecidableEq

/-- A slash or the end of the string. -/
def endsComponent (rest : ByteString) : Bool := rest = [] || rest.head? = some slash

/-- `t -= 2; while(t > path && t[0] != '/') t--`, with the byte at `t` included. -/
def stepBack (before : ByteString) : ByteString := before.tail.dropWhile (· != slash)

theorem length_stepBack_le (before : ByteString) : (stepBack before).length ≤ before.length := by
  have htail : before.tail.length ≤ before.length := by simp
  exact (List.length_dropWhile_le _ _).trans htail

/-- The loop of `util_abs_path`. -/
def absLoop (before : ByteString) : ByteString → AbsEnd
  | [] => ⟨before.reverse, false⟩
  | c :: tail =>
      if c = slash then
        let rest := tail.dropWhile (· == slash)
        if before ≠ [] ∧ rest = [] then ⟨before.reverse, true⟩
        else absLoop (slash :: before) rest
      else if c = dot ∧ tail.head? = some dot ∧ before.length = 1 ∧ tail.tail = [] then
        ⟨before.reverse, false⟩
      else if c = dot ∧ tail.head? = some dot ∧ before.length = 1 ∧
          tail.tail.head? = some slash then
        absLoop before tail.tail.tail
      else if c = dot ∧ tail.head? = some dot ∧ before.head? = some slash ∧
          endsComponent tail.tail then
        let before' := (stepBack before).tail
        if before' ≠ [] ∨ tail.tail.head? = some slash then absLoop before' tail.tail
        else ⟨before.reverse.take 1, false⟩
      else if c = dot ∧ before.length = 1 ∧ tail = [] then ⟨before.reverse, false⟩
      else if c = dot ∧ before.length = 1 ∧ tail.head? = some slash then absLoop before tail.tail
      else if c = dot ∧ before.head? = some slash ∧ endsComponent tail then
        absLoop before.tail tail
      else absLoop (c :: before) tail
  termination_by rest => 2 * rest.length + before.length
  decreasing_by
    · have := List.length_dropWhile_le (· == slash) tail
      simp only [List.length_cons]
      omega
    · simp only [List.length_cons, List.length_tail]
      omega
    · have := length_stepBack_le before
      simp only [List.length_cons, List.length_tail]
      omega
    · simp only [List.length_cons, List.length_tail]
      omega
    · simp only [List.length_cons, List.length_tail]
      omega
    · simp only [List.length_cons]
      omega

/-- The string `util_abs_path` starts from. -/
def rawPath (env : ClientEnv) (s2 : ByteString) : ByteString :=
  let path := if s2.head? = some slash then slash :: s2 else slash :: env.envDir ++ slash :: s2
  -- `util_junk_password`
  if env.envPasswd = [] then path else path.takeWhile (· != newline)

/-- The path that `util_abs_path` makes of `s2`, without the password. -/
def canonicalPath (env : ClientEnv) (s2 : ByteString) : ByteString :=
  (absLoop [] (rawPath env s2)).path

/-- `util_abs_path` leaves its loop at a slash at the end of the path. -/
def stopsAtSlash (env : ClientEnv) (s2 : ByteString) : Bool :=
  (absLoop [] (rawPath env s2)).atSlash

/-- `util_abs_path` -/
def utilAbsPath (env : ClientEnv) (s2 : ByteString) : ByteString :=
  if stopsAtSlash env s2 then canonicalPath env s2
  else canonicalPath env s2 ++ env.passwordSuffix

/-- `util_cd2` -/
def utilCd2 (env : ClientEnv) (p : ByteString) : ClientEnv :=
  { env with envDir := utilAbsPath env p }

/-! ### The loop -/

theorem mem_of_mem_stepBack {before : ByteString} {b : UInt8} (h : b ∈ (stepBack before).tail) :
    b ∈ before :=
  List.mem_of_mem_tail ((List.dropWhile_sublist _).mem (List.mem_of_mem_tail h))

/-- No byte is added in the loop. -/
theorem mem_of_mem_absLoop {before rest : ByteString} {b : UInt8}
    (h : b ∈ (absLoop before rest).path) : b ∈ before ∨ b ∈ rest := by
  fun_induction absLoop before rest with
  | case1 => exact Or.inl (List.mem_reverse.mp h)
  | case2 => exact Or.inl (List.mem_reverse.mp h)
  | case3 before tail rest _ ih =>
      rcases ih h with h | h
      · rcases List.mem_cons.mp h with rfl | h
        · exact Or.inr List.mem_cons_self
        · exact Or.inl h
      · exact Or.inr (List.mem_cons_of_mem _ ((List.dropWhile_sublist _).mem h))
  | case4 => exact Or.inl (List.mem_reverse.mp h)
  | case5 before c tail _ _ _ ih =>
      rcases ih h with h | h
      · exact Or.inl h
      · exact Or.inr (List.mem_cons_of_mem _ (List.mem_of_mem_tail (List.mem_of_mem_tail h)))
  | case6 before c tail _ _ _ _ before' _ ih =>
      rcases ih h with h | h
      · exact Or.inl (mem_of_mem_stepBack h)
      · exact Or.inr (List.mem_cons_of_mem _ (List.mem_of_mem_tail h))
  | case7 => exact Or.inl (List.mem_reverse.mp (List.mem_of_mem_take h))
  | case8 => exact Or.inl (List.mem_reverse.mp h)
  | case9 before c tail _ _ _ _ _ _ ih =>
      rcases ih h with h | h
      · exact Or.inl h
      · exact Or.inr (List.mem_cons_of_mem _ (List.mem_of_mem_tail h))
  | case10 before c tail _ _ _ _ _ _ _ ih =>
      rcases ih h with h | h
      · exact Or.inl (List.mem_of_mem_tail h)
      · exact Or.inr (List.mem_cons_of_mem _ h)
  | case11 before c tail _ _ _ _ _ _ _ ih =>
      rcases ih h with h | h
      · rcases List.mem_cons.mp h with rfl | h
        · exact Or.inr List.mem_cons_self
        · exact Or.inl h
      · exact Or.inr (List.mem_cons_of_mem _ h)

/-- The path starts with a slash. -/
def Rooted (before rest : ByteString) : Prop :=
  if before = [] then rest.head? = some slash else before.getLast? = some slash

theorem rooted_nil {rest : ByteString} : Rooted [] rest ↔ rest.head? = some slash := by
  simp [Rooted]

theorem rooted_of_ne_nil {before rest : ByteString} (h : before ≠ []) :
    Rooted before rest ↔ before.getLast? = some slash := by
  simp [Rooted, h]

/-- A part of what stands before `t`, from the start of the path on, starts with the same slash. -/
theorem Rooted.suffix {before before' rest rest' : ByteString} (h : Rooted before rest)
    (hsuffix : before' <:+ before) (hne : before' ≠ []) : Rooted before' rest' := by
  have hbefore : before ≠ [] := by
    rintro rfl
    exact hne (List.suffix_nil.mp hsuffix)
  rw [rooted_of_ne_nil hbefore] at h
  rw [rooted_of_ne_nil hne, List.getLast?_eq_some_getLast hne, hsuffix.getLast hne,
    ← List.getLast?_eq_some_getLast hbefore, h]

theorem Rooted.ne_nil {before tail : ByteString} {c : UInt8} (h : Rooted before (c :: tail))
    (hc : c ≠ slash) : before ≠ [] := by
  rintro rfl
  rw [rooted_nil] at h
  exact hc (Option.some.inj h)

/-- The path keeps its first slash. -/
theorem head?_absLoop {before rest : ByteString} (h : Rooted before rest) :
    (absLoop before rest).path.head? = some slash := by
  have hreverse : ∀ {before rest : ByteString}, Rooted before rest → before ≠ [] →
      before.reverse.head? = some slash := by
    intro before rest h hne
    rw [List.head?_reverse]
    exact (rooted_of_ne_nil hne).mp h
  fun_induction absLoop before rest with
  | case1 before =>
      have hne : before ≠ [] := by
        rintro rfl
        rw [rooted_nil] at h
        cases h
      exact hreverse h hne
  | case2 before tail rest hend => exact hreverse h hend.1
  | case3 before tail rest _ ih =>
      apply ih
      by_cases hne : before = []
      · subst hne
        exact (rooted_of_ne_nil (List.cons_ne_nil _ _)).mpr rfl
      · rw [rooted_of_ne_nil hne] at h
        rw [rooted_of_ne_nil (List.cons_ne_nil _ _), List.getLast?_cons, h]
        rfl
  | case4 before c tail hc => exact hreverse h (h.ne_nil hc)
  | case5 before c tail hc _ _ ih => exact ih (h.suffix (List.suffix_refl _) (h.ne_nil hc))
  | case6 before c tail hc _ _ _ before' hgo ih =>
      apply ih
      by_cases hne : before' = []
      · rw [hne]
        exact rooted_nil.mpr (hgo.resolve_left fun h => h hne)
      · have hsuffix : before' <:+ before := (List.tail_suffix _).trans
          ((List.dropWhile_suffix _).trans (List.tail_suffix _))
        exact h.suffix hsuffix hne
  | case7 before c tail hc =>
      show (List.take 1 before.reverse).head? = some slash
      rw [List.head?_take, if_neg Nat.one_ne_zero]
      exact hreverse h (h.ne_nil hc)
  | case8 before c tail hc => exact hreverse h (h.ne_nil hc)
  | case9 before c tail hc _ _ _ _ _ ih => exact ih (h.suffix (List.suffix_refl _) (h.ne_nil hc))
  | case10 before c tail hc _ _ _ hend hslash hdot ih =>
      apply ih
      apply h.suffix (List.tail_suffix _)
      -- at the first component the branches before this one are taken
      intro hnil
      have hne := h.ne_nil hc
      have hlength : before.length = 1 := by
        have := List.length_pos_iff.mpr hne
        have := congrArg List.length hnil
        simp only [List.length_tail, List.length_nil] at this
        omega
      obtain ⟨hc, -, htail⟩ := hdot
      simp only [endsComponent, Bool.or_eq_true, decide_eq_true_eq] at htail
      rcases htail with htail | htail
      · exact hend ⟨hc, hlength, htail⟩
      · exact hslash ⟨hc, hlength, htail⟩
  | case11 before c tail hc _ _ _ _ _ _ ih =>
      apply ih
      have hne := h.ne_nil hc
      rw [rooted_of_ne_nil hne] at h
      rw [rooted_of_ne_nil (List.cons_ne_nil _ _), List.getLast?_cons, h]
      rfl

/-! ### The path -/

theorem head?_rawPath (env : ClientEnv) (s2 : ByteString) :
    (rawPath env s2).head? = some slash := by
  have hraw : ∀ l : ByteString, (slash :: l).takeWhile (· != newline) =
      slash :: l.takeWhile (· != newline) := fun l => List.takeWhile_cons_of_pos (by decide)
  unfold rawPath
  simp only
  split_ifs
  · rfl
  · rfl
  · rw [hraw]
    rfl
  · rw [List.cons_append, hraw]
    rfl

theorem head?_canonicalPath (env : ClientEnv) (s2 : ByteString) :
    (canonicalPath env s2).head? = some slash :=
  head?_absLoop (rooted_nil.mpr (head?_rawPath env s2))

/-- A client with a password takes what follows a newline in a path off first. -/
theorem newline_notMem_canonicalPath {env : ClientEnv} (henv : env.envPasswd ≠ [])
    (s2 : ByteString) : newline ∉ canonicalPath env s2 := by
  intro hmem
  rcases mem_of_mem_absLoop hmem with h | h
  · exact absurd h List.not_mem_nil
  · unfold rawPath at h
    simp only [if_neg henv] at h
    simpa using List.mem_takeWhile_imp h

/-- `util_split_path`, and a zero in place of the last slash: the directory part and the last
component. -/
def utilSplitPath (path : ByteString) : ByteString × ByteString :=
  let p3 := if path.head? = some slash then path.tail else path
  let file := afterLast slash p3
  (if slash ∈ p3 then path.take (path.length - file.length - 1) else [slash],
    if file = [] then [dot] else file)

example : utilAbsPath ⟨text "/pub", text "pw", 1024⟩ (text "a/.././b/c") = text "/pub/b/c\npw" := by
  decide +kernel

end Fsp
