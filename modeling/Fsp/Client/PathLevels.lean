import Fsp.Lib.Lexical
import Fsp.Client.AbsPath
import Fsp.Server.PathGrammar

/-!
# The client's paths, component by component

`Walk` is what the loop of `util_abs_path` has made of the components it has passed: the names that
are left and, at the start of the path, whether the loop has just taken a `./` or a `../` out there.
It does so without looking for slashes in what follows, so a slash that comes next stays at the
start of the path until a `..` takes it away.
-/

namespace Fsp

open Bytes

def dots : ByteString := [dot, dot]

/-- A component that names nothing. -/
def NamesNothing (c : ByteString) : Prop := c = [] ∨ c = [dot]

instance decidableNamesNothing (c : ByteString) : Decidable (NamesNothing c) :=
  inferInstanceAs (Decidable (_ ∨ _))

/-- A component that takes back the one before it. -/
def GoesUp (c : ByteString) : Prop := c = dots

instance decidableGoesUp (c : ByteString) : Decidable (GoesUp c) :=
  inferInstanceAs (Decidable (_ = _))

/-- The names that are left after one more component, the innermost first. -/
abbrev pathStep (names : List ByteString) (c : ByteString) : List ByteString :=
  Lexical.descend NamesNothing GoesUp names c

/-- The names that are left of a path. -/
abbrev pathLevels (names path : List ByteString) : List ByteString :=
  Lexical.levels NamesNothing GoesUp names path

@[simp] theorem pathStep_empty (names : List ByteString) : pathStep names [] = names :=
  Lexical.descend_of_blank (show NamesNothing [] from Or.inl rfl) names

@[simp] theorem pathStep_dot (names : List ByteString) : pathStep names [dot] = names :=
  Lexical.descend_of_blank (show NamesNothing [dot] from Or.inr rfl) names

@[simp] theorem pathStep_dots (names : List ByteString) : pathStep names dots = names.tail :=
  Lexical.descend_of_up (by decide) (show GoesUp dots from rfl) names

theorem pathStep_name {c : ByteString} (hne : c ≠ []) (hdot : c ≠ [dot]) (hdots : c ≠ dots)
    (names : List ByteString) : pathStep names c = c :: names := by
  have hblank : ¬ NamesNothing c := not_or.mpr ⟨hne, hdot⟩
  have hup : ¬ GoesUp c := hdots
  exact Lexical.descend_of_name hblank hup names

/-- What the loop has made of the components so far. -/
inductive Walk where
  /-- A normal path. -/
  | clean (names : List ByteString)
  /-- A `./` or a `../` was taken out at the root. -/
  | dotted
  /-- A slash stands before the path. -/
  | slashed (names : List ByteString)
  deriving DecidableEq

namespace Walk

def names : Walk → List ByteString
  | clean names => names
  | dotted => []
  | slashed names => names

/-- One more component. -/
def step : Walk → ByteString → Walk
  | clean names, c =>
      if names = [] ∧ (c = [dot] ∨ c = dots) then dotted
      else clean (pathStep names c)
  | dotted, c =>
      if c = [dot] ∨ c = dots then dotted else if c = [] then slashed [] else clean [c]
  | slashed names, c =>
      if names = [] ∧ c = dots then clean []
      else slashed (pathStep names c)

/-- What the loop makes of the components of a path. -/
def ofPath (path : List ByteString) : Walk := path.foldl step (clean [])

/-- The slash at the start of the path has names after it. -/
def Strays : Walk → Prop
  | slashed names => names ≠ []
  | clean _ | dotted => False

theorem names_step (w : Walk) (c : ByteString) : (w.step c).names = pathStep w.names c := by
  cases w with
  | clean ns =>
      rw [step]
      split_ifs with h
      · obtain ⟨rfl, rfl | rfl⟩ := h
        · exact (pathStep_dot []).symm
        · exact (pathStep_dots []).symm
      · rfl
  | dotted =>
      rw [step]
      split_ifs with h hempty
      · obtain rfl | rfl := h
        · exact (pathStep_dot []).symm
        · exact (pathStep_dots []).symm
      · rw [hempty]
        exact (pathStep_empty []).symm
      · rw [not_or] at h
        exact (pathStep_name hempty h.1 h.2 []).symm
  | slashed ns =>
      rw [step]
      split_ifs with h
      · obtain ⟨rfl, rfl⟩ := h
        exact (pathStep_dots []).symm
      · rfl

/-- The names that are left are the right ones. -/
theorem names_foldl_step (w : Walk) (path : List ByteString) :
    (path.foldl step w).names = pathLevels w.names path := by
  induction path generalizing w with
  | nil => rfl
  | cons c path ih =>
      rw [List.foldl_cons, ih, names_step]
      rfl

end Walk

/-! ## Components as the loop meets them -/

/-- A path, each of its components after a slash. -/
def slashPath (path : List ByteString) : ByteString := path.flatMap (slash :: ·)

/-- The bytes before `t`, the last one first, for names that are left. -/
def namesBefore (names : List ByteString) : ByteString := names.flatMap (·.reverse ++ [slash])

/-- The bytes before `t` when it stands at the slash or the end after a component. -/
def Walk.before : Walk → ByteString
  | clean names => namesBefore names
  | dotted => []
  | slashed names => namesBefore names ++ [slash]

/-- The path that is left in the end. -/
def Walk.path (w : Walk) : ByteString := if w.before = [] then [slash] else w.before.reverse

@[simp] theorem slashPath_nil : slashPath [] = [] := rfl

@[simp] theorem slashPath_cons (c : ByteString) (path : List ByteString) :
    slashPath (c :: path) = slash :: (c ++ slashPath path) := rfl

@[simp] theorem namesBefore_nil : namesBefore [] = [] := rfl

@[simp] theorem namesBefore_cons (n : ByteString) (names : List ByteString) :
    namesBefore (n :: names) = n.reverse ++ slash :: namesBefore names := by
  simp [namesBefore]

theorem slashPath_eq_intercalate {path : List ByteString} (h : path ≠ []) :
    slashPath path = slash :: [slash].intercalate path := by
  induction path with
  | nil => exact absurd rfl h
  | cons c path ih =>
      cases path with
      | nil => simp [List.intercalate]
      | cons d path =>
          rw [slashPath_cons, ih (List.cons_ne_nil d path), List.intercalate_cons_cons]
          simp

/-- The components of a string. -/
theorem slashPath_splitOn (l : ByteString) : slashPath (l.splitOn slash) = slash :: l := by
  rw [slashPath_eq_intercalate (List.splitOn_ne_nil slash l), List.intercalate_splitOn]

/-- No slash is in a component. -/
theorem slash_notMem_splitOn {l c : ByteString} (h : c ∈ l.splitOn slash) : slash ∉ c := by
  induction l generalizing c with
  | nil =>
      rw [List.mem_singleton.mp h]
      exact List.not_mem_nil
  | cons b l ih =>
      by_cases hb : b = slash
      · rw [hb, splitOn_cons_slash] at h
        rcases List.mem_cons.mp h with rfl | h
        · exact List.not_mem_nil
        · exact ih h
      · obtain ⟨w, ws, hws⟩ : ∃ w ws, l.splitOn slash = w :: ws :=
          List.exists_cons_of_ne_nil (List.splitOn_ne_nil slash l)
        rw [splitOn_cons_of_ne hb, hws, List.modifyHead_cons] at h
        rw [hws] at ih
        rcases List.mem_cons.mp h with rfl | h
        · rw [List.mem_cons, not_or]
          exact ⟨Ne.symm hb, ih List.mem_cons_self⟩
        · exact ih (List.mem_cons_of_mem _ h)

/-- Only a slash can come after a component. -/
theorem head?_slashPath (path : List ByteString) :
    slashPath path = [] ∨ (slashPath path).head? = some slash := by
  cases path with
  | nil => exact Or.inl rfl
  | cons c path => exact Or.inr rfl

/-! ## The loop -/

theorem absLoop_nil (before : ByteString) : absLoop before [] = ⟨before.reverse, false⟩ := by
  rw [absLoop]

theorem absLoop_slash (before tail : ByteString) :
    absLoop before (slash :: tail) =
      if before ≠ [] ∧ tail.dropWhile (· == slash) = [] then ⟨before.reverse, true⟩
      else absLoop (slash :: before) (tail.dropWhile (· == slash)) := by
  rw [absLoop, if_pos rfl]

/-- Two slashes are as one. -/
theorem absLoop_slash_slash (before tail : ByteString) :
    absLoop before (slash :: slash :: tail) = absLoop before (slash :: tail) := by
  rw [absLoop_slash, absLoop_slash]
  rfl

/-- A slash before a component. -/
theorem absLoop_slash_component {before tail : ByteString} (hne : tail ≠ [])
    (hhead : tail.head? ≠ some slash) :
    absLoop before (slash :: tail) = absLoop (slash :: before) tail := by
  have hdrop : tail.dropWhile (· == slash) = tail := by
    cases tail with
    | nil => rfl
    | cons c tail =>
        refine List.dropWhile_cons_of_neg fun hc => hhead ?_
        rw [List.head?_cons, eq_of_beq hc]
  rw [absLoop_slash, hdrop, if_neg fun h => hne h.2]

/-- A byte that is no part of a `.` or `..` is passed over. -/
theorem absLoop_byte {before tail : ByteString} {c : UInt8} (hc : c ≠ slash)
    (hbefore : 2 ≤ before.length) (hhead : c = dot → before.head? ≠ some slash) :
    absLoop before (c :: tail) = absLoop (c :: before) tail := by
  have hone : before.length ≠ 1 := by omega
  rw [absLoop, if_neg hc, if_neg fun h => hone h.2.2.1, if_neg fun h => hone h.2.2.1,
    if_neg fun h => hhead h.1 h.2.2.1, if_neg fun h => hone h.2.1, if_neg fun h => hone h.2.1,
    if_neg fun h => hhead h.1 h.2.1]

/-- The bytes of a component after its first one. -/
theorem absLoop_bytes {before word rest : ByteString} (hword : slash ∉ word)
    (hbefore : 2 ≤ before.length) (hhead : before.head? ≠ some slash) :
    absLoop before (word ++ rest) = absLoop (word.reverse ++ before) rest := by
  induction word generalizing before with
  | nil => rfl
  | cons c word ih =>
      rw [List.mem_cons, not_or] at hword
      rw [List.cons_append, absLoop_byte (Ne.symm hword.1) hbefore fun _ => hhead,
        ih hword.2 (by simp only [List.length_cons]; omega), List.reverse_cons, List.append_assoc,
        List.singleton_append]
      rw [List.head?_cons]
      exact fun h => hword.1 (Option.some.inj h).symm

/-- What comes after a component. -/
def AfterName (rest : ByteString) : Prop := rest = [] ∨ rest.head? = some slash

theorem afterName_slashPath (path : List ByteString) : AfterName (slashPath path) :=
  head?_slashPath path

theorem endsComponent_iff (rest : ByteString) : endsComponent rest = true ↔ AfterName rest := by
  simp [endsComponent, AfterName]

theorem not_afterName {word : ByteString} (hword : slash ∉ word) (hne : word ≠ [])
    (rest : ByteString) : ¬ AfterName (word ++ rest) := by
  obtain ⟨c, word, rfl⟩ := List.exists_cons_of_ne_nil hne
  intro h
  rcases h with h | h
  · cases h
  · exact hword (List.mem_cons.mpr (Or.inl (Option.some.inj h).symm))

/-- A name is passed over. -/
theorem absLoop_name {before word rest : ByteString} (hword : slash ∉ word) (hne : word ≠ [])
    (hdot : word ≠ [dot]) (hdots : word ≠ dots) :
    absLoop (slash :: before) (word ++ rest) = absLoop (word.reverse ++ slash :: before) rest := by
  obtain ⟨c, word, rfl⟩ := List.exists_cons_of_ne_nil hne
  rw [List.mem_cons, not_or] at hword
  have hc : c ≠ slash := Ne.symm hword.1
  have hfirst : absLoop (slash :: before) (c :: (word ++ rest)) =
      absLoop (c :: slash :: before) (word ++ rest) := by
    by_cases hcdot : c = dot
    · subst hcdot
      have hword' : word ≠ [] := by
        rintro rfl
        exact hdot rfl
      have hgoes : ¬ AfterName (word ++ rest) := not_afterName hword.2 hword' rest
      have hgoes' : (word ++ rest).head? = some dot → ¬ AfterName (word ++ rest).tail := by
        obtain ⟨d, word, rfl⟩ := List.exists_cons_of_ne_nil hword'
        intro hd
        obtain rfl : d = dot := Option.some.inj hd
        refine not_afterName (fun h => hword.2 (List.mem_cons_of_mem _ h)) ?_ rest
        rintro rfl
        exact hdots rfl
      rw [absLoop, if_neg hc, if_neg fun h => hgoes' h.2.1 (Or.inl h.2.2.2),
        if_neg fun h => hgoes' h.2.1 (Or.inr h.2.2.2),
        if_neg fun h => hgoes' h.2.1 ((endsComponent_iff _).mp h.2.2.2),
        if_neg fun h => hgoes (Or.inl h.2.2), if_neg fun h => hgoes (Or.inr h.2.2),
        if_neg fun h => hgoes ((endsComponent_iff _).mp h.2.2)]
    · rw [absLoop, if_neg hc, if_neg fun h => hcdot h.1, if_neg fun h => hcdot h.1,
        if_neg fun h => hcdot h.1, if_neg fun h => hcdot h.1, if_neg fun h => hcdot h.1,
        if_neg fun h => hcdot h.1]
  rw [List.cons_append, hfirst, absLoop_bytes hword.2 (by simp only [List.length_cons]; omega),
    List.reverse_cons, List.append_assoc, List.singleton_append]
  rw [List.head?_cons]
  exact fun h => hc (Option.some.inj h)

/-- A `.` below the root is taken out, with the slash before it. -/
theorem absLoop_dot {before rest : ByteString} (hbefore : before ≠ []) (hrest : AfterName rest) :
    absLoop (slash :: before) (dot :: rest) = absLoop before rest := by
  have hone : (slash :: before).length ≠ 1 := by
    have := List.length_pos_iff.mpr hbefore
    simp only [List.length_cons]
    omega
  have hnot : rest.head? ≠ some dot := by
    intro h
    rcases hrest with rfl | hrest
    · cases h
    · rw [hrest] at h
      exact absurd (Option.some.inj h) (by decide)
  rw [absLoop, if_neg (by decide), if_neg fun h => hnot h.2.1, if_neg fun h => hnot h.2.1,
    if_neg fun h => hnot h.2.1, if_neg fun h => hone h.2.1, if_neg fun h => hone h.2.1,
    if_pos ⟨rfl, rfl, (endsComponent_iff rest).mpr hrest⟩, List.tail_cons]

/-- A `..` below the root takes the component before it with it. -/
theorem absLoop_dots {before rest : ByteString} (hbefore : before ≠ []) (hrest : AfterName rest) :
    absLoop (slash :: before) (dot :: dot :: rest) =
      if (before.dropWhile (· != slash)).tail ≠ [] ∨ rest.head? = some slash then
        absLoop (before.dropWhile (· != slash)).tail rest
      else ⟨(slash :: before).reverse.take 1, false⟩ := by
  have hone : (slash :: before).length ≠ 1 := by
    have := List.length_pos_iff.mpr hbefore
    simp only [List.length_cons]
    omega
  rw [absLoop, if_neg (by decide), if_neg fun h => hone h.2.2.1, if_neg fun h => hone h.2.2.1,
    if_pos ⟨rfl, rfl, rfl, (endsComponent_iff rest).mpr hrest⟩]
  rfl

/-- A `.` or `..` at the end of the path, at the root. -/
theorem absLoop_root_end {c : ByteString} (hc : c = [dot] ∨ c = dots) :
    absLoop [slash] c = ⟨[slash], false⟩ := by
  obtain rfl | rfl := hc
  · decide +kernel
  · decide +kernel

/-- A `./` or `../` at the root is taken out. -/
theorem absLoop_root {c rest : ByteString} (hc : c = [dot] ∨ c = dots) :
    absLoop [slash] (c ++ slash :: rest) = absLoop [slash] rest := by
  obtain rfl | rfl := hc
  · show absLoop [slash] (dot :: slash :: rest) = _
    rw [absLoop, if_neg (by decide), if_neg fun h => absurd h.2.1 (by simp; decide),
      if_neg fun h => absurd h.2.1 (by simp; decide), if_neg fun h => absurd h.2.1 (by simp; decide),
      if_neg fun h => absurd h.2.2 (by simp), if_pos ⟨rfl, rfl, rfl⟩]
    rfl
  · show absLoop [slash] (dot :: dot :: slash :: rest) = _
    rw [absLoop, if_neg (by decide), if_neg fun h => absurd h.2.2.2 (by simp),
      if_pos ⟨rfl, rfl, rfl, rfl⟩]
    rfl

/-! ## Both together -/

namespace Walk

/-- How the loop ends on a path that starts at `w`. -/
def endOf (w : Walk) (path : List ByteString) : AbsEnd where
  path := (path.foldl step w).path
  atSlash := path.getLast? = some [] ∧ (path.dropLast.foldl step w).before ≠ []

theorem endOf_nil {w : Walk} (h : w.before ≠ []) : w.endOf [] = ⟨w.before.reverse, false⟩ := by
  simp [endOf, Walk.path, h]

theorem endOf_cons {c : ByteString} {path : List ByteString} (h : c ≠ [] ∨ path ≠ []) (w : Walk) :
    w.endOf (c :: path) = (w.step c).endOf path := by
  cases path with
  | nil => simp [endOf, h.resolve_right fun h => h rfl]
  | cons d path => simp [endOf]

/-- The names that are left are components. -/
def Proper (w : Walk) : Prop := ∀ n ∈ w.names, slash ∉ n

theorem Proper.step {w : Walk} (hw : w.Proper) {c : ByteString} (hc : slash ∉ c) :
    (w.step c).Proper := by
  intro n hn
  rw [names_step] at hn
  have hmem : n ∈ w.names ∨ n ∈ [c] ∧ _ := Lexical.mem_levels hn
  rcases hmem with h | h
  · exact hw n h
  · rw [List.mem_singleton.mp h.1]
    exact hc

@[simp] theorem before_clean (names : List ByteString) :
    (clean names).before = namesBefore names := rfl

@[simp] theorem before_dotted : dotted.before = [] := rfl

@[simp] theorem before_slashed (names : List ByteString) :
    (slashed names).before = namesBefore names ++ [slash] := rfl

@[simp] theorem namesBefore_eq_nil {names : List ByteString} :
    namesBefore names = [] ↔ names = [] := by
  cases names with
  | nil => simp
  | cons n names => simp

theorem step_empty {w : Walk} (h : w ≠ dotted) : w.step [] = w := by
  cases w with
  | clean names =>
      rw [step, if_neg (by rintro ⟨-, h | h⟩ <;> cases h), pathStep_empty]
  | dotted => exact absurd rfl h
  | slashed names =>
      rw [step, if_neg (by rintro ⟨-, h⟩; cases h), pathStep_empty]

theorem step_dot {w : Walk} (h : w.before ≠ []) : w.step [dot] = w := by
  cases w with
  | clean names =>
      rw [before_clean, Ne, namesBefore_eq_nil] at h
      rw [step, if_neg fun hdot => h hdot.1, pathStep_dot]
  | dotted => exact absurd rfl h
  | slashed names =>
      rw [step, if_neg fun hdot => absurd hdot.2 (by decide), pathStep_dot]

theorem before_step_name {w : Walk} {c : ByteString} (h : w ≠ dotted) (hne : c ≠ [])
    (hdot : c ≠ [dot]) (hdots : c ≠ dots) :
    (w.step c).before = c.reverse ++ slash :: w.before := by
  cases w with
  | clean names =>
      rw [step, if_neg fun h => h.2.elim hdot hdots, pathStep_name hne hdot hdots, before_clean,
        namesBefore_cons, before_clean]
  | dotted => exact absurd rfl h
  | slashed names =>
      rw [step, if_neg fun h => hdots h.2, pathStep_name hne hdot hdots, before_slashed,
        namesBefore_cons, before_slashed]
      simp

/-- What `..` leaves before `t`. -/
theorem before_step_dots {w : Walk} (hw : w.Proper) (h : w.before ≠ []) :
    (w.before.dropWhile (· != slash)).tail = (w.step dots).before := by
  have hname : ∀ (n rest : ByteString), slash ∉ n →
      ((n.reverse ++ slash :: rest).dropWhile (· != slash)).tail = rest := by
    intro n rest hn
    rw [List.dropWhile_append_of_pos]
    · simp
    · intro b hb
      have : b ≠ slash := by
        rintro rfl
        exact hn (List.mem_reverse.mp hb)
      simpa using this
  cases w with
  | clean names =>
      cases names with
      | nil => exact absurd rfl h
      | cons n names =>
          rw [before_clean, namesBefore_cons, hname n _ (hw n List.mem_cons_self), step,
            if_neg fun h => absurd h.1 (List.cons_ne_nil n names), pathStep_dots]
          rfl
  | dotted => exact absurd rfl h
  | slashed names =>
      cases names with
      | nil =>
          rw [step, if_pos ⟨rfl, rfl⟩]
          rfl
      | cons n names =>
          rw [before_slashed, namesBefore_cons, List.append_assoc, List.cons_append,
            hname n _ (hw n List.mem_cons_self), step,
            if_neg fun h => absurd h.1 (List.cons_ne_nil n names), pathStep_dots]
          rfl

theorem step_root {c : ByteString} {w : Walk} (h : w.before = []) (hc : c = [dot] ∨ c = dots) :
    w.step c = dotted := by
  cases w with
  | clean names =>
      rw [before_clean, namesBefore_eq_nil] at h
      rw [step, if_pos ⟨h, hc⟩]
  | dotted => rw [step, if_pos hc]
  | slashed names =>
      rw [before_slashed] at h
      simp at h

theorem step_dotted {c : ByteString} (h : c ≠ []) : dotted.step c = (clean []).step c := by
  rw [step, step]
  by_cases hdots : c = [dot] ∨ c = dots
  · rw [if_pos hdots, if_pos ⟨rfl, hdots⟩]
  · rw [if_neg hdots, if_neg h, if_neg fun h => hdots h.2]
    rw [not_or] at hdots
    rw [pathStep_name h hdots.1 hdots.2]

theorem step_ne_dotted {w : Walk} {c : ByteString} (hw : w ≠ dotted)
    (h : ¬ (w.before = [] ∧ (c = [dot] ∨ c = dots))) : w.step c ≠ dotted := by
  cases w with
  | clean names =>
      rw [before_clean, namesBefore_eq_nil] at h
      rw [step, if_neg h]
      exact fun h => by cases h
  | dotted => exact absurd rfl hw
  | slashed names =>
      rw [step]
      split_ifs
      · exact fun h => by cases h
      · exact fun h => by cases h

/-- The path starts with a slash. -/
theorem getLast?_before {w : Walk} (h : w.before ≠ []) : w.before.getLast? = some slash := by
  have hnames : ∀ names : List ByteString, names ≠ [] →
      (namesBefore names).getLast? = some slash := by
    intro names hne
    induction names with
    | nil => exact absurd rfl hne
    | cons n names ih =>
        rw [namesBefore_cons]
        cases names with
        | nil => simp
        | cons m names =>
            rw [List.getLast?_append, List.getLast?_cons, ih (List.cons_ne_nil m names)]
            rfl
  cases w with
  | clean names => exact hnames names (by simpa using h)
  | dotted => exact absurd rfl h
  | slashed names => simp

theorem take_reverse_before {w : Walk} (h : w.before ≠ []) :
    (slash :: w.before).reverse.take 1 = [slash] := by
  obtain ⟨c, rest, hrest⟩ : ∃ c rest, w.before.reverse = c :: rest :=
    List.exists_cons_of_ne_nil (by simpa using h)
  have hhead := getLast?_before h
  rw [← List.head?_reverse, hrest] at hhead
  obtain rfl : c = slash := Option.some.inj hhead
  rw [List.reverse_cons, hrest]
  rfl

end Walk

/-- The loop takes a path component by component: at the slash or the end after a component, and
right after a slash at the root where a `./` or `../` was taken out. -/
theorem absLoop_slashPath {path : List ByteString} (hpath : ∀ c ∈ path, slash ∉ c) :
    (∀ w : Walk, w.Proper → w ≠ .dotted → path ≠ [] ∨ w.before ≠ [] →
      absLoop w.before (slashPath path) = w.endOf path) ∧
    (path ≠ [] → absLoop [slash] (slashPath path).tail = Walk.dotted.endOf path) := by
  induction path with
  | nil =>
      refine ⟨fun w _ _ h => ?_, fun h => absurd rfl h⟩
      have hbefore := h.resolve_left fun h => h rfl
      rw [slashPath_nil, absLoop_nil, Walk.endOf_nil hbefore]
  | cons c path ih =>
      have hc : slash ∉ c := hpath c List.mem_cons_self
      obtain ⟨ihslash, ihroot⟩ := ih fun d hd => hpath d (List.mem_cons_of_mem _ hd)
      have hafter := afterName_slashPath path
      -- at the start of a component that is not empty
      have hcomponent : c ≠ [] → ∀ w : Walk, w.Proper → w ≠ .dotted →
          absLoop (slash :: w.before) (c ++ slashPath path) = w.endOf (c :: path) := by
        intro hne w hw hdotted
        rw [Walk.endOf_cons (Or.inl hne)]
        by_cases hdots : c = [dot] ∨ c = dots
        · by_cases hbefore : w.before = []
          · rw [hbefore, Walk.step_root hbefore hdots]
            by_cases hend : path = []
            · subst hend
              rw [slashPath_nil, List.append_nil, absLoop_root_end hdots]
              rfl
            · obtain ⟨d, path, rfl⟩ := List.exists_cons_of_ne_nil hend
              rw [slashPath_cons, absLoop_root hdots]
              exact ihroot hend
          · obtain rfl | rfl := hdots
            · rw [List.singleton_append, absLoop_dot hbefore hafter, Walk.step_dot hbefore]
              exact ihslash w hw hdotted (Or.inr hbefore)
            · have hstep : w.step dots ≠ .dotted :=
                Walk.step_ne_dotted hdotted fun h => hbefore h.1
              show absLoop (slash :: w.before) (dot :: dot :: slashPath path) = _
              rw [absLoop_dots hbefore hafter, Walk.before_step_dots hw hbefore]
              split_ifs with hgo
              · refine ihslash _ (hw.step hc) hstep ?_
                rcases hgo with hgo | hgo
                · exact Or.inr hgo
                · refine Or.inl fun hend => ?_
                  rw [hend] at hgo
                  cases hgo
              · rw [not_or, Classical.not_not] at hgo
                obtain rfl : path = [] := by
                  rcases hafter with h | h
                  · cases path with
                    | nil => rfl
                    | cons d path => cases h
                  · exact absurd h hgo.2
                rw [Walk.take_reverse_before hbefore, Walk.endOf]
                simp [Walk.path, hgo.1]
        · rw [not_or] at hdots
          rw [absLoop_name hc hne hdots.1 hdots.2,
            ← Walk.before_step_name hdotted hne hdots.1 hdots.2]
          refine ihslash _ (hw.step hc) ?_ (Or.inr ?_)
          · exact Walk.step_ne_dotted hdotted fun h => h.2.elim hdots.1 hdots.2
          · rw [Walk.before_step_name hdotted hne hdots.1 hdots.2]
            simp
      have hhead : c ≠ [] → (c ++ slashPath path).head? ≠ some slash := by
        intro hne h
        exact not_afterName hc hne _ (Or.inr h)
      refine ⟨fun w hw hdotted _ => ?_, fun _ => ?_⟩
      · rw [slashPath_cons]
        by_cases hne : c = []
        · subst hne
          rw [List.nil_append]
          by_cases hend : path = []
          · subst hend
            rw [slashPath_nil, absLoop_slash, List.dropWhile_nil, Walk.endOf]
            simp only [List.foldl_cons, List.foldl_nil, List.dropLast_singleton, Walk.path,
              Walk.step_empty hdotted]
            by_cases hbefore : w.before = []
            · rw [if_neg fun h => h.1 hbefore, hbefore, absLoop_nil]
              simp
            · rw [if_pos ⟨hbefore, trivial⟩]
              simp [hbefore]
          · obtain ⟨d, path, rfl⟩ := List.exists_cons_of_ne_nil hend
            rw [Walk.endOf_cons (Or.inr hend), Walk.step_empty hdotted, slashPath_cons,
              absLoop_slash_slash]
            exact ihslash w hw hdotted (Or.inl hend)
        · rw [absLoop_slash_component (by simp [hne]) (hhead hne)]
          exact hcomponent hne w hw hdotted
      · rw [slashPath_cons, List.tail_cons]
        by_cases hne : c = []
        · subst hne
          rw [List.nil_append]
          by_cases hend : path = []
          · subst hend
            rw [slashPath_nil, absLoop_nil]
            rfl
          · rw [Walk.endOf_cons (Or.inr hend)]
            exact ihslash (.slashed []) (fun n hn => absurd hn List.not_mem_nil)
              (fun h => by cases h) (Or.inl hend)
        · have hclean := hcomponent hne (.clean []) (fun n hn => absurd hn List.not_mem_nil)
            (fun h => by cases h)
          rw [Walk.endOf_cons (Or.inl hne)] at hclean ⊢
          rw [← Walk.step_dotted hne] at hclean
          exact hclean

/-- The loop of `util_abs_path` on a whole path. -/
theorem absLoop_path (l : ByteString) :
    absLoop [] (slash :: l) = (Walk.clean []).endOf (l.splitOn slash) := by
  rw [← slashPath_splitOn]
  exact (absLoop_slashPath fun c hc => slash_notMem_splitOn hc).1 (.clean [])
    (fun n hn => absurd hn List.not_mem_nil) (fun h => by cases h)
    (Or.inl (List.splitOn_ne_nil slash l))

/-! ## Normal paths -/

/-- The path that an argument of `util_abs_path` names, before it is made normal. -/
def namedPath (dir s2 : ByteString) : ByteString :=
  if s2.head? = some slash then s2 else dir ++ slash :: s2

/-- What the loop leaves of a path. -/
def resolved (path : ByteString) : ByteString := (Walk.ofPath (path.splitOn slash)).path

/-- A path of names, the innermost first. -/
def joinNames (names : List ByteString) : ByteString :=
  slash :: [slash].intercalate names.reverse

/-- The lexical normal form of a path. -/
def normalPath (path : ByteString) : ByteString := joinNames (pathLevels [] (path.splitOn slash))

/-- A slash is left at the start of a path, before the one that belongs there. -/
def LeavesSlash (path : ByteString) : Prop := (Walk.ofPath (path.splitOn slash)).Strays

theorem rawPath_of_no_password {env : ClientEnv} (h : env.envPasswd = []) (s2 : ByteString) :
    rawPath env s2 = slash :: namedPath env.envDir s2 := by
  unfold rawPath namedPath
  simp only [if_pos h]
  split_ifs
  · rfl
  · rfl

theorem reverse_namesBefore (names : List ByteString) :
    (namesBefore names).reverse = slashPath names.reverse := by
  induction names with
  | nil => rfl
  | cons n names ih =>
      rw [namesBefore_cons, List.reverse_append, List.reverse_cons, ih, List.reverse_reverse,
        List.reverse_cons]
      simp [slashPath]

theorem joinNames_of_ne_nil {names : List ByteString} (h : names ≠ []) :
    joinNames names = (namesBefore names).reverse := by
  rw [reverse_namesBefore, slashPath_eq_intercalate (by simpa using h), joinNames]

/-- The path that is left is the path of the names, but for a slash. -/
theorem Walk.path_eq (w : Walk) :
    (w.Strays ∧ w.path = slash :: joinNames w.names) ∨ (¬ w.Strays ∧ w.path = joinNames w.names) := by
  cases w with
  | clean names =>
      refine Or.inr ⟨fun h => h, ?_⟩
      by_cases h : names = []
      · subst h
        rfl
      · rw [Walk.path, if_neg (by simpa using h), before_clean, ← joinNames_of_ne_nil h]
        rfl
  | dotted => exact Or.inr ⟨fun h => h, rfl⟩
  | slashed names =>
      by_cases h : names = []
      · subst h
        exact Or.inr ⟨fun h => h rfl, rfl⟩
      · refine Or.inl ⟨h, ?_⟩
        rw [Walk.path, if_neg (by simp), before_slashed, List.reverse_append,
          ← joinNames_of_ne_nil h]
        rfl

/-- The components of a path of names. -/
theorem splitOn_joinNames {names : List ByteString} (h : ∀ n ∈ names, slash ∉ n) :
    (joinNames names).splitOn slash = [] :: if names = [] then [[]] else names.reverse := by
  rw [joinNames, splitOn_cons_slash]
  split_ifs with hnames
  · subst hnames
    rfl
  · rw [List.splitOn_intercalate slash (fun n hn => h n (List.mem_reverse.mp hn)) (by simpa)]

/-- What is left of a path are names. -/
theorem mem_pathLevels {path : ByteString} {n : ByteString}
    (h : n ∈ pathLevels [] (path.splitOn slash)) :
    slash ∉ n ∧ n ≠ [] ∧ n ≠ [dot] ∧ n ≠ dots := by
  rcases Lexical.mem_levels h with h | ⟨hmem, hblank, hup⟩
  · exact absurd h List.not_mem_nil
  · exact ⟨slash_notMem_splitOn hmem, (not_or.mp hblank).1, (not_or.mp hblank).2, hup⟩

theorem foldl_step_names {path : List ByteString}
    (h : ∀ n ∈ path, n ≠ [] ∧ n ≠ [dot] ∧ n ≠ dots) (names : List ByteString) :
    path.foldl Walk.step (.clean names) = .clean (path.reverse ++ names) := by
  induction path generalizing names with
  | nil => rfl
  | cons n path ih =>
      obtain ⟨hne, hdot, hdots⟩ := h n List.mem_cons_self
      have hstep : (Walk.clean names).step n = .clean (n :: names) := by
        rw [Walk.step, if_neg fun h => h.2.elim hdot hdots, pathStep_name hne hdot hdots]
      rw [List.foldl_cons, hstep, ih fun m hm => h m (List.mem_cons_of_mem _ hm),
        List.reverse_cons, List.append_assoc, List.singleton_append]

/-- A normal path is taken as it is. -/
theorem ofPath_normalPath (path : ByteString) :
    Walk.ofPath ((normalPath path).splitOn slash) =
      .clean (pathLevels [] (path.splitOn slash)) := by
  have hnames : ∀ n ∈ pathLevels [] (path.splitOn slash), slash ∉ n ∧ n ≠ [] ∧ n ≠ [dot] ∧
      n ≠ dots := fun _ hn => mem_pathLevels hn
  rw [normalPath, splitOn_joinNames fun n hn => (hnames n hn).1, Walk.ofPath, List.foldl_cons,
    Walk.step_empty (fun h => by cases h)]
  split_ifs with h
  · rw [h]
    rfl
  · rw [foldl_step_names fun n hn => (hnames n (List.mem_reverse.mp hn)).2, List.reverse_reverse,
      List.append_nil]

theorem head?_normalPath (path : ByteString) : (normalPath path).head? = some slash := rfl

/-- What `util_abs_path` returns to a client with no password. -/
theorem utilAbsPath_eq_resolved {env : ClientEnv} (h : env.envPasswd = []) (s2 : ByteString) :
    utilAbsPath env s2 = resolved (namedPath env.envDir s2) := by
  have hsuffix : env.passwordSuffix = [] := if_pos h
  rw [utilAbsPath, hsuffix, List.append_nil, ite_self, canonicalPath,
    rawPath_of_no_password h, absLoop_path]
  rfl

/-- A normal path is resolved. -/
theorem resolved_normalPath (path : ByteString) : resolved (normalPath path) = normalPath path := by
  rw [resolved, ofPath_normalPath]
  exact ((Walk.clean _).path_eq.resolve_left fun h => h.1).2

/-- What the loop leaves is the normal form, but for a slash. -/
theorem resolved_eq (path : ByteString) :
    (LeavesSlash path ∧ resolved path = slash :: normalPath path) ∨
      (¬ LeavesSlash path ∧ resolved path = normalPath path) := by
  have hnames : (Walk.ofPath (path.splitOn slash)).names = pathLevels [] (path.splitOn slash) :=
    Walk.names_foldl_step _ _
  have heq := (Walk.ofPath (path.splitOn slash)).path_eq
  rw [hnames] at heq
  exact heq

/-- With no password, `util_abs_path` returns the normal form of the path that it is given, a path
that it leaves as it is, if and only if no slash is left before it. -/
theorem utilAbsPath_normal_iff (envDir : ByteString) (clientBufLen : UInt16) (s2 : ByteString) :
    let env : ClientEnv := ⟨envDir, [], clientBufLen⟩
    utilAbsPath env s2 = normalPath (namedPath envDir s2) ∧
        utilAbsPath env (utilAbsPath env s2) = utilAbsPath env s2 ↔
      ¬ LeavesSlash (namedPath envDir s2) := by
  intro env
  have hresolved : ∀ s2, utilAbsPath env s2 = resolved (namedPath envDir s2) :=
    utilAbsPath_eq_resolved rfl
  have hagain : utilAbsPath env (normalPath (namedPath envDir s2)) =
      normalPath (namedPath envDir s2) := by
    have hnamed : namedPath envDir (normalPath (namedPath envDir s2)) =
        normalPath (namedPath envDir s2) := if_pos (head?_normalPath _)
    rw [hresolved, hnamed, resolved_normalPath]
  rw [hresolved s2]
  rcases resolved_eq (namedPath envDir s2) with ⟨hleaves, hpath⟩ | ⟨hleaves, hpath⟩
  · rw [hpath]
    refine iff_of_false (fun h => ?_) fun h => h hleaves
    exact List.cons_ne_self slash (normalPath (namedPath envDir s2)) h.1
  · rw [hpath]
    exact iff_of_true ⟨rfl, hagain⟩ hleaves

/-- A slash stays before `a`, until the path is taken once more. -/
theorem utilAbsPath_leaves_slash :
    let env : ClientEnv := ⟨[], [], 1024⟩
    utilAbsPath env (text "/.//a") = text "//a" ∧
      utilAbsPath env (text "/.//a") ≠ normalPath (namedPath env.envDir (text "/.//a")) ∧
      utilAbsPath env (utilAbsPath env (text "/.//a")) ≠ utilAbsPath env (text "/.//a") := by
  decide +kernel

end Fsp
