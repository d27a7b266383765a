import Fsp.Find.Parens

/-!
# What a plan means

The words behind the files of an `ffind` command are an expression: primaries, `!`, juxtaposition,
`-o` and parentheses.  `words` writes an expression as the row of nodes the command line gives, and
`compiled` is the plan the three passes make of it.  `not_squish` does not look into a parenthesised
expression that stands directly behind a `!`; a `!` in there keeps a `p_data` nobody has set.
`clear` tells the expressions without such a negation: they are the ones that are accepted, and the
plan of an accepted expression does what the expression says.
-/

namespace Fsp

open ShortCircuit Expression

namespace Plan

variable {α σ : Type} {r : Rank}

/-! ## The plans of an expression -/

/-- The row of nodes an expression is on the command line. -/
def words : {r : Rank} → Expression α r → Plan α
  | _, .primary a => primary a null
  | _, .negation t => not (words t)
  | _, .group e => openParen (words e ++ closeParen null)
  | _, .single t => words t
  | _, .both t c => words t ++ words c
  | _, .only c => words c
  | _, .either c e => words c ++ or (words e)

/-- The same after `paren_squish`. -/
def parens : {r : Rank} → Expression α r → Plan α
  | _, .primary a => primary a null
  | _, .negation t => not (parens t)
  | _, .group e => expr (parens e) null
  | _, .single t => parens t
  | _, .both t c => parens t ++ parens c
  | _, .only c => parens c
  | _, .either c e => parens c ++ or (parens e)

/-- The same after `not_squish`, behind `notlevel` negations. -/
def nots (notlevel : ℕ) : {r : Rank} → Expression α r → Plan α
  | _, .primary a => underNot notlevel (primary a null)
  | _, .negation t => nots (notlevel + 1) t
  | _, .group e => underNot notlevel (expr (nots 0 e) null)
  | _, .single t => nots notlevel t
  | _, .both t c => nots notlevel t ++ nots 0 c
  | _, .only c => nots notlevel c
  | _, .either c e => nots notlevel c ++ or (nots 0 e)

/-- The same after `or_squish`. -/
def compiled (notlevel : ℕ) : {r : Rank} → Expression α r → Plan α
  | _, .primary a => underNot notlevel (primary a null)
  | _, .negation t => compiled (notlevel + 1) t
  | _, .group e => underNot notlevel (expr (compiled 0 e) null)
  | _, .single t => compiled notlevel t
  | _, .both t c => compiled notlevel t ++ compiled 0 c
  | _, .only c => compiled notlevel c
  | _, .either c e => orOf (compiled notlevel c) (compiled 0 e) null

/-- The expression has no negation. -/
def plain : {r : Rank} → Expression α r → Bool
  | _, .primary _ => true
  | _, .negation _ => false
  | _, .group e => plain e
  | _, .single t => plain t
  | _, .both t c => plain t && plain c
  | _, .only c => plain c
  | _, .either c e => plain c && plain e

/-- No negation stands in parentheses directly behind a negation; `negated` tells whether the phrase
itself stands there. -/
def clear (negated : Bool) : {r : Rank} → Expression α r → Bool
  | _, .primary _ => true
  | _, .negation t => clear true t
  | _, .group e => if negated then plain e else clear false e
  | _, .single t => clear negated t
  | _, .both t c => clear negated t && clear false c
  | _, .only c => clear negated c
  | _, .either c e => clear negated c && clear false e

theorem parens_ne_null (e : Expression α r) : parens e ≠ null := by
  induction e with
  | primary a => simp [parens]
  | negation t _ => simp [parens]
  | group e _ => simp [parens]
  | single t ih => exact ih
  | both t c iht _ => simp [parens, append_eq_null, iht]
  | only c ih => exact ih
  | either c e ihc _ => simp [parens, append_eq_null, ihc]

theorem grouped_parens (e : Expression α r) : (parens e).Grouped := by
  induction e with
  | primary a => trivial
  | negation t ih => exact ih
  | group e ih => exact ⟨parens_ne_null e, ih, trivial⟩
  | single t ih => exact ih
  | both t c iht ihc => exact iht.append ihc
  | only c ih => exact ih
  | either c e ihc ihe => exact ihc.append ihe

theorem written_parens (e : Expression α r) : (parens e).written = words e := by
  induction e with
  | primary a => rfl
  | negation t ih => simp only [parens, words, written, ih]
  | group e ih => simp only [parens, words, written, ih]
  | single t ih => exact ih
  | both t c iht ihc => simp only [parens, words, written_append, iht, ihc]
  | only c ih => exact ih
  | either c e ihc ihe => simp only [parens, words, written_append, written, ihc, ihe]

theorem fresh_words (e : Expression α r) : (words e).Fresh := by
  rw [← written_parens]
  exact (grouped_parens e).fresh_written

/-- `paren_squish` reads an expression as it was written. -/
theorem parenSquish_words (e : Expression α r) : parenSquish (words e) = .ok (parens e) :=
  (parenSquish_eq_ok (fresh_words e)).mpr ⟨grouped_parens e, (written_parens e).symm⟩

/-! ## The pass for negations -/

/-- Without negations there is nothing for the pass to do. -/
theorem nots_of_plain (e : Expression α r) (h : plain e = true) : nots 0 e = parens e := by
  induction e with
  | primary a => rfl
  | negation t _ => cases h
  | group e ih => simp only [nots, parens, ih h, underNot, Nat.zero_mod, Nat.zero_ne_one, if_false]
  | single t ih => exact ih h
  | both t c iht ihc =>
      simp only [plain, Bool.and_eq_true] at h
      simp only [nots, parens, iht h.1, ihc h.2]
  | only c ih => exact ih h
  | either c e ihc ihe =>
      simp only [plain, Bool.and_eq_true] at h
      simp only [nots, parens, ihc h.1, ihe h.2]

/-- A phrase is squished on its own, whatever stands behind it. -/
theorem notSquish_append (e : Expression α r) (notlevel : ℕ) (rest : Plan α)
    (h : clear (0 < notlevel) e = true) :
    notSquish notlevel (parens e ++ rest) =
      (notSquish 0 rest).map fun rest => nots notlevel e ++ rest := by
  induction e generalizing notlevel rest with
  | primary a =>
      simp only [parens, primary_append, null_append, notSquish, nots]
      rfl
  | negation t ih => exact ih (notlevel + 1) rest h
  | group e ih =>
      rw [parens, expr_append, null_append, notSquish]
      -- the pass looks into a group only where no negation stands before it
      by_cases hlevel : notlevel = 0
      · subst hlevel
        have hsub := ih 0 null h
        rw [append_null] at hsub
        simp only [hsub, if_true]
        cases notSquish 0 rest <;> simp [notSquish, nots, bind, Except.bind, pure, Except.pure,
          Except.map]
      · have hplain : plain e = true := by simpa [clear, Nat.pos_of_ne_zero hlevel] using h
        simp only [hlevel, if_false, nots, nots_of_plain e hplain]
        cases notSquish 0 rest <;> rfl
  | single t ih => exact ih notlevel rest h
  | both t c iht ihc =>
      simp only [clear, Bool.and_eq_true] at h
      rw [parens, append_assoc, iht notlevel _ h.1, ihc 0 rest h.2]
      cases notSquish 0 rest with
      | error f => rfl
      | ok rest => simp [Except.map, nots, append_assoc]
  | only c ih => exact ih notlevel rest h
  | either c e ihc ihe =>
      simp only [clear, Bool.and_eq_true] at h
      rw [parens, append_assoc, ihc notlevel _ h.1, or_append, notSquish, ihe 0 rest h.2]
      cases notSquish 0 rest with
      | error f => rfl
      | ok rest =>
          simp [Except.map, nots, append_assoc, bind, Except.bind, pure, Except.pure]

theorem notSquish_parens (e : Expression α r) (h : clear false e = true) :
    notSquish 0 (parens e) = .ok (nots 0 e) := by
  have heq := notSquish_append e 0 null h
  rw [append_null] at heq
  rw [heq]
  simp [notSquish, Except.map]

/-! ## The pass for alternatives -/

/-- A node under its negations is taken up as one node. -/
theorem orSquish_underNot (notlevel : ℕ) {node node' : Plan α} (result rest : Plan α)
    (h : ∀ result rest, orSquish result (node ++ rest) = orSquish (result ++ node') rest) :
    orSquish result (underNot notlevel node ++ rest) =
      orSquish (result ++ underNot notlevel node') rest := by
  unfold underNot
  split
  · have hnode := h null null
    rw [append_null, null_append] at hnode
    rw [notOf_append, null_append, orSquish, hnode]
    rfl
  · exact h result rest

/-- The phrase is taken up node by node, whatever was collected and whatever stands behind it. -/
def TakenUp (notlevel : ℕ) (e : Expression α r) : Prop :=
  ∀ result rest,
    orSquish result (nots notlevel e ++ rest) = orSquish (result ++ compiled notlevel e) rest

theorem TakenUp.squished {notlevel : ℕ} {e : Expression α r} (h : TakenUp notlevel e) :
    orSquish null (nots notlevel e) = .ok (compiled notlevel e) := by
  have heq := h null null
  rw [append_null, null_append] at heq
  exact heq

theorem underNot_ne_null {node : Plan α} (h : node ≠ null) (notlevel : ℕ) :
    underNot notlevel node ≠ null := by
  unfold underNot
  split
  · simp
  · exact h

theorem compiled_ne_null (e : Expression α r) (notlevel : ℕ) : compiled notlevel e ≠ null := by
  induction e generalizing notlevel with
  | primary a => exact underNot_ne_null (by simp) notlevel
  | negation t ih => exact ih (notlevel + 1)
  | group e _ => exact underNot_ne_null (by simp) notlevel
  | single t ih => exact ih notlevel
  | both t c iht _ => simp [compiled, append_eq_null, iht notlevel]
  | only c ih => exact ih notlevel
  | either c e _ _ => simp [compiled]

/-- A phrase without an `-o` outside its parentheses is taken up node by node, and alternatives are
squished to the end of the plan. -/
theorem orSquish_nots (e : Expression α r) (notlevel : ℕ) :
    (r ≠ .alternation → TakenUp notlevel e) ∧
      orSquish null (nots notlevel e) = .ok (compiled notlevel e) := by
  induction e generalizing notlevel with
  | primary a =>
      have htaken : TakenUp notlevel (Expression.primary a) := by
        intro result rest
        exact orSquish_underNot notlevel result rest fun _ _ => rfl
      exact ⟨fun _ => htaken, htaken.squished⟩
  | negation t ih => exact ih (notlevel + 1)
  | group e ih =>
      have htaken : TakenUp notlevel (Expression.group e) := by
        intro result rest
        refine orSquish_underNot notlevel result rest fun result rest => ?_
        rw [expr_append, null_append, orSquish, (ih 0).2]
        rfl
      exact ⟨fun _ => htaken, htaken.squished⟩
  | single t ih =>
      have htaken : TakenUp notlevel (Expression.single t) := (ih notlevel).1 (by simp)
      exact ⟨fun _ => htaken, htaken.squished⟩
  | both t c iht ihc =>
      have htaken : TakenUp notlevel (Expression.both t c) := by
        intro result rest
        rw [nots, append_assoc, (iht notlevel).1 (by simp), (ihc 0).1 (by simp), append_assoc]
        rfl
      exact ⟨fun _ => htaken, htaken.squished⟩
  | only c ih => exact ⟨fun h => absurd rfl h, (ih notlevel).2⟩
  | either c e ihc ihe =>
      -- all that stands behind the `-o` is its right side
      refine ⟨fun h => absurd rfl h, ?_⟩
      rw [nots, (ihc notlevel).1 (by simp), null_append, orSquish, (ihe 0).2]
      simp [isNull_eq_false.mpr (compiled_ne_null c notlevel),
        isNull_eq_false.mpr (compiled_ne_null e 0), bind, Except.bind, pure, Except.pure, compiled]

/-- The plan of an expression that is accepted. -/
theorem squish_words (e : Expression α r) (h : clear false e = true) :
    squish (words e) = .ok (compiled 0 e) := by
  calc squish (words e)
      = (notSquish 0 (parens e) >>= orSquish null) := by rw [squish, parenSquish_words]; rfl
    _ = orSquish null (nots 0 e) := by rw [notSquish_parens e h]; rfl
    _ = .ok (compiled 0 e) := (orSquish_nots e 0).2

/-! ## What the plan does -/

/-- The test under the given number of negations. -/
def under (notlevel : ℕ) (t : Test σ) : Test σ := if notlevel % 2 = 1 then t.negate else t

theorem under_succ (notlevel : ℕ) (t : Test σ) :
    under (notlevel + 1) t = under notlevel t.negate := by
  unfold under
  by_cases h : notlevel % 2 = 1
  · have hsucc : (notlevel + 1) % 2 ≠ 1 := by omega
    simp [h, hsucc]
  · have hsucc : (notlevel + 1) % 2 = 1 := by omega
    simp [h, hsucc]

/-- The loop over a node goes on behind it as the test of the node says. -/
def Runs (test : α → Test σ) (p : Plan α) (t : Test σ) : Prop :=
  ∀ state rest s, loop test state (p ++ rest) s =
    if (t s).1 then loop test (some true) rest (t s).2 else some (t s)

variable {test : α → Test σ} {p q : Plan α} {t u : Test σ}

theorem Runs.loop_eq (h : Runs test p t) (state : Option Bool) (s : σ) :
    loop test state p s = some (t s) := by
  have heq := h state null s
  rw [append_null] at heq
  rw [heq]
  cases hs : (t s).1 with
  | true => simp [loop, ← hs]
  | false => simp

theorem Runs.append (hp : Runs test p t) (hq : Runs test q u) : Runs test (p ++ q) (t.both u) := by
  intro state rest s
  rw [append_assoc, hp]
  cases hs : (t s).1 with
  | true => simp only [if_true, Test.both_of_true hs, hq _ _ _]
  | false => simp [Test.both_of_false hs, hs]

theorem Runs.underNot (notlevel : ℕ) (h : Runs test p t) :
    Runs test (underNot notlevel p) (under notlevel t) := by
  unfold Plan.underNot under
  split
  · intro state rest s
    rw [notOf_append, null_append, loop, h.loop_eq]
    cases hs : (t s).1 with
    | true => simp [Test.negate, hs]
    | false => simp [Test.negate, hs]
  · exact h

theorem runs_primary (a : α) : Runs test (primary a null) (test a) := fun _ _ _ => rfl

theorem Runs.expr (h : Runs test p t) : Runs test (Plan.expr p null) t := by
  intro state rest s
  rw [expr_append, null_append, loop, h.loop_eq]
  rfl

theorem Runs.orOf (hp : Runs test p t) (hq : Runs test q u) :
    Runs test (Plan.orOf p q null) (t.either u) := by
  intro state rest s
  rw [orOf_append, null_append, loop, hp.loop_eq]
  cases hs : (t s).1 with
  | true => simp [Test.either_of_true hs, hs]
  | false => simp [Test.either_of_false hs, hs, hq.loop_eq]

/-- A compiled phrase runs as it means; only a single test can stand behind a negation. -/
theorem runs_compiled (test : α → Test σ) (e : Expression α r) (notlevel : ℕ)
    (h : notlevel = 0 ∨ r = .unary) :
    Runs test (compiled notlevel e) (under notlevel (e.denote test)) := by
  induction e generalizing notlevel with
  | primary a => exact (runs_primary a).underNot notlevel
  | negation t ih =>
      have hruns := ih (notlevel + 1) (.inr rfl)
      rw [under_succ] at hruns
      exact hruns
  | group e ih => exact ((ih 0 (.inl rfl)).expr).underNot notlevel
  | single t ih => exact ih notlevel (.inr rfl)
  | both t c iht ihc =>
      -- a conjunction is no single test, so that no negation stands before it
      obtain rfl := h.resolve_right (by simp)
      exact (iht 0 (.inl rfl)).append (ihc 0 (.inl rfl))
  | only c ih =>
      obtain rfl := h.resolve_right (by simp)
      exact ih 0 (.inl rfl)
  | either c e ihc ihe =>
      obtain rfl := h.resolve_right (by simp)
      exact (ihc 0 (.inl rfl)).orOf (ihe 0 (.inl rfl))

/-! ## What is accepted -/

/-- No negation is left whose operand has not been set. -/
def NoRawNot : Plan α → Prop
  | null => True
  | primary _ next => next.NoRawNot
  | openParen next => next.NoRawNot
  | closeParen next => next.NoRawNot
  | expr p0 next => p0.NoRawNot ∧ next.NoRawNot
  | not _ => False
  | notOf p0 next => p0.NoRawNot ∧ next.NoRawNot
  | or next => next.NoRawNot
  | orOf _ _ next => next.NoRawNot

/-- `or_squish` follows every `p_data`, so none of them is unset in what it gets through. -/
theorem noRawNot_of_orSquish {p result q : Plan α} (h : orSquish result p = .ok q) :
    p.NoRawNot := by
  induction p generalizing result q with
  | null => trivial
  | primary a next ih => exact ih h
  | openParen next ih => exact ih h
  | closeParen next ih => exact ih h
  | expr p0 next ih0 ih =>
      obtain ⟨q0, h0, h⟩ := bind_eq_ok.mp h
      exact ⟨ih0 h0, ih h⟩
  | not next => cases h
  | notOf p0 next ih0 ih =>
      obtain ⟨q0, h0, h⟩ := bind_eq_ok.mp h
      exact ⟨ih0 h0, ih h⟩
  | or next ih =>
      rw [orSquish] at h
      split at h
      · cases h
      · obtain ⟨p1, h1, h⟩ := bind_eq_ok.mp h
        exact ih h1
  | orOf p0 p1 next _ _ ih =>
      rw [orSquish] at h
      split at h
      · cases h
      · obtain ⟨p1, h1, h⟩ := bind_eq_ok.mp h
        exact ih h1

/-- Where there is no negation the pass for negations changes nothing. -/
theorem notSquish_of_noRawNot {p : Plan α} (hp : p.Grouped) (h : p.NoRawNot) :
    notSquish 0 p = .ok p := by
  induction p with
  | null => rfl
  | primary a next ih => simp [notSquish, ih hp h, bind, Except.bind, pure, Except.pure, underNot]
  | openParen next => exact hp.elim
  | closeParen next => exact hp.elim
  | expr p0 next ih0 ih =>
      simp [notSquish, ih0 hp.2.1 h.1, ih hp.2.2 h.2, bind, Except.bind, pure, Except.pure,
        underNot]
  | not next => exact h.elim
  | notOf p0 next => exact hp.elim
  | or next ih => simp [notSquish, ih hp h, bind, Except.bind, pure, Except.pure]
  | orOf p0 p1 next => exact hp.elim

theorem noRawNot_append {p q : Plan α} : (p ++ q).NoRawNot ↔ p.NoRawNot ∧ q.NoRawNot := by
  induction p <;> simp_all [NoRawNot, and_assoc]

theorem plain_of_noRawNot (e : Expression α r) (h : (parens e).NoRawNot) : plain e = true := by
  induction e with
  | primary a => rfl
  | negation t => exact h.elim
  | group e ih => exact ih h.1
  | single t ih => exact ih h
  | both t c iht ihc =>
      rw [parens, noRawNot_append] at h
      simp only [plain, iht h.1, ihc h.2, Bool.and_self]
  | only c ih => exact ih h
  | either c e ihc ihe =>
      rw [parens, noRawNot_append] at h
      simp only [plain, ihc h.1, ihe h.2, Bool.and_self]

/-- What can stand behind a test: nothing, further tests, or an `-o` and what belongs to it. -/
inductive Tail : Plan α → Prop where
  | nil : Tail null
  | tests (e : Expression α .alternation) (h : clear false e = true) : Tail (parens e)
  | alternative (e : Expression α .alternation) (h : clear false e = true) : Tail (or (parens e))

/-- A test and what stands behind it are an expression. -/
theorem Tail.cons {p : Plan α} (h : Tail p) (negated : Bool) (t : Expression α .unary)
    (ht : clear negated t = true) :
    ∃ e : Expression α .alternation, parens t ++ p = parens e ∧ clear negated e = true := by
  cases h with
  | nil => exact ⟨.only (.single t), by rw [append_null]; rfl, ht⟩
  | tests e h =>
      cases e with
      | only c => exact ⟨.only (.both t c), rfl, by simpa [clear, ht] using h⟩
      | either c e =>
          refine ⟨.either (.both t c) e, (append_assoc _ _ _).symm, ?_⟩
          simpa [clear, ht] using h
  | alternative e h => exact ⟨.either (.single t) e, rfl, by simpa [clear, ht] using h⟩

/-- Of a whole plan, one that does not begin with an `-o`, nothing or an expression remains. -/
theorem Tail.eq_parens {p : Plan α} (h : Tail p) (hor : ∀ next, p ≠ or next) (hne : p ≠ null) :
    ∃ e : Expression α .alternation, p = parens e ∧ clear false e = true := by
  cases h with
  | nil => exact absurd rfl hne
  | tests e h => exact ⟨e, rfl, h⟩
  | alternative e h => exact absurd rfl (hor _)

/-- The node under its negations and the nodes behind it are accepted on their own. -/
theorem orSquish_underNot_expr {notlevel : ℕ} {result p0 rest q : Plan α}
    (h : orSquish result (underNot notlevel (expr p0 null) ++ rest) = .ok q) :
    ∃ q0 result', orSquish null p0 = .ok q0 ∧ result' ≠ null ∧
      orSquish result' rest = .ok q := by
  unfold underNot at h
  split at h
  · obtain ⟨q0', h0, h⟩ := bind_eq_ok.mp h
    obtain ⟨q0, h0, -⟩ := bind_eq_ok.mp h0
    exact ⟨q0, _, h0, by simp [append_eq_null], h⟩
  · obtain ⟨q0, h0, h⟩ := bind_eq_ok.mp h
    exact ⟨q0, _, h0, by simp [append_eq_null], h⟩

theorem orSquish_underNot_primary {notlevel : ℕ} {a : α} {result rest q : Plan α}
    (h : orSquish result (underNot notlevel (primary a null) ++ rest) = .ok q) :
    ∃ result', result' ≠ null ∧ orSquish result' rest = .ok q := by
  have htaken : ∀ result rest : Plan α,
      orSquish result (primary a null ++ rest) = orSquish (result ++ primary a null) rest :=
    fun _ _ => rfl
  rw [orSquish_underNot notlevel result rest htaken] at h
  exact ⟨_, by simp [append_eq_null, underNot_ne_null], h⟩

/-- What the passes for negations and alternatives accept reads as tests and alternatives.  The
induction is on the grouped plan, at the top for both states of the pass for negations: outside of
a row of `!`, and inside one, where the next node is the operand. -/
theorem tail_of_squished {p : Plan α} (hp : p.Grouped) :
    (∀ {result p1 q}, notSquish 0 p = .ok p1 → orSquish result p1 = .ok q →
      Tail p ∧ (result = null → ∀ next, p ≠ or next)) ∧
    (∀ {notlevel result p1 q}, notSquish (notlevel + 1) p = .ok p1 → orSquish result p1 = .ok q →
      ∃ (t : Expression α .unary) (rest : Plan α), p = parens t ++ rest ∧ clear true t = true ∧
        Tail rest) := by
  induction p with
  | null =>
      refine ⟨fun _ _ => ⟨.nil, fun _ _ => by simp⟩, ?_⟩
      intro notlevel result p1 q h
      cases h
  | primary a next ih =>
      constructor
      · intro result p1 q h1 h2
        obtain ⟨p1', hnext, hp1⟩ := bind_eq_ok.mp h1
        cases hp1
        obtain ⟨result', -, h2⟩ := orSquish_underNot_primary h2
        obtain ⟨e, he, hclear⟩ := ((ih hp).1 hnext h2).1.cons false (.primary a) rfl
        have htail := Tail.tests e hclear
        rw [← he] at htail
        exact ⟨htail, fun _ _ => by simp⟩
      · intro notlevel result p1 q h1 h2
        obtain ⟨p1', hnext, hp1⟩ := bind_eq_ok.mp h1
        cases hp1
        obtain ⟨result', -, h2⟩ := orSquish_underNot_primary h2
        exact ⟨.primary a, next, rfl, rfl, ((ih hp).1 hnext h2).1⟩
  | expr p0 next ih0 ih =>
      constructor
      · intro result p1 q h1 h2
        obtain ⟨p0', h0, h1'⟩ := bind_eq_ok.mp h1
        obtain ⟨p1', hnext, hp1⟩ := bind_eq_ok.mp h1'
        cases hp1
        obtain ⟨q0, result', h02, -, hrest⟩ := orSquish_underNot_expr h2
        obtain ⟨htail0, hor0⟩ := (ih0 hp.2.1).1 h0 h02
        obtain ⟨e, rfl, hclear⟩ := htail0.eq_parens (hor0 rfl) hp.1
        obtain ⟨e', he, hclear'⟩ := ((ih hp.2.2).1 hnext hrest).1.cons false (.group e)
          hclear
        have htail := Tail.tests e' hclear'
        rw [← he] at htail
        exact ⟨htail, fun _ _ => by simp⟩
      · intro notlevel result p1 q h1 h2
        obtain ⟨_, hp0, h1'⟩ := bind_eq_ok.mp h1
        cases hp0
        obtain ⟨p1', hnext, hp1⟩ := bind_eq_ok.mp h1'
        cases hp1
        obtain ⟨q0, result', h02, -, hrest⟩ := orSquish_underNot_expr h2
        -- the pass for negations went past the group, and nothing was left for it to do there
        have hraw := noRawNot_of_orSquish h02
        obtain ⟨htail0, hor0⟩ := (ih0 hp.2.1).1 (notSquish_of_noRawNot hp.2.1 hraw) h02
        obtain ⟨e, rfl, -⟩ := htail0.eq_parens (hor0 rfl) hp.1
        exact ⟨.group e, next, rfl, plain_of_noRawNot e hraw, ((ih hp.2.2).1 hnext hrest).1⟩
  | not next ih =>
      constructor
      · intro result p1 q h1 h2
        obtain ⟨t, rest, rfl, hclear, htail⟩ := (ih hp).2 h1 h2
        obtain ⟨e, he, hclear'⟩ := htail.cons false (.negation t) hclear
        have htail' := Tail.tests e hclear'
        rw [← he] at htail'
        exact ⟨htail', fun _ _ => by simp⟩
      · intro notlevel result p1 q h1 h2
        obtain ⟨t, rest, rfl, hclear, htail⟩ := (ih hp).2 h1 h2
        exact ⟨.negation t, rest, rfl, hclear, htail⟩
  | or next ih =>
      constructor
      · intro result p1 q h1 h2
        obtain ⟨p1', hnext, hp1⟩ := bind_eq_ok.mp h1
        cases hp1
        rw [or_append, null_append, orSquish] at h2
        split at h2
        · cases h2
        · rename_i hresult
          obtain ⟨p1, h2, h3⟩ := bind_eq_ok.mp h2
          obtain ⟨htail, hor⟩ := (ih hp).1 hnext h2
          have hne : next ≠ null := by
            rintro rfl
            cases hnext
            cases h2
            cases h3
          obtain ⟨e, rfl, hclear⟩ := htail.eq_parens (hor rfl) hne
          exact ⟨.alternative e hclear, fun h => absurd (isNull_iff.mpr h) hresult⟩
      · intro notlevel result p1 q h1
        cases h1
  | openParen next => exact hp.elim
  | closeParen next => exact hp.elim
  | notOf p0 next => exact hp.elim
  | orOf p0 p1 next => exact hp.elim

/-- The rows of nodes that are accepted are the expressions without a negation in parentheses
directly behind a negation. -/
theorem words_of_squish {plan q : Plan α} (hfresh : plan.Fresh) (hne : plan ≠ null)
    (h : squish plan = .ok q) :
    ∃ e : Expression α .alternation, plan = words e ∧ clear false e = true := by
  obtain ⟨p, h1, h⟩ := bind_eq_ok.mp h
  obtain ⟨p1, h2, h3⟩ := bind_eq_ok.mp h
  obtain ⟨hgrouped, rfl⟩ := (parenSquish_eq_ok hfresh).mp h1
  obtain ⟨htail, hor⟩ := (tail_of_squished hgrouped).1 h2 h3
  have hpne : p ≠ null := by
    rintro rfl
    exact hne rfl
  obtain ⟨e, rfl, hclear⟩ := htail.eq_parens (hor rfl) hpne
  exact ⟨e, written_parens e, hclear⟩

/-! ## The words are read in one way only -/

theorem parens_append_ne_or (e : Expression α r) (p q : Plan α) : parens e ++ p ≠ or q := by
  induction e generalizing p with
  | primary a => simp [parens]
  | negation t _ => simp [parens]
  | group e _ => simp [parens]
  | single t ih => exact ih p
  | both t c iht _ =>
      rw [parens, append_assoc]
      exact iht _
  | only c ih => exact ih p
  | either c e ihc _ =>
      rw [parens, append_assoc]
      exact ihc _

/-- What can stand behind a phrase that does not go on. -/
def Ends : Rank → Plan α → Prop
  | .unary, _ => True
  | .conjunction, p => p = null ∨ ∃ q, p = or q
  | .alternation, p => p = null

theorem Ends.ne_parens {p : Plan α} (h : Ends .conjunction p) (e : Expression α r) (q : Plan α) :
    p ≠ parens e ++ q := by
  intro heq
  rcases h with rfl | ⟨q', rfl⟩
  · exact parens_ne_null e (append_eq_null.mp heq.symm).1
  · exact parens_append_ne_or e q q' heq.symm

/-- Two phrases of one rank that are written alike, and end where they are written, are one. -/
theorem parens_cancel (e e' : Expression α r) (p p' : Plan α) (hp : Ends r p) (hp' : Ends r p')
    (h : parens e ++ p = parens e' ++ p') : e = e' ∧ p = p' := by
  induction e generalizing p p' with
  | primary a =>
      cases e' with
      | primary a' => simpa [parens] using h
      | negation t' => simp [parens] at h
      | group e' => simp [parens] at h
  | negation t ih =>
      cases e' with
      | primary a' => simp [parens] at h
      | negation t' =>
          simp only [parens, not_append, Plan.not.injEq] at h
          obtain ⟨rfl, rfl⟩ := ih t' p p' trivial trivial h
          exact ⟨rfl, rfl⟩
      | group e' => simp [parens] at h
  | group e ih =>
      cases e' with
      | primary a' => simp [parens] at h
      | negation t' => simp [parens] at h
      | group e' =>
          simp only [parens, expr_append, null_append, Plan.expr.injEq] at h
          obtain ⟨rfl, -⟩ := ih e' null null rfl rfl (by rw [append_null, append_null, h.1])
          exact ⟨rfl, h.2⟩
  | single t ih =>
      cases e' with
      | single t' =>
          obtain ⟨rfl, rfl⟩ := ih t' p p' trivial trivial h
          exact ⟨rfl, rfl⟩
      | both t' c' =>
          rw [parens, parens, append_assoc] at h
          obtain ⟨-, hrest⟩ := ih t' p _ trivial trivial h
          exact absurd hrest (hp.ne_parens c' p')
  | both t c iht ihc =>
      cases e' with
      | single t' =>
          rw [parens, parens, append_assoc] at h
          obtain ⟨-, hrest⟩ := iht t' _ p' trivial trivial h
          exact absurd hrest.symm (hp'.ne_parens c p)
      | both t' c' =>
          rw [parens, parens, append_assoc, append_assoc] at h
          obtain ⟨rfl, hrest⟩ := iht t' _ _ trivial trivial h
          obtain ⟨rfl, rfl⟩ := ihc c' p p' hp hp' hrest
          exact ⟨rfl, rfl⟩
  | only c ih =>
      cases e' with
      | only c' =>
          obtain ⟨rfl, rfl⟩ := ih c' p p' (.inl hp) (.inl hp') h
          exact ⟨rfl, rfl⟩
      | either c' e' =>
          rw [parens, parens, append_assoc] at h
          obtain ⟨-, hrest⟩ := ih c' p _ (.inl hp) (.inr ⟨_, rfl⟩) h
          rw [show p = null from hp] at hrest
          cases hrest
  | either c e ihc ihe =>
      cases e' with
      | only c' =>
          rw [parens, parens, append_assoc] at h
          obtain ⟨-, hrest⟩ := ihc c' _ p' (.inr ⟨_, rfl⟩) (.inl hp') h
          rw [show p' = null from hp'] at hrest
          cases hrest
      | either c' e' =>
          rw [parens, parens, append_assoc, append_assoc] at h
          obtain ⟨rfl, hrest⟩ := ihc c' _ _ (.inr ⟨_, rfl⟩) (.inr ⟨_, rfl⟩) h
          simp only [Plan.or.injEq] at hrest
          obtain ⟨rfl, rfl⟩ := ihe e' p p' hp hp' hrest
          exact ⟨rfl, rfl⟩

/-- No row of words is two expressions. -/
theorem words_injective {e e' : Expression α .alternation} (h : words e = words e') : e = e' := by
  have hparens : Except.ok (parens e) = (.ok (parens e') : Except PlanFault (Plan α)) := by
    rw [← parenSquish_words, ← parenSquish_words, h]
  refine (parens_cancel e e' null null rfl rfl ?_).1
  rw [append_null, append_null, Except.ok.inj hparens]

/-! ## The passes always end -/

theorem notSquish_ne_fuel (p : Plan α) (notlevel : ℕ) :
    notSquish notlevel p ≠ .error .fuel := by
  induction p generalizing notlevel with
  | null => unfold notSquish; split <;> simp
  | primary a next ih => exact bind_ne_error (ih 0) fun _ => by simp [pure, Except.pure]
  | openParen next ih => exact bind_ne_error (ih 0) fun _ => by simp [pure, Except.pure]
  | closeParen next ih => exact bind_ne_error (ih 0) fun _ => by simp [pure, Except.pure]
  | not next ih => exact ih (notlevel + 1)
  | notOf p0 next _ ih => exact ih (notlevel + 1)
  | or next ih =>
      unfold notSquish
      split
      · exact bind_ne_error (ih 0) fun _ => by simp [pure, Except.pure]
      · simp
  | orOf p0 p1 next _ _ ih =>
      unfold notSquish
      split
      · exact bind_ne_error (ih 0) fun _ => by simp [pure, Except.pure]
      · simp
  | expr p0 next ih0 ih =>
      have hnext : ∀ p0 : Plan α, (do
          let rest ← notSquish 0 next
          return underNot notlevel (expr p0 null) ++ rest : Except PlanFault (Plan α)) ≠
            .error .fuel :=
        fun _ => bind_ne_error (ih 0) fun _ => by simp [pure, Except.pure]
      unfold notSquish
      dsimp only
      split
      · exact bind_ne_error (ih0 0) hnext
      · exact hnext p0

theorem orSquish_ne_fuel (p result : Plan α) : orSquish result p ≠ .error .fuel := by
  induction p generalizing result with
  | null => simp [orSquish]
  | primary a next ih => exact ih _
  | openParen next ih => exact ih _
  | closeParen next ih => exact ih _
  | not next => simp [orSquish]
  | expr p0 next ih0 ih => exact bind_ne_error (ih0 null) fun _ => ih _
  | notOf p0 next ih0 ih => exact bind_ne_error (ih0 null) fun _ => ih _
  | or next ih =>
      unfold orSquish
      split
      · simp
      · refine bind_ne_error (ih null) fun p1 => ?_
        split <;> simp [pure, Except.pure]
  | orOf p0 p1 next _ _ ih =>
      unfold orSquish
      split
      · simp
      · refine bind_ne_error (ih null) fun p1 => ?_
        split <;> simp [pure, Except.pure]

theorem squish_ne_fuel (p : Plan α) : squish p ≠ .error .fuel :=
  bind_ne_error (parenSquish_ne_fuel p) fun p => bind_ne_error (notSquish_ne_fuel p 0) fun p =>
    orSquish_ne_fuel p null

end Plan

end Fsp
