import Mathlib.Order.Defs.Unbundled

/-!
# Tests with effects and their expressions

A test looks at a state, may change it, and answers yes or no.  Tests are joined from left to
right: the second of two joined tests runs only where the first one leaves the answer open.

`Expression` is the language of such tests as command lines write it: primaries, negation, a row of
tests that all have to hold, and alternatives.  Its index is the rank of the phrase, so that every
value is an expression as the grammar has it.  `denote` is what an expression does to a state and
answers; `holds` is the answer alone, for tests whose answers do not depend on the state.
-/

namespace ShortCircuit

/-- A test over the states `σ`. -/
abbrev Test (σ : Type) := σ → Bool × σ

namespace Test

variable {σ : Type}

/-- The opposite answer, with the same effects. -/
def negate (t : Test σ) : Test σ := fun s => (!(t s).1, (t s).2)

/-- Both tests, the second only if the first one holds. -/
def both (t u : Test σ) : Test σ := fun s => if (t s).1 then u (t s).2 else t s

/-- One of the tests, the second only if the first one fails. -/
def either (t u : Test σ) : Test σ := fun s => if (t s).1 then t s else u (t s).2

/-- No run of the test leaves the relation. -/
def Keeps (R : σ → σ → Prop) (t : Test σ) : Prop := ∀ s, R s (t s).2

variable {R : σ → σ → Prop} {t u v : Test σ}

@[simp] theorem negate_negate (t : Test σ) : t.negate.negate = t := by
  funext s
  simp [negate]

theorem both_of_true {s : σ} (h : (t s).1 = true) : both t u s = u (t s).2 := if_pos h

theorem both_of_false {s : σ} (h : (t s).1 = false) : both t u s = t s := by
  simp [both, h]

theorem either_of_true {s : σ} (h : (t s).1 = true) : either t u s = t s := if_pos h

theorem either_of_false {s : σ} (h : (t s).1 = false) : either t u s = u (t s).2 := by
  simp [either, h]

theorem both_assoc (t u v : Test σ) : both (both t u) v = both t (both u v) := by
  funext s
  cases h : (t s).1 with
  | true => simp [both, h]
  | false => simp [both, h]

theorem Keeps.negate (h : Keeps R t) : Keeps R t.negate := fun s => h s

theorem Keeps.both [IsTrans σ R] (ht : Keeps R t) (hu : Keeps R u) : Keeps R (both t u) := by
  intro s
  cases h : (t s).1 with
  | true =>
      rw [both_of_true h]
      exact IsTrans.trans _ _ _ (ht s) (hu (t s).2)
  | false =>
      rw [both_of_false h]
      exact ht s

theorem Keeps.either [IsTrans σ R] (ht : Keeps R t) (hu : Keeps R u) : Keeps R (either t u) := by
  intro s
  cases h : (t s).1 with
  | true =>
      rw [either_of_true h]
      exact ht s
  | false =>
      rw [either_of_false h]
      exact IsTrans.trans _ _ _ (ht s) (hu (t s).2)

end Test

/-- The ranks of the phrases, from the one that binds most. -/
inductive Rank where
  | unary | conjunction | alternation
  deriving DecidableEq, Repr

/-- The expressions over the primaries `α`. -/
inductive Expression (α : Type) : Rank → Type where
  | primary (a : α) : Expression α .unary
  | negation (t : Expression α .unary) : Expression α .unary
  | group (e : Expression α .alternation) : Expression α .unary
  | single (t : Expression α .unary) : Expression α .conjunction
  | both (t : Expression α .unary) (c : Expression α .conjunction) : Expression α .conjunction
  | only (c : Expression α .conjunction) : Expression α .alternation
  | either (c : Expression α .conjunction) (e : Expression α .alternation) :
      Expression α .alternation

namespace Expression

variable {α σ : Type} {r : Rank}

/-- What the expression answers and does, for tests that do what `test` says. -/
def denote (test : α → Test σ) : {r : Rank} → Expression α r → Test σ
  | _, primary a => test a
  | _, negation t => (t.denote test).negate
  | _, group e => e.denote test
  | _, single t => t.denote test
  | _, both t c => (t.denote test).both (c.denote test)
  | _, only c => c.denote test
  | _, either c e => (c.denote test).either (e.denote test)

/-- What the expression answers, for tests that answer what `p` says. -/
def holds (p : α → Bool) : {r : Rank} → Expression α r → Bool
  | _, primary a => p a
  | _, negation t => !t.holds p
  | _, group e => e.holds p
  | _, single t => t.holds p
  | _, both t c => t.holds p && c.holds p
  | _, only c => c.holds p
  | _, either c e => c.holds p || e.holds p

/-- The primaries of the expression. -/
def primaries : {r : Rank} → Expression α r → List α
  | _, primary a => [a]
  | _, negation t => t.primaries
  | _, group e => e.primaries
  | _, single t => t.primaries
  | _, both t c => t.primaries ++ c.primaries
  | _, only c => c.primaries
  | _, either c e => c.primaries ++ e.primaries

/-- What every primary keeps, the expression keeps. -/
theorem keeps_denote {R : σ → σ → Prop} [IsTrans σ R] {test : α → Test σ} (e : Expression α r)
    (h : ∀ a ∈ e.primaries, (test a).Keeps R) : (e.denote test).Keeps R := by
  induction e with
  | primary a => exact h a (by simp [primaries])
  | negation t ih => exact (ih h).negate
  | group e ih => exact ih h
  | single t ih => exact ih h
  | both t c iht ihc =>
      exact (iht fun a ha => h a (by simp [primaries, ha])).both
        (ihc fun a ha => h a (by simp [primaries, ha]))
  | only c ih => exact ih h
  | either c e ihc ihe =>
      exact (ihc fun a ha => h a (by simp [primaries, ha])).either
        (ihe fun a ha => h a (by simp [primaries, ha]))

/-- Where the answers of the primaries do not depend on the state, the answer of the expression
does not either. -/
theorem denote_fst {test : α → Test σ} {p : α → Bool} (e : Expression α r)
    (h : ∀ a ∈ e.primaries, ∀ s, (test a s).1 = p a) (s : σ) :
    (e.denote test s).1 = e.holds p := by
  induction e generalizing s with
  | primary a => exact h a (by simp [primaries]) s
  | negation t ih => simp [denote, holds, Test.negate, ih h]
  | group e ih => exact ih h s
  | single t ih => exact ih h s
  | both t c iht ihc =>
      have ht := iht (fun a ha => h a (by simp [primaries, ha])) s
      have hc := ihc (fun a ha => h a (by simp [primaries, ha]))
      cases hb : t.holds p with
      | true => simp [denote, holds, Test.both_of_true (ht.trans hb), hc, hb]
      | false => simp [denote, holds, Test.both_of_false (ht.trans hb), ht, hb]
  | only c ih => exact ih h s
  | either c e ihc ihe =>
      have hc := ihc (fun a ha => h a (by simp [primaries, ha])) s
      have he := ihe (fun a ha => h a (by simp [primaries, ha]))
      cases hb : c.holds p with
      | true => simp [denote, holds, Test.either_of_true (hc.trans hb), hc, hb]
      | false => simp [denote, holds, Test.either_of_false (hc.trans hb), he, hb]

/-- Whether one of the primaries that `q` marks is run, for tests that answer what `p` says. -/
def reaches (p q : α → Bool) : {r : Rank} → Expression α r → Bool
  | _, primary a => q a
  | _, negation t => t.reaches p q
  | _, group e => e.reaches p q
  | _, single t => t.reaches p q
  | _, both t c => t.reaches p q || (t.holds p && c.reaches p q)
  | _, only c => c.reaches p q
  | _, either c e => c.reaches p q || (!c.holds p && e.reaches p q)

/-- A flag that the marked primaries set, and that the others leave alone, is set after the
expression if one of them was reached. -/
theorem flag_denote {test : α → Test σ} {p q : α → Bool} {flag : σ → Bool} (e : Expression α r)
    (h : ∀ a ∈ e.primaries, ∀ s, (test a s).1 = p a ∧ flag (test a s).2 = (flag s || q a)) (s : σ) :
    flag (e.denote test s).2 = (flag s || e.reaches p q) := by
  induction e generalizing s with
  | primary a => exact (h a (by simp [primaries]) s).2
  | negation t ih => exact ih h s
  | group e ih => exact ih h s
  | single t ih => exact ih h s
  | both t c iht ihc =>
      have hmem : ∀ a ∈ t.primaries, a ∈ (both t c).primaries := fun a ha => by simp [primaries, ha]
      have hflag := iht (fun a ha => h a (hmem a ha)) s
      have hfst := t.denote_fst (fun a ha s => (h a (hmem a ha) s).1) s
      have hc := ihc (fun a ha => h a (by simp [primaries, ha]))
      cases hb : t.holds p with
      | true =>
          rw [denote, Test.both_of_true (hfst.trans hb), hc, hflag]
          simp [reaches, hb, Bool.or_assoc]
      | false =>
          rw [denote, Test.both_of_false (hfst.trans hb), hflag]
          simp [reaches, hb]
  | only c ih => exact ih h s
  | either c e ihc ihe =>
      have hmem : ∀ a ∈ c.primaries, a ∈ (either c e).primaries := fun a ha => by
        simp [primaries, ha]
      have hflag := ihc (fun a ha => h a (hmem a ha)) s
      have hfst := c.denote_fst (fun a ha s => (h a (hmem a ha) s).1) s
      have he := ihe (fun a ha => h a (by simp [primaries, ha]))
      cases hb : c.holds p with
      | true =>
          rw [denote, Test.either_of_true (hfst.trans hb), hflag]
          simp [reaches, hb]
      | false =>
          rw [denote, Test.either_of_false (hfst.trans hb), he, hflag]
          simp [reaches, hb, Bool.or_assoc]

/-! ## A primary behind an expression -/

/-- The row of tests with one more primary at its end. -/
def conjoin (a : α) : Expression α .conjunction → Expression α .conjunction
  | single t => both t (single (primary a))
  | both t c => both t (c.conjoin a)

/-- The alternatives with one more primary behind the last of them. -/
def andLast (a : α) : Expression α .alternation → Expression α .alternation
  | only c => only (c.conjoin a)
  | either c e => either c (e.andLast a)

/-- The alternatives of an expression. -/
def alternatives : Expression α .alternation → List (Expression α .conjunction)
  | only c => [c]
  | either c e => c :: e.alternatives

@[simp] theorem alternatives_ne_nil (e : Expression α .alternation) : e.alternatives ≠ [] := by
  cases e <;> simp [alternatives]

theorem denote_conjoin (test : α → Test σ) (a : α) (c : Expression α .conjunction) :
    (c.conjoin a).denote test = (c.denote test).both (test a) := by
  cases c with
  | single t => simp only [conjoin, denote]
  | both t c =>
      calc ((both t c).conjoin a).denote test
          = (t.denote test).both ((c.conjoin a).denote test) := by simp only [conjoin, denote]
        _ = (t.denote test).both ((c.denote test).both (test a)) := by
            rw [denote_conjoin test a c]
        _ = ((both t c).denote test).both (test a) := by
            simp only [denote, Test.both_assoc]

theorem mem_primaries_conjoin {a b : α} (c : Expression α .conjunction)
    (h : b ∈ (c.conjoin a).primaries) : b = a ∨ b ∈ c.primaries := by
  cases c with
  | single t => simpa [conjoin, primaries, or_comm] using h
  | both t c =>
      simp only [conjoin, primaries, List.mem_append] at h ⊢
      rcases h with h | h
      · exact .inr (.inl h)
      · exact (mem_primaries_conjoin c h).imp_right .inr

theorem mem_primaries_andLast {a b : α} (e : Expression α .alternation)
    (h : b ∈ (e.andLast a).primaries) : b = a ∨ b ∈ e.primaries := by
  cases e with
  | only c =>
      simp only [andLast, primaries] at h ⊢
      exact mem_primaries_conjoin c h
  | either c e =>
      simp only [andLast, primaries, List.mem_append] at h ⊢
      rcases h with h | h
      · exact .inr (.inl h)
      · exact (mem_primaries_andLast e h).imp_right .inr

theorem reaches_conjoin {p q : α → Bool} {a : α} (h : q a = false)
    (c : Expression α .conjunction) : (c.conjoin a).reaches p q = c.reaches p q := by
  cases c with
  | single t => simp [conjoin, reaches, h]
  | both t c => simp [conjoin, reaches, reaches_conjoin h c]

theorem reaches_andLast {p q : α → Bool} {a : α} (h : q a = false)
    (e : Expression α .alternation) : (e.andLast a).reaches p q = e.reaches p q := by
  cases e with
  | only c => simp [andLast, reaches, reaches_conjoin h c]
  | either c e => simp [andLast, reaches, reaches_andLast h e]

end Expression

end ShortCircuit
