import Fsp.Find.Plan
import Mathlib.Data.Nat.Init

/-!
# The parentheses of a plan

`paren_squish` takes the row of nodes that the command line gave and turns every pair of parentheses
into one node.  `written` undoes it, and the rows that are accepted are exactly the written forms of
the plans that are `Grouped`: no parenthesis is left and none was empty.
-/

namespace Fsp

open ShortCircuit

namespace Plan

variable {α : Type}

/-! ## Lists of nodes -/

@[simp] theorem null_append (p : Plan α) : null ++ p = p := rfl

@[simp] theorem primary_append (a : α) (p q : Plan α) :
    primary a p ++ q = primary a (p ++ q) := rfl

@[simp] theorem openParen_append (p q : Plan α) : openParen p ++ q = openParen (p ++ q) := rfl

@[simp] theorem closeParen_append (p q : Plan α) : closeParen p ++ q = closeParen (p ++ q) := rfl

@[simp] theorem expr_append (p0 p q : Plan α) : expr p0 p ++ q = expr p0 (p ++ q) := rfl

@[simp] theorem not_append (p q : Plan α) : not p ++ q = not (p ++ q) := rfl

@[simp] theorem notOf_append (p0 p q : Plan α) : notOf p0 p ++ q = notOf p0 (p ++ q) := rfl

@[simp] theorem or_append (p q : Plan α) : or p ++ q = or (p ++ q) := rfl

@[simp] theorem orOf_append (p0 p1 p q : Plan α) :
    orOf p0 p1 p ++ q = orOf p0 p1 (p ++ q) := rfl

@[simp] theorem append_null (p : Plan α) : p ++ null = p := by
  induction p with
  | null => rfl
  | primary a next ih => rw [primary_append, ih]
  | openParen next ih => rw [openParen_append, ih]
  | closeParen next ih => rw [closeParen_append, ih]
  | expr p0 next _ ih => rw [expr_append, ih]
  | not next ih => rw [not_append, ih]
  | notOf p0 next _ ih => rw [notOf_append, ih]
  | or next ih => rw [or_append, ih]
  | orOf p0 p1 next _ _ ih => rw [orOf_append, ih]

theorem append_assoc (p q r : Plan α) : p ++ q ++ r = p ++ (q ++ r) := by
  induction p with
  | null => rfl
  | primary a next ih => simp only [primary_append, ih]
  | openParen next ih => simp only [openParen_append, ih]
  | closeParen next ih => simp only [closeParen_append, ih]
  | expr p0 next _ ih => simp only [expr_append, ih]
  | not next ih => simp only [not_append, ih]
  | notOf p0 next _ ih => simp only [notOf_append, ih]
  | or next ih => simp only [or_append, ih]
  | orOf p0 p1 next _ _ ih => simp only [orOf_append, ih]

theorem append_eq_null {p q : Plan α} : p ++ q = null ↔ p = null ∧ q = null := by
  cases p <;> simp

theorem isNull_iff {p : Plan α} : p.isNull = true ↔ p = null := by
  cases p <;> simp [isNull]

theorem isNull_eq_false {p : Plan α} : p.isNull = false ↔ p ≠ null := by
  rw [← Bool.not_eq_true, isNull_iff]

@[simp] theorem length_append (p q : Plan α) : (p ++ q).length = p.length + q.length := by
  induction p with
  | null => simp [length]
  | primary a next ih => simp only [primary_append, length, ih]; omega
  | openParen next ih => simp only [openParen_append, length, ih]; omega
  | closeParen next ih => simp only [closeParen_append, length, ih]; omega
  | expr p0 next _ ih => simp only [expr_append, length, ih]; omega
  | not next ih => simp only [not_append, length, ih]; omega
  | notOf p0 next _ ih => simp only [notOf_append, length, ih]; omega
  | or next ih => simp only [or_append, length, ih]; omega
  | orOf p0 p1 next _ _ ih => simp only [orOf_append, length, ih]; omega

/-- The row has only nodes as the command line gives them. -/
def Fresh : Plan α → Prop
  | null => True
  | primary _ next => next.Fresh
  | openParen next => next.Fresh
  | closeParen next => next.Fresh
  | not next => next.Fresh
  | or next => next.Fresh
  | expr _ _ => False
  | notOf _ _ => False
  | orOf _ _ _ => False

/-- No parenthesis is left, no group is empty, and the operators have no operands yet. -/
def Grouped : Plan α → Prop
  | null => True
  | primary _ next => next.Grouped
  | expr p0 next => p0 ≠ null ∧ p0.Grouped ∧ next.Grouped
  | not next => next.Grouped
  | or next => next.Grouped
  | openParen _ => False
  | closeParen _ => False
  | notOf _ _ => False
  | orOf _ _ _ => False

/-- The row of nodes that a grouped plan comes from. -/
def written : Plan α → Plan α
  | null => null
  | primary a next => primary a next.written
  | expr p0 next => openParen (p0.written ++ closeParen next.written)
  | not next => not next.written
  | or next => or next.written
  | openParen next => openParen next.written
  | closeParen next => closeParen next.written
  | notOf p0 next => notOf p0 next.written
  | orOf p0 p1 next => orOf p0 p1 next.written

theorem Grouped.append {p q : Plan α} (hp : p.Grouped) (hq : q.Grouped) : (p ++ q).Grouped := by
  induction p with
  | null => exact hq
  | primary a next ih => exact ih hp
  | expr p0 next _ ih => exact ⟨hp.1, hp.2.1, ih hp.2.2⟩
  | not next ih => exact ih hp
  | or next ih => exact ih hp
  | openParen next => exact hp.elim
  | closeParen next => exact hp.elim
  | notOf p0 next => exact hp.elim
  | orOf p0 p1 next => exact hp.elim

theorem written_append (p q : Plan α) : (p ++ q).written = p.written ++ q.written := by
  induction p with
  | null => rfl
  | primary a next ih => simp only [primary_append, written, ih]
  | expr p0 next _ ih =>
      simp only [expr_append, written, ih, openParen_append, append_assoc, closeParen_append]
  | not next ih => simp only [not_append, written, ih]
  | or next ih => simp only [or_append, written, ih]
  | openParen next ih => simp only [openParen_append, written, ih]
  | closeParen next ih => simp only [closeParen_append, written, ih]
  | notOf p0 next _ ih => simp only [notOf_append, written, ih]
  | orOf p0 p1 next _ _ ih => simp only [orOf_append, written, ih]

theorem fresh_append {p q : Plan α} : (p ++ q).Fresh ↔ p.Fresh ∧ q.Fresh := by
  induction p <;> simp_all [Fresh]

/-- What a grouped plan comes from is a row of fresh nodes. -/
theorem Grouped.fresh_written {p : Plan α} (h : p.Grouped) : p.written.Fresh := by
  induction p with
  | null => trivial
  | primary a next ih => exact ih h
  | expr p0 next ih0 ih => exact fresh_append.mpr ⟨ih0 h.2.1, ih h.2.2⟩
  | not next ih => exact ih h
  | or next ih => exact ih h
  | openParen next => exact h.elim
  | closeParen next => exact h.elim
  | notOf p0 next => exact h.elim
  | orOf p0 p1 next => exact h.elim

end Plan

/-- A sequence of two steps succeeds when both do. -/
theorem bind_eq_ok {ε α β : Type} {x : Except ε α} {f : α → Except ε β} {b : β} :
    (x >>= f) = .ok b ↔ ∃ a, x = .ok a ∧ f a = .ok b := by
  cases x with
  | error e => simp [bind, Except.bind]
  | ok a => simp [bind, Except.bind]

/-- A sequence of two steps fails in no way that none of them fails in. -/
theorem bind_ne_error {ε α β : Type} {x : Except ε α} {f : α → Except ε β} {e : ε}
    (hx : x ≠ .error e) (hf : ∀ a, f a ≠ .error e) : (x >>= f) ≠ .error e := by
  cases x with
  | error e' => simpa [bind, Except.bind] using hx
  | ok a => exact hf a

namespace Plan

variable {α : Type}

/-! ## What is written is read back -/

/-- The loop inside parentheses takes up what a grouped plan was written as, whatever stands behind
it.  The induction is on the plan; for a group the loop runs inside itself. -/
theorem slurp_written {p : Plan α} (hp : p.Grouped) (rest subplan : Plan α) (fuel : ℕ)
    (hfuel : 2 * (p.written ++ rest).length + 1 ≤ fuel) :
    ∃ left, 2 * rest.length + 1 ≤ left ∧
      slurp fuel subplan (p.written ++ rest) = slurp left (subplan ++ p) rest := by
  induction p generalizing rest subplan fuel with
  | null => exact ⟨fuel, hfuel, by rw [append_null]; rfl⟩
  | primary a next ih =>
      -- a node that opens no group is taken up by one turn of the loop
      simp only [written, primary_append, length] at hfuel
      obtain ⟨f, rfl⟩ : ∃ f, fuel = f + 2 := ⟨fuel - 2, by omega⟩
      obtain ⟨left, hleft, heq⟩ := ih hp rest (subplan ++ primary a null) (f + 1) (by omega)
      refine ⟨left, hleft, ?_⟩
      rw [append_assoc] at heq
      exact heq
  | expr p0 next ih0 ih =>
      simp only [written, openParen_append, append_assoc, closeParen_append, length,
        length_append] at hfuel ih ih0
      obtain ⟨f, rfl⟩ : ∃ f, fuel = f + 3 := ⟨fuel - 3, by omega⟩
      -- the inner loop stops at the closing parenthesis of the group
      obtain ⟨inner, hinner, hin⟩ := ih0 hp.2.1 (closeParen (next.written ++ rest)) null
        (f + 1) (by simp only [length, length_append]; omega)
      obtain ⟨i, rfl⟩ : ∃ i, inner = i + 2 := ⟨inner - 2, by simp only [length] at hinner; omega⟩
      obtain ⟨left, hleft, heq⟩ := ih hp.2.2 rest (subplan ++ expr p0 null) (f + 2)
        (by omega)
      refine ⟨left, hleft, ?_⟩
      have hyank : yankExpr (f + 2) (openParen (p0.written ++ closeParen (next.written ++ rest)))
          = .ok (expr p0 null, next.written ++ rest) := by
        calc yankExpr (f + 2) (openParen (p0.written ++ closeParen (next.written ++ rest)))
            = slurp (i + 2) p0 (closeParen (next.written ++ rest)) := hin
          _ = .ok (expr p0 null, next.written ++ rest) := by
              simp [slurp, yankExpr, yankNode, bind, Except.bind, isNull_eq_false.mpr hp.1]
      rw [append_assoc] at heq
      simp only [written, openParen_append, append_assoc, closeParen_append]
      rw [slurp, hyank]
      exact heq
  | not next ih =>
      simp only [written, not_append, length] at hfuel
      obtain ⟨f, rfl⟩ : ∃ f, fuel = f + 2 := ⟨fuel - 2, by omega⟩
      obtain ⟨left, hleft, heq⟩ := ih hp rest (subplan ++ not null) (f + 1) (by omega)
      refine ⟨left, hleft, ?_⟩
      rw [append_assoc] at heq
      exact heq
  | or next ih =>
      simp only [written, or_append, length] at hfuel
      obtain ⟨f, rfl⟩ : ∃ f, fuel = f + 2 := ⟨fuel - 2, by omega⟩
      obtain ⟨left, hleft, heq⟩ := ih hp rest (subplan ++ or null) (f + 1) (by omega)
      refine ⟨left, hleft, ?_⟩
      rw [append_assoc] at heq
      exact heq
  | openParen next => exact hp.elim
  | closeParen next => exact hp.elim
  | notOf p0 next => exact hp.elim
  | orOf p0 p1 next => exact hp.elim

/-- A written group is yanked as one node. -/
theorem yankExpr_group {p0 : Plan α} (hp : p0.Grouped) (hne : p0 ≠ null) (rest : Plan α)
    (fuel : ℕ) (hfuel : 2 * (p0.written ++ closeParen rest).length + 2 ≤ fuel) :
    yankExpr fuel (openParen (p0.written ++ closeParen rest)) = .ok (expr p0 null, rest) := by
  obtain ⟨f, rfl⟩ : ∃ f, fuel = f + 1 := ⟨fuel - 1, by omega⟩
  obtain ⟨inner, hinner, hin⟩ := slurp_written hp (closeParen rest) null f (by omega)
  obtain ⟨i, rfl⟩ : ∃ i, inner = i + 2 := ⟨inner - 2, by simp only [length] at hinner; omega⟩
  calc yankExpr (f + 1) (openParen (p0.written ++ closeParen rest))
      = slurp (i + 2) p0 (closeParen rest) := hin
    _ = .ok (expr p0 null, rest) := by
        simp [slurp, yankExpr, yankNode, bind, Except.bind, isNull_eq_false.mpr hne]

theorem parenLoop_written {p : Plan α} (hp : p.Grouped) (result : Plan α) (fuel : ℕ)
    (hfuel : 2 * p.written.length + 2 ≤ fuel) :
    parenLoop fuel result p.written = .ok (result ++ p) := by
  induction p generalizing result fuel with
  | null =>
      obtain ⟨f, rfl⟩ : ∃ f, fuel = f + 2 := ⟨fuel - 2, by omega⟩
      rw [append_null]
      rfl
  | primary a next ih =>
      simp only [written, length] at hfuel
      obtain ⟨f, rfl⟩ : ∃ f, fuel = f + 2 := ⟨fuel - 2, by omega⟩
      have heq := ih hp (result ++ primary a null) (f + 1) (by omega)
      rw [append_assoc] at heq
      exact heq
  | expr p0 next _ ih =>
      simp only [written, length, length_append] at hfuel
      obtain ⟨f, rfl⟩ : ∃ f, fuel = f + 1 := ⟨fuel - 1, by omega⟩
      have hyank := yankExpr_group hp.2.1 hp.1 next.written f
        (by simp only [length, length_append]; omega)
      have heq := ih hp.2.2 (result ++ expr p0 null) f (by omega)
      rw [append_assoc] at heq
      rw [written, parenLoop, hyank]
      exact heq
  | not next ih =>
      simp only [written, length] at hfuel
      obtain ⟨f, rfl⟩ : ∃ f, fuel = f + 2 := ⟨fuel - 2, by omega⟩
      have heq := ih hp (result ++ not null) (f + 1) (by omega)
      rw [append_assoc] at heq
      exact heq
  | or next ih =>
      simp only [written, length] at hfuel
      obtain ⟨f, rfl⟩ : ∃ f, fuel = f + 2 := ⟨fuel - 2, by omega⟩
      have heq := ih hp (result ++ or null) (f + 1) (by omega)
      rw [append_assoc] at heq
      exact heq
  | openParen next => exact hp.elim
  | closeParen next => exact hp.elim
  | notOf p0 next => exact hp.elim
  | orOf p0 p1 next => exact hp.elim

/-! ## What is read was written so -/

/-- What `yankexpr` can hand out: the end, a closing parenthesis, or an expression whose written
form stood at the front. -/
inductive Yanked (plan : Plan α) : Plan α → Plan α → Prop where
  | done (h : plan = null) : Yanked plan null null
  | close (rest : Plan α) (h : plan = closeParen rest) : Yanked plan (closeParen null) rest
  | found (e rest : Plan α) (he : e.Grouped) (hne : e ≠ null) (h : plan = e.written ++ rest) :
      Yanked plan e rest

/-- The two loops of `yankexpr` hand out nothing that the row does not have. -/
theorem yanked_of_ok (fuel : ℕ) :
    (∀ {plan e rest : Plan α}, plan.Fresh → yankExpr fuel plan = .ok (e, rest) →
      Yanked plan e rest) ∧
    (∀ {subplan plan e rest : Plan α}, plan.Fresh → slurp fuel subplan plan = .ok (e, rest) →
      ∃ p, e = expr (subplan ++ p) null ∧ subplan ++ p ≠ null ∧ p.Grouped ∧
        plan = p.written ++ closeParen rest) := by
  induction fuel with
  | zero =>
      constructor
      · intro plan e rest _ h
        cases h
      · intro subplan plan e rest _ h
        cases h
  | succ fuel ih =>
      constructor
      · intro plan e rest hfresh h
        cases plan with
        | null =>
            cases h
            exact .done rfl
        | openParen next =>
            have hs : slurp fuel null next = .ok (e, rest) := h
            obtain ⟨p, rfl, hne, hp, hplan⟩ := ih.2 (show next.Fresh from hfresh) hs
            refine .found _ _ ⟨hne, hp, trivial⟩ (by simp) ?_
            simp [hplan, written, append_assoc]
        | closeParen next =>
            cases h
            exact .close _ rfl
        | primary a next =>
            cases h
            exact .found _ _ trivial (by simp) rfl
        | not next =>
            cases h
            exact .found _ _ trivial (by simp) rfl
        | or next =>
            cases h
            exact .found _ _ trivial (by simp) rfl
        | expr p0 next => exact hfresh.elim
        | notOf p0 next => exact hfresh.elim
        | orOf p0 p1 next => exact hfresh.elim
      · intro subplan plan e rest hfresh h
        rw [slurp] at h
        obtain ⟨⟨next, plan'⟩, hyank, h⟩ := bind_eq_ok.mp h
        have hy := ih.1 hfresh hyank
        -- the induction hypothesis for the rest of the loop, once more has been collected
        have hgo : ∀ {e' : Plan α}, e'.Grouped → plan = e'.written ++ plan' →
            slurp fuel (subplan ++ e') plan' = .ok (e, rest) →
            ∃ p, e = expr (subplan ++ p) null ∧ subplan ++ p ≠ null ∧ p.Grouped ∧
              plan = p.written ++ closeParen rest := by
          intro e' he' hplan hs
          rw [hplan, fresh_append] at hfresh
          obtain ⟨p, rfl, hp, hgrouped, hrest⟩ := ih.2 hfresh.2 hs
          refine ⟨e' ++ p, by rw [append_assoc], by rwa [← append_assoc], he'.append hgrouped, ?_⟩
          rw [hplan, hrest, written_append, append_assoc]
        cases hy with
        | done hplan => cases h
        | close rest' hplan =>
            by_cases hnull : subplan.isNull = true
            · simp [hnull] at h
            · simp only [hnull] at h
              cases h
              refine ⟨null, by rw [append_null], ?_, trivial, hplan⟩
              rw [append_null]
              exact fun heq => hnull (isNull_iff.mpr heq)
        | found e' rest' he hne hplan =>
            cases next with
            | null => exact absurd rfl hne
            | closeParen _ => exact he.elim
            | openParen _ => exact he.elim
            | notOf _ _ => exact he.elim
            | orOf _ _ _ => exact he.elim
            | primary a next => exact hgo he hplan h
            | expr p0 next => exact hgo he hplan h
            | not next => exact hgo he hplan h
            | or next => exact hgo he hplan h

theorem parenLoop_ok {fuel : ℕ} {result plan q : Plan α} (hfresh : plan.Fresh)
    (h : parenLoop fuel result plan = .ok q) :
    ∃ p, q = result ++ p ∧ p.Grouped ∧ plan = p.written := by
  induction fuel generalizing result plan with
  | zero => cases h
  | succ fuel ih =>
      rw [parenLoop] at h
      obtain ⟨⟨next, plan'⟩, hyank, h⟩ := bind_eq_ok.mp h
      have hgo : ∀ {e' : Plan α}, e'.Grouped → plan = e'.written ++ plan' →
          parenLoop fuel (result ++ e') plan' = .ok q →
          ∃ p, q = result ++ p ∧ p.Grouped ∧ plan = p.written := by
        intro e' he' hplan hs
        rw [hplan, fresh_append] at hfresh
        obtain ⟨p, rfl, hgrouped, hrest⟩ := ih hfresh.2 hs
        refine ⟨e' ++ p, by rw [append_assoc], he'.append hgrouped, ?_⟩
        rw [hplan, hrest, written_append]
      cases (yanked_of_ok fuel).1 hfresh hyank with
      | done hplan =>
          cases h
          exact ⟨null, by rw [append_null], trivial, hplan⟩
      | close rest' hplan => cases h
      | found e' rest' he hne hplan =>
          cases next with
          | null => exact absurd rfl hne
          | closeParen _ => exact he.elim
          | openParen _ => exact he.elim
          | notOf _ _ => exact he.elim
          | orOf _ _ _ => exact he.elim
          | primary a next => exact hgo he hplan h
          | expr p0 next => exact hgo he hplan h
          | not next => exact hgo he hplan h
          | or next => exact hgo he hplan h

/-! ## The fuel suffices -/

/-- What is yanked is taken off the row. -/
theorem length_of_yankExpr (fuel : ℕ) :
    (∀ {plan e rest : Plan α}, yankExpr fuel plan = .ok (e, rest) → e ≠ null →
      rest.length < plan.length) ∧
    (∀ {subplan plan e rest : Plan α}, slurp fuel subplan plan = .ok (e, rest) →
      rest.length < plan.length) := by
  induction fuel with
  | zero =>
      constructor
      · intro plan e rest h
        cases h
      · intro subplan plan e rest h
        cases h
  | succ fuel ih =>
      constructor
      · intro plan e rest h hne
        cases plan with
        | null =>
            cases h
            exact absurd rfl hne
        | openParen next =>
            have hs : slurp fuel null next = .ok (e, rest) := h
            exact Nat.lt_succ_of_lt (ih.2 hs)
        | _ =>
            cases h
            exact Nat.lt_succ_self _
      · intro subplan plan e rest h
        rw [slurp] at h
        obtain ⟨⟨next, plan'⟩, hyank, h⟩ := bind_eq_ok.mp h
        have hshort := ih.1 hyank
        cases next with
        | null => cases h
        | closeParen _ =>
            have hlt := hshort (by simp)
            by_cases hnull : subplan.isNull = true
            · simp [hnull] at h
            · simp only [hnull] at h
              cases h
              exact hlt
        | _ => exact (ih.2 h).trans (hshort (by simp))

theorem yankExpr_ne_fuel (fuel : ℕ) :
    (∀ {plan : Plan α}, 2 * plan.length + 1 ≤ fuel → yankExpr fuel plan ≠ .error .fuel) ∧
    (∀ {subplan plan : Plan α}, 2 * plan.length + 2 ≤ fuel →
      slurp fuel subplan plan ≠ .error .fuel) := by
  induction fuel with
  | zero =>
      constructor
      · intro plan h
        omega
      · intro subplan plan h
        omega
  | succ fuel ih =>
      constructor
      · intro plan hfuel h
        cases plan with
        | openParen next =>
            have hs : slurp fuel null next = .error .fuel := h
            exact ih.2 (by simp only [length] at hfuel; omega) hs
        | _ => cases h
      · intro subplan plan hfuel h
        rw [slurp] at h
        cases hyank : yankExpr fuel plan with
        | error f =>
            rw [hyank] at h
            cases h
            exact ih.1 (by omega) hyank
        | ok r =>
            obtain ⟨next, plan'⟩ := r
            rw [hyank] at h
            have hshort := (length_of_yankExpr fuel).1 hyank
            cases next with
            | null => cases h
            | closeParen _ =>
                by_cases hnull : subplan.isNull = true
                · simp [hnull, bind, Except.bind] at h
                · simp [hnull, bind, Except.bind] at h
            | _ =>
                have hlt := hshort (by simp)
                exact ih.2 (by omega) h

theorem parenLoop_ne_fuel {fuel : ℕ} {result plan : Plan α} (hfuel : 2 * plan.length + 2 ≤ fuel) :
    parenLoop fuel result plan ≠ .error .fuel := by
  induction fuel generalizing result plan with
  | zero => omega
  | succ fuel ih =>
      intro h
      rw [parenLoop] at h
      cases hyank : yankExpr fuel plan with
      | error f =>
          rw [hyank] at h
          cases h
          exact (yankExpr_ne_fuel fuel).1 (by omega) hyank
      | ok r =>
          obtain ⟨next, plan'⟩ := r
          rw [hyank] at h
          have hshort := (length_of_yankExpr fuel).1 hyank
          cases next with
          | null => cases h
          | closeParen _ => cases h
          | _ =>
              have hlt := hshort (by simp)
              exact ih (by omega) h

theorem parenSquish_ne_fuel (plan : Plan α) : parenSquish plan ≠ .error .fuel :=
  parenLoop_ne_fuel (Nat.le_refl _)

/-! ## What is accepted -/

/-- `paren_squish` accepts the written forms of grouped plans and nothing else. -/
theorem parenSquish_eq_ok {plan p : Plan α} (hfresh : plan.Fresh) :
    parenSquish plan = .ok p ↔ p.Grouped ∧ plan = p.written := by
  constructor
  · intro h
    obtain ⟨q, rfl, hgrouped, hplan⟩ := parenLoop_ok hfresh h
    exact ⟨hgrouped, hplan⟩
  · intro h
    rw [parenSquish, h.2, parenLoop_written h.1 null _ (Nat.le_refl _), null_append]

end Plan

end Fsp
