import Fsp.Find.Options

/-!
# What an ffind command does to a file

The words of a command give a row of fresh nodes, so what `find_formplan` accepts is an expression,
and its plan does to every file what the expression says.  Where no primary of the command produces
output a `-print` is put behind the whole row, which is behind the last alternative only.
-/

namespace Fsp

open Bytes ShortCircuit Plan

/-! ## The nodes of a command line -/

/-- The primary produces output, so that `isoutput` is set for it. -/
def Primary.output : Primary → Bool
  | exec _ _ => true
  | ls => true
  | print => true
  | _ => false

namespace Plan

variable {α : Type}

/-- All primaries of a row of fresh nodes. -/
def Has (P : α → Prop) : Plan α → Prop
  | null => True
  | primary a next => P a ∧ next.Has P
  | openParen next => next.Has P
  | closeParen next => next.Has P
  | not next => next.Has P
  | or next => next.Has P
  | expr p0 next => p0.Has P ∧ next.Has P
  | notOf p0 next => p0.Has P ∧ next.Has P
  | orOf p0 p1 next => p0.Has P ∧ p1.Has P ∧ next.Has P

theorem has_append {P : α → Prop} {p q : Plan α} : (p ++ q).Has P ↔ p.Has P ∧ q.Has P := by
  induction p <;> simp_all [Has, and_assoc]

theorem has_words {P : α → Prop} {r : Rank} (e : Expression α r) :
    (words e).Has P ↔ ∀ a ∈ e.primaries, P a := by
  induction e with
  | primary a => simp [words, Has, Expression.primaries]
  | negation t ih => exact ih
  | group e ih => simpa [words, Has, has_append, Expression.primaries] using ih
  | single t ih => exact ih
  | both t c iht ihc =>
      simp only [words, has_append, iht, ihc, Expression.primaries, List.forall_mem_append]
  | only c ih => exact ih
  | either c e ihc ihe =>
      simp only [words, has_append, Has, ihc, ihe, Expression.primaries, List.forall_mem_append]

theorem words_conjoin (a : α) (c : Expression α .conjunction) :
    words (c.conjoin a) = words c ++ primary a null := by
  cases c with
  | single t => simp only [Expression.conjoin, words]
  | both t c => simp only [Expression.conjoin, words, words_conjoin a c, append_assoc]

/-- One more primary at the end of the row belongs to the last alternative. -/
theorem words_andLast (a : α) (e : Expression α .alternation) :
    words (e.andLast a) = words e ++ primary a null := by
  cases e with
  | only c => simp only [Expression.andLast, words, words_conjoin]
  | either c e =>
      simp only [Expression.andLast, words, words_andLast a e, append_assoc, or_append]

end Plan

/-- The nodes of some words: they are fresh, and `isoutput` is set where one produces output. -/
structure Gathered (plan : Plan Primary) (g : FindGlobals) : Prop where
  fresh : plan.Fresh
  quiet : g.isoutput = false ↔ plan.Has fun a => a.output = false

/-- What is added to a row for one word. -/
structure Adds (new : Plan Primary) (g g' : FindGlobals) : Prop where
  fresh : new.Fresh
  quiet : g'.isoutput = false ↔ g.isoutput = false ∧ new.Has fun a => a.output = false

theorem Gathered.append {plan new : Plan Primary} {g g' : FindGlobals} (h : Gathered plan g)
    (hnew : Adds new g g') : Gathered (plan ++ new) g' where
  fresh := fresh_append.mpr ⟨h.fresh, hnew.fresh⟩
  quiet := by rw [hnew.quiet, h.quiet, has_append]

/-- An operator or a placeholder changes no global. -/
theorem adds_of_fresh {new : Plan Primary} {g : FindGlobals} (hfresh : new.Fresh)
    (hquiet : new.Has fun a => a.output = false) : Adds new g g where
  fresh := hfresh
  quiet := (and_iff_left hquiet).symm

theorem adds_output {a : Primary} {g : FindGlobals} (h : a.output = true) :
    Adds (.primary a .null) g { g with isoutput := true } where
  fresh := trivial
  quiet := by simp [Has, h]

theorem adds_primary {a : Primary} {g g' : FindGlobals} (h : a.output = false)
    (hg : g'.isoutput = g.isoutput) : Adds (.primary a .null) g g' where
  fresh := trivial
  quiet := by simp [Has, h, hg]

theorem cExec_adds {g g' : FindGlobals} {isok : Bool} {argv rest : List ByteString}
    {new : Plan Primary} (h : cExec g isok argv = .ok (new, rest, g')) :
    Adds new g g' ∧ rest.length ≤ argv.length := by
  unfold cExec at h
  split at h
  · cases h
  · rename_i words rest' hup
    cases h
    refine ⟨adds_output rfl, ?_⟩
    unfold upToSemicolon at hup
    split at hup
    · cases hup
    · rename_i semicolon rest'' hdrop
      cases hup
      have hle : (semicolon :: rest).length ≤ argv.length := by
        rw [← hdrop]
        exact (List.dropWhile_suffix _).length_le
      exact Nat.le_of_succ_le hle

theorem createArgv_adds {g g' : FindGlobals} {word : ByteString} {argv rest : List ByteString}
    {create : ByteString → Except PlanFault (Primary × FindGlobals)} {new : Plan Primary}
    (hcreate : ∀ {arg a g'}, create arg = .ok (a, g') → a.output = false ∧
      g'.isoutput = g.isoutput)
    (h : createArgv word argv create = .ok (new, rest, g')) :
    Adds new g g' ∧ rest.length ≤ argv.length := by
  cases argv with
  | nil => cases h
  | cons arg argv =>
      obtain ⟨⟨a, ga⟩, hc, h⟩ := bind_eq_ok.mp h
      cases h
      exact ⟨adds_primary (hcreate hc).1 (hcreate hc).2, Nat.le_succ _⟩

/-- What one word does: its node is fresh and marked, and no words are added. -/
theorem findCreate_adds {env : FindEnv} {g g' : FindGlobals} {word : ByteString}
    {argv rest : List ByteString} {new : Plan Primary}
    (h : findCreate env g word argv = .ok (new, rest, g')) :
    Adds new g g' ∧ rest.length ≤ argv.length := by
  unfold findCreate at h
  split at h
  · cases h
  · cases h
    exact ⟨adds_of_fresh trivial trivial, Nat.le_refl _⟩
  · cases h
    exact ⟨adds_of_fresh trivial trivial, Nat.le_refl _⟩
  · cases h
    exact ⟨adds_of_fresh trivial trivial, Nat.le_refl _⟩
  · cases h
    exact ⟨adds_of_fresh trivial trivial, Nat.le_refl _⟩
  · split at h
    · cases h
    · exact cExec_adds h
  · cases h
    exact ⟨adds_output rfl, Nat.le_refl _⟩
  · refine createArgv_adds ?_ h
    rintro arg a ga ⟨⟩
    exact ⟨rfl, rfl⟩
  · refine createArgv_adds ?_ h
    intro arg a ga hc
    unfold cNewer at hc
    split at hc
    · cases hc
    · cases hc
      exact ⟨rfl, rfl⟩
  · cases h
    exact ⟨adds_of_fresh trivial trivial, Nat.le_refl _⟩
  · split at h
    · cases h
    · exact cExec_adds h
  · cases h
    exact ⟨adds_output rfl, Nat.le_refl _⟩
  · cases h
    exact ⟨adds_primary rfl rfl, Nat.le_refl _⟩
  · refine createArgv_adds ?_ h
    intro arg a ga hc
    obtain ⟨⟨flags, value, endch⟩, -, hc⟩ := bind_eq_ok.mp hc
    cases hc
    refine ⟨rfl, ?_⟩
    split <;> rfl
  · refine createArgv_adds ?_ h
    intro arg a ga hc
    obtain ⟨⟨flags, value, endch⟩, -, hc⟩ := bind_eq_ok.mp hc
    cases hc
    exact ⟨rfl, rfl⟩
  · refine createArgv_adds ?_ h
    intro arg a ga hc
    unfold cType at hc
    split at hc
    · cases hc
      exact ⟨rfl, rfl⟩
    · split at hc
      · cases hc
        exact ⟨rfl, rfl⟩
      · cases hc

theorem gather_gathered {env : FindEnv} {fuel : ℕ} {g g' : FindGlobals} {plan p : Plan Primary}
    {argv : List ByteString} (hg : Gathered plan g)
    (h : gather env fuel g plan argv = .ok (p, g')) : Gathered p g' := by
  induction fuel generalizing g plan argv with
  | zero =>
      cases argv with
      | nil =>
          cases h
          exact hg
      | cons word argv => cases h
  | succ fuel ih =>
      cases argv with
      | nil =>
          cases h
          exact hg
      | cons word argv =>
          obtain ⟨⟨new, rest, g1⟩, hc, h⟩ := bind_eq_ok.mp h
          exact ih (hg.append (findCreate_adds hc).1) h

theorem nodes_gathered {env : FindEnv} {argv : List ByteString} {p : Plan Primary}
    {g : FindGlobals} (h : nodes env argv = .ok (p, g)) : Gathered p g := by
  have hnull : Gathered null ⟨false, true⟩ := ⟨trivial, by simp [Has]⟩
  exact gather_gathered hnull h

/-- The row that is squished: there is a `-print` where nothing else produces output. -/
def planned (p : Plan Primary) (g : FindGlobals) : Plan Primary :=
  if g.isoutput then p else p ++ .primary .print .null

theorem findFormplan_eq_ok {env : FindEnv} {argv : List ByteString} {plan : Plan Primary}
    {g : FindGlobals} : findFormplan env argv = .ok (plan, g) ↔
      ∃ p, nodes env argv = .ok (p, g) ∧ (planned p g).squish = .ok plan := by
  unfold findFormplan
  constructor
  · intro h
    obtain ⟨⟨p, g'⟩, hnodes, h⟩ := bind_eq_ok.mp h
    obtain ⟨plan', hsquish, h⟩ := bind_eq_ok.mp h
    cases h
    exact ⟨p, hnodes, hsquish⟩
  · rintro ⟨p, hnodes, hsquish⟩
    rw [hnodes]
    show (planned p g).squish >>= _ = _
    rw [hsquish]
    rfl

theorem Gathered.fresh_planned {p : Plan Primary} {g : FindGlobals} (h : Gathered p g) :
    (planned p g).Fresh := by
  unfold planned
  split
  · exact h.fresh
  · exact fresh_append.mpr ⟨h.fresh, trivial⟩

theorem Gathered.planned_ne_null {p : Plan Primary} {g : FindGlobals} (h : Gathered p g) :
    planned p g ≠ null := by
  unfold planned
  split
  · -- an empty row produces no output
    rintro rfl
    have hquiet := h.quiet.mpr trivial
    simp_all
  · simp [append_eq_null]

/-- What is accepted is an expression, and its plan is the compiled one. -/
theorem compiled_of_findFormplan {env : FindEnv} {argv : List ByteString} {plan : Plan Primary}
    {g : FindGlobals} (h : findFormplan env argv = .ok (plan, g)) :
    ∃ (p : Plan Primary) (e : Expression Primary .alternation), nodes env argv = .ok (p, g) ∧
      planned p g = words e ∧ clear false e = true ∧ plan = compiled 0 e := by
  obtain ⟨p, hp, hsquish⟩ := findFormplan_eq_ok.mp h
  have hg := nodes_gathered hp
  obtain ⟨e, he, hclear⟩ := words_of_squish hg.fresh_planned hg.planned_ne_null hsquish
  rw [he, squish_words e hclear] at hsquish
  exact ⟨p, e, hp, he, hclear, (Except.ok.inj hsquish).symm⟩

/-- The compiled plan of an expression does what the expression says. -/
theorem evalPlan_compiled (env : FindEnv) (g : FindGlobals) (e : Expression Primary .alternation)
    (path : ByteString) (sb : StatBuf) (s : FindState) :
    evalPlan env g (compiled 0 e) path sb s =
      some (e.denote (Primary.eval env g.divsize path sb) s).2 := by
  have hruns := runs_compiled (Primary.eval env g.divsize path sb) e 0 (.inl rfl)
  have hnull : (compiled 0 e).isNull = false := isNull_eq_false.mpr (compiled_ne_null e 0)
  rw [evalPlan, hnull, hruns.loop_eq none s]
  rfl

/-- Surroundings in which a name matches itself only, and everything succeeds. -/
def plainFind : FindEnv where
  fnmatch pattern name := if pattern = name then 0 else 1
  now := 0
  localTime _ := none
  saysYes _ := true
  succeeds _ := true

/-- `-size +2c` -/
def largeWords : List ByteString := [text "-size", text "+2c"]

/-- The expression of these words. -/
def large : Expression Primary .alternation := .only (.single (.primary (.size .greater 2)))

theorem nodes_largeWords : nodes plainFind largeWords = .ok (words large, ⟨false, false⟩) := by
  decide +kernel

theorem findFormplan_largeWords : findFormplan plainFind largeWords =
    .ok (.primary (.size .greater 2) (.primary .print .null), ⟨false, false⟩) := by
  decide +kernel

/-- A pair of negations, the second one in parentheses. -/
def twiceNegated : Expression Primary .alternation :=
  .only (.single (.negation (.group (.only (.single (.negation (.primary .print)))))))

/-- `! ( ! -print )` -/
def twiceNegatedWords : List ByteString :=
  [text "!", text "(", text "!", text "-print", text ")"]

theorem nodes_twiceNegatedWords :
    nodes plainFind twiceNegatedWords = .ok (words twiceNegated, ⟨true, true⟩) := by
  decide +kernel

/-- The words of a command are accepted exactly when they are an expression in which no negation
stands in parentheses directly behind a negation. -/
theorem findFormplan_accepts_iff {env : FindEnv} {argv : List ByteString} {p : Plan Primary}
    {g : FindGlobals} (h : nodes env argv = .ok (p, g)) :
    (∃ plan, findFormplan env argv = .ok (plan, g)) ↔
      ∃ e : Expression Primary .alternation, planned p g = words e ∧ clear false e = true := by
  constructor
  · rintro ⟨plan, hplan⟩
    obtain ⟨p', e, hp', he, hclear, -⟩ := compiled_of_findFormplan hplan
    rw [h] at hp'
    cases hp'
    exact ⟨e, he, hclear⟩
  · rintro ⟨e, he, hclear⟩
    exact ⟨_, findFormplan_eq_ok.mpr ⟨p, h, by rw [he, squish_words e hclear]⟩⟩

theorem twiceNegatedWords_refused :
    ¬ ∃ plan, findFormplan plainFind twiceNegatedWords = .ok (plan, ⟨true, true⟩) := by
  intro h
  obtain ⟨e, he, hclear⟩ := (findFormplan_accepts_iff nodes_twiceNegatedWords).mp h
  obtain rfl := words_injective (e := twiceNegated) he
  cases hclear

/-- The words of an accepted command are one expression only, and the plan is run on every file as
that expression says. -/
theorem findFormplan_means {env : FindEnv} {argv : List ByteString} {plan : Plan Primary}
    {g : FindGlobals} (h : findFormplan env argv = .ok (plan, g)) :
    ∃ (p : Plan Primary) (e : Expression Primary .alternation), nodes env argv = .ok (p, g) ∧
      planned p g = words e ∧
        (∀ e' : Expression Primary .alternation, planned p g = words e' → e' = e) ∧
          ∀ path sb s, evalPlan env g plan path sb s =
            some (e.denote (Primary.eval env g.divsize path sb) s).2 := by
  obtain ⟨p, e, hp, he, -, rfl⟩ := compiled_of_findFormplan h
  refine ⟨p, e, hp, he, ?_, evalPlan_compiled env g e⟩
  intro e' he'
  exact words_injective (he'.symm.trans he)

theorem findFormplan_means_largeWords :
    ∃ (p : Plan Primary) (e : Expression Primary .alternation),
      nodes plainFind largeWords = .ok (p, ⟨false, false⟩) ∧
        planned p ⟨false, false⟩ = words e ∧
          (∀ e' : Expression Primary .alternation, planned p ⟨false, false⟩ = words e' → e' = e) ∧
            ∀ path sb s,
              evalPlan plainFind ⟨false, false⟩
                  (.primary (.size .greater 2) (.primary .print .null)) path sb s =
                some (e.denote (Primary.eval plainFind false path sb) s).2 :=
  findFormplan_means findFormplan_largeWords

/-! ## A command without output -/

/-- The path is printed by the `-print` that is put behind the last of the alternatives. -/
def lastHolds (p : Primary → Bool) (e : Expression Primary .alternation) : Bool :=
  e.alternatives.dropLast.all (fun c => !c.holds p) && e.alternatives.getLast?.any fun c => c.holds p

/-- What a primary answers that neither produces output nor asks anybody. -/
def Primary.answer (env : FindEnv) (divsize : Bool) (path : ByteString) (sb : StatBuf)
    (a : Primary) : Bool :=
  (a.eval env divsize path sb ⟨[], 0⟩).1

/-- The log is as it was. -/
def SameLog (s s' : FindState) : Prop := s'.log = s.log

instance isTrans_sameLog : IsTrans FindState SameLog := ⟨fun _ _ _ h h' => h'.trans h⟩

variable (env : FindEnv) (divsize : Bool) (path : ByteString) (sb : StatBuf)

theorem Primary.eval_quiet {a : Primary} (h : a.output = false) (s : FindState) :
    (a.eval env divsize path sb s).1 = a.answer env divsize path sb ∧
      SameLog s (a.eval env divsize path sb s).2 := by
  cases a with
  | exec isok argv => cases h
  | ls => cases h
  | print => cases h
  | _ => exact ⟨rfl, rfl⟩

/-- What an expression without output answers, and that it leaves the log alone. -/
theorem denote_quiet {r : Rank} {e : Expression Primary r}
    (h : ∀ a ∈ e.primaries, a.output = false) (s : FindState) :
    (e.denote (Primary.eval env divsize path sb) s).1 = e.holds (Primary.answer env divsize path sb) ∧
      (e.denote (Primary.eval env divsize path sb) s).2.log = s.log := by
  constructor
  · exact e.denote_fst (fun a ha s => (Primary.eval_quiet env divsize path sb (h a ha) s).1) s
  · exact e.keeps_denote (fun a ha s => (Primary.eval_quiet env divsize path sb (h a ha) s).2) s

@[simp] theorem lastHolds_only (p : Primary → Bool) (c : Expression Primary .conjunction) :
    lastHolds p (.only c) = c.holds p := by
  simp [lastHolds, Expression.alternatives]

@[simp] theorem lastHolds_either (p : Primary → Bool) (c : Expression Primary .conjunction)
    (e : Expression Primary .alternation) :
    lastHolds p (.either c e) = (!c.holds p && lastHolds p e) := by
  have hne := e.alternatives_ne_nil
  simp [lastHolds, Expression.alternatives, List.dropLast_cons_of_ne_nil hne,
    List.getLast?_cons_of_ne_nil hne, Bool.and_assoc]

/-- The `-print` behind the last alternative is reached where all the others fail, and prints where
the last one holds. -/
theorem log_andLast (e : Expression Primary .alternation)
    (h : ∀ a ∈ e.primaries, a.output = false) (s : FindState) :
    ((e.andLast .print).denote (Primary.eval env divsize path sb) s).2.log =
      if lastHolds (Primary.answer env divsize path sb) e then s.log ++ [.printed path]
      else s.log := by
  cases e with
  | only c =>
      obtain ⟨hfst, hlog⟩ := denote_quiet env divsize path sb (e := c) h s
      -- the `-print` is run where `c` holds
      rw [lastHolds_only, Expression.andLast, Expression.denote, Expression.denote_conjoin]
      cases hholds : c.holds (Primary.answer env divsize path sb) with
      | true =>
          rw [Test.both_of_true (hfst.trans hholds)]
          simp [Primary.eval, FindState.add, hlog]
      | false =>
          rw [Test.both_of_false (hfst.trans hholds)]
          simpa using hlog
  | either c e =>
      simp only [Expression.primaries, List.forall_mem_append] at h
      obtain ⟨hfst, hlog⟩ := denote_quiet env divsize path sb h.1 s
      -- the last alternative, which has the `-print`, is looked at where `c` fails
      rw [lastHolds_either, Expression.andLast, Expression.denote]
      cases hholds : c.holds (Primary.answer env divsize path sb) with
      | true =>
          rw [Test.either_of_true (hfst.trans hholds)]
          simpa using hlog
      | false =>
          rw [Test.either_of_false (hfst.trans hholds), log_andLast e h.2]
          simp [hlog]

/-- The plan of a command without output. -/
theorem plan_of_quiet {env : FindEnv} {argv : List ByteString} {plan : Plan Primary}
    {g : FindGlobals} {e : Expression Primary .alternation}
    (h : findFormplan env argv = .ok (plan, g)) (hnodes : nodes env argv = .ok (words e, g))
    (hout : g.isoutput = false) : plan = compiled 0 (e.andLast .print) := by
  obtain ⟨p, e', hp, he', -, rfl⟩ := compiled_of_findFormplan h
  rw [hnodes] at hp
  cases hp
  have hplanned : words (e.andLast .print) = words e' := by
    rw [words_andLast, ← he', planned, hout]
    rfl
  rw [words_injective hplanned]

end Fsp
