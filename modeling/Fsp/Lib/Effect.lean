import Mathlib.Data.List.Basic
import Mathlib.Order.Defs.Unbundled

/-!
# Stateful programs with a log

A program is an `EStateM ε σ α`: it reads and changes a state, and may stop early with an
`ε`.  This file is the small program logic used for such programs:

* `wp m Q E s`: run from `s`, the program `m` ends normally with `Q` or stops early with `E`;
* `Does R m`: whatever happens, the states before and after `m` are related by the preorder `R`.
  There is one rule for each way of building a program (`pure`, `bind`, `throw`, a
  conditional, a loop over a list), and three preorders are used throughout: `Preserves I`,
  that `I` is not lost; `Keeps f`, that the observation `f` of the state is unchanged; and
  `Emits P`, that only entries with `P` are appended to the log of the state (`Logged`);
* `Guarded ok log`: every entry of the log is permitted by what stands before it;
* `rounds step s inputs`: the rounds of a program that is run once for each input, up to and
  including the first round that stops early.
-/

namespace Effect

variable {ε σ α β γ : Type}

/-- The state in which a run ends, whether normally or early. -/
def final : EStateM.Result ε σ α → σ
  | .ok _ s => s
  | .error _ s => s

@[simp] theorem final_ok (a : α) (s : σ) : final (.ok a s : EStateM.Result ε σ α) = s := rfl

@[simp] theorem final_error (e : ε) (s : σ) : final (.error e s : EStateM.Result ε σ α) = s := rfl

/-- A run that continues after its first part. -/
theorem bind_of_ok {m : EStateM ε σ α} {k : α → EStateM ε σ β} {s s' : σ} {a : α}
    (h : m s = .ok a s') : (m >>= k) s = k a s' := by
  simp only [bind, EStateM.bind, h]

/-- Two continuations that agree wherever the first part can end. -/
theorem bind_congr_of_ok {m : EStateM ε σ α} {k k' : α → EStateM ε σ β} {s : σ}
    (h : ∀ a s', m s = .ok a s' → k a s' = k' a s') : (m >>= k) s = (m >>= k') s := by
  cases hm : m s with
  | ok a s' => rw [bind_of_ok hm, bind_of_ok hm, h a s' hm]
  | error e s' => simp only [bind, EStateM.bind, hm]

/-! ## Weakest preconditions -/

/-- Run from `s`, the program ends normally with `Q` or stops early with `E`. -/
def wp (m : EStateM ε σ α) (Q : α → σ → Prop) (E : σ → Prop) (s : σ) : Prop :=
  match m s with
  | .ok a s' => Q a s'
  | .error _ s' => E s'

variable {Q Q' : α → σ → Prop} {E E' : σ → Prop} {s : σ}

@[simp] theorem wp_pure (a : α) : wp (pure a : EStateM ε σ α) Q E s ↔ Q a s := Iff.rfl

theorem wp_bind (m : EStateM ε σ α) (f : α → EStateM ε σ β) {Q : β → σ → Prop} :
    wp (m >>= f) Q E s ↔ wp m (fun a => wp (f a) Q E) E s := by
  unfold wp
  simp only [bind, EStateM.bind]
  cases m s <;> rfl

@[simp] theorem wp_get {Q : σ → σ → Prop} : wp (get : EStateM ε σ σ) Q E s ↔ Q s s := Iff.rfl

@[simp] theorem wp_modify (f : σ → σ) {Q : Unit → σ → Prop} :
    wp (modify f : EStateM ε σ Unit) Q E s ↔ Q () (f s) := Iff.rfl

@[simp] theorem wp_throw (e : ε) : wp (throw e : EStateM ε σ α) Q E s ↔ E s := Iff.rfl

theorem wp_mono {m : EStateM ε σ α} (h : wp m Q E s) (hQ : ∀ a s', Q a s' → Q' a s')
    (hE : ∀ s', E s' → E' s') : wp m Q' E' s := by
  unfold wp at h ⊢
  cases hm : m s with
  | ok a s' =>
      rw [hm] at h
      exact hQ a s' h
  | error e s' =>
      rw [hm] at h
      exact hE s' h

theorem wp_and {m : EStateM ε σ α} (h : wp m Q E s) (h' : wp m Q' E' s) :
    wp m (fun a s' => Q a s' ∧ Q' a s') (fun s' => E s' ∧ E' s') s := by
  unfold wp at h h' ⊢
  cases hm : m s with
  | ok a s' =>
      rw [hm] at h h'
      exact ⟨h, h'⟩
  | error e s' =>
      rw [hm] at h h'
      exact ⟨h, h'⟩

/-- What a run establishes, with the run itself. -/
theorem wp_run {m : EStateM ε σ α} (h : wp m Q E s) :
    wp m (fun a s' => Q a s' ∧ m s = .ok a s') E s := by
  unfold wp at h ⊢
  cases hm : m s with
  | ok a s' =>
      rw [hm] at h
      exact ⟨h, rfl⟩
  | error e s' =>
      rw [hm] at h
      exact h

/-- Sequencing with an intermediate assertion. -/
theorem wp_seq {m : EStateM ε σ α} {f : α → EStateM ε σ β} {R : α → σ → Prop}
    {Q : β → σ → Prop} (h : wp m R E s) (hf : ∀ a s', R a s' → wp (f a) Q E s') :
    wp (m >>= f) Q E s :=
  (wp_bind m f).mpr (wp_mono h hf fun _ h => h)

/-- Sequencing after a part that does not stop early. -/
theorem wp_seq_of_total {m : EStateM ε σ α} {f : α → EStateM ε σ β} {R : α → σ → Prop}
    {Q : β → σ → Prop} (h : wp m R (fun _ => False) s)
    (hf : ∀ a s', R a s' → wp (f a) Q E s') : wp (m >>= f) Q E s :=
  wp_seq (wp_mono h (fun _ _ h => h) fun _ h => h.elim) hf

theorem wp_ite {c : Prop} [Decidable c] {m m' : EStateM ε σ α}
    (h : c → wp m Q E s) (h' : ¬ c → wp m' Q E s) : wp (if c then m else m') Q E s := by
  split
  · exact h ‹_›
  · exact h' ‹_›

theorem wp_of_ok {m : EStateM ε σ α} {a : α} {s' : σ} (h : wp m Q E s) (hm : m s = .ok a s') :
    Q a s' := by
  unfold wp at h
  rw [hm] at h
  exact h

theorem wp_final {m : EStateM ε σ α} {E : σ → Prop} (h : wp m (fun _ => E) E s) :
    E (final (m s)) := by
  unfold wp at h
  cases hm : m s with
  | ok a s' =>
      rw [hm] at h
      exact h
  | error e s' =>
      rw [hm] at h
      exact h

theorem wp_of_final {m : EStateM ε σ α} {E : σ → Prop} (h : E (final (m s))) :
    wp m (fun _ => E) E s := by
  unfold wp
  cases hm : m s with
  | ok a s' =>
      rw [hm] at h
      exact h
  | error e s' =>
      rw [hm] at h
      exact h

/-- Whatever the state, the result of `m` has `V`, if there is one. -/
structure Returns (V : α → Prop) (m : EStateM ε σ α) : Prop where
  run : ∀ s, wp m (fun a _ => V a) (fun _ => True) s

section Returns

variable {V : α → Prop}

theorem returns_pure {a : α} (h : V a) : Returns V (pure a : EStateM ε σ α) :=
  ⟨fun _ => h⟩

theorem returns_throw (e : ε) : Returns V (throw e : EStateM ε σ α) :=
  ⟨fun _ => trivial⟩

theorem returns_bind {m : EStateM ε σ α} {k : α → EStateM ε σ β} {W : β → Prop}
    (h : Returns V m) (hk : ∀ a, V a → Returns W (k a)) : Returns W (m >>= k) :=
  ⟨fun s => wp_seq (h.run s) fun a s' ha => (hk a ha).run s'⟩

theorem returns_true (m : EStateM ε σ α) : Returns (fun _ => True) m := by
  constructor
  intro s
  unfold wp
  split <;> trivial

theorem returns_ite {c : Prop} [Decidable c] {m m' : EStateM ε σ α} (h : c → Returns V m)
    (h' : ¬ c → Returns V m') : Returns V (if c then m else m') := by
  split
  · exact h ‹_›
  · exact h' ‹_›

end Returns

/-! ## What a program does to its state -/

/-- Whatever happens, the states before and after `m` are related by `R`. -/
def Does (R : σ → σ → Prop) (m : EStateM ε σ α) : Prop := ∀ s, R s (final (m s))

section Does

variable {R R' : σ → σ → Prop}

theorem Does.mono {m : EStateM ε σ α} (h : Does R m) (hR : ∀ s s', R s s' → R' s s') :
    Does R' m := fun s => hR _ _ (h s)

theorem Does.and {m : EStateM ε σ α} (h : Does R m) (h' : Does R' m) :
    Does (fun s s' => R s s' ∧ R' s s') m := fun s => ⟨h s, h' s⟩

theorem does_ite {c : Prop} [Decidable c] {m m' : EStateM ε σ α} (h : c → Does R m)
    (h' : ¬ c → Does R m') : Does R (if c then m else m') := by
  split
  · exact h ‹_›
  · exact h' ‹_›

/-- What a program does can be added to what a single run of it establishes. -/
theorem wp_does {m : EStateM ε σ α} (h : wp m Q E s) (hm : Does R m) :
    wp m (fun a s' => Q a s' ∧ R s s') (fun s' => E s' ∧ R s s') s := by
  have hs := hm s
  unfold wp at h ⊢
  cases hr : m s with
  | ok a s' =>
      rw [hr] at h hs
      exact ⟨h, hs⟩
  | error e s' =>
      rw [hr] at h hs
      exact ⟨h, hs⟩

variable [IsPreorder σ R]

theorem does_pure (a : α) : Does R (pure a : EStateM ε σ α) := fun s => Std.Refl.refl s

theorem does_get : Does R (get : EStateM ε σ σ) := fun s => Std.Refl.refl s

theorem does_throw (e : ε) : Does R (throw e : EStateM ε σ α) := fun s => Std.Refl.refl s

/-- Sequencing, when only some results are possible. -/
theorem does_bind_of_returns {m : EStateM ε σ α} {k : α → EStateM ε σ β} {V : α → Prop}
    (h : Does R m) (hV : Returns V m) (hk : ∀ a, V a → Does R (k a)) : Does R (m >>= k) := by
  intro s
  have hm := h s
  have hs := hV.run s
  simp only [bind, EStateM.bind]
  unfold wp at hs
  cases hr : m s with
  | ok a s' =>
      rw [hr] at hm hs
      exact IsTrans.trans _ _ _ hm (hk a hs s')
  | error e s' =>
      rw [hr] at hm
      exact hm

theorem does_bind {m : EStateM ε σ α} {k : α → EStateM ε σ β} (h : Does R m)
    (hk : ∀ a, Does R (k a)) : Does R (m >>= k) :=
  does_bind_of_returns h (returns_true m) fun a _ => hk a

theorem does_forM {l : List β} {k : β → EStateM ε σ Unit} (h : ∀ b ∈ l, Does R (k b)) :
    Does R (l.forM k) := by
  induction l with
  | nil => exact does_pure ()
  | cons b l ih =>
      exact does_bind (h b (by simp)) fun _ => ih fun c hc => h c (List.mem_cons_of_mem _ hc)

end Does

/-! ## Hoare triples -/

/-- Run from a state with `P`, the program ends normally with `Q` or stops early with `E`. -/
structure Triple (P : σ → Prop) (m : EStateM ε σ α) (Q : α → σ → Prop) (E : σ → Prop) : Prop where
  run : ∀ s, P s → wp m Q E s

section Triple

variable {P P' : σ → Prop}

theorem Triple.of_ok {m : EStateM ε σ α} {a : α} {s' : σ} (h : Triple P m Q E) (hs : P s)
    (hm : m s = .ok a s') : Q a s' :=
  wp_of_ok (h.run s hs) hm

/-- A run ends normally or stops early. -/
theorem Triple.cases {m : EStateM ε σ α} (h : Triple P m Q E) (hs : P s) :
    (∃ a s', m s = .ok a s' ∧ Q a s') ∨ ∃ e s', m s = .error e s' ∧ E s' := by
  have hwp := h.run s hs
  unfold wp at hwp
  split at hwp
  · exact Or.inl ⟨_, _, ‹_›, hwp⟩
  · exact Or.inr ⟨_, _, ‹_›, hwp⟩

theorem triple_pure {a : α} (h : ∀ s, P s → Q a s) : Triple P (pure a : EStateM ε σ α) Q E :=
  ⟨h⟩

theorem triple_throw {e : ε} (h : ∀ s, P s → E s) : Triple P (throw e : EStateM ε σ α) Q E :=
  ⟨h⟩

theorem triple_seq {m : EStateM ε σ α} {k : α → EStateM ε σ β} {R : α → σ → Prop}
    {Q : β → σ → Prop} (h : Triple P m R E) (hk : ∀ a, Triple (R a) (k a) Q E) :
    Triple P (m >>= k) Q E :=
  ⟨fun s hs => wp_seq (h.run s hs) fun a s' hR => (hk a).run s' hR⟩

theorem triple_ite {c : Prop} [Decidable c] {m m' : EStateM ε σ α} (h : c → Triple P m Q E)
    (h' : ¬ c → Triple P m' Q E) : Triple P (if c then m else m') Q E := by
  split
  · exact h ‹_›
  · exact h' ‹_›

theorem triple_mono {m : EStateM ε σ α} (h : Triple P m Q E) (hP : ∀ s, P' s → P s)
    (hQ : ∀ a s, Q a s → Q' a s) (hE : ∀ s, E s → E' s) : Triple P' m Q' E' :=
  ⟨fun s hs => wp_mono (h.run s (hP s hs)) hQ hE⟩

/-- A fact that is not about the state. -/
theorem triple_fact {p : Prop} {m : EStateM ε σ α} (h : p → Triple P m Q E) :
    Triple (fun s => P s ∧ p) m Q E :=
  ⟨fun s hs => (h hs.2).run s hs.1⟩

/-- What never stops early ends well in any case. -/
theorem triple_of_total {m : EStateM ε σ α} (h : Triple P m Q fun _ => False) : Triple P m Q E :=
  triple_mono h (fun _ hs => hs) (fun _ _ hQ => hQ) fun _ hs => hs.elim

theorem triple_and {m : EStateM ε σ α} (h : Triple P m Q E) (h' : Triple P' m Q' E') :
    Triple (fun s => P s ∧ P' s) m (fun a s => Q a s ∧ Q' a s) fun s => E s ∧ E' s :=
  ⟨fun s hs => wp_and (h.run s hs.1) (h'.run s hs.2)⟩

/-- What a program does to any state, in a state with `P`. -/
theorem triple_of_does {m : EStateM ε σ α} {R : σ → σ → Prop} {Q : σ → Prop} (hm : Does R m)
    (hQ : ∀ s s', P s → R s s' → Q s') (hE : ∀ s, Q s → E s) : Triple P m (fun _ => Q) E :=
  ⟨fun s hs => wp_mono (wp_of_final (hQ _ _ hs (hm s))) (fun _ _ h => h) fun s' h => hE s' h⟩

/-- A loop over a list, with what holds after each part of it. -/
theorem triple_forM {l : List α} {f : α → EStateM ε σ Unit} {I : List α → σ → Prop}
    (h : ∀ before a, a ∈ l → Triple (I before) (f a) (fun _ => I (before ++ [a])) E) :
    Triple (I []) (l.forM f) (fun _ => I l) E := by
  have hrest : ∀ before after, before ++ after = l →
      Triple (I before) (after.forM f) (fun _ => I l) E := by
    intro before after
    induction after generalizing before with
    | nil =>
        intro hl
        rw [List.append_nil] at hl
        subst hl
        exact triple_pure fun _ hs => hs
    | cons a after ih =>
        intro hl
        have ha : a ∈ l := hl ▸ List.mem_append_right _ List.mem_cons_self
        apply triple_seq (h before a ha)
        intro _
        exact ih (before ++ [a]) (by rw [List.append_assoc]; exact hl)
  exact hrest [] l rfl

/-- Nothing is known after a program nothing is known about. -/
theorem triple_any (m : EStateM ε σ α) : Triple P m (fun _ _ => True) fun _ => True :=
  ⟨fun s _ => (returns_true m).run s⟩

end Triple

/-! ## Properties of programs that follow from their parts -/

/-- What holds of the parts of a program holds of the program. -/
structure Compositional (D : {α : Type} → EStateM ε σ α → Prop) : Prop where
  pure : ∀ {α : Type} (a : α), D (pure a)
  throw : ∀ {α : Type} (e : ε), D (throw e : EStateM ε σ α)
  bind_of_returns : ∀ {α β : Type} {m : EStateM ε σ α} {k : α → EStateM ε σ β} {V : α → Prop},
    D m → Returns V m → (∀ a, V a → D (k a)) → D (m >>= k)

namespace Compositional

variable {D : {α : Type} → EStateM ε σ α → Prop} (h : Compositional D)
include h

theorem bind {m : EStateM ε σ α} {k : α → EStateM ε σ β} (hm : D m) (hk : ∀ a, D (k a)) :
    D (m >>= k) := h.bind_of_returns hm (returns_true m) fun a _ => hk a

end Compositional

theorem compositional_does {R : σ → σ → Prop} [IsPreorder σ R] :
    Compositional fun m : EStateM ε σ _ => Does R m :=
  ⟨fun a => does_pure a, fun e => does_throw e, fun hm hV hk => does_bind_of_returns hm hV hk⟩

/-- Wherever `m` ends normally, the states before and after it are related by `R`. -/
def Ends (R : σ → σ → Prop) (m : EStateM ε σ α) : Prop :=
  ∀ s, wp m (fun _ s' => R s s') (fun _ => True) s

theorem Does.ends {R R' : σ → σ → Prop} {m : EStateM ε σ α} (h : Does R m)
    (hR : ∀ s s', R s s' → R' s s') : Ends R' m :=
  fun s => wp_mono (wp_of_final (hR _ _ (h s))) (fun _ _ h => h) fun _ _ => trivial

theorem compositional_ends {R : σ → σ → Prop} [IsPreorder σ R] :
    Compositional fun m : EStateM ε σ _ => Ends R m where
  pure a s := Std.Refl.refl s
  throw e s := trivial
  bind_of_returns hm hV hk := by
    intro s
    refine wp_seq (wp_mono (wp_and (hm s) (hV.run s)) (fun _ _ h => h) fun _ _ => trivial) ?_
    rintro a s' ⟨hR, ha⟩
    exact wp_mono (hk a ha s') (fun _ _ hR' => IsTrans.trans _ _ _ hR hR') fun _ h => h

instance isPreorder_and {R R' : σ → σ → Prop} [IsPreorder σ R] [IsPreorder σ R'] :
    IsPreorder σ fun s s' => R s s' ∧ R' s s' where
  refl s := ⟨Std.Refl.refl s, Std.Refl.refl s⟩
  trans _ _ _ h h' := ⟨IsTrans.trans _ _ _ h.1 h'.1, IsTrans.trans _ _ _ h.2 h'.2⟩

/-! ## Invariants -/

/-- `I` is not lost. -/
def Kept (I : σ → Prop) (s s' : σ) : Prop := I s → I s'

instance (I : σ → Prop) : IsPreorder σ (Kept I) where
  refl _ h := h
  trans _ _ _ h h' hs := h' (h hs)

/-- The assertion `I` holds after `m` whenever it holds before. -/
abbrev Preserves (I : σ → Prop) (m : EStateM ε σ α) : Prop := Does (Kept I) m

variable {I : σ → Prop}

theorem Preserves.wp {m : EStateM ε σ α} (h : Preserves I m) (hs : I s) :
    wp m (fun _ => I) I s := wp_of_final (h s hs)

theorem preserves_of_wp {m : EStateM ε σ α} (h : ∀ s, I s → wp m (fun _ => I) I s) :
    Preserves I m := fun s hs => wp_final (h s hs)

theorem Preserves.triple {m : EStateM ε σ α} (h : Preserves I m) : Triple I m (fun _ => I) I :=
  ⟨fun _ hs => h.wp hs⟩

theorem Ends.triple {m : EStateM ε σ α} (h : Ends (Kept I) m) :
    Triple I m (fun _ => I) fun _ => True :=
  ⟨fun s hs => wp_mono (h s) (fun _ _ hk => hk hs) fun _ h => h⟩

theorem ends_of_triple {m : EStateM ε σ α} (h : Triple I m (fun _ => I) fun _ => True) :
    Ends (Kept I) m := by
  intro s
  by_cases hs : I s
  · exact wp_mono (h.run s hs) (fun _ _ hI _ => hI) fun _ h => h
  · exact wp_mono ((returns_true m).run s) (fun _ _ _ hI => absurd hI hs) fun _ h => h

/-! ## Frames -/

/-- The observation `f` is the same. -/
def Same (f : σ → γ) (s s' : σ) : Prop := f s' = f s

instance (f : σ → γ) : IsPreorder σ (Same f) where
  refl _ := rfl
  trans _ _ _ h h' := Eq.trans h' h

/-- `m` leaves the observation `f` of the state as it was. -/
abbrev Keeps (f : σ → γ) (m : EStateM ε σ α) : Prop := Does (Same f) m

/-! ## Logs -/

/-- A state that carries a log of what was done. -/
class Logged (σ : Type) (ev : outParam Type) where
  log : σ → List ev

export Logged (log)

section Log

variable {ev : Type} [Logged σ ev] {P P' : ev → Prop}

/-- The log was extended, with entries that have `P`. -/
def Appends (P : ev → Prop) (s s' : σ) : Prop :=
  ∃ new, log s' = log s ++ new ∧ ∀ e ∈ new, P e

instance (P : ev → Prop) : IsPreorder σ (Appends P : σ → σ → Prop) where
  refl s := ⟨[], by rw [List.append_nil], by simp⟩
  trans _ _ _ h h' := by
    obtain ⟨new, hnew, hP⟩ := h
    obtain ⟨new', hnew', hP'⟩ := h'
    refine ⟨new ++ new', by rw [hnew', hnew, List.append_assoc], fun e he => ?_⟩
    rcases List.mem_append.mp he with he | he
    · exact hP e he
    · exact hP' e he

theorem appends_of_log_eq {s s' : σ} (h : log s' = log s) : Appends P s s' :=
  ⟨[], by rw [h, List.append_nil], by simp⟩

theorem appends_one {s s' : σ} {e : ev} (h : log s' = log s ++ [e]) (he : P e) :
    Appends P s s' := ⟨[e], h, by simpa using he⟩

/-- `m` only appends to the log, and only entries with `P`. -/
abbrev Emits (P : ev → Prop) (m : EStateM ε σ α) : Prop := Does (Appends P) m

theorem Appends.mono {s s' : σ} (h : Appends P s s') (hP : ∀ e, P e → P' e) :
    Appends P' s s' := by
  obtain ⟨new, hnew, hnewP⟩ := h
  exact ⟨new, hnew, fun e he => hP e (hnewP e he)⟩

theorem Appends.mem {s s' : σ} (h : Appends P s s') {e : ev} (he : e ∈ log s) : e ∈ log s' := by
  obtain ⟨new, hnew, _⟩ := h
  rw [hnew]
  exact List.mem_append_left _ he

/-- What holds of every entry of the log keeps holding of every entry. -/
theorem Appends.forall_mem {s s' : σ} (h : Appends P s s') (hs : ∀ e ∈ log s, P e) :
    ∀ e ∈ log s', P e := by
  obtain ⟨new, hnew, hP⟩ := h
  rw [hnew]
  intro e he
  rcases List.mem_append.mp he with he | he
  · exact hs e he
  · exact hP e he

/-! ## Guarded logs -/

/-- Every entry of the log is permitted by the entries before it. -/
def Guarded (ok : List ev → ev → Prop) (l : List ev) : Prop :=
  ∀ before e after, l = before ++ e :: after → ok before e

variable {ok : List ev → ev → Prop}

theorem guarded_nil : Guarded ok [] := by
  intro before e after h
  simp at h

/-- The entry at a place of a guarded log is permitted by what stands before it. -/
theorem Guarded.getElem? {l : List ev} {i : ℕ} {e : ev} (h : Guarded ok l) (he : l[i]? = some e) :
    ok (l.take i) e := by
  obtain ⟨hi, rfl⟩ := List.getElem?_eq_some_iff.mp he
  exact h (l.take i) l[i] (l.drop (i + 1)) (by simp)

theorem Guarded.of_append {l new : List ev} (h : Guarded ok (l ++ new)) : Guarded ok l := by
  intro before e after heq
  exact h before e (after ++ new) (by rw [heq, List.append_assoc, List.cons_append])

/-- A guarded log stays guarded when each new entry is permitted where it stands. -/
theorem Guarded.append {l new : List ev} (h : Guarded ok l)
    (hnew : ∀ mid e rest, new = mid ++ e :: rest → ok (l ++ mid) e) :
    Guarded ok (l ++ new) := by
  intro before e after heq
  rcases List.append_eq_append_iff.mp heq with ⟨mid, hmid, hsplit⟩ | ⟨mid, hmid, hsplit⟩
  · rw [hmid]
    exact hnew mid e after hsplit
  · cases mid with
    | nil =>
        rw [List.append_nil] at hmid
        rw [List.nil_append] at hsplit
        have := hnew [] e after hsplit.symm
        rwa [List.append_nil, hmid] at this
    | cons first mid =>
        rw [List.cons_append] at hsplit
        injection hsplit with hfirst _
        exact h before e mid (by rw [hmid, hfirst])

theorem guarded_concat {l : List ev} {e : ev} (h : Guarded ok l) (he : ok l e) :
    Guarded ok (l ++ [e]) := by
  refine h.append fun mid e' rest heq => ?_
  obtain ⟨rfl, heq⟩ | ⟨tail, _, hnil⟩ := List.cons_eq_append_iff.mp heq
  · injection heq with heq _
    rw [List.append_nil]
    exact heq ▸ he
  · simp at hnil

/-- Entries that need no permission keep the log guarded. -/
theorem Appends.guarded {s s' : σ} (h : Appends P s s')
    (hfree : ∀ before e, P e → ok before e) (hs : Guarded ok (log s)) : Guarded ok (log s') := by
  obtain ⟨new, hnew, hP⟩ := h
  rw [hnew]
  exact hs.append fun mid e rest heq => hfree _ e (hP e (by rw [heq]; simp))

end Log

/-! ## Rounds -/

/-- One round: its input and the states before and after it. -/
structure Round (ι σ : Type) where
  input : ι
  before : σ
  after : σ

section Rounds

variable {ι : Type} {step : ι → EStateM ε σ Unit}

/-- The rounds of a program that takes one input after the other. -/
def rounds (step : ι → EStateM ε σ Unit) : σ → List ι → List (Round ι σ)
  | _, [] => []
  | s, i :: inputs =>
      match step i s with
      | .ok _ s' => ⟨i, s, s'⟩ :: rounds step s' inputs
      | .error _ s' => [⟨i, s, s'⟩]

/-- A state between two rounds. -/
inductive Reachable (step : ι → EStateM ε σ Unit) (start : σ → Prop) : σ → Prop
  | start {s : σ} : start s → Reachable step start s
  | step {s s' : σ} (i : ι) : Reachable step start s → step i s = .ok () s' →
      Reachable step start s'

/-- An invariant of the single round holds in every reachable state. -/
theorem Reachable.invariant {start : σ → Prop} {I : σ → Prop} {s : σ}
    (h : Reachable step start s) (hstart : ∀ s, start s → I s)
    (hstep : ∀ i, Preserves I (step i)) : I s := by
  induction h with
  | start hs => exact hstart _ hs
  | step i _ hok ih => exact wp_of_ok ((hstep i).wp ih) hok

/-- The inputs of the rounds are the first of the inputs. -/
theorem input_rounds (s : σ) (inputs : List ι) :
    (rounds step s inputs).map Round.input <+: inputs := by
  induction inputs generalizing s with
  | nil => exact List.nil_prefix
  | cons i inputs ih =>
      simp only [rounds]
      cases step i s with
      | ok _ s' => exact (List.prefix_cons_inj i).mpr (ih s')
      | error _ s' => exact ⟨inputs, rfl⟩

/-- The rounds for a single input. -/
theorem of_mem_rounds_singleton {s : σ} {i : ι} {r : Round ι σ} (hr : r ∈ rounds step s [i]) :
    r.input = i ∧ r.before = s := by
  simp only [rounds] at hr
  split at hr
  · rw [List.mem_singleton.mp hr]
    exact ⟨rfl, rfl⟩
  · rw [List.mem_singleton.mp hr]
    exact ⟨rfl, rfl⟩

/-- A round ends where its step leads. -/
theorem after_of_mem_rounds {s : σ} {inputs : List ι} {r : Round ι σ}
    (hr : r ∈ rounds step s inputs) : r.after = final (step r.input r.before) := by
  induction inputs generalizing s with
  | nil => simp [rounds] at hr
  | cons i inputs ih =>
      simp only [rounds] at hr
      cases hi : step i s with
      | ok u s' =>
          rw [hi] at hr
          rcases List.mem_cons.mp hr with rfl | hr
          · simp [hi]
          · exact ih hr
      | error e s' =>
          rw [hi] at hr
          rcases List.mem_cons.mp hr with rfl | hr
          · simp [hi]
          · simp at hr

/-- What is kept by every round, whatever the rounds before it were, holds before and after every
round. -/
theorem rounds_induction {I : List (Round ι σ) → σ → Prop} {s : σ} {inputs : List ι}
    (past : List (Round ι σ)) (h : I past s)
    (hstep : ∀ before r after, rounds step s inputs = before ++ r :: after →
      r.after = final (step r.input r.before) → I (past ++ before) r.before →
        I (past ++ before ++ [r]) r.after)
    {before : List (Round ι σ)} {r : Round ι σ} {after : List (Round ι σ)}
    (heq : rounds step s inputs = before ++ r :: after) :
    I (past ++ before) r.before ∧ I (past ++ before ++ [r]) r.after := by
  induction inputs generalizing s past before r after with
  | nil => simp [rounds] at heq
  | cons i inputs ih =>
      have hfirst : ∀ s' rest, rounds step s (i :: inputs) = ⟨i, s, s'⟩ :: rest →
          s' = final (step i s) → I (past ++ []) s ∧ I (past ++ [] ++ [⟨i, s, s'⟩]) s' := by
        intro s' rest hrounds hs'
        have h' : I (past ++ []) s := by rw [List.append_nil]; exact h
        exact ⟨h', hstep [] ⟨i, s, s'⟩ rest hrounds hs' h'⟩
      cases hi : step i s with
      | ok u s' =>
          have hrounds : rounds step s (i :: inputs) = ⟨i, s, s'⟩ :: rounds step s' inputs := by
            simp only [rounds, hi]
          obtain ⟨hI, hI'⟩ := hfirst s' _ hrounds (by rw [hi]; rfl)
          rw [hrounds] at heq
          rcases List.cons_eq_append_iff.mp heq with ⟨rfl, hr⟩ | ⟨before', rfl, hrest⟩
          · injection hr with hr _
            subst hr
            exact ⟨hI, hI'⟩
          · have := ih (past ++ [⟨i, s, s'⟩]) (by simpa using hI')
              (fun b r a hb hr hIb => by
                have := hstep (⟨i, s, s'⟩ :: b) r a (by rw [hrounds, hb]; rfl) hr
                  (by simpa using hIb)
                simpa using this) hrest
            simpa using this
      | error e s' =>
          have hrounds : rounds step s (i :: inputs) = [⟨i, s, s'⟩] := by simp only [rounds, hi]
          obtain ⟨hI, hI'⟩ := hfirst s' _ hrounds (by rw [hi]; rfl)
          rw [hrounds] at heq
          rcases List.cons_eq_append_iff.mp heq with ⟨rfl, hr⟩ | ⟨before', rfl, hrest⟩
          · injection hr with hr _
            subst hr
            exact ⟨hI, hI'⟩
          · simp at hrest

/-- What the single round keeps and establishes, for a run: `I` holds between the rounds, and so `P`
holds of each of them, also of one that stops early. -/
theorem rounds_triple {I : List (Round ι σ) → σ → Prop}
    {P : List (Round ι σ) → Round ι σ → Prop} {s : σ} {inputs : List ι} (past : List (Round ι σ))
    (h : I past s)
    (hstep : ∀ past s i, I past s → wp (step i)
      (fun _ s' => I (past ++ [⟨i, s, s'⟩]) s' ∧ P past ⟨i, s, s'⟩) (fun s' => P past ⟨i, s, s'⟩) s)
    {before : List (Round ι σ)} {r : Round ι σ} {after : List (Round ι σ)}
    (heq : rounds step s inputs = before ++ r :: after) : P (past ++ before) r := by
  induction inputs generalizing s past before with
  | nil => simp [rounds] at heq
  | cons i inputs ih =>
      have hi := hstep past s i h
      unfold wp at hi
      simp only [rounds] at heq
      cases hm : step i s with
      | ok u s' =>
          rw [hm] at hi heq
          rcases List.cons_eq_append_iff.mp heq with ⟨rfl, hr⟩ | ⟨before', rfl, hrest⟩
          · injection hr with hr _
            rw [List.append_nil, hr]
            exact hi.2
          · have hrest' := ih (past ++ [⟨i, s, s'⟩]) hi.1 hrest
            rwa [List.append_assoc] at hrest'
      | error e s' =>
          rw [hm] at hi heq
          rcases List.cons_eq_append_iff.mp heq with ⟨rfl, hr⟩ | ⟨before', rfl, hrest⟩
          · injection hr with hr _
            rw [List.append_nil, hr]
            exact hi
          · simp at hrest

end Rounds

end Effect
