import Fsp.Lib.Effect
import Mathlib.Data.List.Induction

/-!
# Ledgers of resources

A program opens, uses and closes resources, and its log tells which.  A `Ledger` reads the log: a
resource is open while it was opened more often than closed, so a number that is handed out again
after it was closed is a new resource.  A log is `Sound` when nothing is closed or used that is not
open; in particular nothing is closed twice.

`Account l own` is the invariant that keeps a log sound: the resources in the list `own`, each as
often as it occurs there, are open.  Opening adds to the list, closing takes away from it, and what
is used has to be in it.
-/

namespace Effect

/-- Which resource an entry opens, closes or uses. -/
structure Ledger (ev κ : Type) where
  opened : ev → Option κ
  closed : ev → Option κ
  used : ev → Option κ

namespace Ledger

variable {ev κ : Type} [DecidableEq κ] (L : Ledger ev κ)

/-- How often the log opens a resource. -/
def opens (l : List ev) (k : κ) : ℕ := l.countP fun e => L.opened e = some k

/-- How often the log closes a resource. -/
def closes (l : List ev) (k : κ) : ℕ := l.countP fun e => L.closed e = some k

/-- The resource is open after the log. -/
def Open (l : List ev) (k : κ) : Prop := L.closes l k < L.opens l k

instance (l : List ev) (k : κ) : Decidable (L.Open l k) :=
  inferInstanceAs (Decidable (_ < _))

/-- The entry touches no resource that has to be open. -/
def Idle (e : ev) : Prop := L.closed e = none ∧ L.used e = none

/-- What the log closes or uses is open there. -/
def Sound (l : List ev) : Prop :=
  Guarded (fun before e => ∀ k, L.closed e = some k ∨ L.used e = some k → L.Open before k) l

/-- Nothing is opened that is open already. -/
def Fresh (l : List ev) : Prop :=
  Guarded (fun before e => ∀ k, L.opened e = some k → ¬ L.Open before k) l

/-- The log neither opens nor closes the resource. -/
def Untouched (l : List ev) (k : κ) : Prop :=
  ∀ e ∈ l, L.opened e ≠ some k ∧ L.closed e ≠ some k

/-- The log is sound, and the resources of the list are open after it. -/
structure Account (l : List ev) (own : List κ) : Prop where
  sound : L.Sound l
  holds : ∀ k, own.count k + L.closes l k ≤ L.opens l k

variable {L} {l : List ev} {own own' : List κ} {k : κ} {e : ev}

theorem opens_concat (l : List ev) (e : ev) (k : κ) :
    L.opens (l ++ [e]) k = L.opens l k + if L.opened e = some k then 1 else 0 := by
  simp [opens, List.countP_append, List.countP_singleton]

theorem closes_concat (l : List ev) (e : ev) (k : κ) :
    L.closes (l ++ [e]) k = L.closes l k + if L.closed e = some k then 1 else 0 := by
  simp [closes, List.countP_append, List.countP_singleton]

/-- What a sound log closes or uses was open just before. -/
theorem Sound.isOpen (h : L.Sound l) {i : ℕ} (he : l[i]? = some e)
    (hk : L.closed e = some k ∨ L.used e = some k) : L.Open (l.take i) k :=
  Guarded.getElem? h he k hk

theorem fresh_iff : L.Fresh l ↔ ∀ i : Fin l.length, ∀ k ∈ L.opened l[i], ¬ L.Open (l.take i) k := by
  constructor
  · intro h i k hk
    exact Guarded.getElem? h (List.getElem?_eq_getElem i.isLt) k hk
  · intro h before e after heq k hk
    subst heq
    have hi : before.length < (before ++ e :: after).length := by simp
    have hfresh := h ⟨before.length, hi⟩ k
    simp only [Fin.getElem_fin, List.take_left] at hfresh
    exact hfresh (by simpa using hk)

instance (l : List ev) : Decidable (L.Fresh l) := decidable_of_iff _ fresh_iff.symm

/-- Where nothing is opened twice, a resource was opened at most once more often than closed. -/
theorem Fresh.opens_le (h : L.Fresh l) (k : κ) : L.opens l k ≤ L.closes l k + 1 := by
  induction l using List.reverseRecOn with
  | nil => simp [opens]
  | append_singleton l e ih =>
      have hprefix : L.opens l k ≤ L.closes l k + 1 := ih h.of_append
      rw [opens_concat, closes_concat]
      by_cases hopened : L.opened e = some k
      · have hclosed : ¬ L.closes l k < L.opens l k := h l e [] rfl k hopened
        rw [if_pos hopened]
        omega
      · rw [if_neg hopened]
        omega

omit [DecidableEq κ] in
theorem Untouched.append {new : List ev} (h : L.Untouched l k) (hnew : L.Untouched new k) :
    L.Untouched (l ++ new) k := by
  intro e he
  rcases List.mem_append.mp he with he | he
  · exact h e he
  · exact hnew e he

omit [DecidableEq κ] in
theorem untouched_singleton (hopened : L.opened e ≠ some k) (hclosed : L.closed e ≠ some k) :
    L.Untouched [e] k := by
  intro e' he'
  rw [List.mem_singleton.mp he']
  exact ⟨hopened, hclosed⟩

theorem account_nil : L.Account [] [] := by
  constructor
  · exact guarded_nil
  · intro k
    simp [opens, closes]

namespace Account

theorem isOpen (h : L.Account l own) (hk : k ∈ own) : L.Open l k := by
  have hcount := List.count_pos_iff.mpr hk
  have hholds := h.holds k
  unfold Open
  omega

/-- Resources may be left out. -/
theorem mono (h : L.Account l own) (hown : ∀ k, own'.count k ≤ own.count k) :
    L.Account l own' := by
  constructor
  · exact h.sound
  · intro k
    exact Nat.le_trans (Nat.add_le_add_right (hown k) _) (h.holds k)

theorem opens (h : L.Account l own) (hidle : L.Idle e) :
    L.Account (l ++ [e]) ((L.opened e).toList ++ own) := by
  obtain ⟨hclosed, hused⟩ := hidle
  constructor
  · apply guarded_concat h.sound
    intro k hk
    rw [hclosed, hused] at hk
    simp at hk
  · intro k
    have hholds := h.holds k
    rw [opens_concat, closes_concat, hclosed]
    cases hopened : L.opened e with
    | none => simpa [hopened] using hholds
    | some k' =>
        by_cases hk : k' = k
        · subst hk
          simp
          omega
        · simp [hk]
          omega

theorem idle (h : L.Account l own) (hidle : L.Idle e) : L.Account (l ++ [e]) own :=
  (h.opens hidle).mono fun k => by rw [List.count_append]; omega

theorem closes (h : L.Account l (k :: own)) (hclosed : L.closed e = some k)
    (hused : L.used e = none) : L.Account (l ++ [e]) own := by
  constructor
  · apply guarded_concat h.sound
    intro k' hk'
    rw [hclosed, hused] at hk'
    obtain rfl : k = k' := by simpa using hk'
    exact h.isOpen List.mem_cons_self
  · intro k'
    have hholds := h.holds k'
    have hle : L.opens l k' ≤ L.opens (l ++ [e]) k' := by rw [opens_concat]; omega
    rw [closes_concat, hclosed]
    rw [List.count_cons] at hholds
    by_cases hk : k = k'
    · subst hk
      simp at hholds ⊢
      omega
    · simp [hk] at hholds ⊢
      omega

theorem uses (h : L.Account l own) (hk : k ∈ own) (hused : L.used e = some k)
    (hclosed : L.closed e = none) : L.Account (l ++ [e]) own := by
  constructor
  · apply guarded_concat h.sound
    intro k' hk'
    rw [hclosed, hused] at hk'
    obtain rfl : k = k' := by simpa using hk'
    exact h.isOpen hk
  · intro k'
    have hholds := h.holds k'
    have hle : L.opens l k' ≤ L.opens (l ++ [e]) k' := by rw [opens_concat]; omega
    rw [closes_concat, hclosed]
    simp
    omega

theorem idle_append {new : List ev} (h : L.Account l own) (hnew : ∀ e ∈ new, L.Idle e) :
    L.Account (l ++ new) own := by
  induction new generalizing l with
  | nil => rwa [List.append_nil]
  | cons e new ih =>
      have hfirst : L.Account (l ++ [e]) own := h.idle (hnew e List.mem_cons_self)
      have hrest := ih hfirst fun e he => hnew e (List.mem_cons_of_mem _ he)
      rwa [List.append_assoc] at hrest

/-- Where nothing is opened twice, nothing is held twice. -/
theorem count_le_one (h : L.Account l own) (hfresh : L.Fresh l) (k : κ) : own.count k ≤ 1 := by
  have hholds := h.holds k
  have hopens := hfresh.opens_le k
  omega

end Account

/-! ## Resources kept in a list of places -/

section Places

variable {α : Type} {f : α → Option κ} {places : List α} {i : ℕ} {a : α}

/-- What a change of one place does to the resources kept. -/
theorem count_filterMap_set (hi : i < places.length) (k : κ) :
    ((places.set i a).filterMap f).count k + (f places[i]).toList.count k =
      (places.filterMap f).count k + (f a).toList.count k := by
  have hplaces : places = places.take i ++ places[i] :: places.drop (i + 1) := by simp
  have hset : places.set i a = places.take i ++ a :: places.drop (i + 1) :=
    List.set_eq_take_append_cons_drop.trans (if_pos hi)
  have hcount : ∀ x : α, ((places.take i ++ x :: places.drop (i + 1)).filterMap f).count k =
      ((places.take i).filterMap f).count k + (f x).toList.count k +
        ((places.drop (i + 1)).filterMap f).count k := by
    intro x
    rw [List.filterMap_append, List.count_append, List.filterMap_cons]
    cases f x with
    | none => simp
    | some k' =>
        simp only [Option.toList_some, List.count_cons, List.count_nil]
        omega
  have hbefore := hcount places[i]
  rw [← hplaces] at hbefore
  rw [hset, hcount a, hbefore]
  omega

end Places

end Ledger

end Effect
