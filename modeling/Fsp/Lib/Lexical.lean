import Mathlib.Data.List.Basic

/-!
# Lexical paths

A path as the list of its components.  Some of them are blank and name nothing, some go up and take
back the component before them; at the root there is nothing to take back.  `levels` are the
components that are left, the innermost first.
-/

namespace Lexical

variable {α : Type*} (blank up : α → Prop) [DecidablePred blank] [DecidablePred up]

/-- What is left after one more component. -/
def descend (open_ : List α) (c : α) : List α :=
  if blank c then open_ else if up c then open_.tail else c :: open_

/-- What is left of a path that starts below `open_`. -/
def levels (open_ : List α) (path : List α) : List α := path.foldl (descend blank up) open_

variable {blank up}

theorem descend_of_blank {c : α} (h : blank c) (open_ : List α) :
    descend blank up open_ c = open_ := if_pos h

theorem descend_of_up {c : α} (hblank : ¬ blank c) (h : up c) (open_ : List α) :
    descend blank up open_ c = open_.tail := by
  rw [descend, if_neg hblank, if_pos h]

theorem descend_of_name {c : α} (hblank : ¬ blank c) (hup : ¬ up c) (open_ : List α) :
    descend blank up open_ c = c :: open_ := by
  rw [descend, if_neg hblank, if_neg hup]

@[simp] theorem levels_nil (open_ : List α) : levels blank up open_ [] = open_ := rfl

@[simp] theorem levels_cons (open_ : List α) (c : α) (path : List α) :
    levels blank up open_ (c :: path) = levels blank up (descend blank up open_ c) path := rfl

@[simp] theorem levels_append (open_ path path' : List α) :
    levels blank up open_ (path ++ path') = levels blank up (levels blank up open_ path) path' :=
  List.foldl_append

/-- What is left was left before or is a name of the path. -/
theorem mem_levels {open_ path : List α} {c : α} (h : c ∈ levels blank up open_ path) :
    c ∈ open_ ∨ c ∈ path ∧ ¬ blank c ∧ ¬ up c := by
  induction path generalizing open_ with
  | nil => exact Or.inl h
  | cons d path ih =>
      rcases ih h with h | ⟨hmem, hname⟩
      · by_cases hblank : blank d
        · rw [descend_of_blank hblank] at h
          exact Or.inl h
        · by_cases hup : up d
          · rw [descend_of_up hblank hup] at h
            exact Or.inl (List.mem_of_mem_tail h)
          · rw [descend_of_name hblank hup] at h
            rcases List.mem_cons.mp h with rfl | h
            · exact Or.inr ⟨List.mem_cons_self, hblank, hup⟩
            · exact Or.inl h
      · exact Or.inr ⟨List.mem_cons_of_mem _ hmem, hname⟩

/-- A path of names stays as it is. -/
theorem levels_names {open_ path : List α} (h : ∀ c ∈ path, ¬ blank c ∧ ¬ up c) :
    levels blank up open_ path = path.reverse ++ open_ := by
  induction path generalizing open_ with
  | nil => rfl
  | cons c path ih =>
      obtain ⟨hblank, hup⟩ := h c List.mem_cons_self
      rw [levels_cons, descend_of_name hblank hup,
        ih fun d hd => h d (List.mem_cons_of_mem _ hd), List.reverse_cons, List.append_assoc]
      rfl

end Lexical
