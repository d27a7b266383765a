import Mathlib.Algebra.GroupWithZero.Nat
import Mathlib.Data.Int.Order.Basic
import Mathlib.Data.List.Basic

/-!
# Sliding windows

Amounts with the times at which they came, and how much there is at one time (`amountAt`) or in the
last `n` units of time (`amountIn`).  A window is made of the amounts at its times
(`amountIn_eq_sum`), and moving it on past the last amount only takes away (`amountIn_mono`).
-/

namespace Effect

/-- The amounts at time `t`. -/
def amountAt (log : List (ℤ × ℕ)) (t : ℤ) : ℕ := ((log.filter fun e => e.1 = t).map Prod.snd).sum

/-- The amounts in the last `n` units of time, `now` among them. -/
def amountIn (log : List (ℤ × ℕ)) (now : ℤ) (n : ℕ) : ℕ :=
  ((log.filter fun e => now - n < e.1 ∧ e.1 ≤ now).map Prod.snd).sum

theorem amountAt_cons (e : ℤ × ℕ) (log : List (ℤ × ℕ)) (t : ℤ) :
    amountAt (e :: log) t = (if e.1 = t then e.2 else 0) + amountAt log t := by
  rw [amountAt, List.filter_cons]
  by_cases h : e.1 = t
  · simp [h, amountAt]
  · simp [h, amountAt]

theorem amountIn_cons (e : ℤ × ℕ) (log : List (ℤ × ℕ)) (now : ℤ) (n : ℕ) :
    amountIn (e :: log) now n =
      (if now - n < e.1 ∧ e.1 ≤ now then e.2 else 0) + amountIn log now n := by
  rw [amountIn, List.filter_cons]
  by_cases h : now - n < e.1 ∧ e.1 ≤ now
  · simp [h, amountIn]
  · rw [if_neg (by simpa using h), if_neg h, Nat.zero_add, amountIn]

theorem amountAt_concat (log : List (ℤ × ℕ)) (e : ℤ × ℕ) (t : ℤ) :
    amountAt (log ++ [e]) t = amountAt log t + if e.1 = t then e.2 else 0 := by
  induction log with
  | nil => rw [List.nil_append, amountAt_cons, Nat.add_comm]
  | cons e' log ih => rw [List.cons_append, amountAt_cons, amountAt_cons, ih, Nat.add_assoc]

theorem amountIn_concat (log : List (ℤ × ℕ)) (e : ℤ × ℕ) (now : ℤ) (n : ℕ) :
    amountIn (log ++ [e]) now n =
      amountIn log now n + if now - n < e.1 ∧ e.1 ≤ now then e.2 else 0 := by
  induction log with
  | nil => rw [List.nil_append, amountIn_cons, Nat.add_comm]
  | cons e' log ih => rw [List.cons_append, amountIn_cons, amountIn_cons, ih, Nat.add_assoc]

/-- Before anything came, there is nothing. -/
theorem amountAt_eq_zero {log : List (ℤ × ℕ)} {t : ℤ} (h : ∀ e ∈ log, e.1 < t) :
    amountAt log t = 0 := by
  rw [amountAt, List.filter_eq_nil_iff.mpr]
  · rfl
  · intro e he heq
    have hlt := h e he
    have heq := of_decide_eq_true heq
    omega

theorem amountIn_zero (log : List (ℤ × ℕ)) (now : ℤ) : amountIn log now 0 = 0 := by
  rw [amountIn, List.filter_eq_nil_iff.mpr]
  · rfl
  · intro e _ hin
    have := of_decide_eq_true hin
    omega

/-- A longer window has one more time. -/
theorem amountIn_succ (log : List (ℤ × ℕ)) (now : ℤ) (n : ℕ) :
    amountIn log now (n + 1) = amountIn log now n + amountAt log (now - n) := by
  induction log with
  | nil => rfl
  | cons e log ih =>
      rw [amountIn_cons, amountIn_cons, amountAt_cons, ih]
      by_cases hat : e.1 = now - n
      · rw [if_pos hat, if_pos (by omega), if_neg (by omega)]
        omega
      · rw [if_neg hat]
        by_cases hin : now - n < e.1 ∧ e.1 ≤ now
        · rw [if_pos hin, if_pos (by omega)]
          omega
        · rw [if_neg hin, if_neg (by omega)]
          omega

/-- A window is made of the amounts at its times. -/
theorem amountIn_eq_sum (log : List (ℤ × ℕ)) (now : ℤ) (n : ℕ) :
    amountIn log now n = ((List.range n).map fun (i : ℕ) => amountAt log (now - i)).sum := by
  induction n with
  | zero => exact amountIn_zero log now
  | succ n ih =>
      rw [amountIn_succ, ih, List.range_succ, List.map_append, List.sum_append]
      simp

/-- Later than everything that came, a window has less the later it is. -/
theorem amountIn_mono {log : List (ℤ × ℕ)} {base now : ℤ} (hle : base ≤ now)
    (hlog : ∀ e ∈ log, e.1 ≤ base) (n : ℕ) : amountIn log now n ≤ amountIn log base n := by
  induction log with
  | nil => exact Nat.le_refl _
  | cons e log ih =>
      have hrest := ih fun e' he' => hlog e' (List.mem_cons_of_mem _ he')
      have hfirst := hlog e List.mem_cons_self
      rw [amountIn_cons, amountIn_cons]
      refine Nat.add_le_add ?_ hrest
      by_cases hin : now - n < e.1 ∧ e.1 ≤ now
      · have hmore : base - n < e.1 ∧ e.1 ≤ base := by omega
        exact Nat.le_of_eq ((if_pos hin).trans (if_pos hmore).symm)
      · exact Nat.le_trans (Nat.le_of_eq (if_neg hin)) (Nat.zero_le _)

end Effect
