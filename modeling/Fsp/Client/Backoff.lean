import Mathlib.Order.Monotone.Basic
import Fsp.Client.Resend

/-!
# Backing off

The waits of one request should get longer until they reach the greatest delay.  From the second
resend on they do, unless they stall at the beginning; but the first wait is the target delay, or is
computed from the last round-trip time by adding a constant, and the second is one and a half
round-trip times.
-/

namespace Fsp

/-- The `n`-th datagram is sent, and `w` is how long `client_interact` waits for a reply to it. -/
def WaitsAt (d : Delays) (envTimeout : Option UInt32) (t : Timers) (outcomes : ℕ → SendOutcome)
    (n : ℕ) (w : UInt64) : Prop :=
  outcomes n = .unanswered ∧ ∃ t', interact d envTimeout t outcomes (n + 1) = .ok t' ∧ t'.wDelay = w

/-- Whatever happens to the datagrams of a request that is not answered, the waits never decrease,
and if the client neither gives up nor stops sending they reach the greatest delay. -/
def BacksOff (d : Delays) (t : Timers) : Prop :=
  ∀ (envTimeout : Option UInt32) (outcomes : ℕ → SendOutcome), Unanswered outcomes →
    (∀ m n v w, m ≤ n → WaitsAt d envTimeout t outcomes m v → WaitsAt d envTimeout t outcomes n w →
      v ≤ w) ∧
    ((∀ n, interact d envTimeout t outcomes n ≠ .error .notResponding) →
      (∀ n, ∃ m, n ≤ m ∧ outcomes m = .unanswered) →
        ∃ n, WaitsAt d envTimeout t outcomes n d.targetMaxdelay)

/-- The target delay and the greatest delay fit the last round-trip time.  From 2 ^ 63 / 3 on the
computation of the delays wraps. -/
def BacksOffWhen (targetDelay targetMaxdelay busyDelay : ℕ) : Prop :=
  if 3 * busyDelay < 2 ^ 63 then
    if busyDelay ≤ targetDelay then
      (targetDelay = 1000 ∨ targetDelay ≤ 3 * busyDelay / 2) ∧
        (2 ≤ busyDelay ∨ targetMaxdelay = 1000)
    else 1340 ≤ busyDelay / 2 ∨ targetMaxdelay ≤ 3 * busyDelay / 2
  else
    let first := (busyDelay + 1340) % 2 ^ 64
    let second := 3 * busyDelay % 2 ^ 64 / 2
    let third := 4 * second % 2 ^ 64 / 3
    targetMaxdelay = 1000 ∨ 3 ≤ third ∧
      (first ≤ second ∨ first ≤ 1000 ∨ targetMaxdelay ≤ second) ∧
      (second ≤ third ∨ second ≤ 1000 ∨ targetMaxdelay ≤ third)

variable {d : Delays} {b : UInt64}

/-! ## The waits -/

/-- A wait, without wrapping. -/
def waitOf (d : Delays) (b : UInt64) (n : ℕ) : ℕ :=
  max 1000 (min (rawDelay d b n).toNat d.targetMaxdelay.toNat)

theorem waitsAt_iff {envTimeout : Option UInt32} {t : Timers} {outcomes : ℕ → SendOutcome}
    (ho : Unanswered outcomes) {n : ℕ} {w : UInt64} :
    WaitsAt d envTimeout t outcomes n w ↔ outcomes n = .unanswered ∧
      interact d envTimeout t outcomes (n + 1) ≠ .error .notResponding ∧
      w.toNat = waitOf d t.busyDelay n := by
  unfold WaitsAt
  refine and_congr_right fun hsent => ?_
  rcases interact_follows (d := d) (t := t) envTimeout ho (n + 1) with
    ⟨_, herror⟩ | ⟨_, t', hok, hfollows⟩
  · rw [herror]
    simp
  · have hwait : t'.wDelay.toNat = waitOf d t.busyDelay n := by
      rw [hfollows.wait (by omega), Nat.add_sub_cancel, delayAfter, if_pos hsent, toNat_limit]
      rfl
    rw [hok]
    simp only [Except.ok.injEq, exists_eq_left', ne_eq, reduceCtorEq, not_false_eq_true, true_and]
    rw [← hwait, UInt64.toNat_inj]
    exact eq_comm

/-- From the second resend on the waits never decrease. -/
theorem waitOf_le_succ (n : ℕ) : waitOf d b (n + 2) ≤ waitOf d b (n + 3) := by
  have hle := toNat_rawDelay_le d b n
  unfold waitOf
  rw [toNat_rawDelay_add_three]
  omega

/-- A delay of 3 or more grows with every resend. -/
theorem le_rawDelay_add (h : 3 ≤ (rawDelay d b 2).toNat) (n : ℕ) :
    min (n + 3) d.targetMaxdelay.toNat ≤ (rawDelay d b (n + 2)).toNat := by
  induction n with
  | zero => exact (Nat.min_le_left _ _).trans h
  | succ n ih =>
      have hbounds := d.targetMaxdelay_bounds
      rw [toNat_rawDelay_add_three]
      omega

/-- Waits that have got off the ground reach the greatest delay. -/
theorem waitOf_eq_of_le (h : 3 ≤ (rawDelay d b 2).toNat) {n : ℕ} (hn : 300000 ≤ n) :
    waitOf d b n = d.targetMaxdelay.toNat := by
  obtain ⟨k, rfl⟩ := Nat.exists_eq_add_of_le' (show 2 ≤ n by omega)
  have hbounds := d.targetMaxdelay_bounds
  have hgrown := le_rawDelay_add h k
  have hle := toNat_rawDelay_le d b k
  unfold waitOf
  omega

/-- Waits that have not, stay. -/
theorem rawDelay_le_two (h : (rawDelay d b 2).toNat ≤ 2) (n : ℕ) :
    (rawDelay d b (n + 2)).toNat ≤ 2 := by
  induction n with
  | zero => exact h
  | succ n ih =>
      rw [toNat_rawDelay_add_three]
      omega

/-- The first three waits decide. -/
theorem monotone_waitOf (h01 : waitOf d b 0 ≤ waitOf d b 1) (h12 : waitOf d b 1 ≤ waitOf d b 2) :
    Monotone (waitOf d b) := by
  refine monotone_nat_of_le_succ fun n => ?_
  rcases n with _ | _ | n
  · exact h01
  · exact h12
  · exact waitOf_le_succ n

theorem interact_none {t : Timers} {outcomes : ℕ → SendOutcome} (ho : Unanswered outcomes) (n : ℕ) :
    interact d none t outcomes n ≠ .error .notResponding := by
  intro hn
  obtain ⟨m, _, timeout, hnone, _⟩ := (exists_notResponding_iff none ho).mp ⟨n, hn⟩
  cases hnone

theorem backsOff_iff_waitOf (d : Delays) (t : Timers) :
    BacksOff d t ↔ waitOf d t.busyDelay 0 ≤ waitOf d t.busyDelay 1 ∧
      waitOf d t.busyDelay 1 ≤ waitOf d t.busyDelay 2 ∧
      (3 ≤ (rawDelay d t.busyDelay 2).toNat ∨ d.targetMaxdelay.toNat = 1000) := by
  have hbounds := d.targetMaxdelay_bounds
  constructor
  · intro h
    have ho : Unanswered fun _ => .unanswered := fun _ => Or.inl rfl
    obtain ⟨hmono, hreach⟩ := h none _ ho
    have hwaits : ∀ n, WaitsAt d none t (fun _ => .unanswered) n
        (d.limit (rawDelay d t.busyDelay n)) := fun n =>
      (waitsAt_iff ho).mpr ⟨rfl, interact_none ho _, toNat_limit d _⟩
    have hle : ∀ m n, m ≤ n → waitOf d t.busyDelay m ≤ waitOf d t.busyDelay n := by
      intro m n hmn
      have hlimit := hmono m n _ _ hmn (hwaits m) (hwaits n)
      rw [UInt64.le_iff_toNat_le, toNat_limit, toNat_limit] at hlimit
      exact hlimit
    refine ⟨hle 0 1 (by omega), hle 1 2 (by omega), ?_⟩
    by_contra hstall
    obtain ⟨n, hn⟩ := hreach (interact_none ho) fun n => ⟨n, le_rfl, rfl⟩
    have hmax := ((waitsAt_iff ho).mp hn).2.2
    -- a wait that is the greatest comes again later, but the delays stay too small
    have hlater := hle n (n + 2) (by omega)
    have hsmall := rawDelay_le_two (d := d) (b := t.busyDelay) (by omega) n
    unfold waitOf at hmax hlater
    omega
  · intro ⟨h01, h12, hgrows⟩ envTimeout outcomes ho
    constructor
    · intro m n v w hmn hv hw
      rw [UInt64.le_iff_toNat_le, ((waitsAt_iff ho).mp hv).2.2, ((waitsAt_iff ho).mp hw).2.2]
      exact monotone_waitOf h01 h12 hmn
    · intro hgoes hsent
      obtain ⟨n, hn, hun⟩ := hsent 300000
      refine ⟨n, (waitsAt_iff ho).mpr ⟨hun, hgoes _, ?_⟩⟩
      rcases hgrows with hgrows | hleast
      · exact (waitOf_eq_of_le hgrows hn).symm
      · unfold waitOf
        omega

theorem toNat_rawDelay_zero : (rawDelay d b 0).toNat =
    if b.toNat ≤ d.targetDelay.toNat then d.targetDelay.toNat else (b.toNat + 1340) % 2 ^ 64 := by
  show (if d.targetDelay ≥ b then d.targetDelay else b + defaultDelay).toNat = _
  simp only [ge_iff_le, UInt64.le_iff_toNat_le]
  split
  · rfl
  · rw [UInt64.toNat_add]
    rfl

theorem toNat_rawDelay_one : (rawDelay d b 1).toNat = 3 * b.toNat % 2 ^ 64 / 2 := by
  show (b * 3 / 2).toNat = _
  rw [UInt64.toNat_div, UInt64.toNat_mul, Nat.mul_comm]
  rfl

theorem Delays.targetDelay_bounds (d : Delays) :
    1000 ≤ d.targetDelay.toNat ∧ d.targetDelay.toNat ≤ d.targetMaxdelay.toNat :=
  ⟨UInt64.le_iff_toNat_le.mp d.minDelay_le, UInt64.le_iff_toNat_le.mp d.targetDelay_le⟩

/-- The waits back off exactly if the last round-trip time fits the delays asked for. -/
theorem backsOff_iff (d : Delays) (t : Timers) :
    BacksOff d t ↔ BacksOffWhen d.targetDelay.toNat d.targetMaxdelay.toNat t.busyDelay.toNat := by
  rw [backsOff_iff_waitOf]
  unfold waitOf BacksOffWhen
  rw [toNat_rawDelay_zero, toNat_rawDelay_one, toNat_rawDelay_add_two, toNat_rawDelay_one]
  have htarget := d.targetDelay_bounds
  have hmax := d.targetMaxdelay_bounds
  generalize d.targetDelay.toNat = td at htarget ⊢
  generalize d.targetMaxdelay.toNat = tm at htarget hmax ⊢
  generalize t.busyDelay.toNat = b
  by_cases hwraps : 3 * b < 2 ^ 63
  · have hsecond : 3 * b % 2 ^ 64 = 3 * b := Nat.mod_eq_of_lt (by omega)
    have hthird : 4 * (3 * b / 2) % 2 ^ 64 = 4 * (3 * b / 2) := Nat.mod_eq_of_lt (by omega)
    rw [if_pos hwraps, hsecond, hthird]
    split
    · omega
    · have hfirst : (b + 1340) % 2 ^ 64 = b + 1340 := Nat.mod_eq_of_lt (by omega)
      rw [hfirst]
      omega
  · rw [if_neg hwraps, if_neg (by omega)]
    simp only
    generalize (b + 1340) % 2 ^ 64 = first
    generalize 3 * b % 2 ^ 64 / 2 = second
    generalize 4 * second % 2 ^ 64 / 3 = third
    omega

/-- The defaults of the client, on a network with a round-trip time of a tenth of a second. -/
def quickReply : Timers := ⟨100, 1340, 0, 0⟩

/-- The first wait is 1.34 seconds, and the second is only one. -/
theorem quickReply_not_backsOff : ¬ BacksOff (utilGetEnv none none) quickReply := by
  intro h
  have ho : Unanswered fun _ => .unanswered := fun _ => Or.inl rfl
  have hfirst : WaitsAt (utilGetEnv none none) none quickReply (fun _ => .unanswered) 0 1340 :=
    ⟨rfl, _, rfl, by decide⟩
  have hsecond : WaitsAt (utilGetEnv none none) none quickReply (fun _ => .unanswered) 1 1000 :=
    ⟨rfl, _, rfl, by decide⟩
  have hle := (h none _ ho).1 0 1 _ _ (by omega) hfirst hsecond
  exact absurd hle (by decide)

end Fsp
