import Fsp.Client.Interact

/-!
# How long the client waits

`client_interact` sends a request again and again.  How long it waits for a reply in between, and
when it gives up, depends on four variables: `busy_delay` and `idle_delay`, which it finds as the
last request left them, and `w_delay` and `total_delay`, which are its own.  All delays are
`unsigned long`s, which wrap, and count milliseconds.

`retry_send` is an `int` in the source; it would overflow with the 2147483648th datagram for one
request.
-/

namespace Fsp

/-- `MIN_DELAY` -/
def minDelay : UInt64 := 1000

/-- `DEFAULT_DELAY` -/
def defaultDelay : UInt64 := 1340

/-- `DEFAULT_MAXDELAY` -/
def defaultMaxdelay : UInt64 := 60000

/-- `MAX_DELAY` -/
def maxDelay : UInt64 := 300000

/-- `DEFAULT_TIMEOUT` -/
def defaultTimeout : UInt32 := 360

/-- The delays the user asked for, within the limits `util_get_env` puts on them. -/
structure Delays where
  targetDelay : UInt64
  targetMaxdelay : UInt64
  minDelay_le : minDelay ≤ targetDelay
  targetDelay_le : targetDelay ≤ targetMaxdelay
  targetMaxdelay_le : targetMaxdelay ≤ maxDelay

/-- `target_delay` after `util_get_env`, for the value of `FSP_DELAY`. -/
def getTargetDelay (fspDelay : Option UInt64) : UInt64 :=
  let delay := fspDelay.getD defaultDelay
  let delay := if delay < minDelay then minDelay else delay
  if delay > maxDelay then maxDelay else delay

/-- `target_maxdelay` after `util_get_env`, for the value of `FSP_MAXDELAY`. -/
def getTargetMaxdelay (targetDelay : UInt64) (fspMaxdelay : Option UInt64) : UInt64 :=
  let delay := fspMaxdelay.getD defaultMaxdelay
  let delay := if delay < targetDelay then targetDelay else delay
  if delay > maxDelay then maxDelay else delay

/-- `env_timeout` after `util_get_env`, for the value of `FSP_TIMEOUT`. -/
def getTimeout (fspTimeout : Option UInt32) : UInt32 :=
  let timeout := fspTimeout.getD defaultTimeout
  if timeout ≤ 0 then 0x7FFFFFFF else timeout

theorem getTargetDelay_bounds (fspDelay : Option UInt64) :
    minDelay ≤ getTargetDelay fspDelay ∧ getTargetDelay fspDelay ≤ maxDelay := by
  unfold getTargetDelay
  generalize fspDelay.getD defaultDelay = delay
  simp only [UInt64.le_iff_toNat_le, UInt64.lt_iff_toNat_lt, gt_iff_lt]
  have hmin : minDelay.toNat = 1000 := rfl
  have hmax : maxDelay.toNat = 300000 := rfl
  split <;> split <;> omega

theorem getTargetMaxdelay_bounds {targetDelay : UInt64} (h : targetDelay ≤ maxDelay)
    (fspMaxdelay : Option UInt64) :
    targetDelay ≤ getTargetMaxdelay targetDelay fspMaxdelay ∧
      getTargetMaxdelay targetDelay fspMaxdelay ≤ maxDelay := by
  unfold getTargetMaxdelay
  generalize fspMaxdelay.getD defaultMaxdelay = delay
  simp only [UInt64.le_iff_toNat_le, UInt64.lt_iff_toNat_lt, gt_iff_lt] at h ⊢
  split <;> split <;> omega

/-- `util_get_env`, as far as it sets the delays. -/
def utilGetEnv (fspDelay fspMaxdelay : Option UInt64) : Delays where
  targetDelay := getTargetDelay fspDelay
  targetMaxdelay := getTargetMaxdelay (getTargetDelay fspDelay) fspMaxdelay
  minDelay_le := (getTargetDelay_bounds fspDelay).1
  targetDelay_le := (getTargetMaxdelay_bounds (getTargetDelay_bounds fspDelay).2 fspMaxdelay).1
  targetMaxdelay_le := (getTargetMaxdelay_bounds (getTargetDelay_bounds fspDelay).2 fspMaxdelay).2

/-- The user can have any delays within the limits. -/
theorem utilGetEnv_some (d : Delays) :
    utilGetEnv (some d.targetDelay) (some d.targetMaxdelay) = d := by
  have hmin := UInt64.le_iff_toNat_le.mp d.minDelay_le
  have htarget := UInt64.le_iff_toNat_le.mp d.targetDelay_le
  have hmax := UInt64.le_iff_toNat_le.mp d.targetMaxdelay_le
  have hdelay : getTargetDelay (some d.targetDelay) = d.targetDelay := by
    simp only [getTargetDelay, Option.getD_some, UInt64.lt_iff_toNat_lt, gt_iff_lt]
    rw [if_neg (Nat.not_lt.mpr hmin), if_neg (by omega)]
  have hmaxdelay : getTargetMaxdelay d.targetDelay (some d.targetMaxdelay) = d.targetMaxdelay := by
    simp only [getTargetMaxdelay, Option.getD_some, UInt64.lt_iff_toNat_lt, gt_iff_lt]
    rw [if_neg (Nat.not_lt.mpr htarget), if_neg (by omega)]
  obtain ⟨targetDelay, targetMaxdelay, _, _, _⟩ := d
  simp only [utilGetEnv, Delays.mk.injEq]
  exact ⟨hdelay, by rw [hdelay]; exact hmaxdelay⟩

/-! ## The loop -/

structure Timers where
  busyDelay : UInt64
  idleDelay : UInt64
  wDelay : UInt64
  totalDelay : UInt64
  deriving DecidableEq, Repr

/-- What becomes of a datagram: it gets no reply within `w_delay`; `sendto` fails with an error
after which the client tries again, or with another; or a good reply comes after `rtt`. -/
inductive SendOutcome where
  | unanswered
  | refused
  | failed
  | answered (rtt : UInt64)
  deriving DecidableEq, Repr

/-- How `client_interact` ends. -/
inductive InteractEnd where
  /-- `exit(EX_UNAVAILABLE)`: "Remote server not responding." -/
  | notResponding
  /-- `exit(EX_IOERR)` -/
  | sendtoError
  | reply (t : Timers)
  deriving DecidableEq, Repr

namespace Timers

/-- The adaptive retry delay adjustments. -/
def adjust (d : Delays) (envTimeout : Option UInt32) (retrySend : ℕ) (t : Timers) :
    Except InteractEnd Timers :=
  match retrySend with
  | 0 =>
      .ok { t with
        wDelay := if d.targetDelay ≥ t.busyDelay then d.targetDelay
          else t.busyDelay + defaultDelay }
  | 1 =>
      let busyDelay := t.busyDelay * 3 / 2
      .ok { t with busyDelay := busyDelay, wDelay := busyDelay, idleDelay := busyDelay }
  | _ =>
      -- without `CLIENT_TIMEOUT` there is no `env_timeout`
      if envTimeout.any fun timeout => t.totalDelay / 1000 ≥ timeout.toUInt64 then
        .error .notResponding
      else
        let idleDelay := t.idleDelay * 4 / 3
        let idleDelay := if idleDelay > d.targetMaxdelay then d.targetMaxdelay else idleDelay
        .ok { t with idleDelay := idleDelay, wDelay := idleDelay }

end Timers

/-- `w_delay` within the limits. -/
def Delays.limit (d : Delays) (wDelay : UInt64) : UInt64 :=
  if wDelay < minDelay then minDelay
  else if wDelay > d.targetMaxdelay then d.targetMaxdelay
  else wDelay

/-- One round of the loop of `client_interact`.  Only a datagram that was sent is waited for, and
only then `w_delay` is brought within its limits. -/
def resend (d : Delays) (envTimeout : Option UInt32) (retrySend : ℕ) (t : Timers)
    (outcome : SendOutcome) : Except InteractEnd Timers := do
  let t ← { t with totalDelay := t.totalDelay + t.wDelay }.adjust d envTimeout retrySend
  match outcome with
  | .refused => .ok t
  | .failed => .error .sendtoError
  | .unanswered => .ok { t with wDelay := d.limit t.wDelay }
  | .answered rtt => .error (.reply { t with wDelay := d.limit t.wDelay, busyDelay := rtt })

/-- `client_interact` after its first `n` rounds, if it has not ended. -/
def interact (d : Delays) (envTimeout : Option UInt32) (t : Timers) (outcomes : ℕ → SendOutcome) :
    ℕ → Except InteractEnd Timers
  | 0 => .ok { t with wDelay := 0, totalDelay := 0 }
  | n + 1 => do
      let t ← interact d envTimeout t outcomes n
      resend d envTimeout n t (outcomes n)

/-! ## The delays

As long as no reply comes, `w_delay` is a function of the number of datagrams sent; only whether it
is brought within its limits depends on what became of the last one. -/

section

variable (d : Delays) (envTimeout : Option UInt32) (t : Timers) (outcomes : ℕ → SendOutcome)

/-- `w_delay` after the adjustments for the `n`-th datagram, given `busy_delay` at the start. -/
def rawDelay (busyDelay : UInt64) : ℕ → UInt64
  | 0 => if d.targetDelay ≥ busyDelay then d.targetDelay else busyDelay + defaultDelay
  | 1 => busyDelay * 3 / 2
  | n + 2 =>
      let idleDelay := rawDelay busyDelay (n + 1) * 4 / 3
      if idleDelay > d.targetMaxdelay then d.targetMaxdelay else idleDelay

/-- `w_delay` at the end of a round. -/
def delayAfter (busyDelay : UInt64) (n : ℕ) : UInt64 :=
  if outcomes n = .unanswered then d.limit (rawDelay d busyDelay n) else rawDelay d busyDelay n

/-- `total_delay` when it is compared with `env_timeout`. -/
def totalAt (busyDelay : UInt64) : ℕ → UInt64
  | 0 => 0
  | n + 1 => totalAt busyDelay n + delayAfter d outcomes busyDelay n

/-- The delays allow for an exit before the `n`-th datagram. -/
def Exceeds (n : ℕ) : Prop :=
  2 ≤ n ∧ ∃ timeout ∈ envTimeout, timeout.toUInt64 ≤ totalAt d outcomes t.busyDelay n / 1000

instance : DecidablePred (Exceeds d envTimeout t outcomes) := fun n =>
  inferInstanceAs (Decidable (2 ≤ n ∧ ∃ timeout ∈ envTimeout, timeout.toUInt64 ≤ _))

/-- The timers before the `n`-th datagram. -/
structure Follows (n : ℕ) (t' : Timers) : Prop where
  total : t'.totalDelay + t'.wDelay = totalAt d outcomes t.busyDelay n
  busy : n ≤ 1 → t'.busyDelay = t.busyDelay
  idle : 2 ≤ n → t'.idleDelay = rawDelay d t.busyDelay (n - 1)
  wait : n ≠ 0 → t'.wDelay = delayAfter d outcomes t.busyDelay (n - 1)

/-- No reply comes, and `sendto` never fails for good. -/
def Unanswered : Prop := ∀ n, outcomes n = .unanswered ∨ outcomes n = .refused

variable {d envTimeout t outcomes}

/-- The timers when the `n`-th datagram is handed to `sendto`. -/
structure Adjusted (d : Delays) (t : Timers) (outcomes : ℕ → SendOutcome) (n : ℕ) (t' : Timers) :
    Prop where
  total : t'.totalDelay = totalAt d outcomes t.busyDelay n
  wait : t'.wDelay = rawDelay d t.busyDelay n
  busy : n = 0 → t'.busyDelay = t.busyDelay
  idle : n ≠ 0 → t'.idleDelay = rawDelay d t.busyDelay n

theorem exceeds_iff (envTimeout : Option UInt32) {t' : Timers} {n : ℕ}
    (h : Follows d t outcomes (n + 2) t') :
    Exceeds d envTimeout t outcomes (n + 2) ↔
      (envTimeout.any fun timeout =>
        (t'.totalDelay + t'.wDelay) / 1000 ≥ timeout.toUInt64) = true := by
  unfold Exceeds
  rw [h.total]
  cases envTimeout <;> simp

/-- The adjustments for the next datagram. -/
theorem adjust_follows (envTimeout : Option UInt32) {n : ℕ} {t' : Timers}
    (h : Follows d t outcomes n t') :
    (Exceeds d envTimeout t outcomes n ∧
      { t' with totalDelay := t'.totalDelay + t'.wDelay }.adjust d envTimeout n =
        .error .notResponding) ∨
    (¬ Exceeds d envTimeout t outcomes n ∧ ∃ t₁,
      { t' with totalDelay := t'.totalDelay + t'.wDelay }.adjust d envTimeout n = .ok t₁ ∧
      Adjusted d t outcomes n t₁) := by
  rcases n with _ | _ | n
  · refine Or.inr ⟨fun hexceeds => by have := hexceeds.1; omega, _, rfl, h.total, ?_,
      fun _ => h.busy (by omega), fun h => absurd rfl h⟩
    have hbusy := h.busy (by omega)
    simp only [rawDelay, hbusy]
  · have hbusy := h.busy (by omega)
    refine Or.inr ⟨fun hexceeds => by have := hexceeds.1; omega, _, rfl, h.total, ?_,
      fun h => by omega, fun _ => ?_⟩
    · simp only [rawDelay, hbusy]
    · simp only [rawDelay, hbusy]
  · have hidle := h.idle (by omega)
    have hiff := exceeds_iff envTimeout h
    by_cases hexceeds : Exceeds d envTimeout t outcomes (n + 2)
    · exact Or.inl ⟨hexceeds, if_pos (hiff.mp hexceeds)⟩
    · refine Or.inr ⟨hexceeds, _, if_neg fun hany => hexceeds (hiff.mpr hany), h.total, ?_,
        fun h => by omega, fun _ => ?_⟩
      · simp only [rawDelay, hidle]
        rfl
      · simp only [rawDelay, hidle]
        rfl

/-- What `sendto` and the wait make of them. -/
theorem Adjusted.follows {n : ℕ} {t' : Timers} (h : Adjusted d t outcomes n t') :
    Follows d t outcomes (n + 1)
      { t' with wDelay := if outcomes n = .unanswered then d.limit t'.wDelay else t'.wDelay } where
  total := by simp only [totalAt, delayAfter, h.total, h.wait]
  busy hn := h.busy (by omega)
  idle hn := h.idle (by omega)
  wait _ := by simp only [delayAfter, Nat.add_sub_cancel, h.wait]

/-- One round, as long as no reply comes. -/
theorem resend_follows (envTimeout : Option UInt32) {n : ℕ} {t' : Timers}
    (ho : outcomes n = .unanswered ∨ outcomes n = .refused) (h : Follows d t outcomes n t') :
    (Exceeds d envTimeout t outcomes n ∧
      resend d envTimeout n t' (outcomes n) = .error .notResponding) ∨
    (¬ Exceeds d envTimeout t outcomes n ∧ ∃ t'', resend d envTimeout n t' (outcomes n) = .ok t'' ∧
      Follows d t outcomes (n + 1) t'') := by
  unfold resend
  rcases adjust_follows envTimeout h with
    ⟨hexceeds, hadjust⟩ | ⟨hgoes, t₁, hadjust, h₁⟩
  · refine Or.inl ⟨hexceeds, ?_⟩
    rw [hadjust]
    rfl
  · refine Or.inr ⟨hgoes, _, ?_, h₁.follows⟩
    rw [hadjust]
    rcases ho with ho | ho <;> rw [ho] <;> rfl

/-- The first rounds of `client_interact`, as long as no reply comes. -/
theorem interact_follows (envTimeout : Option UInt32) (ho : Unanswered outcomes) (n : ℕ) :
    ((∃ m, m < n ∧ Exceeds d envTimeout t outcomes m) ∧
      interact d envTimeout t outcomes n = .error .notResponding) ∨
    ((∀ m, m < n → ¬ Exceeds d envTimeout t outcomes m) ∧
      ∃ t', interact d envTimeout t outcomes n = .ok t' ∧ Follows d t outcomes n t') := by
  induction n with
  | zero =>
      refine Or.inr ⟨fun m hm => absurd hm (Nat.not_lt_zero m), _, rfl, ?_⟩
      exact ⟨rfl, fun _ => rfl, fun h => absurd h (by omega), fun h => absurd rfl h⟩
  | succ n ih =>
      unfold interact
      rcases ih with ⟨⟨m, hm, hexceeds⟩, herror⟩ | ⟨hbefore, t', hok, hf⟩
      · refine Or.inl ⟨⟨m, by omega, hexceeds⟩, ?_⟩
        rw [herror]
        rfl
      · rw [hok]
        rcases resend_follows envTimeout (ho n) hf with
          ⟨hexceeds, herror⟩ | ⟨hgoes, t'', hok', hf'⟩
        · exact Or.inl ⟨⟨n, by omega, hexceeds⟩, herror⟩
        · refine Or.inr ⟨fun m hm => ?_, t'', hok', hf'⟩
          rcases Nat.lt_succ_iff_lt_or_eq.mp hm with hlt | rfl
          · exact hbefore m hlt
          · exact hgoes

/-- `client_interact` gives up when the delays allow for it. -/
theorem exists_notResponding_iff (envTimeout : Option UInt32) (ho : Unanswered outcomes) :
    (∃ n, interact d envTimeout t outcomes n = .error .notResponding) ↔
      ∃ n, Exceeds d envTimeout t outcomes n := by
  constructor
  · intro ⟨n, hn⟩
    rcases interact_follows envTimeout ho n with ⟨⟨m, _, hexceeds⟩, _⟩ | ⟨_, t', hok, _⟩
    · exact ⟨m, hexceeds⟩
    · rw [hok] at hn
      cases hn
  · intro ⟨m, hexceeds⟩
    rcases interact_follows envTimeout ho (m + 1) with ⟨_, herror⟩ | ⟨hbefore, _⟩
    · exact ⟨m + 1, herror⟩
    · exact absurd hexceeds (hbefore m (by omega))

end

/-! ## How the delays grow -/

section

variable (d : Delays) (b : UInt64)

theorem Delays.targetMaxdelay_bounds :
    1000 ≤ d.targetMaxdelay.toNat ∧ d.targetMaxdelay.toNat ≤ 300000 :=
  ⟨UInt64.le_iff_toNat_le.mp (UInt64.le_trans d.minDelay_le d.targetDelay_le),
    UInt64.le_iff_toNat_le.mp d.targetMaxdelay_le⟩

/-- What `limit` does, without wrapping. -/
theorem toNat_limit (w : UInt64) :
    (d.limit w).toNat = max 1000 (min w.toNat d.targetMaxdelay.toNat) := by
  have hbounds := d.targetMaxdelay_bounds
  have hmin : minDelay.toNat = 1000 := rfl
  unfold Delays.limit
  simp only [UInt64.lt_iff_toNat_lt, hmin, gt_iff_lt]
  split
  · rw [hmin]
    omega
  · split <;> omega

theorem toNat_rawDelay_add_two (n : ℕ) :
    (rawDelay d b (n + 2)).toNat =
      min (4 * (rawDelay d b (n + 1)).toNat % 2 ^ 64 / 3) d.targetMaxdelay.toNat := by
  have hstep : (rawDelay d b (n + 1) * 4 / 3).toNat =
      4 * (rawDelay d b (n + 1)).toNat % 2 ^ 64 / 3 := by
    rw [UInt64.toNat_div, UInt64.toNat_mul, Nat.mul_comm]
    rfl
  show (if rawDelay d b (n + 1) * 4 / 3 > d.targetMaxdelay then d.targetMaxdelay
    else rawDelay d b (n + 1) * 4 / 3).toNat = _
  simp only [gt_iff_lt, UInt64.lt_iff_toNat_lt, hstep]
  split
  · omega
  · rw [hstep]
    omega

/-- From the second resend on nothing wraps. -/
theorem toNat_rawDelay_add_three (n : ℕ) :
    (rawDelay d b (n + 3)).toNat =
      min (4 * (rawDelay d b (n + 2)).toNat / 3) d.targetMaxdelay.toNat := by
  have hbounds := d.targetMaxdelay_bounds
  have hprev := toNat_rawDelay_add_two d b n
  have hnext : (rawDelay d b (n + 3)).toNat =
      min (4 * (rawDelay d b (n + 2)).toNat % 2 ^ 64 / 3) d.targetMaxdelay.toNat :=
    toNat_rawDelay_add_two d b (n + 1)
  rw [hnext, Nat.mod_eq_of_lt (by omega)]

/-- From the second resend on, no delay is longer than the greatest one. -/
theorem toNat_rawDelay_le (n : ℕ) : (rawDelay d b (n + 2)).toNat ≤ d.targetMaxdelay.toNat := by
  rw [toNat_rawDelay_add_two]
  exact Nat.min_le_right _ _

/-- A delay that is not 0 stays so. -/
theorem rawDelay_pos (h : 0 < (rawDelay d b 2).toNat) (n : ℕ) :
    0 < (rawDelay d b (n + 2)).toNat := by
  have hbounds := d.targetMaxdelay_bounds
  induction n with
  | zero => exact h
  | succ n ih =>
      rw [toNat_rawDelay_add_three]
      omega

/-- A delay of 0 stays 0. -/
theorem rawDelay_eq_zero (h : (rawDelay d b 2).toNat = 0) (n : ℕ) :
    (rawDelay d b (n + 2)).toNat = 0 := by
  induction n with
  | zero => exact h
  | succ n ih =>
      rw [toNat_rawDelay_add_three, ih]
      rfl

theorem rawDelay_two_eq_zero_iff :
    (rawDelay d b 2).toNat = 0 ↔ b * 3 / 2 * 4 / 3 = 0 := by
  have hbounds := d.targetMaxdelay_bounds
  show (if b * 3 / 2 * 4 / 3 > d.targetMaxdelay then d.targetMaxdelay
    else b * 3 / 2 * 4 / 3).toNat = 0 ↔ _
  rw [← UInt64.toNat_inj]
  simp only [gt_iff_lt, UInt64.lt_iff_toNat_lt]
  split
  · constructor
    · intro h
      omega
    · intro h
      have hzero : (0 : UInt64).toNat = 0 := rfl
      omega
  · rfl

end

/-! ## Giving up -/

/-- How many of the datagrams after the first two, among the first `n`, were sent. -/
def sentResends (outcomes : ℕ → SendOutcome) (n : ℕ) : ℕ :=
  (List.range n).countP fun j => 2 ≤ j ∧ outcomes j = .unanswered

/-- The delay after the second resend is not 0, or enough datagrams are sent to make up for it. -/
def GivesUpWhen (d : Delays) (timeout : UInt32) (busyDelay : UInt64)
    (outcomes : ℕ → SendOutcome) : Prop :=
  busyDelay * 3 / 2 * 4 / 3 ≠ 0 ∨ ∃ n, 2 ≤ n ∧ timeout.toUInt64 ≤
    (delayAfter d outcomes busyDelay 0 + delayAfter d outcomes busyDelay 1 +
      1000 * UInt64.ofNat (sentResends outcomes n)) / 1000

section

variable {d : Delays} {timeout : UInt32} {t : Timers} {outcomes : ℕ → SendOutcome}

theorem exceeds_some_iff {n : ℕ} :
    Exceeds d (some timeout) t outcomes n ↔
      2 ≤ n ∧ timeout.toUInt64 ≤ totalAt d outcomes t.busyDelay n / 1000 := by
  simp [Exceeds]

/-- While nothing grows but by the datagrams that are sent, the sum of the delays counts them. -/
theorem totalAt_of_zero {b : UInt64} (hzero : (rawDelay d b 2).toNat = 0) (n : ℕ) :
    totalAt d outcomes b (n + 2) = delayAfter d outcomes b 0 + delayAfter d outcomes b 1 +
      1000 * UInt64.ofNat (sentResends outcomes (n + 2)) := by
  have hdelay : ∀ n, delayAfter d outcomes b (n + 2) =
      1000 * UInt64.ofNat (if outcomes (n + 2) = .unanswered then 1 else 0) := by
    intro n
    have hraw : rawDelay d b (n + 2) = 0 := UInt64.toNat_inj.mp (rawDelay_eq_zero d b hzero n)
    unfold delayAfter
    rw [hraw]
    split <;> rfl
  induction n with
  | zero =>
      have hnone : sentResends outcomes 2 = 0 := rfl
      rw [hnone]
      simp [totalAt]
  | succ n ih =>
      have hsucc : sentResends outcomes (n + 3) = sentResends outcomes (n + 2) +
          if outcomes (n + 2) = .unanswered then 1 else 0 := by
        unfold sentResends
        rw [List.range_succ, List.countP_append]
        simp [List.countP_cons]
      show totalAt d outcomes b (n + 2) + delayAfter d outcomes b (n + 2) = _
      rw [ih, hdelay, hsucc, UInt64.ofNat_add, UInt64.mul_add, UInt64.add_assoc]

theorem delayAfter_bounds {b : UInt64} (hpos : 0 < (rawDelay d b 2).toNat)
    (outcomes : ℕ → SendOutcome) (n : ℕ) :
    0 < (delayAfter d outcomes b (n + 2)).toNat ∧
      (delayAfter d outcomes b (n + 2)).toNat ≤ 300000 := by
  have hbounds := d.targetMaxdelay_bounds
  have hraw := rawDelay_pos d b hpos n
  have hle := toNat_rawDelay_le d b n
  unfold delayAfter
  split
  · rw [toNat_limit]
    omega
  · omega

/-- As long as it is in range, the sum of the delays grows with every resend, whatever becomes of
it. -/
theorem exceeds_of_pos (timeout : UInt32) (t : Timers) (outcomes : ℕ → SendOutcome)
    (hpos : 0 < (rawDelay d t.busyDelay 2).toNat) :
    ∃ n, Exceeds d (some timeout) t outcomes n := by
  by_contra hnever
  have hsmall : ∀ n, (totalAt d outcomes t.busyDelay (n + 2)).toNat < 1000 * timeout.toNat := by
    intro n
    have hnot : ¬ timeout.toUInt64 ≤ totalAt d outcomes t.busyDelay (n + 2) / 1000 := by
      intro hle
      exact hnever ⟨n + 2, exceeds_some_iff.mpr ⟨by omega, hle⟩⟩
    have hdiv : (totalAt d outcomes t.busyDelay (n + 2) / 1000).toNat =
        (totalAt d outcomes t.busyDelay (n + 2)).toNat / 1000 := UInt64.toNat_div _ _
    rw [UInt64.le_iff_toNat_le, UInt32.toNat_toUInt64, hdiv] at hnot
    omega
  have hgrows : ∀ n, n ≤ (totalAt d outcomes t.busyDelay (n + 2)).toNat := by
    intro n
    induction n with
    | zero => exact Nat.zero_le _
    | succ n ih =>
        have hstep : totalAt d outcomes t.busyDelay (n + 3) =
          totalAt d outcomes t.busyDelay (n + 2) + delayAfter d outcomes t.busyDelay (n + 2) := rfl
        have hdelay := delayAfter_bounds hpos outcomes n
        have hprev := hsmall n
        have htimeout := timeout.toNat_lt
        rw [hstep, UInt64.toNat_add, Nat.mod_eq_of_lt (by omega)]
        omega
  have hlast := hsmall (1000 * timeout.toNat)
  have hmany := hgrows (1000 * timeout.toNat)
  omega

/-- `client_interact` gives up on a server that does not answer exactly if the delay after the
second resend is not 0, or enough datagrams are sent. -/
theorem notResponding_iff (d : Delays) (timeout : UInt32) (t : Timers) (outcomes : ℕ → SendOutcome)
    (ho : Unanswered outcomes) :
    (∃ n, interact d (some timeout) t outcomes n = .error .notResponding) ↔
      GivesUpWhen d timeout t.busyDelay outcomes := by
  rw [exists_notResponding_iff (some timeout) ho]
  unfold GivesUpWhen
  by_cases hzero : (rawDelay d t.busyDelay 2).toNat = 0
  · have hstuck := (rawDelay_two_eq_zero_iff d t.busyDelay).mp hzero
    simp only [hstuck, ne_eq, not_true_eq_false, false_or]
    constructor
    · intro ⟨n, hexceeds⟩
      obtain ⟨hn, hle⟩ := exceeds_some_iff.mp hexceeds
      obtain ⟨k, rfl⟩ := Nat.exists_eq_add_of_le' hn
      rw [totalAt_of_zero hzero] at hle
      exact ⟨k + 2, hn, hle⟩
    · intro ⟨n, hn, hle⟩
      obtain ⟨k, rfl⟩ := Nat.exists_eq_add_of_le' hn
      refine ⟨k + 2, exceeds_some_iff.mpr ⟨hn, ?_⟩⟩
      rw [totalAt_of_zero hzero]
      exact hle
  · have hmoves := fun h => hzero ((rawDelay_two_eq_zero_iff d t.busyDelay).mpr h)
    exact ⟨fun _ => Or.inl hmoves, fun _ => exceeds_of_pos timeout t outcomes (by omega)⟩

/-- On a fast network every resend is waited for one second, and adds up to six minutes. -/
theorem notResponding_iff_unanswered :
    (∃ n, interact (utilGetEnv none none) (some (getTimeout none)) ⟨0, 0, 0, 0⟩
        (fun _ => .unanswered) n = .error .notResponding) ↔
      GivesUpWhen (utilGetEnv none none) (getTimeout none) 0 fun _ => .unanswered :=
  notResponding_iff (utilGetEnv none none) (getTimeout none) ⟨0, 0, 0, 0⟩ (fun _ => .unanswered)
    fun _ => Or.inl rfl

/-- After a reply within a millisecond the server goes down, and from then on every datagram is
refused: the client sends it again and again without a pause, and for ever. -/
theorem refused_for_ever :
    ¬ ∀ (d : Delays) (timeout : UInt32) (t : Timers) (outcomes : ℕ → SendOutcome),
      Unanswered outcomes →
        ∃ n, interact d (some timeout) t outcomes n = .error .notResponding := by
  intro h
  have hrefused : Unanswered fun _ => .refused := fun _ => Or.inr rfl
  have hgives := h (utilGetEnv none none) (getTimeout none) ⟨0, 0, 0, 0⟩ (fun _ => .refused)
    hrefused
  obtain ⟨n, hexceeds⟩ := (exists_notResponding_iff (some (getTimeout none)) hrefused).mp hgives
  obtain ⟨hn, hle⟩ := exceeds_some_iff.mp hexceeds
  obtain ⟨k, rfl⟩ := Nat.exists_eq_add_of_le' hn
  have hnone : sentResends (fun _ => .refused) (k + 2) = 0 := by
    simp [sentResends]
  rw [totalAt_of_zero (by decide), hnone] at hle
  revert hle
  decide

end

end Fsp
