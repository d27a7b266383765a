import Fsp.Scenario

/-!
# Throughput control

`server_reply` waits in a loop until the average of the window is within the limit.  The window is
shifted up to `cur_time`, which only `server_loop` sets, so it is shifted in the first pass through
the loop and never again: a server over its limit waits for ever.

So it depends on three variables as the reply finds them whether the reply goes out: the counts
`thc`, the second `thcbase` of the first of them, and `cur_time`.  The counts of the seconds less
than `THCCOUNT` before `cur_time` are the ones that matter (`Server.recent`).  The proof is in two
steps:

* `throttleLoop_ends_iff`: shifting a second time changes nothing (`advanceThc_advanceThc`), so the
  loop ends in its first pass or never;
* `toNat_averageThc_advanceThc`: the average of that pass is the sum of those counts, with the
  wrap-around of 32 bits, over `THCCOUNT`.
-/

namespace Fsp

open Effect

/-- The average the loop compares with the limit. -/
def averageThc (thc : List UInt32) : UInt32 := thc.foldl (· + ·) 0 / 10

/-- At most `n` passes through the loop of `server_reply`: the window at the `break`.  A pass that
does not get there sleeps for a second, and `curTime` stays what it is. -/
def throttleLoop (maxthcallowed : UInt32) (curTime : ℤ) :
    ℕ → List UInt32 × ℤ → Option (List UInt32 × ℤ)
  | 0, _ => none
  | n + 1, (thc, thcBase) =>
      let window := advanceThc curTime thc thcBase
      if averageThc window.1 ≤ maxthcallowed then some window
      else throttleLoop maxthcallowed curTime n window

/-- The window is shifted once only. -/
theorem advanceThc_advanceThc (curTime : ℤ) (thc : List UInt32) (thcBase : ℤ) :
    advanceThc curTime (advanceThc curTime thc thcBase).1 (advanceThc curTime thc thcBase).2 =
      advanceThc curTime thc thcBase := by
  have hstays : ∀ (thc : List UInt32) (thcBase : ℤ), ¬ thcBase < curTime →
      advanceThc curTime thc thcBase = (thc, thcBase) := by
    intro thc thcBase hle
    unfold advanceThc
    exact if_neg hle
  by_cases hlt : thcBase < curTime
  · have hbase : (advanceThc curTime thc thcBase).2 = curTime := by
      unfold advanceThc
      rw [if_pos hlt]
      split <;> rfl
    apply hstays
    rw [hbase]
    exact Int.lt_irrefl curTime
  · rw [hstays thc thcBase hlt, hstays thc thcBase hlt]

/-- The loop ends in its first pass or never. -/
theorem throttleLoop_succ (maxthcallowed : UInt32) (curTime : ℤ) (n : ℕ) (thc : List UInt32)
    (thcBase : ℤ) :
    throttleLoop maxthcallowed curTime (n + 1) (thc, thcBase) =
      if averageThc (advanceThc curTime thc thcBase).1 ≤ maxthcallowed then
        some (advanceThc curTime thc thcBase)
      else none := by
  induction n generalizing thc thcBase with
  | zero => rfl
  | succ n ih =>
      rw [throttleLoop]
      split
      · rfl
      · rename_i hover
        have hih := ih (advanceThc curTime thc thcBase).1 (advanceThc curTime thc thcBase).2
        rw [advanceThc_advanceThc, if_neg hover] at hih
        exact hih

theorem throttleLoop_ends_iff {maxthcallowed : UInt32} {curTime : ℤ} {thc : List UInt32}
    {thcBase : ℤ} :
    (∃ n window, throttleLoop maxthcallowed curTime n (thc, thcBase) = some window) ↔
      averageThc (advanceThc curTime thc thcBase).1 ≤ maxthcallowed := by
  constructor
  · rintro ⟨n, window, hends⟩
    cases n with
    | zero => cases hends
    | succ n =>
        rw [throttleLoop_succ] at hends
        by_contra hover
        rw [if_neg hover] at hends
        cases hends
  · intro hwithin
    exact ⟨1, _, (throttleLoop_succ _ _ 0 _ _).trans (if_pos hwithin)⟩

section

variable {Fs Cwd : Type} [Posix Fs Cwd] {cfg : Config} {s : Server Fs Cwd}

/-- The average a reply meets. -/
def Server.average (s : Server Fs Cwd) : UInt32 :=
  averageThc (advanceThc s.curTime s.thc s.thcBase).1

omit [Posix Fs Cwd] in
/-- What `throttle` does is what the loop does: it goes on with the window at the `break`, or it
never returns. -/
theorem throttle_eq (hmax : 0 < cfg.maxthcallowed) (bytes : ℕ) :
    throttle cfg bytes s =
      if s.average ≤ cfg.maxthcallowed then
        .ok () { s with
          thc := (advanceThc s.curTime s.thc s.thcBase).1.set 0
            ((advanceThc s.curTime s.thc s.thcBase).1.getD 0 0 + UInt32.ofNat bytes)
          thcBase := (advanceThc s.curTime s.thc s.thcBase).2 }
      else .error .hang s := by
  have hpos : cfg.maxthcallowed ≠ 0 := UInt32.pos_iff_ne_zero.mp hmax
  unfold throttle
  rw [if_neg hpos]
  show (if s.average ≤ cfg.maxthcallowed then _ else _ : Srv Fs Cwd Unit) s = _
  split <;> rfl

omit [Posix Fs Cwd] in
theorem same_throttle (bytes : ℕ) :
    Does (Same fun s : Server Fs Cwd => s.trace) (throttle cfg bytes : Srv Fs Cwd Unit) := by
  apply does_ite
  · exact fun _ => does_pure _
  · intro _
    refine does_bind does_get fun s => ?_
    apply does_ite
    · exact fun _ _ => rfl
    · exact fun _ => does_throw _

/-- What `server_reply` sends. -/
theorem sends_serverReply (client : SockAddr) (ub : Ubuf) (data xtra : ByteString) :
    Ends (fun s s' : Server Fs Cwd =>
        s'.trace = s.trace ++ [.sent client (replyTo ub data xtra).encode])
      (serverReply cfg client ub data xtra : Srv Fs Cwd Unit) := by
  intro s
  apply wp_seq (((same_throttle _).ends fun _ _ h => h) s)
  intro _ s₁ hs₁
  have hquery : wp (query fun (fs : Fs) _ =>
        Posix.sendto fs client.addr client.port (replyTo ub data xtra).encode)
      (fun _ s' => s' = s₁) (fun _ => True) s₁ := rfl
  apply wp_seq hquery
  rintro sent s₂ rfl
  apply wp_ite
  · intro _
    show s₂.trace ++ _ = _
    rw [show s₂.trace = s.trace from hs₁]
  · exact fun _ => trivial

/-! ## Which replies go out -/

/-- The counts of the seconds that are still in the window at `cur_time`: `thc[i]` belongs to the
second `thcbase - i`. -/
def Server.recent (s : Server Fs Cwd) : List UInt32 :=
  s.thc.take (thcCount - (s.curTime - s.thcBase).toNat)

/-- What was sent in those seconds, as far as 32 bits tell. -/
def Server.recentBytes (s : Server Fs Cwd) : ℕ := (s.recent.map UInt32.toNat).sum % 2 ^ 32

theorem toNat_foldl_add (a : UInt32) (l : List UInt32) :
    (l.foldl (· + ·) a).toNat = (a.toNat + (l.map UInt32.toNat).sum) % 2 ^ 32 := by
  induction l generalizing a with
  | nil => exact (Nat.mod_eq_of_lt a.toNat_lt).symm
  | cons n l ih =>
      rw [List.foldl_cons, ih, List.map_cons, List.sum_cons, UInt32.toNat_add, Nat.mod_add_mod,
        Nat.add_assoc]

theorem toNat_averageThc (thc : List UInt32) :
    (averageThc thc).toNat = (thc.map UInt32.toNat).sum % 2 ^ 32 / thcCount := by
  rw [averageThc, UInt32.toNat_div, toNat_foldl_add, UInt32.toNat_zero, Nat.zero_add]
  rfl

omit [Posix Fs Cwd] in
/-- The seconds that the shift adds count nothing. -/
theorem sum_advanceThc (hlen : s.thc.length = thcCount) :
    ((advanceThc s.curTime s.thc s.thcBase).1.map UInt32.toNat).sum =
      (s.recent.map UInt32.toNat).sum := by
  have hzeros : ∀ n : ℕ, ((List.replicate n (0 : UInt32)).map UInt32.toNat).sum = 0 := by
    intro n
    rw [List.map_replicate, List.sum_replicate_nat, UInt32.toNat_zero, Nat.mul_zero]
  unfold advanceThc Server.recent
  by_cases hlt : s.thcBase < s.curTime
  · rw [if_pos hlt]
    by_cases hfar : s.thcBase + thcCount < s.curTime
    · have hnone : thcCount - (s.curTime - s.thcBase).toNat = 0 := by omega
      rw [if_pos hfar, hzeros, hnone]
      rfl
    · rw [if_neg hfar, List.map_append, List.sum_append, hzeros, Nat.zero_add]
  · -- the window is not shifted, also when the clock has been set back
    have hall : thcCount - (s.curTime - s.thcBase).toNat = s.thc.length := by omega
    rw [if_neg hlt, hall, List.take_length]

omit [Posix Fs Cwd] in
theorem toNat_averageThc_advanceThc (hlen : s.thc.length = thcCount) :
    (averageThc (advanceThc s.curTime s.thc s.thcBase).1).toNat = s.recentBytes / thcCount := by
  rw [toNat_averageThc, sum_advanceThc hlen]
  rfl

/-- The loop ends, and the reply is sent. -/
structure LetsGo (cfg : Config) (s : Server Fs Cwd) (client : SockAddr) (ub : Ubuf)
    (data xtra : ByteString) : Prop where
  ends : ∃ n window,
    throttleLoop cfg.maxthcallowed s.curTime n (s.thc, s.thcBase) = some window
  sent : ∃ s', serverReply cfg client ub data xtra s = .ok () s' ∧
    s'.trace = s.trace ++ [.sent client (replyTo ub data xtra).encode]

/-- A reply goes out exactly when the counts of the seconds less than `THCCOUNT` before `cur_time`
are within the limit on average. -/
theorem letsGo_iff (cfg : Config) (hmax : 0 < cfg.maxthcallowed) (s : Server Fs Cwd)
    (hlen : s.thc.length = thcCount) (client : SockAddr) (ub : Ubuf) (data xtra : ByteString)
    (hsendto : Posix.sendto s.fs client.addr client.port (replyTo ub data xtra).encode = true) :
    LetsGo cfg s client ub data xtra ↔ s.recentBytes / thcCount ≤ cfg.maxthcallowed.toNat := by
  have haverage : s.average ≤ cfg.maxthcallowed ↔
      s.recentBytes / thcCount ≤ cfg.maxthcallowed.toNat := by
    rw [UInt32.le_iff_toNat_le, Server.average, toNat_averageThc_advanceThc hlen]
  rw [← haverage]
  constructor
  · intro hgo
    exact throttleLoop_ends_iff.mp hgo.ends
  · intro hwithin
    obtain ⟨s₁, hs₁, hfs, htrace⟩ : ∃ s₁ : Server Fs Cwd,
        throttle cfg (replyTo ub data xtra).encode.length s = .ok () s₁ ∧ s₁.fs = s.fs ∧
          s₁.trace = s.trace := by
      rw [throttle_eq hmax, if_pos hwithin]
      exact ⟨_, rfl, rfl, rfl⟩
    refine ⟨throttleLoop_ends_iff.mpr hwithin,
      { s₁ with trace := s₁.trace ++ [.sent client (replyTo ub data xtra).encode] },
      (bind_of_ok hs₁).trans ?_, by rw [htrace]⟩
    show (if Posix.sendto s₁.fs client.addr client.port (replyTo ub data xtra).encode = true
      then emit _ else _ : Srv Fs Cwd Unit) s₁ = _
    rw [if_pos (hfs ▸ hsendto)]
    rfl

end

/-! ## A server over its limit -/

/-- A limit of 100 bytes a second. -/
def busyConfig : Config := { Scenario.config with maxthcallowed := 100 }

/-- A server that has sent 2000 bytes `ago` seconds ago, and nothing since. -/
def busyServer (ago : ℤ) : Server Disk Path :=
  { Scenario.start busyConfig [] with thc := 2000 :: List.replicate 9 0, thcBase := 0, curTime := ago }

/-- After nine seconds the window still holds the 2000 bytes, after ten it does not. -/
theorem letsGo_iff_busy :
    (¬ LetsGo busyConfig (busyServer 9) Scenario.client ⟨0, 0, 0, 0, 0, 0, 0, []⟩ [] []) ∧
      LetsGo busyConfig (busyServer 10) Scenario.client ⟨0, 0, 0, 0, 0, 0, 0, []⟩ [] [] :=
  ⟨fun hgo => absurd ((letsGo_iff busyConfig (by decide) (busyServer 9) rfl Scenario.client _ [] []
      rfl).mp hgo) (by decide),
    (letsGo_iff busyConfig (by decide) (busyServer 10) rfl Scenario.client _ [] [] rfl).mpr
      (by decide)⟩

/-- The next reply is never sent. -/
theorem busyServer_never_lets_go :
    ¬ LetsGo busyConfig (busyServer 0) Scenario.client ⟨0, 0, 0, 0, 0, 0, 0, []⟩ [] [] := by
  intro hgo
  exact absurd (throttleLoop_ends_iff.mp hgo.ends) (by decide)

end Fsp
