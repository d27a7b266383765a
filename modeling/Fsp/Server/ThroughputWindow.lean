import Fsp.Lib.Window
import Fsp.Server.Throughput

/-!
# The window of the throughput control

The `thc` array of `server_reply` counts what was sent in each of the last `THCCOUNT` seconds.  What
is sent in one second together with the `THCCOUNT - 1` seconds before it is at most `THCCOUNT` times
the limit, rounded up, and the last datagram (`KeepsLimit`).

The counts and their sum have 32 bits: whatever was sent, they are right up to multiples of 2³²
(`Counted`).  They are right as numbers while the limit leaves room for another datagram below 2³²;
with a higher limit enough can be sent for the sum to wrap around, and the server goes on sending
(`keepsLimit_iff`).
-/

namespace Fsp

open Effect

/-! ## Sequences of replies -/

/-- A reply, and the time at which its request came in. -/
structure Reply where
  curTime : ℤ
  client : SockAddr
  ub : Ubuf
  data : ByteString
  xtra : ByteString

/-- The size of the datagram. -/
def Reply.bytes (r : Reply) : ℕ := (replyTo r.ub r.data r.xtra).encode.length

/-- What `server_loop` and `server_reply` do for a reply. -/
def sendReply {Fs Cwd : Type} [Posix Fs Cwd] (cfg : Config) (r : Reply) : Srv Fs Cwd Unit := do
  modify fun s => { s with curTime := r.curTime }
  serverReply cfg r.client r.ub r.data r.xtra

/-- What was sent, and when. -/
def sentLog (rs : List Reply) : List (ℤ × ℕ) := rs.map fun r => (r.curTime, r.bytes)

/-- The bytes sent in the last `THCCOUNT` seconds, the current one among them. -/
def sentBytes (now : ℤ) (rs : List Reply) : ℕ := amountIn (sentLog rs) now thcCount

/-- Time does not run backwards, from `t₀` on, and each reply fits into a datagram. -/
structure Paced (t₀ : ℤ) (rs : List Reply) : Prop where
  order : (t₀ :: rs.map Reply.curTime).Pairwise (· ≤ ·)
  size : ∀ r ∈ rs, r.bytes ≤ ubufHsize + ubufMaxspace

/-- The sum of the window, as `server_reply` computes it. -/
def sumThc (thc : List UInt32) : UInt32 := thc.foldl (· + ·) 0

/-- A round of a sequence of replies, after the rounds `past`: the window counts what was sent, and
if the reply is sent, the limit is kept. -/
structure WithinLimit {Fs Cwd : Type} [Posix Fs Cwd] (cfg : Config)
    (past : List (Round Reply (Server Fs Cwd))) (r : Round Reply (Server Fs Cwd)) : Prop where
  counted : (sumThc (advanceThc r.input.curTime r.before.thc r.before.thcBase).1).toNat =
    sentBytes r.input.curTime (past.map Round.input)
  bounded : sendReply cfg r.input r.before = .ok () r.after →
    sentBytes r.input.curTime (past.map Round.input ++ [r.input]) ≤
      thcCount * cfg.maxthcallowed.toNat + (thcCount - 1) + r.input.bytes

/-- The limit is kept, on every system, in every sequence of replies. -/
def KeepsLimit (cfg : Config) : Prop :=
  ∀ (Fs Cwd : Type) [Posix Fs Cwd] (s : Server Fs Cwd) (replies : List Reply),
    s.thc = List.replicate thcCount 0 → Paced s.thcBase replies →
    ∀ past r later, rounds (sendReply cfg) s replies = past ++ r :: later →
      WithinLimit cfg past r

/-! ## Counts up to multiples of 2³² -/

/-- What the window counts when it ends with the second `base`. -/
def counts (log : List (ℤ × ℕ)) (base : ℤ) : List UInt32 :=
  (List.range thcCount).map fun (i : ℕ) => UInt32.ofNat (amountAt log (base - i))

theorem length_counts (log : List (ℤ × ℕ)) (base : ℤ) : (counts log base).length = thcCount := by
  rw [counts, List.length_map, List.length_range]

theorem getElem_counts {log : List (ℤ × ℕ)} {base : ℤ} {i : ℕ} (hi : i < (counts log base).length) :
    (counts log base)[i] = UInt32.ofNat (amountAt log (base - i)) := by
  simp [counts]

/-- A second in which nothing was sent yet counts nothing. -/
theorem getElem_counts_of_lt {log : List (ℤ × ℕ)} {base now : ℤ} (hlog : ∀ e ∈ log, e.1 ≤ base)
    {i : ℕ} (hi : i < (counts log now).length) (hlt : base < now - i) : (counts log now)[i] = 0 := by
  rw [getElem_counts, amountAt_eq_zero]
  · rfl
  · intro e he
    have := hlog e he
    omega

/-- The window moves on with the clock. -/
theorem advanceThc_counts {log : List (ℤ × ℕ)} {base now : ℤ} (hle : base ≤ now)
    (hlog : ∀ e ∈ log, e.1 ≤ base) :
    advanceThc now (counts log base) base = (counts log now, now) := by
  unfold advanceThc
  have hlen := length_counts log now
  have hten : thcCount = 10 := rfl
  by_cases hlt : base < now
  · rw [if_pos hlt]
    by_cases hfar : base + thcCount < now
    · rw [if_pos hfar]
      refine Prod.ext ?_ rfl
      apply List.ext_getElem
      · rw [List.length_replicate, hlen]
      · intro i hi hi'
        have hi'' := hlen ▸ hi'
        rw [List.getElem_replicate, getElem_counts_of_lt hlog hi' (by omega)]
    · rw [if_neg hfar]
      refine Prod.ext ?_ rfl
      apply List.ext_getElem
      · rw [List.length_append, List.length_replicate, List.length_take, length_counts, hlen]
        omega
      · intro i hi hi'
        by_cases hnew : i < (now - base).toNat
        · rw [List.getElem_append_left (by rwa [List.length_replicate]), List.getElem_replicate,
            getElem_counts_of_lt hlog hi' (by omega)]
        · rw [List.getElem_append_right (by rw [List.length_replicate]; omega), List.getElem_take,
            getElem_counts, getElem_counts, List.length_replicate]
          congr 2
          omega
  · have hsame : base = now := by omega
    rw [if_neg hlt, hsame]

theorem foldl_add_ofNat (a : UInt32) (l : List ℕ) :
    (l.map UInt32.ofNat).foldl (· + ·) a = a + UInt32.ofNat l.sum := by
  induction l generalizing a with
  | nil => exact (UInt32.add_zero a).symm
  | cons n l ih =>
      rw [List.map_cons, List.foldl_cons, ih, List.sum_cons, UInt32.ofNat_add, UInt32.add_assoc]

/-- The sum of the window. -/
theorem sumThc_counts (log : List (ℤ × ℕ)) (base : ℤ) :
    sumThc (counts log base) = UInt32.ofNat (amountIn log base thcCount) := by
  have hmap : counts log base =
      ((List.range thcCount).map fun (i : ℕ) => amountAt log (base - i)).map UInt32.ofNat := by
    rw [counts, List.map_map]
    rfl
  rw [sumThc, hmap, foldl_add_ofNat, amountIn_eq_sum, UInt32.zero_add]

/-- A datagram is counted in its second. -/
theorem counts_concat (log : List (ℤ × ℕ)) (now : ℤ) (bytes : ℕ) :
    (counts log now).set 0 ((counts log now).getD 0 0 + UInt32.ofNat bytes) =
      counts (log ++ [(now, bytes)]) now := by
  have hlen := length_counts log now
  have hten : thcCount = 10 := rfl
  apply List.ext_getElem
  · rw [List.length_set, length_counts, length_counts]
  · intro i hi hi'
    rw [List.getElem_set, getElem_counts hi', amountAt_concat]
    by_cases hzero : 0 = i
    · have hfirst : (counts log now).getD 0 0 = UInt32.ofNat (amountAt log (now - (0 : ℕ))) := by
        rw [List.getD_eq_getElem?_getD, List.getElem?_eq_getElem (by omega), Option.getD_some,
          getElem_counts]
      rw [if_pos hzero, hfirst, ← hzero, if_pos (by simp), UInt32.ofNat_add]
    · rw [if_neg hzero, if_neg (by omega), getElem_counts, Nat.add_zero]

section

variable {Fs Cwd : Type} {cfg : Config} {t₀ : ℤ} {past : List Reply} {s : Server Fs Cwd} {r : Reply}

/-- The window counts the replies `past`, up to multiples of 2³². -/
structure Counted (t₀ : ℤ) (past : List Reply) (s : Server Fs Cwd) : Prop where
  thc : s.thc = counts (sentLog past) s.thcBase
  base : s.thcBase ∈ t₀ :: past.map Reply.curTime
  before : ∀ e ∈ sentLog past, e.1 ≤ s.thcBase

theorem counted_start (hthc : s.thc = List.replicate thcCount 0) : Counted s.thcBase [] s where
  thc := hthc
  base := List.mem_cons_self
  before _ he := absurd he List.not_mem_nil

/-- The next reply is not earlier than the window. -/
theorem Counted.base_le (h : Counted t₀ past s) (hpaced : Paced t₀ (past ++ [r])) :
    s.thcBase ≤ r.curTime := by
  have horder := hpaced.order
  rw [List.map_append, ← List.cons_append, List.pairwise_append] at horder
  exact horder.2.2 _ h.base _ List.mem_cons_self

theorem Counted.advance (h : Counted t₀ past s) (hle : s.thcBase ≤ r.curTime) :
    advanceThc r.curTime s.thc s.thcBase = (counts (sentLog past) r.curTime, r.curTime) := by
  rw [h.thc]
  exact advanceThc_counts hle h.before

/-- The average that the next reply meets. -/
theorem Counted.average (h : Counted t₀ past s) (hle : s.thcBase ≤ r.curTime) :
    averageThc (advanceThc r.curTime s.thc s.thcBase).1 ≤ cfg.maxthcallowed ↔
      sentBytes r.curTime past % 2 ^ 32 / thcCount ≤ cfg.maxthcallowed.toNat := by
  have haverage : averageThc (counts (sentLog past) r.curTime) =
      sumThc (counts (sentLog past) r.curTime) / 10 := rfl
  rw [h.advance hle, haverage, sumThc_counts, UInt32.le_iff_toNat_le, UInt32.toNat_div,
    UInt32.toNat_ofNat']
  rfl

/-- The window after the next reply. -/
theorem Counted.sent (h : Counted t₀ past s) (hle : s.thcBase ≤ r.curTime) {s' : Server Fs Cwd}
    (hthc : s'.thc = (advanceThc r.curTime s.thc s.thcBase).1.set 0
      ((advanceThc r.curTime s.thc s.thcBase).1.getD 0 0 + UInt32.ofNat r.bytes))
    (hbase : s'.thcBase = (advanceThc r.curTime s.thc s.thcBase).2) :
    Counted t₀ (past ++ [r]) s' ∧ s'.thcBase = r.curTime := by
  rw [h.advance hle] at hthc hbase
  have hlog : sentLog (past ++ [r]) = sentLog past ++ [(r.curTime, r.bytes)] := by
    rw [sentLog, sentLog, List.map_append]
    rfl
  refine ⟨⟨?_, ?_, ?_⟩, hbase⟩
  · rw [hthc, hbase, hlog]
    exact counts_concat _ _ _
  · rw [hbase, List.map_append]
    exact List.mem_cons_of_mem _ (List.mem_append_right _ (List.mem_singleton.mpr rfl))
  · intro e he
    rw [hlog] at he
    rw [hbase]
    rcases List.mem_append.mp he with he | he
    · exact (h.before e he).trans hle
    · rw [List.mem_singleton.mp he]

variable [Posix Fs Cwd]

/-- What a reply does. -/
theorem Counted.sendReply (hmax : 0 < cfg.maxthcallowed) (h : Counted t₀ past s)
    (hle : s.thcBase ≤ r.curTime) :
    wp (sendReply cfg r)
      (fun _ s' => Counted t₀ (past ++ [r]) s' ∧ s'.thcBase = r.curTime ∧
        sentBytes r.curTime past % 2 ^ 32 / thcCount ≤ cfg.maxthcallowed.toNat)
      (fun _ => True) s := by
  have hclock : wp (modify fun s => { s with curTime := r.curTime } : Srv Fs Cwd Unit)
      (fun _ s' => s' = { s with curTime := r.curTime }) (fun _ => True) s := rfl
  apply wp_seq hclock
  rintro _ s₀ rfl
  have hthrottle : wp (throttle cfg r.bytes : Srv Fs Cwd Unit)
      (fun _ s' => Counted t₀ (past ++ [r]) s' ∧ s'.thcBase = r.curTime ∧
        sentBytes r.curTime past % 2 ^ 32 / thcCount ≤ cfg.maxthcallowed.toNat)
      (fun _ => True) { s with curTime := r.curTime } := by
    unfold wp
    rw [throttle_eq hmax]
    by_cases hwithin : Server.average { s with curTime := r.curTime } ≤ cfg.maxthcallowed
    · rw [if_pos hwithin]
      have hsent : ∀ s' : Server Fs Cwd,
          s'.thc = (advanceThc r.curTime s.thc s.thcBase).1.set 0
            ((advanceThc r.curTime s.thc s.thcBase).1.getD 0 0 + UInt32.ofNat r.bytes) →
          s'.thcBase = (advanceThc r.curTime s.thc s.thcBase).2 →
            Counted t₀ (past ++ [r]) s' ∧ s'.thcBase = r.curTime := fun _ => h.sent hle
      obtain ⟨hcounted, hbase⟩ := hsent { s with
        curTime := r.curTime
        thc := (advanceThc r.curTime s.thc s.thcBase).1.set 0
          ((advanceThc r.curTime s.thc s.thcBase).1.getD 0 0 + UInt32.ofNat r.bytes)
        thcBase := (advanceThc r.curTime s.thc s.thcBase).2 } rfl rfl
      exact ⟨hcounted, hbase, (h.average hle).mp hwithin⟩
    · rw [if_neg hwithin]
      exact trivial
  apply wp_seq hthrottle
  rintro _ s₁ ⟨hcounted, hbase, hwithin⟩
  have hquery : wp (query fun (fs : Fs) _ =>
        Posix.sendto fs r.client.addr r.client.port (replyTo r.ub r.data r.xtra).encode)
      (fun _ s' => s' = s₁) (fun _ => True) s₁ := rfl
  apply wp_seq hquery
  rintro sent s₂ rfl
  apply wp_ite
  · exact fun _ => ⟨⟨hcounted.thc, hcounted.base, hcounted.before⟩, hbase, hwithin⟩
  · exact fun _ => trivial

/-! ## Limits that leave room for a datagram -/

/-- With another datagram the sum has 32 bits. -/
def LeavesRoom (cfg : Config) : Prop :=
  thcCount * cfg.maxthcallowed.toNat + (thcCount - 1) + (ubufHsize + ubufMaxspace) < 2 ^ 32

omit [Posix Fs Cwd] in
/-- The bytes in the window when a reply goes out. -/
theorem Counted.sentBytes_le (h : Counted t₀ past s) (hle : s.thcBase ≤ r.curTime)
    (hsum : sentBytes s.thcBase past < 2 ^ 32)
    (hwithin : sentBytes r.curTime past % 2 ^ 32 / thcCount ≤ cfg.maxthcallowed.toNat) :
    sentBytes r.curTime past ≤ thcCount * cfg.maxthcallowed.toNat + (thcCount - 1) := by
  have hmono : sentBytes r.curTime past ≤ sentBytes s.thcBase past :=
    amountIn_mono hle h.before thcCount
  have hten : thcCount = 10 := rfl
  rw [Nat.mod_eq_of_lt (by omega)] at hwithin
  rw [hten] at hwithin ⊢
  omega

theorem sentBytes_concat (now : ℤ) (past : List Reply) (hnow : r.curTime = now) :
    sentBytes now (past ++ [r]) = sentBytes now past + r.bytes := by
  have hlog : sentLog (past ++ [r]) = sentLog past ++ [(r.curTime, r.bytes)] := by
    rw [sentLog, sentLog, List.map_append]
    rfl
  have hten : thcCount = 10 := rfl
  rw [sentBytes, hlog, amountIn_concat, if_pos ⟨by show _ < r.curTime; omega, hnow.le⟩]
  rfl

/-- The invariant of a sequence of replies: the window counts what was sent, which is not much more
than the limit. -/
structure Room (cfg : Config) (t₀ : ℤ) (past : List Reply) (s : Server Fs Cwd) : Prop where
  counted : Counted t₀ past s
  bound : sentBytes s.thcBase past ≤
    thcCount * cfg.maxthcallowed.toNat + (thcCount - 1) + (ubufHsize + ubufMaxspace)

theorem Paced.of_append {rs : List Reply} (h : Paced t₀ (past ++ rs)) : Paced t₀ past where
  order := by
    have horder := h.order
    rw [List.map_append, ← List.cons_append, List.pairwise_append] at horder
    exact horder.1
  size r hr := h.size r (List.mem_append_left _ hr)

/-- One reply. -/
theorem Room.withinLimit (hroom : LeavesRoom cfg) (hmax : 0 < cfg.maxthcallowed)
    {past : List (Round Reply (Server Fs Cwd))} (h : Room cfg t₀ (past.map Round.input) s)
    (hpaced : Paced t₀ (past.map Round.input ++ [r])) :
    wp (Fsp.sendReply cfg r)
      (fun _ s' => Room cfg t₀ (past.map Round.input ++ [r]) s' ∧ WithinLimit cfg past ⟨r, s, s'⟩)
      (fun s' => WithinLimit cfg past ⟨r, s, s'⟩) s := by
  have hle := h.counted.base_le hpaced
  have hsize := hpaced.size r (List.mem_append_right _ (List.mem_singleton.mpr rfl))
  have hmono : sentBytes r.curTime (past.map Round.input) ≤ sentBytes s.thcBase _ :=
    amountIn_mono hle h.counted.before thcCount
  have hbound := h.bound
  have hcounted : (sumThc (advanceThc r.curTime s.thc s.thcBase).1).toNat =
      sentBytes r.curTime (past.map Round.input) := by
    rw [h.counted.advance hle, sumThc_counts, UInt32.toNat_ofNat']
    exact Nat.mod_eq_of_lt (by unfold LeavesRoom at hroom; show sentBytes _ _ < _; omega)
  have hsent := h.counted.sendReply hmax hle
  unfold wp at hsent ⊢
  cases hm : Fsp.sendReply cfg r s with
  | error e s' =>
      refine ⟨hcounted, fun hok => ?_⟩
      rw [hm] at hok
      cases hok
  | ok u s' =>
      rw [hm] at hsent
      obtain ⟨hcounted', hbase, hwithin⟩ := hsent
      have hlimit := h.counted.sentBytes_le hle (by unfold LeavesRoom at hroom; omega) hwithin
      have hconcat := sentBytes_concat r.curTime (past.map Round.input) (r := r) rfl
      refine ⟨⟨hcounted', ?_⟩, hcounted, fun _ => ?_⟩
      · rw [hbase, hconcat]
        omega
      · show sentBytes r.curTime (_ ++ [r]) ≤ _ + r.bytes
        rw [hconcat]
        omega

/-- A limit that leaves room is kept. -/
theorem LeavesRoom.keepsLimit (hroom : LeavesRoom cfg) (hmax : 0 < cfg.maxthcallowed) :
    KeepsLimit cfg := by
  intro Fs Cwd _ s replies hthc hpaced past r later heq
  have hprefix : (rounds (sendReply cfg) s replies).map Round.input <+: replies :=
    input_rounds s replies
  obtain ⟨rest, hrest⟩ := hprefix
  have hsplit : replies =
      (past.map Round.input ++ [r.input]) ++ (later.map Round.input ++ rest) := by
    rw [← hrest, heq]
    simp
  rw [hsplit] at hpaced
  refine rounds_triple (s := s)
    (I := fun past s' => Paced s.thcBase (past.map Round.input) →
      Room cfg s.thcBase (past.map Round.input) s')
    (P := fun past r => Paced s.thcBase (past.map Round.input ++ [r.input]) →
      WithinLimit cfg past r)
    [] (fun _ => ⟨counted_start hthc, Nat.zero_le _⟩) ?_ heq hpaced.of_append
  intro past s' r hI
  by_cases hr : Paced s.thcBase (past.map Round.input ++ [r])
  · refine wp_mono ((hI hr.of_append).withinLimit hroom hmax hr) ?_ ?_
    · intro _ s'' hafter
      refine ⟨fun _ => ?_, fun _ => hafter.2⟩
      rw [List.map_append]
      exact hafter.1
    · exact fun _ hwithin _ => hwithin
  · refine wp_mono ((returns_true _).run s') ?_ ?_
    · intro _ s'' _
      refine ⟨fun hpaced => ?_, fun hpaced => absurd hpaced hr⟩
      rw [List.map_append] at hpaced
      exact absurd hpaced hr
    · exact fun _ _ hpaced => absurd hpaced hr

end

/-! ## Limits that leave no room -/

/-- A reply of `bytes` bytes at time `t`. -/
def replyOf (t : ℤ) (bytes : ℕ) : Reply :=
  ⟨t, Scenario.client, ⟨0, 0, 0, 0, 0, 0, 0, []⟩, List.replicate (bytes - ubufHsize) 0, []⟩

theorem bytes_replyOf (t : ℤ) {bytes : ℕ} (h : ubufHsize ≤ bytes) :
    (replyOf t bytes).bytes = bytes := by
  rw [Reply.bytes, Ubuf.length_encode]
  simp only [replyTo, replyOf, List.append_nil, List.length_replicate]
  omega

section

variable {cfg : Config} {t₀ t : ℤ} {past : List Reply} {s : Server Disk Path} {r : Reply}

/-- A reply within the limit goes out. -/
theorem Counted.sendReply_ok (hmax : 0 < cfg.maxthcallowed) (h : Counted t₀ past s)
    (hle : s.thcBase ≤ r.curTime)
    (hwithin : sentBytes r.curTime past ≤ thcCount * cfg.maxthcallowed.toNat + (thcCount - 1)) :
    ∃ s', Fsp.sendReply cfg r s = .ok () s' ∧ Counted t₀ (past ++ [r]) s' ∧
      s'.thcBase = r.curTime := by
  have hten : thcCount = 10 := rfl
  have haverage : Server.average { s with curTime := r.curTime } ≤ cfg.maxthcallowed := by
    refine (h.average hle).mpr ?_
    have := Nat.mod_le (sentBytes r.curTime past) (2 ^ 32)
    rw [hten] at hwithin ⊢
    omega
  have hsent := h.sendReply hmax hle
  obtain ⟨s₁, hs₁⟩ : ∃ s₁ : Server Disk Path,
      throttle cfg r.bytes { s with curTime := r.curTime } = .ok () s₁ := by
    rw [throttle_eq hmax, if_pos haverage]
    exact ⟨_, rfl⟩
  have hok : Fsp.sendReply cfg r s = .ok ()
      { s₁ with trace := s₁.trace ++ [.sent r.client (replyTo r.ub r.data r.xtra).encode] } :=
    bind_of_ok hs₁
  have hafter := wp_of_ok hsent hok
  exact ⟨_, hok, hafter.1, hafter.2.1⟩

/-- Replies in one second go out while they are within the limit. -/
theorem Counted.rounds_ok (hmax : 0 < cfg.maxthcallowed) (rs : List Reply)
    (hrs : ∀ r ∈ rs, r.curTime = t) (h : Counted t₀ past s) (hbase : s.thcBase = t)
    (hsum : sentBytes t past + (rs.map Reply.bytes).sum ≤
      thcCount * cfg.maxthcallowed.toNat + (thcCount - 1)) :
    ∃ done s', (∀ later, rounds (Fsp.sendReply cfg) s (rs ++ later) =
        done ++ rounds (Fsp.sendReply cfg) s' later) ∧ done.map Round.input = rs ∧
      Counted t₀ (past ++ rs) s' ∧ s'.thcBase = t ∧
      sentBytes t (past ++ rs) = sentBytes t past + (rs.map Reply.bytes).sum := by
  induction rs generalizing past s with
  | nil =>
      refine ⟨[], s, fun _ => rfl, rfl, ?_, hbase, ?_⟩
      · rw [List.append_nil]
        exact h
      · rw [List.append_nil]
        rfl
  | cons r rs ih =>
      have hr := hrs r List.mem_cons_self
      rw [List.map_cons, List.sum_cons] at hsum ⊢
      obtain ⟨s₁, hok, hcounted, hbase₁⟩ := h.sendReply_ok (r := r) hmax (by rw [hbase, hr])
        (by rw [hr]; omega)
      have hconcat := sentBytes_concat t past hr
      obtain ⟨done, s', hrounds, hinput, hcounted', hbase', hsum'⟩ := ih
        (fun r' hr' => hrs r' (List.mem_cons_of_mem _ hr')) hcounted (hbase₁.trans hr) (by omega)
      rw [List.append_assoc, List.singleton_append] at hcounted' hsum'
      refine ⟨⟨r, s, s₁⟩ :: done, s', fun later => ?_, by rw [List.map_cons, hinput], hcounted',
        hbase', by omega⟩
      rw [List.cons_append, List.cons_append, ← hrounds later]
      simp only [rounds, hok]

/-- Replies that fill the window up to the limit. -/
def filling (t : ℤ) (n : ℕ) : List Reply :=
  List.replicate (n / ubufHsize - 1) (replyOf t ubufHsize) ++
    [replyOf t (ubufHsize + n % ubufHsize)]

theorem sum_filling (t : ℤ) {n : ℕ} (h : ubufHsize ≤ n) :
    ((filling t n).map Reply.bytes).sum = n := by
  have htwelve : ubufHsize = 12 := rfl
  rw [filling, List.map_append, List.sum_append, List.map_replicate, List.sum_replicate_nat,
    bytes_replyOf t le_rfl]
  show _ + ((replyOf t (ubufHsize + n % ubufHsize)).bytes + 0) = n
  rw [bytes_replyOf t (Nat.le_add_right _ _)]
  rw [htwelve] at h ⊢
  omega

theorem mem_filling {t : ℤ} {n : ℕ} {r : Reply} (h : r ∈ filling t n) :
    r.curTime = t ∧ r.bytes ≤ ubufHsize + ubufMaxspace := by
  rcases List.mem_append.mp h with h | h
  · rw [List.eq_of_mem_replicate h, bytes_replyOf t le_rfl]
    exact ⟨rfl, Nat.le_add_right _ _⟩
  · have hmod : n % ubufHsize < ubufHsize := Nat.mod_lt _ (by decide)
    have hspace : ubufHsize ≤ ubufMaxspace := by decide
    rw [List.mem_singleton.mp h, bytes_replyOf t (Nat.le_add_right _ _)]
    exact ⟨rfl, by omega⟩

/-- Replies in the first second are paced. -/
theorem paced_of_forall {rs : List Reply}
    (h : ∀ r ∈ rs, r.curTime = t ∧ r.bytes ≤ ubufHsize + ubufMaxspace) : Paced t rs where
  order := by
    have hat : ∀ t' ∈ t :: rs.map Reply.curTime, t' = t := by
      intro t' ht'
      rcases List.mem_cons.mp ht' with rfl | ht'
      · rfl
      · obtain ⟨r, hr, rfl⟩ := List.mem_map.mp ht'
        exact (h r hr).1
    refine List.pairwise_of_forall_mem_list fun a ha b hb => ?_
    rw [hat a ha, hat b hb]
  size r hr := (h r hr).2

/-- After the largest datagram on top of the limit, the sum is not what was sent. -/
theorem KeepsLimit.leavesRoom (h : KeepsLimit cfg) (hmax : 0 < cfg.maxthcallowed) :
    LeavesRoom cfg := by
  obtain ⟨n, hn⟩ : ∃ n, n = thcCount * cfg.maxthcallowed.toNat + (thcCount - 1) := ⟨_, rfl⟩
  obtain ⟨s, hs⟩ : ∃ s, s = Scenario.start cfg [] := ⟨_, rfl⟩
  have hten : thcCount = 10 := rfl
  have htwelve : ubufHsize = 12 := rfl
  have hlarge : ubufHsize ≤ n := by
    have := UInt32.lt_iff_toNat_lt.mp hmax
    rw [UInt32.toNat_zero] at this
    rw [hn, hten, htwelve]
    omega
  have hthc : s.thc = List.replicate thcCount 0 := by rw [hs]; rfl
  have hstart := counted_start hthc
  obtain ⟨done, s₁, hrounds, hinput, hcounted, hbase, hsum⟩ :=
    hstart.rounds_ok hmax (filling s.thcBase n) (fun r hr => (mem_filling hr).1) rfl (by
      rw [sum_filling _ hlarge, ← hn]
      exact (Nat.zero_add n).le)
  rw [sum_filling _ hlarge, List.nil_append] at hsum
  have hempty : sentBytes s.thcBase [] = 0 := rfl
  have hbig := bytes_replyOf s.thcBase (Nat.le_add_right ubufHsize ubufMaxspace)
  obtain ⟨s₂, hok, hcounted₂, hbase₂⟩ := hcounted.sendReply_ok hmax
    (r := replyOf s.thcBase (ubufHsize + ubufMaxspace)) hbase.le (by
      show sentBytes s.thcBase _ ≤ _
      rw [List.nil_append]
      omega)
  have hconcat := sentBytes_concat (r := replyOf s.thcBase (ubufHsize + ubufMaxspace)) s.thcBase
    ([] ++ filling s.thcBase n) rfl
  rw [List.nil_append, hbig, hsum, hempty, Nat.zero_add] at hconcat
  -- the window at the next reply, whether it is sent or not
  obtain ⟨last, hlast⟩ : ∃ last, last = replyOf s.thcBase ubufHsize := ⟨_, rfl⟩
  have hrun : rounds (Fsp.sendReply cfg) s (filling s.thcBase n ++
        [replyOf s.thcBase (ubufHsize + ubufMaxspace), last]) =
      (done ++ [⟨replyOf s.thcBase (ubufHsize + ubufMaxspace), s₁, s₂⟩]) ++
        ⟨last, s₂, final (Fsp.sendReply cfg last s₂)⟩ :: [] := by
    rw [hrounds, List.append_assoc]
    simp only [rounds, hok]
    cases Fsp.sendReply cfg last s₂ <;> rfl
  have hpaced : Paced s.thcBase (filling s.thcBase n ++
      [replyOf s.thcBase (ubufHsize + ubufMaxspace), last]) := by
    apply paced_of_forall
    intro r hr
    rw [List.mem_append, List.mem_pair] at hr
    rcases hr with hr | rfl | rfl
    · exact mem_filling hr
    · exact ⟨rfl, hbig.le⟩
    · rw [hlast, bytes_replyOf _ le_rfl]
      exact ⟨rfl, Nat.le_add_right _ _⟩
  have hcount := (h Disk Path s _ hthc hpaced _ _ _ hrun).counted
  have hlt := (sumThc (advanceThc last.curTime s₂.thc s₂.thcBase).1).toNat_lt
  rw [hcount, List.map_append, hinput, hlast] at hlt
  have hbytes : sentBytes s.thcBase (filling s.thcBase n ++
      [replyOf s.thcBase (ubufHsize + ubufMaxspace)]) < 2 ^ 32 := hlt
  unfold LeavesRoom
  omega

end

/-- The limit is kept if and only if it leaves room for a datagram below 2³². -/
theorem keepsLimit_iff (cfg : Config) (hmax : 0 < cfg.maxthcallowed) :
    KeepsLimit cfg ↔ LeavesRoom cfg :=
  ⟨fun h => h.leavesRoom hmax, fun h => h.keepsLimit hmax⟩

/-- A limit of 100 bytes a second leaves room. -/
theorem keepsLimit_iff_busy : LeavesRoom busyConfig ∧ KeepsLimit busyConfig := by
  have hroom : LeavesRoom busyConfig := by
    unfold LeavesRoom
    decide
  exact ⟨hroom, (keepsLimit_iff busyConfig (by decide)).mpr hroom⟩

/-- The highest limit that `fspd.conf` can set. -/
def greedyConfig : Config := { Scenario.config with maxthcallowed := 2147483647 }

theorem not_keepsLimit_greedy : ¬ KeepsLimit greedyConfig := by
  intro h
  have hroom := h.leavesRoom (by decide)
  unfold LeavesRoom at hroom
  exact absurd hroom (by decide)

end Fsp
