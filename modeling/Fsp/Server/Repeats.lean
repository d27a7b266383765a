import Fsp.Server.Sessions

/-!
# Repeated requests

A client that gets no reply sends its request again with the same key, and the server tells such a
repetition from a new request by the key alone.  That works as long as the key of the request
executed last is not the one the session waits for.  The key the session waits for is made when a
request is dispatched, from a random number that nothing compares with the old key; and it is taken
from a datagram before the checksum of the datagram is looked at.
-/

namespace Fsp

open Effect

variable {Fs Cwd : Type}

/-- The datagram is dispatched with `old = 0`. -/
def Executes (cfg : Config) (a : Arrival Fs) (s : Server Fs Cwd) (ub : Ubuf) : Prop :=
  ∃ h, Dispatches cfg a s ub false h

/-- In some rounds, the last request of the host `b` that was dispatched with `old = 0` has the
key `e`. -/
def LastExecuted (cfg : Config) (past : List (Effect.Round (Arrival Fs) (Server Fs Cwd)))
    (b : UInt32) (e : UInt16) : Prop :=
  ∃ before r after ub, past = before ++ r :: after ∧ r.input.client.addr = b ∧
    Executes cfg r.input r.before ub ∧ ub.bbKey = e ∧
    ∀ r' ∈ after, r'.input.client.addr = b → ∀ ub', ¬ Executes cfg r'.input r'.before ub'

/-- While the session of `b` is on, a datagram that comes in time with the key of the request
executed last is not dispatched with `old = 0`. -/
def Recognises (cfg : Config) (past : List (Effect.Round (Arrival Fs) (Server Fs Cwd)))
    (s : Server Fs Cwd) (b : UInt32) : Prop :=
  (sessionOf s.htab b).active = true → ∀ e, LastExecuted cfg past b e →
    ∀ (a : Arrival Fs) (ub : Ubuf), a.client.addr = b → ub.bbKey = e →
      a.now < (sessionOf s.htab b).lastAcc + cfg.sessionTimeout → ¬ Executes cfg a s ub

/-- Where the key check takes a datagram for a new request, the request gets another key than its
own for the next one, unless it ends the session; and if the checksum is wrong, the key is not that
of the request executed last. -/
def RenewsKey (cfg : Config) (past : List (Effect.Round (Arrival Fs) (Server Fs Cwd)))
    (r : Effect.Round (Arrival Fs) (Server Fs Cwd)) : Prop :=
  ∀ ub h, Knocks cfg r.input r.before ub →
    checkKey cfg (clientRecord cfg r.input r.before) ub.bbKey r.input.now = some (false, h) →
      (ub.checksum r.input.bytes.length = ub.sum → Command.ofByte ub.cmd ≠ .bye →
        r.input.genNextKey ≠ ub.bbKey) ∧
      (ub.checksum r.input.bytes.length ≠ ub.sum →
        ¬ LastExecuted cfg past r.input.client.addr ub.bbKey)

/-- The session does not wait for the key of the request executed last. -/
def KeyFresh (cfg : Config) (past : List (Effect.Round (Arrival Fs) (Server Fs Cwd)))
    (s : Server Fs Cwd) (b : UInt32) : Prop :=
  (sessionOf s.htab b).active = true → ∀ e, LastExecuted cfg past b e →
    (sessionOf s.htab b).nextKey ≠ e

variable {cfg : Config} {past : List (Effect.Round (Arrival Fs) (Server Fs Cwd))}
  {r : Effect.Round (Arrival Fs) (Server Fs Cwd)} {a : Arrival Fs} {s : Server Fs Cwd}
  {b : UInt32} {e : UInt16} {ub : Ubuf}

/-! ## The request executed last -/

theorem not_lastExecuted_nil :
    ¬ LastExecuted cfg ([] : List (Effect.Round (Arrival Fs) (Server Fs Cwd))) b e := by
  intro ⟨before, r, after, _, hnil, _⟩
  simp at hnil

theorem lastExecuted_append (past : List (Effect.Round (Arrival Fs) (Server Fs Cwd)))
    (r : Effect.Round (Arrival Fs) (Server Fs Cwd)) :
    LastExecuted cfg (past ++ [r]) b e ↔
      (r.input.client.addr = b ∧ ∃ ub, Executes cfg r.input r.before ub ∧ ub.bbKey = e) ∨
      ((r.input.client.addr = b → ∀ ub, ¬ Executes cfg r.input r.before ub) ∧
        LastExecuted cfg past b e) := by
  constructor
  · intro ⟨before, r', after, ub, hpast, hb, hexec, hkey, hlater⟩
    rcases List.eq_nil_or_concat after with rfl | ⟨later, last, rfl⟩
    · obtain ⟨-, hr⟩ := List.append_inj' hpast rfl
      have hr : r = r' := List.head_eq_of_cons_eq hr
      subst hr
      exact Or.inl ⟨hb, ub, hexec, hkey⟩
    · rw [List.concat_eq_append] at hpast hlater
      rw [← List.cons_append, ← List.append_assoc] at hpast
      obtain ⟨hbefore, hr⟩ := List.append_inj' hpast rfl
      have hr : r = last := List.head_eq_of_cons_eq hr
      subst hr
      refine Or.inr ⟨hlater r (by simp), before, r', later, ub, hbefore, hb, hexec, hkey, ?_⟩
      intro r'' hr''
      exact hlater r'' (List.mem_append_left _ hr'')
  · intro hlast
    rcases hlast with ⟨hb, ub, hexec, hkey⟩ | ⟨hnone, before, r', after, ub, hpast, hrest⟩
    · exact ⟨past, r, [], ub, rfl, hb, hexec, hkey, by simp⟩
    · obtain ⟨hb, hexec, hkey, hlater⟩ := hrest
      refine ⟨before, r', after ++ [r], ub, by rw [hpast]; simp, hb, hexec, hkey, ?_⟩
      intro r'' hr''
      rcases List.mem_append.mp hr'' with hafter | hlast
      · exact hlater r'' hafter
      · rw [List.mem_singleton.mp hlast]
        exact hnone

/-- A round that executes nothing for a host leaves its request executed last alone. -/
theorem lastExecuted_append_of_not_executes
    (hnot : r.input.client.addr = b → ∀ ub, ¬ Executes cfg r.input r.before ub) :
    LastExecuted cfg (past ++ [r]) b e ↔ LastExecuted cfg past b e := by
  rw [lastExecuted_append]
  constructor
  · intro h
    rcases h with ⟨haddr, ub, hexec, _⟩ | ⟨_, h⟩
    · exact absurd hexec (hnot haddr ub)
    · exact h
  · exact fun h => Or.inr ⟨hnot, h⟩

theorem keyFresh_nil : KeyFresh cfg [] s b := by
  intro _ e hlast
  exact absurd hlast not_lastExecuted_nil

/-! ## States -/

/-- The key check of a session that is on takes a datagram that comes in time for a new request
exactly if it has the key the session waits for. -/
theorem check_eq_new_iff {k : Session} (hactive : k.active = true) {rkey : UInt16} {now : ℤ}
    (hnow : now < k.lastAcc + cfg.sessionTimeout) :
    (∃ k', k.check cfg rkey now = some (false, k')) ↔ k.nextKey = rkey := by
  unfold Session.check
  constructor
  · intro ⟨k', hk'⟩
    by_contra hne
    rw [if_neg hne, if_neg (not_not.mpr hactive), if_pos hnow] at hk'
    split_ifs at hk'
    cases hk'
  · intro heq
    exact ⟨k, if_pos heq⟩

theorem executes_iff [Posix Fs Cwd] (hs : HostTable s.htab) (hb : a.client.addr ≠ 0)
    (hknocks : Knocks cfg a s ub) :
    Executes cfg a s ub ↔
      (∃ k, (sessionOf s.htab a.client.addr).check cfg ub.bbKey a.now = some (false, k)) ∧
        ub.checksum a.bytes.length = ub.sum := by
  rw [← session_clientRecord hs hb, check_session]
  constructor
  · intro ⟨h, hdisp⟩
    exact ⟨⟨h.session, by rw [hdisp.key]; rfl⟩, hdisp.checksum⟩
  · intro ⟨⟨k, hk⟩, hsum⟩
    obtain ⟨⟨old, h⟩, hkey, heq⟩ := Option.map_eq_some_iff.mp hk
    injection heq with hold _
    simp only at hold
    subst hold
    exact ⟨h, hknocks, hkey, hsum⟩

/-- A request that was executed can be sent again, and is executed again if its key is taken for a
new one. -/
theorem executes_again [Posix Fs Cwd] (hs : HostTable s.htab)
    (hexec : Executes cfg r.input r.before ub) (hb : r.input.client.addr ≠ 0) (now : ℤ)
    (hnew : ∃ k, (sessionOf s.htab r.input.client.addr).check cfg ub.bbKey now = some (false, k)) :
    ∃ a : Arrival Fs, a.client.addr = r.input.client.addr ∧ a.now = now ∧ Executes cfg a s ub := by
  obtain ⟨h, hdisp⟩ := hexec
  let a : Arrival Fs := { r.input with now := now, findHostname := some [] }
  have hknocks : Knocks cfg a s ub := by
    refine ⟨⟨hdisp.reads.decode, hdisp.reads.length_le⟩, hdisp.admits, ?_⟩
    intro ⟨hname, hunnamed⟩
    unfold clientRecord findClient at hname
    rw [hostAt_findHost hs hb] at hname
    cases hrecord : hostRecord s.htab a.client.addr with
    | none => simp [hrecord, touchedHost, a] at hname
    | some hp =>
        rw [hrecord] at hname
        simp only [touchedHost, hunnamed, true_and] at hname
        split at hname
        · cases hname
        · exact absurd hname ‹_›
  exact ⟨a, rfl, rfl, (executes_iff (a := a) hs hb hknocks).mpr ⟨hnew, hdisp.checksum⟩⟩

/-- Repetitions are recognised exactly where the session does not wait for the key of the request
executed last: the request itself would be executed again. -/
theorem recognises_iff_keyFresh [Posix Fs Cwd] (hs : HostTable s.htab) (hb : b ≠ 0) :
    Recognises cfg past s b ↔ KeyFresh cfg past s b := by
  constructor
  · intro hrec hactive e hlast hnext
    have ⟨before, r, after, ub, _, haddr, ⟨h, hdisp⟩, hkey, _⟩ := hlast
    subst haddr
    obtain ⟨now, hnow⟩ : ∃ now, now < (sessionOf s.htab r.input.client.addr).lastAcc +
        cfg.sessionTimeout := ⟨_, Int.sub_lt_self _ Int.one_pos⟩
    obtain ⟨a, haddr, rfl, hagain⟩ := executes_again hs ⟨h, hdisp⟩ hb now
      ((check_eq_new_iff hactive hnow).mpr (hnext.trans hkey.symm))
    exact hrec hactive e hlast a ub haddr hkey hnow hagain
  · intro hfresh hactive e hlast a ub haddr hkey hnow hexec
    subst haddr
    have ⟨h, hdisp⟩ := hexec
    have hnew := ((executes_iff hs hb hdisp.toKnocks).mp hexec).1
    exact hfresh hactive e hlast (((check_eq_new_iff hactive hnow).mp hnew).trans hkey)

/-! ## Runs -/

/-- A round changes neither the session of a host whose datagram does not get to the key check, nor
what was executed for it last. -/
theorem keyFresh_of_not_knocks [Posix Fs Cwd] (hs : HostTable r.before.htab) (hb : b ≠ 0)
    (hafter : r.after = final (serverRound cfg r.input r.before))
    (hnone : r.input.client.addr = b → ∀ ub, ¬ Knocks cfg r.input r.before ub) :
    KeyFresh cfg (past ++ [r]) r.after b ↔ KeyFresh cfg past r.before b := by
  have hsession : sessionOf r.after.htab b = sessionOf r.before.htab b := by
    rw [hafter]
    rcases sessionOf_serverRound cfg r.input hs hb with heq | ⟨ub, hknocks, haddr, _⟩
    · exact heq
    · exact absurd hknocks (hnone haddr ub)
  have hnoexec : r.input.client.addr = b → ∀ ub, ¬ Executes cfg r.input r.before ub := by
    intro haddr ub ⟨h, hdisp⟩
    exact hnone haddr ub hdisp.toKnocks
  unfold KeyFresh
  rw [hsession]
  simp only [lastExecuted_append_of_not_executes hnoexec]

/-- The session of the client after a round whose datagram got to the key check. -/
theorem sessionOf_of_knocks [Posix Fs Cwd] (hs : HostTable s.htab) (hb : a.client.addr ≠ 0)
    (hknocks : Knocks cfg a s ub) :
    sessionOf (final (serverRound cfg a s)).htab a.client.addr =
      ((sessionOf s.htab a.client.addr).next cfg (sessionInput a ub)).2 := by
  rw [← session_clientRecord hs hb, ← session_serverRound hs hknocks]
  exact sessionOf_of_touchedAt (touchedAt_of_knocks hs hknocks) hb

theorem knocks_unique {ub' : Ubuf} (hknocks : Knocks cfg a s ub) (hknocks' : Knocks cfg a s ub') :
    ub = ub' := Option.some.inj (hknocks.reads.decode.symm.trans hknocks'.reads.decode)

theorem renewsKey_iff (hs : HostTable r.before.htab) (hb : r.input.client.addr ≠ 0)
    (hknocks : Knocks cfg r.input r.before ub) :
    RenewsKey cfg past r ↔
      ((∃ k, (sessionOf r.before.htab r.input.client.addr).check cfg ub.bbKey r.input.now =
          some (false, k)) →
        (ub.checksum r.input.bytes.length = ub.sum → Command.ofByte ub.cmd ≠ .bye →
          r.input.genNextKey ≠ ub.bbKey) ∧
        (ub.checksum r.input.bytes.length ≠ ub.sum →
          ¬ LastExecuted cfg past r.input.client.addr ub.bbKey)) := by
  have hsession : (clientRecord cfg r.input r.before).session =
      sessionOf r.before.htab r.input.client.addr := session_clientRecord hs hb
  rw [← hsession, check_session]
  constructor
  · intro hrenews ⟨k, hk⟩
    obtain ⟨⟨old, h⟩, hkey, heq⟩ := Option.map_eq_some_iff.mp hk
    injection heq with hold _
    simp only at hold
    subst hold
    exact hrenews ub h hknocks hkey
  · intro hrenews ub' h hknocks' hkey
    have hub := knocks_unique hknocks hknocks'
    subst hub
    exact hrenews ⟨h.session, by rw [hkey]; rfl⟩

/-- The key check does not touch a session, or it lets a new request in by making its key the one
the session waits for. -/
theorem check_cases (cfg : Config) (k : Session) (rkey : UInt16) (now : ℤ) :
    k.check cfg rkey now = none ∨
    (k.check cfg rkey now = some (true, k) ∧ k.active = true) ∨
    k.check cfg rkey now = some (false, { k with nextKey := rkey }) := by
  unfold Session.check
  by_cases hnext : k.nextKey = rkey
  · rw [if_pos hnext]
    subst hnext
    exact Or.inr (Or.inr rfl)
  · rw [if_neg hnext]
    by_cases hactive : k.active = true
    · rw [if_neg (not_not.mpr hactive)]
      split_ifs
      · exact Or.inl rfl
      · exact Or.inr (Or.inl ⟨rfl, hactive⟩)
      · exact Or.inl rfl
      · exact Or.inr (Or.inr rfl)
    · rw [if_pos hactive]
      exact Or.inr (Or.inr rfl)

/-- Where the session of a client did not wait for the key of the request executed last, it does not
do so after the next datagram either, exactly if that renews the key. -/
theorem keyFresh_of_knocks [Posix Fs Cwd] (hs : HostTable r.before.htab)
    (hb : r.input.client.addr ≠ 0) (hafter : r.after = final (serverRound cfg r.input r.before))
    (hknocks : Knocks cfg r.input r.before ub)
    (hfresh : KeyFresh cfg past r.before r.input.client.addr) :
    KeyFresh cfg (past ++ [r]) r.after r.input.client.addr ↔ RenewsKey cfg past r := by
  rw [renewsKey_iff hs hb hknocks]
  unfold KeyFresh at hfresh ⊢
  have hexec := executes_iff hs hb hknocks
  have honly : ∀ ub', Executes cfg r.input r.before ub' → ub' = ub := by
    intro ub' ⟨h, hdisp⟩
    exact knocks_unique hdisp.toKnocks hknocks
  have hsession : sessionOf r.after.htab r.input.client.addr =
      ((sessionOf r.before.htab r.input.client.addr).next cfg (sessionInput r.input ub)).2 := by
    rw [hafter]
    exact sessionOf_of_knocks hs hb hknocks
  rw [hsession]
  generalize sessionOf r.before.htab r.input.client.addr = k at hfresh hexec
  have hkept : ¬ Executes cfg r.input r.before ub → ∀ e,
      LastExecuted cfg (past ++ [r]) r.input.client.addr e ↔
        LastExecuted cfg past r.input.client.addr e := by
    intro hnot e
    refine lastExecuted_append_of_not_executes fun _ ub' hexec' => hnot ?_
    rw [← honly ub' hexec']
    exact hexec'
  unfold Session.next
  have hkey : (sessionInput r.input ub).key = ub.bbKey := rfl
  have hnow : (sessionInput r.input ub).now = r.input.now := rfl
  rw [hkey, hnow]
  rcases check_cases cfg k ub.bbKey r.input.now with hcheck | ⟨hcheck, hactive⟩ | hcheck
  · have hnot : ¬ Executes cfg r.input r.before ub := by
      rw [hexec, hcheck]
      simp
    rw [hcheck]
    simp only [hkept hnot]
    exact ⟨fun _ hnew => by simp at hnew, fun _ => hfresh⟩
  · have hnot : ¬ Executes cfg r.input r.before ub := by
      rw [hexec, hcheck]
      simp
    rw [hcheck]
    refine ⟨fun _ hnew => by simp at hnew, ?_⟩
    intro _ _ e hlast
    have hne := hfresh hactive e ((hkept hnot e).mp hlast)
    simp only [if_true]
    split_ifs <;> exact hne
  · have hnew : ∃ k', k.check cfg ub.bbKey r.input.now = some (false, k') := ⟨_, hcheck⟩
    rw [hcheck] at hnew ⊢
    by_cases hsum : ub.checksum r.input.bytes.length = ub.sum
    · have hdone : Executes cfg r.input r.before ub := hexec.mpr ⟨⟨_, hcheck⟩, hsum⟩
      have hlast : ∀ e, LastExecuted cfg (past ++ [r]) r.input.client.addr e ↔ ub.bbKey = e := by
        intro e
        rw [lastExecuted_append]
        constructor
        · intro h
          rcases h with ⟨_, ub', hexec', hkey'⟩ | ⟨hnone, _⟩
          · rw [← honly ub' hexec']
            exact hkey'
          · exact absurd hdone (hnone rfl ub)
        · exact fun hkey' => Or.inl ⟨rfl, ub, hdone, hkey'⟩
      have hsound : (sessionInput r.input ub).sound = true := decide_eq_true hsum
      have hgen : (sessionInput r.input ub).genNextKey = r.input.genNextKey := rfl
      simp only [hlast, hsound, hgen, forall_eq']
      by_cases hbye : Command.ofByte ub.cmd = .bye
      · have hbye' : (sessionInput r.input ub).bye = true := decide_eq_true hbye
        simp [hbye, hbye', hsum]
      · have hbye' : (sessionInput r.input ub).bye = false := decide_eq_false hbye
        simp [hbye, hbye', hsum]
    · have hnot : ¬ Executes cfg r.input r.before ub := fun h => hsum (hexec.mp h).2
      have hsound : (sessionInput r.input ub).sound = false := decide_eq_false hsum
      simp only [hkept hnot, hsound, Bool.false_eq_true, not_false_eq_true, if_true]
      constructor
      · intro h _
        exact ⟨fun h => absurd h hsum, fun _ hlast => h trivial _ hlast rfl⟩
      · intro h _ e hlast heq
        subst heq
        exact (h hnew).2 hsum hlast

variable [Posix Fs Cwd]

/-- Every datagram leaves the other sessions as fresh as they were, and that of its client if it
renews the key. -/
theorem keyFresh_serverRound (hs : HostTable r.before.htab) (hb : b ≠ 0)
    (hafter : r.after = final (serverRound cfg r.input r.before))
    (hfresh : KeyFresh cfg past r.before b)
    (hrenews : r.input.client.addr ≠ 0 → RenewsKey cfg past r) :
    KeyFresh cfg (past ++ [r]) r.after b := by
  by_cases hknocks : r.input.client.addr = b ∧ ∃ ub, Knocks cfg r.input r.before ub
  · obtain ⟨haddr, ub, hknocks⟩ := hknocks
    subst haddr
    exact (keyFresh_of_knocks hs hb hafter hknocks hfresh).mpr (hrenews hb)
  · refine (keyFresh_of_not_knocks hs hb hafter ?_).mpr hfresh
    intro haddr ub hub
    exact hknocks ⟨haddr, ub, hub⟩

/-- In every run, the server recognises every repeated request as one in every state, exactly if
every datagram renews the key. -/
theorem recognises_history_iff (cfg : Config) (fs : Fs) (cwd : Cwd) (now : ℤ)
    (arrivals : List (Arrival Fs)) :
    (∀ before r after, history cfg (initServer cfg fs cwd now) arrivals = before ++ r :: after →
      ∀ b, b ≠ 0 → Recognises cfg (before ++ [r]) r.after b) ↔
    ∀ before r after, history cfg (initServer cfg fs cwd now) arrivals = before ++ r :: after →
      r.input.client.addr ≠ 0 → RenewsKey cfg before r := by
  let I := fun (past : List (Effect.Round (Arrival Fs) (Server Fs Cwd))) (s : Server Fs Cwd) =>
    HostTable s.htab ∧ ∀ b, b ≠ 0 → KeyFresh cfg past s b
  have hstart : I [] (initServer cfg fs cwd now) := ⟨hostTable_initHtab, fun _ _ => keyFresh_nil⟩
  constructor
  · intro hrec before r after hrun haddr ub h hknocks hkey
    have hI : I before r.before := by
      refine (rounds_induction (I := I) [] hstart ?_ hrun).1
      intro before r after hrun hafter ⟨htable, _⟩
      have htable' : HostTable r.after.htab := by
        rw [hafter]
        exact hostTable_serverRound cfg r.input htable
      exact ⟨htable', fun b hb => (recognises_iff_keyFresh htable' hb).mp
        (hrec before r after hrun b hb)⟩
    have hmem : r ∈ history cfg (initServer cfg fs cwd now) arrivals := by
      rw [hrun]
      exact List.mem_append_right _ List.mem_cons_self
    have hafter : r.after = final (serverRound cfg r.input r.before) := after_of_mem_rounds hmem
    have htable' : HostTable r.after.htab := by
      rw [hafter]
      exact hostTable_serverRound cfg r.input hI.1
    have hfresh' := (recognises_iff_keyFresh htable' haddr).mp (hrec before r after hrun _ haddr)
    exact (keyFresh_of_knocks hI.1 haddr hafter hknocks (hI.2 _ haddr)).mp hfresh' ub h hknocks hkey
  · intro hrenews before r after hrun b hb
    have hI : I (before ++ [r]) r.after := by
      refine (rounds_induction (I := I) [] hstart ?_ hrun).2
      intro before r after hrun hafter ⟨htable, hfresh⟩
      have htable' : HostTable r.after.htab := by
        rw [hafter]
        exact hostTable_serverRound cfg r.input htable
      exact ⟨htable', fun b hb => keyFresh_serverRound htable hb hafter (hfresh b hb)
        (hrenews before r after hrun)⟩
    exact (recognises_iff_keyFresh hI.1 hb).mpr (hI.2 b hb)

/-! ## A request that is executed twice -/

theorem length_path_f : (Scenario.path "f").length + ([] : ByteString).length ≤ ubufMaxspace := by
  decide

/-- A request to delete a file, for which the server draws the key of the request again. -/
def deleteRequest (now : ℤ) : Arrival Disk :=
  Scenario.arrival now 9 (Scenario.datagram .delFile 9 0 (Scenario.path "f") [] length_path_f)

/-- What the server reads in it. -/
def deleteUbuf : Ubuf := ⟨0x45, 0xCC, 9, 0, 8, 2, 0, [0x66, 0]⟩

/-- The client repeats the request after five seconds, and it is dispatched again. -/
theorem deleteRequest_not_recognised :
    ¬ ∀ before r after, history Scenario.config (Scenario.start Scenario.config [])
        [deleteRequest 100] = before ++ r :: after →
      ∀ b, b ≠ 0 → Recognises Scenario.config (before ++ [r]) r.after b := by
  intro h
  have hlength : (history Scenario.config (Scenario.start Scenario.config [])
      [deleteRequest 100]).length = 1 := by decide +kernel
  obtain ⟨r, hr⟩ := List.length_eq_one_iff.mp hlength
  have hmem : r ∈ history Scenario.config (Scenario.start Scenario.config [])
      [deleteRequest 100] := by
    rw [hr]
    exact List.mem_singleton_self r
  obtain ⟨hinput, hbefore⟩ := of_mem_rounds_singleton hmem
  have hafter : r.after = final (serverRound Scenario.config (deleteRequest 100)
      (Scenario.start Scenario.config [])) := by
    rw [after_of_mem_rounds hmem, hinput, hbefore]
  have hfirst : Executes Scenario.config (deleteRequest 100)
      (Scenario.start Scenario.config []) deleteUbuf :=
    ⟨_, ⟨⟨by decide +kernel, by decide +kernel⟩, Or.inl (by decide +kernel), by decide +kernel⟩,
      rfl, by decide +kernel⟩
  have hlast : LastExecuted Scenario.config ([] ++ [r]) Scenario.client.addr 9 := by
    refine (lastExecuted_append [] r).mpr (Or.inl ⟨by rw [hinput]; rfl, deleteUbuf, ?_, rfl⟩)
    rw [hinput, hbefore]
    exact hfirst
  have hrec := h [] r [] hr Scenario.client.addr (by decide)
  unfold Recognises at hrec
  rw [hafter] at hrec
  refine hrec (by decide +kernel) 9 hlast (deleteRequest 105) deleteUbuf rfl rfl
    (by decide +kernel) ?_
  exact ⟨_, ⟨⟨by decide +kernel, by decide +kernel⟩, Or.inl (by decide +kernel),
    by decide +kernel⟩, rfl, by decide +kernel⟩

end Fsp
