import Fsp.Scenario
import Fsp.Server.Rounds

/-!
# Sessions

Four fields of a client's record are its session: the two keys, the time of the last accepted
datagram, and whether the session is on.  What `server_loop` does to them, and whether a datagram
reaches the dispatcher, depends on nothing else of the server's state: `Session.next` is that
machine, and `sessionOf_serverRound` says that every round makes one step of it.

A datagram that is thrown away should leave the session alone.  The key check does so, but the
checksum is only looked at after the session has been changed.
-/

namespace Fsp

open Effect

/-- The session fields of a record. -/
structure Session where
  nextKey : UInt16
  lastKey : UInt16
  lastAcc : ℤ
  active : Bool
  deriving DecidableEq, Repr

def HTab.session (h : HTab) : Session := ⟨h.nextKey, h.lastKey, h.lastAcc, h.active⟩

/-- The session of an address; a host without a record has never been heard. -/
def sessionOf (htab : List HTab) (addr : UInt32) : Session :=
  ((hostRecord htab addr).getD hzero).session

/-! ## The machine -/

namespace Session

/-- The key check on a session. -/
def check (cfg : Config) (k : Session) (rkey : UInt16) (curTime : ℤ) : Option (Bool × Session) :=
  if k.nextKey = rkey then some (false, k)
  else if ¬ k.active then some (false, { k with nextKey := rkey })
  else if k.lastKey = rkey then
    if curTime < k.lastAcc + cfg.retryTimeout then none else some (true, k)
  else if curTime < k.lastAcc + cfg.sessionTimeout then none
  else some (false, { k with nextKey := rkey })

/-- What a datagram brings to the session: its key, when it comes, which key the server would hand
out, whether its checksum is right, and whether it ends the session. -/
structure Input where
  key : UInt16
  now : ℤ
  genNextKey : UInt16
  sound : Bool
  bye : Bool

/-- One datagram: whether it is dispatched, and if so as a repetition or not, and the session
afterwards. -/
def next (cfg : Config) (k : Session) (i : Input) : Option Bool × Session :=
  match k.check cfg i.key i.now with
  | none => (none, k)
  | some (old, k) =>
      let k := { k with active := true, lastAcc := i.now }
      if ¬ i.sound then (none, k)
      else
        let k := if old then k else { k with lastKey := k.nextKey, nextKey := i.genNextKey }
        (some old, if i.bye then { k with active := false } else k)

/-- How each of a sequence of datagrams is treated. -/
def treatments (cfg : Config) : Session → List Input → List (Option Bool)
  | _, [] => []
  | k, i :: inputs => (k.next cfg i).1 :: treatments cfg (k.next cfg i).2 inputs

end Session

/-- What a datagram with the message `ub` brings to the session of its client. -/
def sessionInput {Fs : Type} (a : Arrival Fs) (ub : Ubuf) : Session.Input where
  key := ub.bbKey
  now := a.now
  genNextKey := a.genNextKey
  sound := ub.checksum a.bytes.length = ub.sum
  bye := Command.ofByte ub.cmd = .bye

/-! ## The records -/

@[simp] theorem session_heard (h : HTab) (now : ℤ) :
    (h.heard now).session = { h.session with active := true, lastAcc := now } := rfl

/-- The key check looks at the session only. -/
theorem check_session (cfg : Config) (h : HTab) (rkey : UInt16) (now : ℤ) :
    h.session.check cfg rkey now =
      (checkKey cfg h rkey now).map fun res => (res.1, res.2.session) := by
  unfold Session.check checkKey HTab.session
  simp only
  split_ifs <;> rfl

/-- `find_host` changes no session. -/
theorem session_touchedHost (noUnnamed : Bool) (addr : UInt32)
    (findHostname : Option (List UInt8)) (h : Option HTab) :
    (touchedHost noUnnamed addr findHostname h).session = (h.getD hzero).session := by
  cases h with
  | none => rfl
  | some h =>
      simp only [touchedHost]
      split <;> rfl

variable {Fs Cwd : Type} {cfg : Config} {a : Arrival Fs} {s : Server Fs Cwd} {ub : Ubuf}

theorem session_clientRecord (hs : HostTable s.htab) (haddr : a.client.addr ≠ 0) :
    (clientRecord cfg a s).session = sessionOf s.htab a.client.addr := by
  unfold clientRecord findClient
  rw [hostAt_findHost hs haddr, session_touchedHost]
  rfl

theorem sessionOf_of_touchedAt {htab htab' : List HTab} {addr : UInt32} {m : ℕ}
    (h : TouchedAt htab htab' addr m) (haddr : addr ≠ 0) :
    sessionOf htab' addr = (hostAt htab' m).session := by
  unfold sessionOf
  rw [h.hostRecord_self haddr]
  rfl

theorem sessionOf_other {htab htab' : List HTab} {addr b : UInt32} {m : ℕ}
    (h : TouchedAt htab htab' addr m) (hb : b ≠ 0) (hne : b ≠ addr) :
    sessionOf htab' b = sessionOf htab b := by
  unfold sessionOf
  rw [h.other b hb hne]

/-! ## Rounds -/

section

variable [Posix Fs Cwd]

/-- The table after a round whose datagram got to the key check, and what became of the
datagram. -/
theorem knocks_cases (hs : HostTable s.htab) (hknocks : Knocks cfg a s ub) :
    (checkKey cfg (clientRecord cfg a s) ub.bbKey a.now = none ∧
      serverRound cfg a s =
        .ok () { s.meets a with htab := (findClient cfg a s).2, curTime := a.now }) ∨
    ∃ old h, checkKey cfg (clientRecord cfg a s) ub.bbKey a.now = some (old, h) ∧
      ((ub.checksum a.bytes.length ≠ ub.sum ∧
          serverRound cfg a s = .ok () (heardState cfg a s (h.heard a.now))) ∨
        Dispatches cfg a s ub old h) := by
  rcases hkey : checkKey cfg (clientRecord cfg a s) ub.bbKey a.now with _ | ⟨old, h⟩
  · refine Or.inl ⟨rfl, ?_⟩
    rw [serverRound_of_knocks hknocks, serverAccept_of_knocks hs hknocks, hkey]
  · refine Or.inr ⟨old, h, rfl, ?_⟩
    by_cases hsum : ub.checksum a.bytes.length = ub.sum
    · exact Or.inr ⟨hknocks, hkey, hsum⟩
    · refine Or.inl ⟨hsum, ?_⟩
      rw [serverRound_of_knocks hknocks, serverAccept_of_knocks hs hknocks, hkey]
      exact if_neg hsum

/-- The record of the client after a round whose datagram got to the key check has made one step
of the machine. -/
theorem session_serverRound (hs : HostTable s.htab) (hknocks : Knocks cfg a s ub) :
    (hostAt (final (serverRound cfg a s)).htab (findClient cfg a s).1).session =
      ((clientRecord cfg a s).session.next cfg (sessionInput a ub)).2 := by
  have hlt := findClient_lt cfg a hs
  have hset : ∀ h : HTab,
      hostAt ((findClient cfg a s).2.set (findClient cfg a s).1 h) (findClient cfg a s).1 = h := by
    intro h
    rw [hostAt_set hlt, if_pos rfl]
  unfold Session.next
  rw [check_session]
  rcases knocks_cases hs hknocks with ⟨hkey, hround⟩ | ⟨old, h, hkey, ⟨hsum, hround⟩ | hdisp⟩
  · have hkey' : checkKey cfg (clientRecord cfg a s) (sessionInput a ub).key
        (sessionInput a ub).now = none := hkey
    rw [hround, hkey']
    rfl
  · have hkey' : checkKey cfg (clientRecord cfg a s) (sessionInput a ub).key
        (sessionInput a ub).now = some (old, h) := hkey
    have hsound : ¬ (sessionInput a ub).sound = true := by simpa [sessionInput] using hsum
    rw [hround, hkey']
    simp only [Option.map_some, hsound, final_ok, heardState, hset]
    rfl
  · have hkey' : checkKey cfg (clientRecord cfg a s) (sessionInput a ub).key
        (sessionInput a ub).now = some (old, h) := hdisp.key
    have hsound : (sessionInput a ub).sound = true := by simpa [sessionInput] using hdisp.checksum
    have hrequest : ∀ bye : Bool, (if bye then { requestRecord a old h with active := false }
          else requestRecord a old h).session =
        if bye then
          { (if old then { h.session with active := true, lastAcc := a.now }
            else { h.session with
              active := true, lastAcc := a.now, lastKey := h.nextKey, nextKey := a.genNextKey })
            with active := false }
        else
          if old then { h.session with active := true, lastAcc := a.now }
          else { h.session with
            active := true, lastAcc := a.now, lastKey := h.nextKey, nextKey := a.genNextKey } := by
      intro bye
      cases bye <;> cases old <;> rfl
    rw [serverRound_of_dispatches hs hdisp, hkey']
    simp only [Option.map_some, hsound, not_true_eq_false, if_false]
    have hdispatch : (dispatchState cfg a s old h).htab =
        (findClient cfg a s).2.set (findClient cfg a s).1 (requestRecord a old h) := rfl
    by_cases hbye : Command.ofByte (requestOf a ub old h).ub.cmd = .bye
    · have hbye' : (sessionInput a ub).bye = true := decide_eq_true hbye
      rw [htab_serve_bye hbye, hdispatch, List.set_set, hset, hset, hbye']
      exact hrequest true
    · have hbye' : (sessionInput a ub).bye = false := decide_eq_false hbye
      rw [htab_serve hbye, hdispatch, hset, hbye']
      exact hrequest false

/-- A round whose datagram got to the key check changes no record but that of its client. -/
theorem touchedAt_of_knocks (hs : HostTable s.htab) (hknocks : Knocks cfg a s ub) :
    TouchedAt s.htab (final (serverRound cfg a s)).htab a.client.addr (findClient cfg a s).1 := by
  have hfind : TouchedAt s.htab (findClient cfg a s).2 a.client.addr (findClient cfg a s).1 :=
    touchedAt_findHost hs cfg.noUnnamed a.findHostname
  rcases touchedAt_serverRound cfg a hs with heq | htouched
  · -- `find_host` has made or counted the record, so the table is not what it was
    rcases knocks_cases hs hknocks with ⟨hkey, hround⟩ | ⟨old, h, hkey, ⟨hsum, hround⟩ | hdisp⟩
    · rw [hround]
      exact hfind
    · rw [hround]
      exact hfind.set (by rw [inetNum_heard, inetNum_of_checkKey hkey]; exact hfind.inetNum)
    · have hset := @TouchedAt.set _ _ _ _ hfind (requestRecord a old h)
        (by rw [inetNum_requestRecord, inetNum_of_checkKey hkey]; exact hfind.inetNum)
      rw [serverRound_of_dispatches hs hdisp]
      by_cases hbye : Command.ofByte (requestOf a ub old h).ub.cmd = .bye
      · rw [htab_serve_bye hbye]
        exact hset.set hset.inetNum
      · rw [htab_serve hbye]
        exact hset
  · exact htouched

/-- Every round makes one step of the machine in the session of its client, if its datagram gets to
the key check, and changes no other session. -/
theorem sessionOf_serverRound (cfg : Config) (a : Arrival Fs) (hs : HostTable s.htab) {b : UInt32}
    (hb : b ≠ 0) :
    sessionOf (final (serverRound cfg a s)).htab b = sessionOf s.htab b ∨
      ∃ ub, Knocks cfg a s ub ∧ a.client.addr = b ∧
        sessionOf (final (serverRound cfg a s)).htab b =
          ((sessionOf s.htab b).next cfg (sessionInput a ub)).2 := by
  have hfind : TouchedAt s.htab (findClient cfg a s).2 a.client.addr (findClient cfg a s).1 :=
    touchedAt_findHost hs cfg.noUnnamed a.findHostname
  by_cases hknocks : ∃ ub, Knocks cfg a s ub
  · obtain ⟨ub, hknocks⟩ := hknocks
    have htouched := touchedAt_of_knocks hs hknocks
    by_cases hne : b = a.client.addr
    · subst hne
      refine Or.inr ⟨ub, hknocks, rfl, ?_⟩
      rw [← session_clientRecord hs hb, ← session_serverRound hs hknocks]
      exact sessionOf_of_touchedAt htouched hb
    · exact Or.inl (sessionOf_other htouched hb hne)
  · refine Or.inl ?_
    have hgoes := serverRound_goes cfg a hs
    generalize serverRound cfg a s = res at hgoes ⊢
    cases hgoes with
    | unread => rfl
    | exits => rfl
    | denied => rw [htab_sendError]; rfl
    | unnamed =>
        rw [htab_sendError]
        show sessionOf (findClient cfg a s).2 b = _
        by_cases hne : b = a.client.addr
        · subst hne
          rw [sessionOf_of_touchedAt hfind hb, ← session_clientRecord hs hb]
          rfl
        · exact sessionOf_other hfind hb hne
    | ignored h => exact absurd ⟨_, h⟩ hknocks
    | garbled h => exact absurd ⟨_, h⟩ hknocks
    | dispatched h => exact absurd ⟨_, h.toKnocks⟩ hknocks

end

/-! ## Datagrams that are thrown away -/

/-- The datagram is thrown away: it is too short, its key is bad or comes back too early, or its
checksum is wrong. -/
inductive Discards (cfg : Config) (a : Arrival Fs) (s : Server Fs Cwd) : Prop
  | truncated : (∀ ub, ¬ Reads a ub) → Discards cfg a s
  | badKey {ub : Ubuf} : Knocks cfg a s ub →
      checkKey cfg (clientRecord cfg a s) ub.bbKey a.now = none → Discards cfg a s
  | badChecksum {ub : Ubuf} : Knocks cfg a s ub → ub.checksum a.bytes.length ≠ ub.sum →
      Discards cfg a s

variable [Posix Fs Cwd]

/-- The session of the client is what it was, and so are those of all other hosts; and whatever
comes later is treated as it would have been. -/
structure Undisturbed (cfg : Config) (a : Arrival Fs) (s : Server Fs Cwd) : Prop where
  record : ∀ ub, Knocks cfg a s ub →
    (hostAt (final (serverRound cfg a s)).htab (findClient cfg a s).1).session =
      (clientRecord cfg a s).session
  others : ∀ b, b ≠ 0 →
    sessionOf (final (serverRound cfg a s)).htab b = sessionOf s.htab b
  later : ∀ b, b ≠ 0 → ∀ inputs,
    (sessionOf (final (serverRound cfg a s)).htab b).treatments cfg inputs =
      (sessionOf s.htab b).treatments cfg inputs

/-- A datagram with a wrong checksum that passes the key check makes no difference if it comes with
the next key to a session that is on and was heard this very second. -/
def JustHeard (k : Session) (rkey : UInt16) (now : ℤ) : Prop :=
  k.nextKey = rkey ∧ k.active = true ∧ k.lastAcc = now

/-- A step of the machine leaves the session alone when the key is rejected; a rejected checksum
comes too late for that. -/
theorem next_unsound_eq_iff (k : Session) {i : Session.Input} (hsound : i.sound = false) :
    (k.next cfg i).2 = k ↔ k.check cfg i.key i.now = none ∨ JustHeard k i.key i.now := by
  have hretry := cfg.retryTimeout_pos
  obtain ⟨nextKey, lastKey, lastAcc, active⟩ := k
  unfold Session.next Session.check JustHeard
  simp only [hsound, Bool.false_eq_true, not_false_eq_true, if_true]
  by_cases hnext : nextKey = i.key
  · simp only [hnext, if_true, Session.mk.injEq, true_and, reduceCtorEq, false_or]
    exact ⟨fun h => ⟨h.2.symm, h.1.symm⟩, fun h => ⟨h.2.symm, h.1.symm⟩⟩
  · by_cases hactive : active = true
    · by_cases hlast : lastKey = i.key
      · by_cases hearly : i.now < lastAcc + cfg.retryTimeout
        · simp [hnext, hactive, hlast, hearly]
        · simp only [hnext, hactive, hlast, hearly, if_false, if_true, not_true_eq_false,
            Session.mk.injEq, true_and, and_true, false_and, or_false, reduceCtorEq, iff_false]
          omega
      · by_cases hearly : i.now < lastAcc + cfg.sessionTimeout
        · simp [hnext, hactive, hlast, hearly]
        · simp [hnext, hactive, hlast, hearly, Ne.symm hnext]
    · simp [hnext, hactive, Ne.symm hnext]

/-- A datagram that is thrown away leaves the session alone exactly when it is not its checksum
alone that is wrong, or when it changes nothing because the client was just heard. -/
theorem undisturbed_iff (cfg : Config) (a : Arrival Fs) (hs : HostTable s.htab)
    (hdisc : Discards cfg a s) :
    Undisturbed cfg a s ↔ ∀ ub, Knocks cfg a s ub → ub.checksum a.bytes.length ≠ ub.sum →
      checkKey cfg (clientRecord cfg a s) ub.bbKey a.now = none ∨
        JustHeard (clientRecord cfg a s).session ub.bbKey a.now := by
  have hcheck : ∀ ub : Ubuf, (clientRecord cfg a s).session.check cfg (sessionInput a ub).key
      (sessionInput a ub).now = none ↔
        checkKey cfg (clientRecord cfg a s) ub.bbKey a.now = none := by
    intro ub
    rw [check_session, Option.map_eq_none_iff]
    rfl
  have hunsound : ∀ ub : Ubuf, ub.checksum a.bytes.length ≠ ub.sum →
      (sessionInput a ub).sound = false := fun ub hsum => decide_eq_false hsum
  constructor
  · intro h ub hknocks hsum
    have hsame := h.record ub hknocks
    rw [session_serverRound hs hknocks, next_unsound_eq_iff _ (hunsound ub hsum), hcheck] at hsame
    exact hsame
  · intro h
    have hsame : ∀ ub, Knocks cfg a s ub →
        ((clientRecord cfg a s).session.next cfg (sessionInput a ub)).2 =
          (clientRecord cfg a s).session := by
      intro ub hknocks
      cases hdisc with
      | truncated hshort => exact absurd hknocks.reads (hshort ub)
      | badKey hknocks' hkey =>
          have hub := Option.some.inj (hknocks.reads.decode.symm.trans hknocks'.reads.decode)
          subst hub
          unfold Session.next
          rw [(hcheck ub).mpr hkey]
      | badChecksum hknocks' hsum =>
          have hub := Option.some.inj (hknocks.reads.decode.symm.trans hknocks'.reads.decode)
          subst hub
          rw [next_unsound_eq_iff _ (hunsound ub hsum), hcheck]
          exact h ub hknocks hsum
    have hothers : ∀ b, b ≠ 0 →
        sessionOf (final (serverRound cfg a s)).htab b = sessionOf s.htab b := by
      intro b hb
      rcases sessionOf_serverRound cfg a hs hb with heq | ⟨ub, hknocks, rfl, heq⟩
      · exact heq
      · rw [heq, ← session_clientRecord hs hb]
        exact hsame ub hknocks
    refine ⟨?_, hothers, ?_⟩
    · intro ub hknocks
      rw [session_serverRound hs hknocks]
      exact hsame ub hknocks
    · intro b hb inputs
      rw [hothers b hb]

/-- A request of the client with another checksum, and the first one it sends itself. -/
def garbledRequest : Arrival Disk :=
  Scenario.arrival 100 7
    ((Scenario.datagram .getDir 9 0 (Scenario.path "a") []).set 1 0)

/-- What the server reads in it. -/
def garbledUbuf : Ubuf := ⟨0x41, 0, 9, 0, 8, 2, 0, [0x61, 0]⟩

def goodInput : Session.Input := ⟨5, 110, 8, true, false⟩

theorem knocks_garbledRequest :
    Knocks Scenario.config garbledRequest (Scenario.start Scenario.config []) garbledUbuf :=
  ⟨⟨by decide +kernel, by decide +kernel⟩, Or.inl (by decide +kernel), by decide +kernel⟩

/-- Its key is taken, and the client was not heard before. -/
theorem undisturbed_iff_garbled :
    (Undisturbed Scenario.config garbledRequest (Scenario.start Scenario.config []) ↔
      ∀ ub, Knocks Scenario.config garbledRequest (Scenario.start Scenario.config []) ub →
        ub.checksum garbledRequest.bytes.length ≠ ub.sum →
        checkKey Scenario.config (clientRecord Scenario.config garbledRequest
            (Scenario.start Scenario.config [])) ub.bbKey garbledRequest.now = none ∨
          JustHeard (clientRecord Scenario.config garbledRequest
            (Scenario.start Scenario.config [])).session ub.bbKey garbledRequest.now) ∧
      ¬ Undisturbed Scenario.config garbledRequest (Scenario.start Scenario.config []) := by
  have hsum : garbledUbuf.checksum garbledRequest.bytes.length ≠ garbledUbuf.sum := by
    decide +kernel
  have hiff := undisturbed_iff Scenario.config garbledRequest hostTable_initHtab
    (.badChecksum knocks_garbledRequest hsum)
  refine ⟨hiff, fun h => ?_⟩
  rcases hiff.mp h garbledUbuf knocks_garbledRequest hsum with hkey | hheard
  · revert hkey
    decide +kernel
  · exact absurd hheard.2.1 (by decide +kernel)

/-- The garbled datagram is thrown away, but it starts a session with its own key, and for a minute
the client is not heard. -/
theorem garbledRequest_disturbs :
    Discards Scenario.config garbledRequest (Scenario.start Scenario.config []) ∧
    ¬ Undisturbed Scenario.config garbledRequest (Scenario.start Scenario.config []) := by
  refine ⟨.badChecksum knocks_garbledRequest (by decide +kernel), ?_⟩
  intro h
  have hlater := h.later Scenario.client.addr (by decide) [goodInput]
  revert hlater
  decide +kernel

end Fsp
