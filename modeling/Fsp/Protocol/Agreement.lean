import Fsp.Protocol.Conversation
import Fsp.Scenario
import Fsp.Server.Repeats

/-!
# The two ends understand each other

The client with the server behind its network is an instance of `RenewedKeys`.  `Follows` relates a
conversation with a state there; a round of the server is the execution of a call, then replies to
the call executed last, or nothing at all (`follows_arrive`).  What holds of the calls with renewed
keys therefore holds of every conversation, whatever becomes of the datagrams.
-/

namespace Fsp

open Effect

/-! ## Sequence numbers -/

/-- The sequence number in a datagram, without the retry count. -/
theorem tag_of_bytes {myseq myseq' : UInt16} {k k' : ℕ} (h0 : seqByte0 myseq = seqByte0 myseq')
    (h1 : (seqByte1 myseq k).toNat / 8 = (seqByte1 myseq' k').toNat / 8) :
    myseq.toNat / 8 = myseq'.toNat / 8 := by
  have hlt := myseq.toNat_lt
  have hlt' := myseq'.toNat_lt
  have h0' := congrArg UInt8.toNat h0
  simp only [seqByte0, seqByte1, UInt8.toNat_ofNat'] at h0' h1
  omega

/-- The client looks at the header of a datagram, however long it is. -/
theorem header_of_acceptReply {cmd : UInt8} {pos : ℕ} {seq0 seq1 : UInt8} {ub rbuf : Ubuf}
    (h : acceptReply cmd pos seq0 seq1 ub.encode = some rbuf) :
    rbuf.bbKey = ub.bbKey ∧ ub.bbSeq0 = seq0 ∧ ub.bbSeq1.toNat / 8 = seq1.toNat / 8 := by
  have htake : ub.encode.take (ubufHsize + ubufMaxspace) =
      { ub with buf := ub.buf.take ubufMaxspace }.encode := by
    simp [Ubuf.encode, Bytes.be16, Bytes.be32, ubufHsize, ubufMaxspace]
  unfold acceptReply at h
  simp only [htake, Ubuf.decode_encode] at h
  split_ifs at h with _ _ hseq
  injection h with h
  rw [not_or, not_not, not_not] at hseq
  exact ⟨by rw [← h], hseq.1, hseq.2⟩

theorem mem_sentTo {client : SockAddr} {trace : List Event} {datagram : ByteString} :
    datagram ∈ sentTo client trace ↔ .sent client datagram ∈ trace := by
  unfold sentTo
  rw [List.mem_filterMap]
  constructor
  · intro ⟨p, hp, heq⟩
    obtain ⟨dest, d⟩ := p
    simp only at heq
    split at heq
    · rename_i hdest
      injection heq with heq
      rw [← hdest, ← heq]
      exact mem_sents.mp hp
    · cases heq
  · exact fun h => ⟨_, mem_sents.mpr h, if_pos rfl⟩

/-! ## Keys -/

/-- A repetition has the key of the request executed last. -/
theorem check_eq_true {cfg : Config} {k k' : Session} {rkey : UInt16} {now : ℤ}
    (h : k.check cfg rkey now = some (true, k')) :
    k' = k ∧ k.active = true ∧ k.lastKey = rkey := by
  unfold Session.check at h
  by_cases hnext : k.nextKey = rkey
  · simp [hnext] at h
  by_cases hactive : k.active = true
  · by_cases hlast : k.lastKey = rkey
    · simp only [hnext, hactive, hlast, if_false, not_true, if_true] at h
      split_ifs at h
      injection h with h
      injection h with _ h
      exact ⟨h.symm, hactive, hlast⟩
    · simp [hnext, hactive, hlast] at h
  · simp [hnext, hactive] at h

/-- Before the session times out, a new request has the key the server waits for. -/
theorem check_eq_false {cfg : Config} {k k' : Session} {rkey : UInt16} {now : ℤ}
    (h : k.check cfg rkey now = some (false, k')) :
    k' = { k with nextKey := rkey } ∧
      (k.active = true → now < k.lastAcc + cfg.sessionTimeout → k.nextKey = rkey) := by
  constructor
  · rcases check_cases cfg k rkey now with hcheck | ⟨hcheck, -⟩ | hcheck
    · rw [hcheck] at h
      cases h
    · rw [hcheck] at h
      injection h with h
      cases h
    · rw [hcheck] at h
      injection h with h
      injection h with _ h
      exact h.symm
  · intro hactive hlt
    by_contra hnext
    unfold Session.check at h
    by_cases hlast : k.lastKey = rkey
    · simp only [hnext, hactive, hlast, if_false, not_true, if_true] at h
      split_ifs at h
      injection h with h
      cases h
    · simp [hnext, hactive, hlast, hlt] at h

theorem next_of_ignored {cfg : Config} {s : Session} {i : Session.Input}
    (h : s.check cfg i.key i.now = none) : (s.next cfg i).2 = s := by
  unfold Session.next
  rw [h]

/-- What a request does to the session, when it is taken and does not end the session. -/
theorem next_of_taken {cfg : Config} {s k : Session} {i : Session.Input} {old : Bool}
    (hsound : i.sound = true) (hbye : i.bye = false)
    (h : s.check cfg i.key i.now = some (old, k)) :
    (s.next cfg i).2 =
      if old then { k with active := true, lastAcc := i.now }
      else ⟨i.genNextKey, k.nextKey, i.now, true⟩ := by
  unfold Session.next
  rw [h]
  cases old with
  | true => simp [hsound, hbye]
  | false => simp [hsound, hbye]

namespace Conversation

variable {Fs Cwd : Type} {cfg : Config} {client : SockAddr} {c c' : Conversation Fs Cwd}
  {t : RenewedKeys.State UInt16 ℕ}

/-! ## The simulation -/

/-- The session as the keys see it: there is none before the first request. -/
def keysOf (k : Session) : Option (UInt16 × UInt16) :=
  if k.active = true then some (k.nextKey, k.lastKey) else none

/-- A datagram of the client is one for a call, and a datagram of the server is a reply to a call. -/
structure Follows (client : SockAddr) (c : Conversation Fs Cwd) (t : RenewedKeys.State UInt16 ℕ) :
    Prop where
  table : HostTable c.server.htab
  key : t.key = c.key
  calls : t.calls = c.turns.map fun turn => (turn.key, turn.tag)
  waiting : t.waiting = c.waiting.isSome
  keys : t.keys = c.handed
  executed : t.executed = c.executed
  session : t.session = keysOf (sessionOf c.server.htab client.addr)
  goes_on : ∀ turn ∈ c.turns, Command.ofByte turn.request.cmd ≠ .bye
  requests : ∀ r ∈ c.requests, ∃ turn k, c.turns[r.1]? = some turn ∧ r.2 = turn.sbuf k
  replies : ∀ r ∈ c.replies, ∃ (i : ℕ) (turn : Turn) (k : ℕ) (ub : Ubuf), r.1 = some i ∧
    c.turns[i]? = some turn ∧ r.2 = ub.encode ∧ ub.bbSeq0 = seqByte0 turn.myseq ∧
    ub.bbSeq1 = seqByte1 turn.myseq k ∧ ⟨i, turn.tag, ub.bbKey⟩ ∈ t.replies
  returned : c.returned = t.taken.map fun p => (p.1, some p.2)

theorem follows_start {s : Server Fs Cwd} (hs : HostTable s.htab)
    (hclosed : (sessionOf s.htab client.addr).active = false) (key myseq : UInt16) :
    Follows client (start s key myseq) (RenewedKeys.start key) where
  table := hs
  key := rfl
  calls := rfl
  waiting := rfl
  keys := rfl
  executed := rfl
  session := by
    show none = keysOf (sessionOf s.htab client.addr)
    rw [keysOf, hclosed, if_neg Bool.false_ne_true]
  goes_on _ h := by cases h
  requests _ h := by cases h
  replies _ h := by cases h
  returned := rfl

theorem Follows.call_of_turn (h : Follows client c t) {i : ℕ} {turn : Turn}
    (hturn : c.turns[i]? = some turn) : t.calls[i]? = some (turn.key, turn.tag) := by
  rw [h.calls, List.getElem?_map, hturn]
  rfl

/-- A call. -/
theorem Follows.call (h : Follows client c t) {request : ClientRequest} {random : UInt16}
    (hwaiting : c.waiting = none) (hbye : Command.ofByte request.cmd ≠ .bye)
    (hseq : ∀ turn ∈ c.turns, turn.tag ≠ (nextSeq c.myseq random).toNat / 8) :
    ∃ t', RenewedKeys.Steps t t' ∧
      Follows client
        { c with
          myseq := nextSeq c.myseq random
          turns := c.turns ++ [⟨request, c.key, nextSeq c.myseq random⟩]
          waiting := some 0
          requests := c.requests ++
            [(c.turns.length, Turn.sbuf ⟨request, c.key, nextSeq c.myseq random⟩ 0)] } t' := by
  have hidle : t.waiting = false := by rw [h.waiting, hwaiting]; rfl
  have htag : (nextSeq c.myseq random).toNat / 8 ∉ t.calls.map Prod.snd := by
    intro hmem
    rw [h.calls, List.map_map, List.mem_map] at hmem
    obtain ⟨turn, hturn, heq⟩ := hmem
    exact hseq turn hturn heq
  -- the datagrams on their way stay with their calls
  have hold : ∀ {i : ℕ} {turn : Turn}, c.turns[i]? = some turn →
      (c.turns ++ [⟨request, c.key, nextSeq c.myseq random⟩])[i]? = some turn :=
    fun hturn => RenewedKeys.getElem?_concat_of_some _ hturn
  refine ⟨_, .single (.call hidle htag),
    { h with calls := ?_, waiting := rfl, goes_on := ?_, requests := ?_, replies := ?_ }⟩
  · rw [List.map_append, ← h.calls, h.key]
    rfl
  · intro turn hturn
    rcases List.mem_append.mp hturn with hturn | hturn
    · exact h.goes_on turn hturn
    · rw [List.mem_singleton.mp hturn]
      exact hbye
  · intro r hr
    rcases List.mem_append.mp hr with hr | hr
    · obtain ⟨turn, k, hturn, hdatagram⟩ := h.requests r hr
      exact ⟨turn, k, hold hturn, hdatagram⟩
    · rw [List.mem_singleton.mp hr]
      exact ⟨_, 0, List.getElem?_concat_length, rfl⟩
  · intro r hr
    obtain ⟨i, turn, k, ub, hcall, hturn, hrest⟩ := h.replies r hr
    exact ⟨i, turn, k, ub, hcall, hold hturn, hrest⟩

/-- A call that is sent again. -/
theorem Follows.resend (h : Follows client c t) {retrySend : ℕ} {turn : Turn}
    (hwaiting : c.waiting = some retrySend) (hturn : c.turns.getLast? = some turn) :
    Follows client
      { c with
        waiting := some (retrySend + 1)
        requests := c.requests ++ [(c.turns.length - 1, turn.sbuf (retrySend + 1))] } t := by
  refine { h with waiting := ?_, requests := ?_ }
  · rw [h.waiting, hwaiting]
    rfl
  · intro r hr
    rcases List.mem_append.mp hr with hr | hr
    · exact h.requests r hr
    · rw [List.mem_singleton.mp hr]
      exact ⟨turn, retrySend + 1, by rw [← List.getLast?_eq_getElem?, hturn], rfl⟩

/-- A reply that passes the checks. -/
theorem Follows.receive (h : Follows client c t) {retrySend : ℕ} {turn : Turn}
    {r : Option ℕ × ByteString} {rbuf : Ubuf} (hwaiting : c.waiting = some retrySend)
    (hturn : c.turns.getLast? = some turn) (hr : r ∈ c.replies)
    (haccept : acceptReply turn.request.cmd turn.request.pos (seqByte0 turn.myseq)
      (seqByte1 turn.myseq retrySend) r.2 = some rbuf) :
    ∃ t', RenewedKeys.Steps t t' ∧
      Follows client
        { c with
          key := rbuf.bbKey
          waiting := none
          returned := c.returned ++ [(c.turns.length - 1, r.1)] } t' := by
  obtain ⟨i, turn', k, ub, hcall, -, hdatagram, hseq0, hseq1, hreply⟩ := h.replies r hr
  rw [hdatagram] at haccept
  obtain ⟨hkey, haccept0, haccept1⟩ := header_of_acceptReply haccept
  rw [hseq0] at haccept0
  rw [hseq1] at haccept1
  -- the check leaves the retry count out, so that the reply may be to any datagram of the call
  have htag : turn'.tag = turn.tag := tag_of_bytes haccept0 haccept1
  have hlast : t.calls.getLast? = some (turn.key, turn.tag) := by
    rw [h.calls, List.getLast?_map, hturn]
    rfl
  have hwaits : t.waiting = true := by rw [h.waiting, hwaiting]; rfl
  refine ⟨_, .single (.take hwaits hlast hreply htag),
    { h with key := hkey.symm, waiting := rfl, returned := ?_ }⟩
  rw [List.map_append, ← h.returned, h.calls, List.length_map, hcall]
  rfl

/-! ### Rounds of the server -/

section

variable [Posix Fs Cwd] {a : Arrival Fs}

/-- A round in which no call is executed and nothing is sent to the client. -/
theorem Follows.round_silent (h : Follows client c t) (call : Option ℕ)
    (hexec : c.Executes cfg a → call = none)
    (hsent : sentTo client (final (serverRound cfg a c.server)).trace = [])
    (hsession : sessionOf (final (serverRound cfg a c.server)).htab client.addr =
      sessionOf c.server.htab client.addr) :
    Follows client (c.round cfg client a call) t where
  table := hostTable_serverRound cfg a h.table
  key := h.key
  calls := h.calls
  waiting := h.waiting
  keys := h.keys.trans (executed_round_of_not hexec).2.symm
  executed := h.executed.trans (executed_round_of_not hexec).1.symm
  session := h.session.trans (congrArg keysOf hsession.symm)
  goes_on := h.goes_on
  requests := h.requests
  replies := by
    show ∀ r ∈ c.replies ++ (sentTo client _).map _, _
    rw [hsent, List.map_nil, List.append_nil]
    exact h.replies
  returned := h.returned

/-- A round in which the request of a call was dispatched, after which the calls with renewed keys
are in the state `t'`; `next` is the key in the replies. -/
theorem Follows.round_dispatched {t' : RenewedKeys.State UInt16 ℕ} (h : Follows client c t)
    {turn : Turn} {i k : ℕ} {old : Bool} {hp : HTab} (hturn : c.turns[i]? = some turn)
    (hdisp : Dispatches cfg a c.server (turn.request.ubuf turn.key turn.myseq k) old hp)
    (hsteps : RenewedKeys.Steps t t')
    (hkept : t' = { t with
      keys := (c.round cfg client a (some i)).handed
      executed := (c.round cfg client a (some i)).executed
      session := keysOf (sessionOf (c.round cfg client a (some i)).server.htab client.addr) })
    (hsession : t'.session = some ((requestRecord a old hp).nextKey, turn.key)) :
    ∃ t'', RenewedKeys.Steps t t'' ∧ Follows client (c.round cfg client a (some i)) t'' := by
  obtain ⟨new, htrace, hnew⟩ := trace_of_dispatches h.table hdisp
  have hcall : t'.calls[i]? = some (turn.key, turn.tag) := by
    rw [hkept]
    exact h.call_of_turn hturn
  let n := (sentTo client (final (serverRound cfg a c.server)).trace).length
  refine ⟨_, hsteps.trans (RenewedKeys.steps_replies hcall hsession n), ?_⟩
  rw [hkept]
  refine
    { h with
      table := hostTable_serverRound cfg a h.table, keys := rfl, executed := rfl, session := rfl
      replies := ?_ }
  intro r hr
  rcases List.mem_append.mp hr with hr | hr
  · obtain ⟨i', turn', k', ub, hi, hturn', hdatagram, hseq0, hseq1, hreply⟩ := h.replies r hr
    exact ⟨i', turn', k', ub, hi, hturn', hdatagram, hseq0, hseq1, List.mem_append_left _ hreply⟩
  · -- a reply of this round carries the sequence number of its request and the session's next key
    obtain ⟨datagram, hsent, rfl⟩ := List.mem_map.mp hr
    have hin : .sent client datagram ∈ new := by
      have hmem := mem_sentTo.mp hsent
      rw [htrace, List.mem_cons] at hmem
      exact hmem.resolve_left fun heq => by cases heq
    obtain ⟨-, ub, hdatagram, hkey, hseq0, hseq1⟩ := hnew _ hin
    refine ⟨i, turn, k, ub, rfl, hturn, hdatagram, hseq0, hseq1, List.mem_append_right _ ?_⟩
    have hpos : n ≠ 0 := (List.length_pos_of_mem hsent).ne'
    rw [hkey]
    exact List.mem_replicate.mpr ⟨hpos, rfl⟩

/-- The dispatcher writes first whether it takes a request for a new one. -/
theorem executes_iff_of_dispatches {ub : Ubuf} {old : Bool} {hp : HTab}
    (hs : HostTable c.server.htab) (hdisp : Dispatches cfg a c.server ub old hp) :
    c.Executes cfg a ↔ old = false := by
  obtain ⟨new, htrace, -⟩ := trace_of_dispatches hs hdisp
  unfold Executes
  rw [htrace]
  exact Option.some_inj

/-- A datagram of the client that reaches the server. -/
theorem Follows.arrive (hnormal : (hostType cfg client.addr).head? = some 0x4E)
    (hnamed : cfg.noUnnamed = false) (haddr : client.addr ≠ 0) (h : Follows client c t)
    {turn : Turn} {i k : ℕ} (hturn : c.turns[i]? = some turn) (hclient : a.client = client)
    (hdatagram : a.datagram = turn.sbuf k)
    (htimely : (sessionOf c.server.htab client.addr).active = true →
      a.now < (sessionOf c.server.htab client.addr).lastAcc + cfg.sessionTimeout)
    (hfresh : c.Executes cfg a → a.genNextKey ∉ c.handed) :
    ∃ t', RenewedKeys.Steps t t' ∧ Follows client (c.round cfg client a (some i)) t' := by
  subst hclient
  let ub := turn.request.ubuf turn.key turn.myseq k
  have hknocks : Knocks cfg a c.server ub := knocks_of_sbuf hnormal hnamed rfl hdatagram _
  have hsession := sessionOf_of_knocks h.table haddr hknocks
  have hbye : (sessionInput a ub).bye = false :=
    decide_eq_false (h.goes_on turn (List.mem_of_getElem? hturn))
  have hsound : (sessionInput a ub).sound = true := decide_eq_true (checksum_of_sbuf hdatagram)
  obtain ⟨s, hs⟩ : ∃ s, sessionOf c.server.htab a.client.addr = s := ⟨_, rfl⟩
  have hchecked : ∀ {res}, checkKey cfg (clientRecord cfg a c.server) ub.bbKey a.now = res →
      s.check cfg turn.key a.now = res.map fun r => (r.1, r.2.session) := by
    intro res hres
    rw [← hs, ← session_clientRecord h.table haddr, check_session]
    exact congrArg _ hres
  have ht : t.session = keysOf s := by rw [h.session, hs]
  rw [hs] at hsession htimely
  rcases knocks_cases h.table hknocks with ⟨hkey, hround⟩ | ⟨old, hp, hkey, hsum | hdisp⟩
  · -- the datagram is ignored
    refine ⟨t, .refl, h.round_silent (some i) ?_ ?_ ?_⟩
    · unfold Executes
      rw [hround]
      nofun
    · rw [hround]
      rfl
    · rw [hsession, hs]
      exact next_of_ignored (hchecked hkey)
  · -- the checksum of a datagram of the client is right
    exact absurd (checksum_of_sbuf hdatagram) hsum.1
  · have hcheck := hchecked hkey
    have hnext := hsession.trans (next_of_taken hsound hbye hcheck)
    have hexec : c.Executes cfg a ↔ old = false := executes_iff_of_dispatches h.table hdisp
    have hkeys : ∀ k : Session, k.active = true → keysOf k = some (k.nextKey, k.lastKey) :=
      fun k hk => if_pos hk
    cases old with
    | true =>
        -- a repetition of the call executed last
        have hnot : ¬ c.Executes cfg a := fun hexec' => Bool.noConfusion (hexec.mp hexec')
        obtain ⟨hk, hactive, hlast⟩ := check_eq_true hcheck
        have hsame : t.session = some ((requestRecord a true hp).nextKey, turn.key) := by
          rw [ht, hkeys s hactive, hlast, ← hk]
          rfl
        refine h.round_dispatched hturn hdisp .refl ?_ hsame
        have hkept : (c.round cfg a.client a (some i)).executed = c.executed ∧
            (c.round cfg a.client a (some i)).handed = c.handed :=
          executed_round_of_not fun hexec' => absurd hexec' hnot
        have hsession' : keysOf (sessionOf (c.round cfg a.client a (some i)).server.htab
            a.client.addr) = t.session := by
          rw [ht, hkeys s hactive]
          show keysOf (sessionOf (final (serverRound cfg a c.server)).htab a.client.addr) = _
          rw [hnext, hk]
          exact hkeys _ rfl
        rw [hkept.1, hkept.2, ← h.keys, ← h.executed, hsession']
    | false =>
        -- a new call, with the key that the session waits for if there is one
        have hnew : c.Executes cfg a := hexec.mpr rfl
        obtain ⟨hk, htime⟩ := check_eq_false hcheck
        have hawaited : ∀ p ∈ t.session, p.1 = turn.key := by
          intro p hp
          rw [ht, keysOf] at hp
          split at hp
          · rename_i hactive
            rw [← Option.some.inj hp]
            exact htime hactive (htimely hactive)
          · cases hp
        have hkept : (c.round cfg a.client a (some i)).executed = c.executed ++ [i] ∧
            (c.round cfg a.client a (some i)).handed = c.handed ++ [a.genNextKey] :=
          executed_round_of_executes hnew i
        have hsession' : keysOf (sessionOf (c.round cfg a.client a (some i)).server.htab
            a.client.addr) = some (a.genNextKey, turn.key) := by
          show keysOf (sessionOf (final (serverRound cfg a c.server)).htab a.client.addr) = _
          rw [hnext, hk]
          exact hkeys _ rfl
        have hstep : RenewedKeys.Step t
            { t with
              executed := t.executed ++ [i]
              keys := t.keys ++ [a.genNextKey]
              session := some (a.genNextKey, turn.key) } :=
          .execute (h.call_of_turn hturn) hawaited (by rw [h.keys]; exact hfresh hnew)
        refine h.round_dispatched hturn hdisp (.single hstep) ?_ rfl
        rw [hkept.1, hkept.2, ← h.keys, ← h.executed, hsession']

/-- A datagram of another host. -/
theorem Follows.other (haddr : client.addr ≠ 0) (h : Follows client c t)
    (hother : a.client.addr ≠ client.addr) :
    Follows client (c.round cfg client a none) t := by
  refine h.round_silent none (fun _ => rfl) ?_ ?_
  · rw [List.eq_nil_iff_forall_not_mem]
    intro datagram hmem
    exact hother (congrArg SockAddr.addr (client_of_sent h.table (mem_sentTo.mp hmem)).symm)
  · rcases sessionOf_serverRound cfg a h.table haddr with heq | ⟨ub, -, heq, -⟩
    · exact heq
    · exact absurd heq hother

/-! ### Conversations -/

/-- The simulation: whatever happens, the calls with renewed keys can follow. -/
theorem Follows.act (hnormal : (hostType cfg client.addr).head? = some 0x4E)
    (hnamed : cfg.noUnnamed = false) (haddr : client.addr ≠ 0) (h : Follows client c t)
    {e : Act Fs} (horderly : c.Orderly cfg client e) (hact : c.act cfg client e = some c') :
    ∃ t', RenewedKeys.Steps t t' ∧ Follows client c' t' := by
  cases e with
  | call request random =>
      obtain ⟨hwaiting, hc'⟩ := Option.ite_none_right_eq_some.mp hact
      rw [← Option.some.inj hc']
      exact h.call hwaiting horderly.1 horderly.2
  | resend =>
      obtain ⟨retrySend, hwaiting, hact⟩ := Option.bind_eq_some_iff.mp hact
      obtain ⟨turn, hturn, hc'⟩ := Option.bind_eq_some_iff.mp hact
      rw [← Option.some.inj hc']
      exact ⟨t, .refl, h.resend hwaiting hturn⟩
  | arrive n a =>
      obtain ⟨r, hr, hact⟩ := Option.bind_eq_some_iff.mp hact
      obtain ⟨-, hc'⟩ := Option.ite_none_right_eq_some.mp hact
      obtain ⟨htimely, hfresh⟩ := horderly r hr
      obtain ⟨turn, k, hturn, hdatagram⟩ := h.requests r (List.mem_of_getElem? hr)
      rw [← Option.some.inj hc']
      exact h.arrive (a := arrival client a r.2) hnormal hnamed haddr hturn rfl hdatagram htimely
        hfresh
  | other a =>
      obtain ⟨⟨-, hother⟩, hc'⟩ := Option.ite_none_right_eq_some.mp hact
      rw [← Option.some.inj hc']
      exact ⟨t, .refl, h.other haddr hother⟩
  | receive n =>
      obtain ⟨retrySend, hwaiting, hact⟩ := Option.bind_eq_some_iff.mp hact
      obtain ⟨turn, hturn, hact⟩ := Option.bind_eq_some_iff.mp hact
      obtain ⟨r, hr, hact⟩ := Option.bind_eq_some_iff.mp hact
      obtain ⟨rbuf, haccept, hc'⟩ := Option.bind_eq_some_iff.mp hact
      rw [← Option.some.inj hc']
      exact h.receive hwaiting hturn (List.mem_of_getElem? hr) haccept

/-- The calls with renewed keys can follow every conversation that begins while the client's session
is off. -/
theorem follows_of_reaches (hnormal : (hostType cfg client.addr).head? = some 0x4E)
    (hnamed : cfg.noUnnamed = false) (haddr : client.addr ≠ 0) {s : Server Fs Cwd}
    (hs : Reachable (serverRound cfg) (Starts cfg) s)
    (hclosed : (sessionOf s.htab client.addr).active = false) {key myseq : UInt16}
    (hreaches : Reaches cfg client (start s key myseq) c) :
    ∃ t, RenewedKeys.Sound t ∧ Follows client c t := by
  induction hreaches with
  | start =>
      exact ⟨_, RenewedKeys.sound_start key, follows_start (hostTable_reachable hs) hclosed key myseq⟩
  | act _ horderly hact ih =>
      obtain ⟨t, hsound, h⟩ := ih
      obtain ⟨t', hsteps, h'⟩ := h.act hnormal hnamed haddr horderly hact
      exact ⟨t', hsteps.sound hsound, h'⟩

end

end Conversation

end Fsp
