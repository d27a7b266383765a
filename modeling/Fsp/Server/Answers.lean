import Fsp.Scenario
import Fsp.Server.Rounds

/-!
# One reply for each request

A request that the dispatcher takes is answered once, with the key that the next request needs.
There are two exceptions, and both are meant: the server can be told not to answer requests for its
version, and it ignores hosts that a directory's owner file says to ignore.
-/

namespace Fsp

open Effect

variable {Fs Cwd : Type}

/-! ## Replies in a trace -/

/-- The datagrams that were sent, each with where it went. -/
def sents (trace : List Event) : List (SockAddr × ByteString) :=
  trace.filterMap fun
    | .sent client datagram => some (client, datagram)
    | _ => none

theorem sents_append (l l' : List Event) : sents (l ++ l') = sents l ++ sents l' :=
  List.filterMap_append

theorem sents_eq_nil {l : List Event} (h : ∀ e ∈ l, NotSent e) : sents l = [] := by
  unfold sents
  rw [List.filterMap_eq_nil_iff]
  intro e he
  cases e with
  | sent client datagram => exact absurd (h _ he) not_false
  | _ => rfl

/-- The last thing that was done is an access check, and it says to ignore the client. -/
def Ignored (trace : List Event) : Prop :=
  ∃ di rights ipAddr passwd answer,
    trace.getLast? = some (.access di rights ipAddr passwd answer) ∧ answer.head? = some 0x49

/-- Where the server means not to answer. -/
def Silent (cfg : Config) (cmd : UInt8) (trace : List Event) : Prop :=
  Command.ofByte cmd = .version ∧ cfg.verEnabled = false ∨ Ignored trace

/-- One reply has gone to the client, with the key and the sequence number. -/
def AnsweredOnce (client : SockAddr) (ub : Ubuf) (trace : List Event) : Prop :=
  ∃ reply : Ubuf, sents trace = [(client, reply.encode)] ∧ reply.bbKey = ub.bbKey ∧
    reply.bbSeq0 = ub.bbSeq0 ∧ reply.bbSeq1 = ub.bbSeq1

/-- The request was answered once, or not at all where the server means not to. -/
def Answered (cfg : Config) (client : SockAddr) (ub : Ubuf) (trace : List Event) : Prop :=
  AnsweredOnce client ub trace ∨ sents trace = [] ∧ Silent cfg ub.cmd trace

theorem Ignored.append {l' : List Event} (h : Ignored l') (l : List Event) : Ignored (l ++ l') := by
  obtain ⟨di, rights, ipAddr, passwd, answer, hlast, hanswer⟩ := h
  refine ⟨di, rights, ipAddr, passwd, answer, ?_, hanswer⟩
  rw [List.getLast?_append, hlast]
  rfl

/-- What is done before the answer does not count. -/
theorem Answered.append {cfg : Config} {client : SockAddr} {ub : Ubuf} {l l' : List Event}
    (h : Answered cfg client ub l') (hl : sents l = []) : Answered cfg client ub (l ++ l') := by
  unfold Answered AnsweredOnce
  rw [sents_append, hl, List.nil_append]
  rcases h with honce | ⟨hnone, hversion | hignored⟩
  · exact Or.inl honce
  · exact Or.inr ⟨hnone, Or.inl hversion⟩
  · exact Or.inr ⟨hnone, Or.inr (hignored.append l)⟩

/-! ## Commands -/

/-- Between the two states the request was answered. -/
def Answers (cfg : Config) (r : Request) (s s' : Server Fs Cwd) : Prop :=
  ∃ new, s'.trace = s.trace ++ new ∧ Answered cfg r.client r.ub new

/-- Between the two states the request was answered once. -/
def AnswersOnce (r : Request) (s s' : Server Fs Cwd) : Prop :=
  ∃ new, s'.trace = s.trace ++ new ∧ AnsweredOnce r.client r.ub new

section

variable [Posix Fs Cwd] {cfg : Config} {r : Request}

omit [Posix Fs Cwd] in
theorem answers_of_appends {α : Type} {m : Srv Fs Cwd α} {k : α → Srv Fs Cwd Unit}
    {V : α → Prop} (hm : Does (Acts NotSent) m) (hV : Returns V m)
    (hk : ∀ a, V a → Ends (Answers cfg r) (k a)) : Ends (Answers cfg r) (m >>= k) := by
  intro s
  have hm' : wp m (fun a s' => V a ∧ Acts NotSent s s') (fun _ => True) s :=
    wp_mono (wp_does (hV.run s) hm) (fun _ _ h => h) fun _ _ => trivial
  refine wp_seq hm' ?_
  rintro a s' ⟨ha, ⟨new, hnew, hnone⟩, -⟩
  refine wp_mono (hk a ha s') ?_ fun _ h => h
  rintro _ s'' ⟨new', hnew', hanswered⟩
  refine ⟨new ++ new', ?_, hanswered.append (sents_eq_nil hnone)⟩
  rw [hnew', show s'.trace = s.trace ++ new from hnew, List.append_assoc]

/-- `server_reply` sends one datagram, if it comes back. -/
theorem answersOnce_serverReply {ub : Ubuf} {data xtra : ByteString}
    (hkey : ub.bbKey = r.ub.bbKey) (hseq0 : ub.bbSeq0 = r.ub.bbSeq0)
    (hseq1 : ub.bbSeq1 = r.ub.bbSeq1) :
    Ends (AnswersOnce r) (serverReply cfg r.client ub data xtra : Srv Fs Cwd Unit) := by
  intro s
  have hthrottle : Does (Acts NotSent)
      (throttle cfg (replyTo ub data xtra).encode.length : Srv Fs Cwd Unit) :=
    does_throttle (primitives_acts NotSent).toSteps _
  refine wp_seq (hthrottle.ends (fun _ _ h => h) s) ?_
  rintro _ s₁ ⟨⟨new, hnew, hnone⟩, -⟩
  refine wp_seq (R := fun _ s' => s' = s₁) rfl ?_
  rintro sent s₁ rfl
  refine wp_ite (fun _ => ?_) fun _ => trivial
  refine ⟨new ++ [.sent r.client (replyTo ub data xtra).encode], ?_, replyTo ub data xtra, ?_,
    hkey, hseq0, hseq1⟩
  · show s₁.trace ++ _ = _
    rw [show s₁.trace = s.trace ++ new from hnew, List.append_assoc]
  · rw [sents_append, sents_eq_nil hnone]
    rfl

omit [Posix Fs Cwd] in
theorem answers_of_answersOnce {s s' : Server Fs Cwd} (h : AnswersOnce r s s') :
    Answers cfg r s s' := by
  obtain ⟨new, hnew, honce⟩ := h
  exact ⟨new, hnew, Or.inl honce⟩

theorem answers_serverReply {ub : Ubuf} {data xtra : ByteString} (hkey : ub.bbKey = r.ub.bbKey)
    (hseq0 : ub.bbSeq0 = r.ub.bbSeq0) (hseq1 : ub.bbSeq1 = r.ub.bbSeq1) :
    Ends (Answers cfg r) (serverReply cfg r.client ub data xtra : Srv Fs Cwd Unit) := fun s =>
  wp_mono (answersOnce_serverReply hkey hseq0 hseq1 s) (fun _ _ => answers_of_answersOnce)
    fun _ h => h

theorem answers_refuse (msg : ByteString) :
    Ends (Answers cfg r) (refuse cfg r msg : Srv Fs Cwd Unit) := answers_serverReply rfl rfl rfl

/-- `CHECK_ACCESS_RIGHTS` returns without a reply only if the answer says so. -/
theorem answers_checkAccessRights {di : ℕ} {rights : UInt8} {passwd : Option ByteString}
    {next : ByteString → Srv Fs Cwd Unit} (hnext : ∀ pe, Ends (Answers cfg r) (next pe)) :
    Ends (Answers cfg r) (checkAccessRights cfg r di rights passwd next) := by
  intro s
  have hcheck : wp (requireAccess cfg r di rights passwd)
      (fun pe s' => s'.trace = s.trace ++ [.access di rights r.inetNum passwd pe])
      (fun _ => True) s := rfl
  refine wp_seq hcheck ?_
  intro pe s₁ hs₁
  have hrest : ∀ m : Srv Fs Cwd Unit, Ends (Answers cfg r) m →
      wp m (fun _ s' => Answers cfg r s s') (fun _ => True) s₁ := by
    intro m hm
    refine wp_mono (hm s₁) ?_ fun _ h => h
    rintro _ s₂ ⟨new, hnew, hanswered⟩
    refine ⟨[.access di rights r.inetNum passwd pe] ++ new, ?_, hanswered.append rfl⟩
    rw [hnew, hs₁, List.append_assoc]
  refine wp_ite (fun hignore => ?_) fun _ => wp_ite (fun _ => hrest _ (answers_refuse _)) fun _ =>
    hrest _ (hnext pe)
  exact ⟨_, hs₁, Or.inr ⟨rfl, Or.inr ⟨di, rights, r.inetNum, passwd, pe, rfl, hignore⟩⟩⟩

theorem replies_answers (cfg : Config) (r : Request) :
    Replies (fun m => Does (Acts NotSent : Server Fs Cwd → Server Fs Cwd → Prop) m)
      (fun m => Ends (Answers cfg r) m) ubufMaxspace cfg r where
  block_le _ := block_le_maxspace cfg
  file_le _ := requestedLen_le_maxspace cfg r.s2
  bind_of_returns := answers_of_appends
  refuse msg _ := answers_refuse msg
  checkAccessRights _ _ _ _ hnext := answers_checkAccessRights hnext
  reply _ _ := answers_serverReply rfl rfl rfl
  replyThen data m _ hm := by
    intro s
    refine wp_seq (answersOnce_serverReply rfl rfl rfl s) ?_
    rintro _ s₁ ⟨new, hnew, reply, hreply, hfields⟩
    refine wp_mono (hm.ends (fun _ _ h => h) s₁) ?_ fun _ h => h
    rintro _ s₂ ⟨⟨new', hnew', hnone⟩, -⟩
    refine ⟨new ++ new', ?_, Or.inl ⟨reply, ?_, hfields⟩⟩
    · rw [show s₂.trace = s₁.trace ++ new' from hnew', hnew, List.append_assoc]
    · rw [sents_append, hreply, sents_eq_nil hnone, List.append_nil]
  replyPro _ _ _ :=
    answers_of_appends (does_dirInfo _) (returns_true _) fun _ _ => answers_serverReply rfl rfl rfl
  renamed := answers_serverReply rfl rfl rfl
  version hcmd := by
    refine iteInduction (fun _ => answers_serverReply rfl rfl rfl) fun henabled s => ?_
    exact ⟨[], (List.append_nil _).symm,
      Or.inr ⟨rfl, Or.inl ⟨hcmd, by simpa using henabled⟩⟩⟩

theorem answers_serve (cfg : Config) (r : Request) (hp : ℕ) :
    Ends (Answers cfg r) (serve cfg r hp : Srv Fs Cwd Unit) := by
  by_cases hbye : Command.ofByte r.ub.cmd = .bye
  · intro s
    unfold serve
    rw [hbye]
    exact answers_serverReply rfl rfl rfl
      { s with htab := s.htab.set hp { hostAt s.htab hp with active := false } }
  · have hprims := @primitives_acts Fs Cwd _ NotSent
    exact holds_serve (operations_of_primitives hprims (fun _ h => h) returns_loadAccessRights
      (does_serverMakeDir_of_good hprims (fun _ h => h) fun _ => trivial))
      (replies_answers cfg r) (fun _ => streams_of_primitives hprims fun _ h => h)
      fun h => absurd h hbye

end

/-! ## Rounds -/

section

variable [Posix Fs Cwd] {cfg : Config} {a : Arrival Fs} {s s' : Server Fs Cwd} {ub : Ubuf}

/-- The key the client has to use next. -/
def nextKeyOf (cfg : Config) (a : Arrival Fs) (s s' : Server Fs Cwd) : UInt16 :=
  (hostAt s'.htab (findClient cfg a s).1).nextKey

/-- The dispatcher puts the key the client has to use next into the reply. -/
theorem nextKeyOf_serve (hs : HostTable s.htab) {old : Bool} {h : HTab} :
    nextKeyOf cfg a s (final (serve cfg (requestOf a ub old h) (findClient cfg a s).1
      (dispatchState cfg a s old h))) = (requestOf a ub old h).ub.bbKey := by
  have hlt := findClient_lt cfg a hs
  have hset : ∀ h' : HTab,
      hostAt ((findClient cfg a s).2.set (findClient cfg a s).1 h') (findClient cfg a s).1 = h' := by
    intro h'
    rw [hostAt_set hlt, if_pos rfl]
  have hdispatch : (dispatchState cfg a s old h).htab =
      (findClient cfg a s).2.set (findClient cfg a s).1 (requestRecord a old h) := rfl
  unfold nextKeyOf
  by_cases hbye : Command.ofByte (requestOf a ub old h).ub.cmd = .bye
  · rw [htab_serve_bye hbye, hdispatch, List.set_set, hset, hset]
    rfl
  · rw [htab_serve hbye, hdispatch, hset]
    rfl

/-- A round in which a request was dispatched sends exactly one datagram, to its sender, with the
key that the next request needs and the sequence number of this one; or it sends nothing, because
the server does not tell its version or ignores the client. -/
theorem answered_serverRound (hs : HostTable s.htab) {old : Bool} {h : HTab}
    (hdisp : Dispatches cfg a s ub old h) (hok : serverRound cfg a s = .ok () s') :
    Answered cfg a.client { ub with bbKey := nextKeyOf cfg a s s' } s'.trace := by
  rw [serverRound_of_dispatches hs hdisp] at hok
  have hkey : nextKeyOf cfg a s s' = (requestOf a ub old h).ub.bbKey := by
    rw [← nextKeyOf_serve hs, hok]
    rfl
  obtain ⟨new, hnew, hanswered⟩ := wp_of_ok (answers_serve cfg (requestOf a ub old h)
    (findClient cfg a s).1 (dispatchState cfg a s old h)) hok
  rw [hnew, hkey]
  exact hanswered.append rfl

end

/-- A request for the version, the first datagram of the client. -/
def versionRequest : Arrival Disk :=
  Scenario.arrival 100 7 (Scenario.datagram .version 5 0 [] [])

/-- What the server reads in it. -/
def versionUbuf : Ubuf := ⟨0x10, 0x29, 5, 0, 8, 0, 0, []⟩

/-- The record of the client when its key has been checked. -/
def versionClient : HTab := { hzero with inetNum := Scenario.client.addr, nextKey := 5 }

/-- A server that tells its version or not. -/
def versionConfig (enabled : Bool) : Config := { Scenario.config with verEnabled := enabled }

theorem dispatches_versionRequest (enabled : Bool) :
    Dispatches (versionConfig enabled) versionRequest (Scenario.start (versionConfig enabled) [])
      versionUbuf false versionClient := by
  have hreads : Reads versionRequest versionUbuf := ⟨by decide +kernel, by decide +kernel⟩
  cases enabled with
  | false =>
      exact ⟨⟨hreads, Or.inl (by decide +kernel), by decide +kernel⟩, by decide +kernel,
        by decide +kernel⟩
  | true =>
      exact ⟨⟨hreads, Or.inl (by decide +kernel), by decide +kernel⟩, by decide +kernel,
        by decide +kernel⟩

theorem answered_serverRound_version :
    ∃ s', serverRound (versionConfig true) versionRequest
        (Scenario.start (versionConfig true) []) = .ok () s' ∧
      Answered (versionConfig true) Scenario.client
        { versionUbuf with
          bbKey := nextKeyOf (versionConfig true) versionRequest
            (Scenario.start (versionConfig true) []) s' } s'.trace :=
  ⟨_, rfl, answered_serverRound hostTable_initHtab (dispatches_versionRequest true) rfl⟩

/-- A server that does not tell its version takes the request, moves on to the key 7, and says
nothing. -/
theorem versionRequest_unanswered :
    Dispatches (versionConfig false) versionRequest (Scenario.start (versionConfig false) [])
      versionUbuf false versionClient ∧
    ∃ s', serverRound (versionConfig false) versionRequest
        (Scenario.start (versionConfig false) []) = .ok () s' ∧
      nextKeyOf (versionConfig false) versionRequest (Scenario.start (versionConfig false) []) s' ≠
        versionClient.nextKey ∧ sents s'.trace = [] := by
  refine ⟨dispatches_versionRequest false, _, rfl, ?_, ?_⟩
  · decide +kernel
  · decide +kernel

end Fsp
