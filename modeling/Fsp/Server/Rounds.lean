import Fsp.Server.Commands

/-!
# One round of the server

`server_loop` drops most datagrams it should not see before it looks at the keys, and looks at the
keys before it looks at the checksum.  `Goes` lists the ways a round can go, each with the state in
which it is left to `server_reply` or to the dispatcher; `serverRound_goes` says that there are no
others.
-/

namespace Fsp

open Effect

variable {Fs Cwd : Type}

/-! ## What a datagram finds -/

/-- The datagram as `recvfrom` reads it. -/
def Arrival.bytes (a : Arrival Fs) : ByteString := a.datagram.take (ubufHsize + ubufMaxspace)

/-- The datagram holds the message `ub`. -/
structure Reads (a : Arrival Fs) (ub : Ubuf) : Prop where
  decode : Ubuf.decode a.bytes = some ub
  length_le : ub.bbLen.toNat + ubufHsize ≤ a.bytes.length

/-- The host table lets the message through. -/
def Admits (cfg : Config) (addr : UInt32) (ub : Ubuf) : Prop :=
  (hostType cfg addr).head? = some 0x4E ∨
    (hostType cfg addr).head? = some 0x44 ∧ ub.cmd = ccBye

/-- `find_host` for the client of a datagram. -/
def findClient (cfg : Config) (a : Arrival Fs) (s : Server Fs Cwd) : ℕ × List HTab :=
  findHost cfg.noUnnamed s.htab a.client.addr a.findHostname

/-- The record of the client of a datagram. -/
def clientRecord (cfg : Config) (a : Arrival Fs) (s : Server Fs Cwd) : HTab :=
  hostAt (findClient cfg a s).2 (findClient cfg a s).1

/-- The record of a client after one of its datagrams has passed the key check. -/
def HTab.heard (h : HTab) (now : ℤ) : HTab := { h with active := true, lastAcc := now }

/-- The record of a client when its request reaches the dispatcher. -/
def HTab.dispatched (h : HTab) (old : Bool) (genNextKey : UInt16) : HTab :=
  if old then h else { h with lastKey := h.nextKey, nextKey := genNextKey }

/-- The state after a datagram changed the record of its client to `h`. -/
def heardState (cfg : Config) (a : Arrival Fs) (s : Server Fs Cwd) (h : HTab) : Server Fs Cwd :=
  { s.meets a with
    htab := (findClient cfg a s).2.set (findClient cfg a s).1 h
    curTime := a.now }

/-- The record of the client of a request that the key check let through with `h`, in the
dispatcher. -/
def requestRecord (a : Arrival Fs) (old : Bool) (h : HTab) : HTab :=
  (h.heard a.now).dispatched old a.genNextKey

/-- The request the dispatcher gets. -/
def requestOf (a : Arrival Fs) (ub : Ubuf) (old : Bool) (h : HTab) : Request where
  client := a.client
  ub := { ub with bbKey := (requestRecord a old h).nextKey }
  old := old
  inetNum := (requestRecord a old h).inetNum
  behind := a.behind
  junk := a.junk

/-- The state in which the dispatcher starts. -/
def dispatchState (cfg : Config) (a : Arrival Fs) (s : Server Fs Cwd) (old : Bool) (h : HTab) :
    Server Fs Cwd :=
  { heardState cfg a s (requestRecord a old h) with trace := [.dispatched old] }

/-- The datagram passes the checks before the key check. -/
structure Knocks (cfg : Config) (a : Arrival Fs) (s : Server Fs Cwd) (ub : Ubuf) : Prop where
  reads : Reads a ub
  admits : Admits cfg a.client.addr ub
  named : ¬ ((clientRecord cfg a s).hostname = none ∧ cfg.noUnnamed = true)

/-- The datagram is a request that reaches the dispatcher. -/
structure Dispatches (cfg : Config) (a : Arrival Fs) (s : Server Fs Cwd) (ub : Ubuf) (old : Bool)
    (h : HTab) : Prop extends Knocks cfg a s ub where
  key : checkKey cfg (clientRecord cfg a s) ub.bbKey a.now = some (old, h)
  checksum : ub.checksum a.bytes.length = ub.sum

/-! ## How a round goes -/

section

variable [Posix Fs Cwd]

/-- The ways a round can go. -/
inductive Goes (cfg : Config) (a : Arrival Fs) (s : Server Fs Cwd) :
    EStateM.Result Halt (Server Fs Cwd) Unit → Prop
  /-- The datagram is too short, or its host is ignored. -/
  | unread : Goes cfg a s (.ok () (s.meets a))
  | exits : Goes cfg a s (.error (.exit 99) (s.meets a))
  | denied {ub : Ubuf} {msg : ByteString} : Reads a ub → hostType cfg a.client.addr = 0x44 :: msg →
      Goes cfg a s (sendError cfg a.client ub msg (s.meets a))
  | unnamed {ub : Ubuf} : Reads a ub → Goes cfg a s
      (sendError cfg a.client ub reverseErrMsg { s.meets a with htab := (findClient cfg a s).2 })
  /-- A bad key, or a repetition that comes too early. -/
  | ignored {ub : Ubuf} : Knocks cfg a s ub →
      checkKey cfg (clientRecord cfg a s) ub.bbKey a.now = none → Goes cfg a s
        (.ok () { s.meets a with htab := (findClient cfg a s).2, curTime := a.now })
  /-- A bad checksum, which does not keep the key from being taken for good. -/
  | garbled {ub : Ubuf} {old : Bool} {h : HTab} : Knocks cfg a s ub →
      checkKey cfg (clientRecord cfg a s) ub.bbKey a.now = some (old, h) →
      ub.checksum a.bytes.length ≠ ub.sum →
      Goes cfg a s (.ok () (heardState cfg a s (h.heard a.now)))
  | dispatched {ub : Ubuf} {old : Bool} {h : HTab} : Dispatches cfg a s ub old h →
      Goes cfg a s (serve cfg (requestOf a ub old h) (findClient cfg a s).1
        (dispatchState cfg a s old h))

variable {cfg : Config} {a : Arrival Fs} {s : Server Fs Cwd} {ub : Ubuf}

omit [Posix Fs Cwd] in
/-- `find_host` returns a record of the table, and not the last one. -/
theorem findClient_lt (cfg : Config) (a : Arrival Fs) (hs : HostTable s.htab) :
    (findClient cfg a s).1 < (findClient cfg a s).2.length := by
  have := (touchedAt_findHost (a := a.client.addr) hs cfg.noUnnamed a.findHostname).lt
  unfold findClient
  omega

/-- The dispatcher is entered with the keys rolled forward for a new request. -/
theorem serverProcessPacket_heardState (hs : HostTable s.htab) (old : Bool) (h : HTab) :
    serverProcessPacket cfg a ub old (findClient cfg a s).1 (heardState cfg a s (h.heard a.now)) =
      serve cfg (requestOf a ub old h) (findClient cfg a s).1 (dispatchState cfg a s old h) := by
  have hlt := findClient_lt cfg a hs
  have hself : ∀ h' : HTab,
      hostAt ((findClient cfg a s).2.set (findClient cfg a s).1 h') (findClient cfg a s).1 = h' :=
    fun h' => by rw [hostAt_set hlt, if_pos rfl]
  -- `server_process_packet` changes the record of the client in the table
  let rolled : HTab → List HTab := fun h' =>
    (heardState cfg a s (h.heard a.now)).htab.set (findClient cfg a s).1 h'
  have hrolled : ∀ h' : HTab,
      rolled h' = (findClient cfg a s).2.set (findClient cfg a s).1 h' := fun h' => List.set_set ..
  cases old with
  | true =>
      show serve cfg ⟨a.client, { ub with bbKey := (hostAt (heardState cfg a s (h.heard a.now)).htab
        (findClient cfg a s).1).nextKey }, true, _, a.behind, a.junk⟩ _ _ = _
      simp only [heardState, hself]
      rfl
  | false =>
      show serve cfg ⟨a.client, { ub with bbKey := (hostAt (rolled { (hostAt
        (heardState cfg a s (h.heard a.now)).htab (findClient cfg a s).1) with
          lastKey := _, nextKey := a.genNextKey }) (findClient cfg a s).1).nextKey }, false,
        (hostAt (rolled _) (findClient cfg a s).1).inetNum, a.behind, a.junk⟩ _
        { heardState cfg a s (h.heard a.now) with htab := rolled _, trace := _ } = _
      simp only [hrolled, heardState, hself]
      rfl

/-- The part of a round behind the key check. -/
theorem serverAccept_of_knocks (hs : HostTable s.htab) (hknocks : Knocks cfg a s ub) :
    serverAccept cfg a ub a.bytes.length (s.meets a) =
      match checkKey cfg (clientRecord cfg a s) ub.bbKey a.now with
      | none => .ok () { s.meets a with htab := (findClient cfg a s).2, curTime := a.now }
      | some (old, h) =>
          if ub.checksum a.bytes.length = ub.sum then
            serve cfg (requestOf a ub old h) (findClient cfg a s).1 (dispatchState cfg a s old h)
          else .ok () (heardState cfg a s (h.heard a.now)) := by
  show (if (clientRecord cfg a s).hostname = none ∧ cfg.noUnnamed = true then
      sendError cfg a.client ub reverseErrMsg else _ : Srv Fs Cwd Unit)
    { s.meets a with htab := (findClient cfg a s).2 } = _
  rw [if_neg hknocks.named]
  show (match checkKey cfg (clientRecord cfg a s) ub.bbKey a.now with
      | none => pure ()
      | some (old, h) => _ : Srv Fs Cwd Unit)
    { s.meets a with htab := (findClient cfg a s).2, curTime := a.now } = _
  rcases checkKey cfg (clientRecord cfg a s) ub.bbKey a.now with _ | ⟨old, h⟩
  · rfl
  · show (if ub.checksum a.bytes.length = ub.sum then
        serverProcessPacket cfg a ub old (findClient cfg a s).1 else pure () : Srv Fs Cwd Unit)
      (heardState cfg a s (h.heard a.now)) = _
    simp only
    split
    · exact serverProcessPacket_heardState hs old h
    · rfl

/-- What the host table makes of a message. -/
theorem serverReceive_of_reads (hreads : Reads a ub) :
    (serverReceive cfg a : Srv Fs Cwd Unit) =
      match hostType cfg a.client.addr with
      | 0x44 :: msg =>
          if ub.cmd = ccBye then serverAccept cfg a ub a.bytes.length
          else sendError cfg a.client ub msg
      | 0x49 :: _ => pure ()
      | 0x4E :: _ => serverAccept cfg a ub a.bytes.length
      | _ => throw (.exit 99) := by
  have hlen := hreads.length_le
  have hbytes : a.datagram.take (ubufHsize + ubufMaxspace) = a.bytes := rfl
  unfold serverReceive
  simp only [hbytes, hreads.decode]
  exact if_neg (by omega)

/-- A datagram that is too short is dropped. -/
theorem serverReceive_of_not_reads (h : ∀ ub, ¬ Reads a ub) :
    (serverReceive cfg a : Srv Fs Cwd Unit) = pure () := by
  have hbytes : a.datagram.take (ubufHsize + ubufMaxspace) = a.bytes := rfl
  unfold serverReceive
  simp only [hbytes]
  cases hdecode : Ubuf.decode a.bytes with
  | none => rfl
  | some ub =>
      have hlen : ¬ ub.bbLen.toNat + ubufHsize ≤ a.bytes.length := fun hle => h ub ⟨hdecode, hle⟩
      exact if_pos (by omega)

/-- A host without a name is told so. -/
theorem serverAccept_of_unnamed
    (hnamed : (clientRecord cfg a s).hostname = none ∧ cfg.noUnnamed = true) (n : ℕ) :
    serverAccept cfg a ub n (s.meets a) =
      sendError cfg a.client ub reverseErrMsg
        { s.meets a with htab := (findClient cfg a s).2 } := by
  show (if (clientRecord cfg a s).hostname = none ∧ cfg.noUnnamed = true then
      sendError cfg a.client ub reverseErrMsg else _ : Srv Fs Cwd Unit)
    { s.meets a with htab := (findClient cfg a s).2 } = _
  rw [if_pos hnamed]

/-- A datagram that passes the checks before the key check gets to the key check. -/
theorem serverRound_of_knocks (hknocks : Knocks cfg a s ub) :
    serverRound cfg a s = serverAccept cfg a ub a.bytes.length (s.meets a) := by
  show serverReceive cfg a (s.meets a) = _
  rw [serverReceive_of_reads hknocks.reads]
  obtain ⟨c, rest, hhost, hc⟩ : ∃ c rest, hostType cfg a.client.addr = c :: rest ∧
      (c = 0x4E ∨ c = 0x44 ∧ ub.cmd = ccBye) := by
    have hadmits := hknocks.admits
    unfold Admits at hadmits
    cases hhost : hostType cfg a.client.addr with
    | nil => simp [hhost] at hadmits
    | cons c rest => exact ⟨c, rest, rfl, by simpa [hhost] using hadmits⟩
  rw [hhost]
  rcases hc with rfl | ⟨rfl, hbye⟩
  · rfl
  · simp only [if_pos hbye]

/-- A request that passes all checks reaches the dispatcher. -/
theorem serverRound_of_dispatches (hs : HostTable s.htab) {old : Bool} {h : HTab}
    (hdisp : Dispatches cfg a s ub old h) :
    serverRound cfg a s = serve cfg (requestOf a ub old h) (findClient cfg a s).1
      (dispatchState cfg a s old h) := by
  rw [serverRound_of_knocks hdisp.toKnocks, serverAccept_of_knocks hs hdisp.toKnocks, hdisp.key]
  exact if_pos hdisp.checksum

/-- There are no other ways. -/
theorem serverRound_goes (cfg : Config) (a : Arrival Fs) (hs : HostTable s.htab) :
    Goes cfg a s (serverRound cfg a s) := by
  have haccept : ∀ {ub : Ubuf}, Reads a ub → Admits cfg a.client.addr ub →
      Goes cfg a s (serverAccept cfg a ub a.bytes.length (s.meets a)) := by
    intro ub hreads hadmits
    by_cases hnamed : (clientRecord cfg a s).hostname = none ∧ cfg.noUnnamed = true
    · rw [serverAccept_of_unnamed hnamed]
      exact .unnamed hreads
    · have hknocks : Knocks cfg a s ub := ⟨hreads, hadmits, hnamed⟩
      rw [serverAccept_of_knocks hs hknocks]
      rcases hkey : checkKey cfg (clientRecord cfg a s) ub.bbKey a.now with _ | ⟨old, h⟩
      · exact .ignored hknocks hkey
      · simp only
        split
        · exact .dispatched ⟨hknocks, hkey, ‹_›⟩
        · exact .garbled hknocks hkey ‹_›
  show Goes cfg a s (serverReceive cfg a (s.meets a))
  by_cases hreads : ∃ ub, Reads a ub
  · obtain ⟨ub, hreads⟩ := hreads
    rw [serverReceive_of_reads hreads]
    generalize hhost : hostType cfg a.client.addr = host
    by_cases hbye : ub.cmd = ccBye
    · simp only [if_pos hbye]
      split
      · exact haccept hreads (Or.inr ⟨by rw [hhost]; rfl, hbye⟩)
      · exact .unread
      · exact haccept hreads (Or.inl (by rw [hhost]; rfl))
      · exact .exits
    · simp only [if_neg hbye]
      split
      · exact .denied hreads hhost
      · exact .unread
      · exact haccept hreads (Or.inl (by rw [hhost]; rfl))
      · exact .exits
  · rw [serverReceive_of_not_reads fun ub h => hreads ⟨ub, h⟩]
    exact .unread

/-! ## The client database -/

/-- No command but `CC_BYE` touches the client database. -/
theorem htab_serve {r : Request} {hp : ℕ} (hbye : Command.ofByte r.ub.cmd ≠ .bye)
    (s : Server Fs Cwd) : (final (serve cfg r hp s)).htab = s.htab := by
  have hprims := @primitives_acts Fs Cwd _ fun _ => True
  have : Does (Acts fun _ => True) (serve cfg r hp : Srv Fs Cwd Unit) :=
    holds_serve (operations_of_primitives hprims (fun _ _ => trivial) returns_loadAccessRights
      (does_serverMakeDir_of_good hprims (fun _ _ => trivial) fun _ => trivial))
      (replies_of_primitives hprims (fun _ => trivial) r)
      (fun _ => streams_of_primitives hprims fun _ _ => trivial) fun h => absurd h hbye
  exact congrArg Prod.fst (this s).2

/-- `CC_BYE` ends the session of the client. -/
theorem htab_serve_bye {r : Request} {hp : ℕ} (hbye : Command.ofByte r.ub.cmd = .bye)
    (s : Server Fs Cwd) : (final (serve cfg r hp s)).htab =
      s.htab.set hp { hostAt s.htab hp with active := false } := by
  unfold serve
  rw [hbye]
  have : Does (Acts fun _ => True) (reply cfg r [] [] : Srv Fs Cwd Unit) :=
    does_serverReply (primitives_acts _).toSteps trivial
  exact congrArg Prod.fst
    (this { s with htab := s.htab.set hp { hostAt s.htab hp with active := false } }).2

theorem htab_sendError {client : SockAddr} {msg : ByteString} (s : Server Fs Cwd) :
    (final (sendError cfg client ub msg s)).htab = s.htab := by
  have : Does (Acts fun _ => True) (sendError cfg client ub msg : Srv Fs Cwd Unit) :=
    does_serverReply (primitives_acts _).toSteps trivial
  exact congrArg Prod.fst (this s).2

omit [Posix Fs Cwd] in
theorem inetNum_of_checkKey {hp h : HTab} {key : UInt16} {now : ℤ} {old : Bool}
    (hkey : checkKey cfg hp key now = some (old, h)) : h.inetNum = hp.inetNum := by
  unfold checkKey at hkey
  split_ifs at hkey <;> simp_all <;> rw [← hkey.2]

omit [Posix Fs Cwd] in
@[simp] theorem inetNum_heard (h : HTab) (now : ℤ) : (h.heard now).inetNum = h.inetNum := rfl

omit [Posix Fs Cwd] in
@[simp] theorem inetNum_requestRecord (a : Arrival Fs) (old : Bool) (h : HTab) :
    (requestRecord a old h).inetNum = h.inetNum := by
  cases old <;> rfl

/-- A round changes no record but that of its client. -/
theorem touchedAt_serverRound (cfg : Config) (a : Arrival Fs) (hs : HostTable s.htab) :
    (final (serverRound cfg a s)).htab = s.htab ∨
      TouchedAt s.htab (final (serverRound cfg a s)).htab a.client.addr (findClient cfg a s).1 := by
  have hfind : TouchedAt s.htab (findClient cfg a s).2 a.client.addr (findClient cfg a s).1 :=
    touchedAt_findHost hs cfg.noUnnamed a.findHostname
  have hinet : (clientRecord cfg a s).inetNum = a.client.addr := hfind.inetNum
  have hgoes := serverRound_goes cfg a hs
  generalize serverRound cfg a s = res at hgoes ⊢
  cases hgoes with
  | unread => exact Or.inl rfl
  | exits => exact Or.inl rfl
  | denied => exact Or.inl (htab_sendError _)
  | unnamed => exact Or.inr (by rw [htab_sendError]; exact hfind)
  | ignored => exact Or.inr hfind
  | garbled _ hkey _ =>
      exact Or.inr (hfind.set (by rw [inetNum_heard, inetNum_of_checkKey hkey, hinet]))
  | dispatched hdisp =>
      rename_i ub old h
      have hrec : (requestRecord a old h).inetNum = a.client.addr := by
        rw [inetNum_requestRecord, inetNum_of_checkKey hdisp.key, hinet]
      have hset := hfind.set hrec
      by_cases hbye : Command.ofByte (requestOf a ub old h).ub.cmd = .bye
      · rw [htab_serve_bye hbye]
        refine Or.inr (hset.set ?_)
        exact hset.inetNum
      · rw [htab_serve hbye]
        exact Or.inr hset

theorem hostTable_serverRound (cfg : Config) (a : Arrival Fs) (hs : HostTable s.htab) :
    HostTable (final (serverRound cfg a s)).htab := by
  rcases touchedAt_serverRound cfg a hs with heq | htouched
  · rw [heq]
    exact hs
  · exact htouched.table

/-! ## Runs and reachable states -/

/-- What was written to the trace in some rounds, one after the other. -/
def logOf (rounds : List (Effect.Round (Arrival Fs) (Server Fs Cwd))) : List Event :=
  rounds.flatMap fun r => r.after.trace

/-- The server as it enters `server_loop`. -/
def Starts (cfg : Config) (s : Server Fs Cwd) : Prop := ∃ fs cwd now, s = initServer cfg fs cwd now

theorem hostTable_reachable (h : Reachable (serverRound cfg) (Starts cfg) s) :
    HostTable s.htab := by
  refine h.invariant (I := fun s => HostTable s.htab) ?_ ?_
  · rintro s ⟨fs, cwd, now, rfl⟩
    exact hostTable_initHtab
  · exact fun a s hs => hostTable_serverRound cfg a hs

/-- The host table is in order before every round of a run. -/
theorem hostTable_history (cfg : Config) (fs : Fs) (cwd : Cwd) (now : ℤ)
    {arrivals : List (Arrival Fs)}
    {before after : List (Effect.Round (Arrival Fs) (Server Fs Cwd))}
    {r : Effect.Round (Arrival Fs) (Server Fs Cwd)}
    (hrun : history cfg (initServer cfg fs cwd now) arrivals = before ++ r :: after) :
    HostTable r.before.htab :=
  (rounds_induction (I := fun _ s => HostTable s.htab) [] hostTable_initHtab
    (fun _ r _ _ hafter hs => by rw [hafter]; exact hostTable_serverRound cfg r.input hs) hrun).1

/-- What is written to the trace for a request is written by the dispatcher. -/
theorem exists_dispatches {old : Bool} (hs : HostTable s.htab)
    (hmem : .dispatched old ∈ (final (serverRound cfg a s)).trace) :
    ∃ ub old h, Dispatches cfg a s ub old h := by
  have hreply : ∀ {ub : Ubuf} {msg : ByteString} {s' : Server Fs Cwd}, s'.trace = [] →
      .dispatched old ∉ (final (sendError cfg a.client ub msg s')).trace := by
    intro ub msg s' htrace hin
    have hsent : Does (Acts fun e => e ≠ .dispatched old)
        (sendError cfg a.client ub msg : Srv Fs Cwd Unit) :=
      does_serverReply (primitives_acts _).toSteps nofun
    obtain ⟨⟨new, hnew, hne⟩, -⟩ := hsent s'
    have htrace' : (final (sendError cfg a.client ub msg s')).trace = s'.trace ++ new := hnew
    rw [htrace', htrace, List.nil_append] at hin
    exact hne _ hin rfl
  have hgoes := serverRound_goes cfg a hs
  generalize serverRound cfg a s = res at hgoes hmem
  cases hgoes with
  | unread => exact absurd hmem List.not_mem_nil
  | exits => exact absurd hmem List.not_mem_nil
  | denied => exact absurd hmem (hreply rfl)
  | unnamed => exact absurd hmem (hreply rfl)
  | ignored => exact absurd hmem List.not_mem_nil
  | garbled => exact absurd hmem List.not_mem_nil
  | dispatched hdisp => exact ⟨_, _, _, hdisp⟩

end

end Fsp
