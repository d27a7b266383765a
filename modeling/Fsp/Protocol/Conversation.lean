import Fsp.Lib.RenewedKeys
import Fsp.Protocol.Exchange
import Fsp.Server.Sent
import Fsp.Server.Sessions

/-!
# A client and the server over a bad network

One process makes calls of `client_interact` to the server, and the network between them loses,
repeats, delays and reorders datagrams as it likes.  Datagrams of other hosts come in between.  A
`Conversation` is the state of both ends with all that they have sent each other; an `Act` is one
thing that happens: a call, a datagram that is sent again, a datagram that reaches the server, or one
that reaches the client and passes its checks.

The two ends are an instance of `RenewedKeys`: `Follows` relates them, and `follows_act` is the
simulation, one step of the conversation at a time.
-/

namespace Fsp

open Effect

/-! ## The two ends -/

/-- A call of `client_interact`, with the key and the sequence number it is sent with. -/
structure Turn where
  request : ClientRequest
  key : UInt16
  myseq : UInt16

/-- The datagram that is sent for the `retrySend`-th time. -/
def Turn.sbuf (t : Turn) (retrySend : ℕ) : ByteString := t.request.sbuf t.key t.myseq retrySend

/-- What a reply has to agree with: all of the sequence number but the retry count. -/
def Turn.tag (t : Turn) : ℕ := t.myseq.toNat / 8

structure Conversation (Fs Cwd : Type) where
  server : Server Fs Cwd
  /-- The server has not halted. -/
  serving : Bool
  /-- What `client_get_key` returns. -/
  key : UInt16
  myseq : UInt16
  turns : List Turn
  /-- `retry_send`, while the last call waits for its reply. -/
  waiting : Option ℕ
  /-- What the client has sent, each datagram with the number of its call. -/
  requests : List (ℕ × ByteString)
  /-- What the server has sent to the client, each with the number of the call it is a reply to. -/
  replies : List (Option ℕ × ByteString)
  /-- The calls that the dispatcher took for new, one after the other. -/
  executed : List ℕ
  /-- The client's first key, and those that `gen_next_key` has returned for its calls. -/
  handed : List UInt16
  /-- The calls that have returned, each with the number of the call whose reply it returned. -/
  returned : List (ℕ × Option ℕ)

inductive Act (Fs : Type) where
  | call (request : ClientRequest) (random : UInt16)
  | resend
  /-- The `n`-th datagram of the client reaches the server; `a` tells when, and what else the server
  learns. -/
  | arrive (n : ℕ) (a : Arrival Fs)
  | other (a : Arrival Fs)
  /-- The client gets the `n`-th datagram of the server, and it passes the checks. -/
  | receive (n : ℕ)

/-- How the dispatcher took a request, if that was written to the trace first. -/
def Event.old : Event → Option Bool
  | .dispatched old => some old
  | _ => none

/-- What was sent to a client. -/
def sentTo (client : SockAddr) (trace : List Event) : List ByteString :=
  (sents trace).filterMap fun p => if p.1 = client then some p.2 else none

namespace Conversation

variable {Fs Cwd : Type}

/-- The client has made no call yet. -/
def start (server : Server Fs Cwd) (key myseq : UInt16) : Conversation Fs Cwd where
  server := server
  serving := true
  key := key
  myseq := myseq
  turns := []
  waiting := none
  requests := []
  replies := []
  executed := []
  handed := [key]
  returned := []

variable [Posix Fs Cwd]

/-- The arrival of a datagram of the client at the server. -/
def arrival (client : SockAddr) (a : Arrival Fs) (datagram : ByteString) : Arrival Fs :=
  { a with client := client, datagram := datagram }

/-- The server takes the request for a new one. -/
def Executes (cfg : Config) (c : Conversation Fs Cwd) (a : Arrival Fs) : Prop :=
  (final (serverRound cfg a c.server)).trace.head?.bind Event.old = some false

instance (cfg : Config) (c : Conversation Fs Cwd) (a : Arrival Fs) : Decidable (c.Executes cfg a) :=
  inferInstanceAs (Decidable (_ = _))

/-- A round of the server for a datagram of the call `call`, or of another host. -/
def round (cfg : Config) (client : SockAddr) (c : Conversation Fs Cwd) (a : Arrival Fs)
    (call : Option ℕ) : Conversation Fs Cwd :=
  let s := final (serverRound cfg a c.server)
  { c with
    server := s
    serving := (serverRound cfg a c.server) matches .ok _ _
    replies := c.replies ++ (sentTo client s.trace).map fun datagram => (call, datagram)
    executed := if c.Executes cfg a then c.executed ++ call.toList else c.executed
    handed := if c.Executes cfg a then c.handed ++ (call.map fun _ => a.genNextKey).toList
      else c.handed }

/-- A datagram of the call `i` that is executed. -/
theorem executed_round_of_executes {cfg : Config} {client : SockAddr} {c : Conversation Fs Cwd}
    {a : Arrival Fs} (h : c.Executes cfg a) (i : ℕ) :
    (c.round cfg client a (some i)).executed = c.executed ++ [i] ∧
      (c.round cfg client a (some i)).handed = c.handed ++ [a.genNextKey] :=
  ⟨if_pos h, if_pos h⟩

/-- A datagram that is not executed, or not one of a call. -/
theorem executed_round_of_not {cfg : Config} {client : SockAddr} {c : Conversation Fs Cwd}
    {a : Arrival Fs} {call : Option ℕ} (h : c.Executes cfg a → call = none) :
    (c.round cfg client a call).executed = c.executed ∧
      (c.round cfg client a call).handed = c.handed := by
  by_cases hexec : c.Executes cfg a
  · rw [h hexec]
    exact ⟨(if_pos hexec).trans (List.append_nil _), (if_pos hexec).trans (List.append_nil _)⟩
  · exact ⟨if_neg hexec, if_neg hexec⟩

/-- One thing that happens, if it can. -/
def act (cfg : Config) (client : SockAddr) (c : Conversation Fs Cwd) :
    Act Fs → Option (Conversation Fs Cwd)
  | .call request random =>
      let t : Turn := ⟨request, c.key, nextSeq c.myseq random⟩
      if c.waiting = none then
        some { c with
          myseq := t.myseq
          turns := c.turns ++ [t]
          waiting := some 0
          requests := c.requests ++ [(c.turns.length, t.sbuf 0)] }
      else none
  | .resend => do
      let retrySend ← c.waiting
      let t ← c.turns.getLast?
      some { c with
        waiting := some (retrySend + 1)
        requests := c.requests ++ [(c.turns.length - 1, t.sbuf (retrySend + 1))] }
  | .arrive n a => do
      let r ← c.requests[n]?
      if c.serving then some (c.round cfg client (arrival client a r.2) (some r.1)) else none
  | .other a =>
      if c.serving ∧ a.client.addr ≠ client.addr then some (c.round cfg client a none) else none
  | .receive n => do
      let retrySend ← c.waiting
      let t ← c.turns.getLast?
      let r ← c.replies[n]?
      let rbuf ← acceptReply t.request.cmd t.request.pos (seqByte0 t.myseq)
        (seqByte1 t.myseq retrySend) r.2
      some { c with
        key := rbuf.bbKey
        waiting := none
        returned := c.returned ++ [(c.turns.length - 1, r.1)] }

/-- What the protocol relies on: calls have different sequence numbers and do not end the session,
datagrams of the client come before the session has timed out, and a key that is handed out is a new
one, and not the one that the client began with. -/
def Orderly (cfg : Config) (client : SockAddr) (c : Conversation Fs Cwd) : Act Fs → Prop
  | .call request random => Command.ofByte request.cmd ≠ .bye ∧
      ∀ t ∈ c.turns, t.tag ≠ (nextSeq c.myseq random).toNat / 8
  | .arrive n a => ∀ r ∈ c.requests[n]?,
      ((sessionOf c.server.htab client.addr).active = true →
        a.now < (sessionOf c.server.htab client.addr).lastAcc + cfg.sessionTimeout) ∧
      (c.Executes cfg (arrival client a r.2) → a.genNextKey ∉ c.handed)
  | _ => True

instance (cfg : Config) (client : SockAddr) (c : Conversation Fs Cwd) (e : Act Fs) :
    Decidable (c.Orderly cfg client e) :=
  match e with
  | .call _ _ => inferInstanceAs (Decidable (_ ∧ _))
  | .arrive _ _ => inferInstanceAs (Decidable (∀ r ∈ _, _ ∧ _))
  | .resend => inferInstanceAs (Decidable True)
  | .other _ => inferInstanceAs (Decidable True)
  | .receive _ => inferInstanceAs (Decidable True)

/-- What comes of some things that happen one after the other, all as they should. -/
def play (cfg : Config) (client : SockAddr) :
    Conversation Fs Cwd → List (Act Fs) → Option (Conversation Fs Cwd)
  | c, [] => some c
  | c, e :: es =>
      if c.Orderly cfg client e then (c.act cfg client e).bind fun c => play cfg client c es
      else none

/-- The conversations that can come about. -/
inductive Reaches (cfg : Config) (client : SockAddr) (c₀ : Conversation Fs Cwd) :
    Conversation Fs Cwd → Prop
  | start : Reaches cfg client c₀ c₀
  | act {c c' : Conversation Fs Cwd} {e : Act Fs} : Reaches cfg client c₀ c →
      c.Orderly cfg client e → c.act cfg client e = some c' → Reaches cfg client c₀ c'

theorem reaches_of_play {cfg : Config} {client : SockAddr} {c₀ c c' : Conversation Fs Cwd}
    {es : List (Act Fs)} (hreaches : Reaches cfg client c₀ c)
    (hplay : c.play cfg client es = some c') : Reaches cfg client c₀ c' := by
  induction es generalizing c with
  | nil =>
      rw [← Option.some.inj hplay]
      exact hreaches
  | cons e es ih =>
      obtain ⟨horderly, hplay⟩ := Option.ite_none_right_eq_some.mp hplay
      obtain ⟨c₁, hact, hplay⟩ := Option.bind_eq_some_iff.mp hplay
      exact ih (hreaches.act horderly hact) hplay

end Conversation

end Fsp
