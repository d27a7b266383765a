import Fsp.Protocol.Agreement
import Fsp.Server.Changes

/-!
# Late requests

What a client has sent stays in the network, and can reach the server at any time later.  It then
finds a server that waits for another key, or that has executed the call already, so that it changes
no files: the server's files change only for the call that the client waits for, and only once.

A server that keeps prebuilt listings writes those for any request for a directory, new or repeated
(`ListingKept`); nothing else is let off, such as what an upload writes.

`mayChange_serverRound` says which datagrams can change files, and `Follows.waits_of_executed` that an
executed one is of the call that waits: the calls are executed in their order (`Sound.executed`), so
that the next one to be executed is the last one made.
-/

namespace Fsp

open Effect

namespace Conversation

variable {Fs Cwd : Type} {cfg : Config} {client : SockAddr} {c c' : Conversation Fs Cwd}

/-- The call `i` is the one that the client waits for, it is executed now, and its command is there
to change files. -/
structure Effective (cfg : Config) (c c' : Conversation Fs Cwd) (i : ℕ) : Prop where
  waits : c.waiting.isSome = true
  last : i = c.turns.length - 1
  unexecuted : i ∉ c.executed
  executed : c'.executed = c.executed ++ [i]
  command : ∃ t, c.turns.getLast? = some t ∧ (Command.ofByte t.request.cmd).changes = true ∧
    cfg.Allows (Command.ofByte t.request.cmd)

/-- The `n`-th datagram of the client is a request for a directory, and the entry is one of those for
the listing that the server keeps there. -/
def ListingKept [Posix Fs Cwd] (cfg : Config) (client : SockAddr) (c : Conversation Fs Cwd) (n : ℕ)
    (a : Arrival Fs) (e : Event) : Prop :=
  ∃ r ub old h, c.requests[n]? = some r ∧
    Dispatches cfg (arrival client a r.2) c.server ub old h ∧
      KeepsListing cfg (Command.ofByte ub.cmd) e

/-- A call that is executed is the one that the client waits for. -/
theorem Follows.waits_of_executed {t t' : RenewedKeys.State UInt16 ℕ} {i : ℕ}
    (hsound : RenewedKeys.Sound t) (h : Follows client c t) (hsound' : RenewedKeys.Sound t')
    (h' : Follows client c' t') (hturns : c'.turns = c.turns)
    (hexec : c'.executed = c.executed ++ [i]) :
    c.waiting.isSome = true ∧ i = c.turns.length - 1 ∧ i ∉ c.executed := by
  have hlen : t.calls.length = c.turns.length := by rw [h.calls, List.length_map]
  have hlen' : t'.calls.length = c.turns.length := by rw [h'.calls, List.length_map, hturns]
  have hgrows : t'.executed = t.executed ++ [i] := by rw [h'.executed, hexec, h.executed]
  have hone : t'.executed.length = t.executed.length + 1 := by
    rw [hgrows, List.length_append, List.length_singleton]
  have hle := hsound'.length_executed_le
  obtain ⟨hwaiting, hcalls⟩ := hsound.waits_of_lt (by omega)
  have hrange := hsound'.executed
  -- the calls are executed in their order
  rw [hone, hgrows, List.range_succ] at hrange
  obtain ⟨hbefore, hi⟩ := List.append_inj' hrange rfl
  have hi : i = t.executed.length := List.singleton_inj.mp hi
  refine ⟨by rw [← h.waiting, hwaiting], by omega, ?_⟩
  rw [← h.executed, hbefore, hi, List.mem_range]
  exact lt_irrefl _

variable [Posix Fs Cwd]

/-- Whatever the network does, a datagram of the client changes files only if it is the first one to
arrive of the call that the client waits for, or asks for a directory whose listing is kept. -/
theorem effective_of_changes (hnormal : (hostType cfg client.addr).head? = some 0x4E)
    (hnamed : cfg.noUnnamed = false) (haddr : client.addr ≠ 0) {s : Server Fs Cwd}
    (hs : Reachable (serverRound cfg) (Starts cfg) s)
    (hclosed : (sessionOf s.htab client.addr).active = false) {key myseq : UInt16}
    (hreaches : Reaches cfg client (start s key myseq) c) {n : ℕ} {a : Arrival Fs}
    (horderly : c.Orderly cfg client (.arrive n a)) (hact : c.act cfg client (.arrive n a) = some c')
    {e : Event} (he : e ∈ c'.server.trace) (hchanges : e.changes = true) :
    (∃ r, c.requests[n]? = some r ∧ Effective cfg c c' r.1) ∨ c.ListingKept cfg client n a e := by
  obtain ⟨t, hsound, h⟩ := follows_of_reaches hnormal hnamed haddr hs hclosed hreaches
  obtain ⟨t', hsound', h'⟩ := follows_of_reaches hnormal hnamed haddr hs hclosed
    (hreaches.act horderly hact)
  obtain ⟨r, hr, hact⟩ := Option.bind_eq_some_iff.mp hact
  obtain ⟨-, hc'⟩ := Option.ite_none_right_eq_some.mp hact
  rw [← Option.some.inj hc'] at he h' ⊢
  have hround : e ∈ (final (serverRound cfg (arrival client a r.2) c.server)).trace := he
  rcases mayChange_serverRound h.table hround hchanges with hexec | hlist
  · obtain ⟨ub, ⟨hp, hdisp⟩, hcmd, hallows⟩ := hexec
    have hnew : c.Executes cfg (arrival client a r.2) :=
      (executes_iff_of_dispatches h.table hdisp).mpr rfl
    have hexec : (c.round cfg client (arrival client a r.2) (some r.1)).executed =
        c.executed ++ [r.1] := (executed_round_of_executes hnew r.1).1
    obtain ⟨hwaits, hlast, hnot⟩ := h.waits_of_executed hsound hsound' h' rfl hexec
    obtain ⟨turn, k, hturn, hdatagram⟩ := h.requests r (List.mem_of_getElem? hr)
    have hknocks : Knocks cfg (arrival client a r.2) c.server
        (turn.request.ubuf turn.key turn.myseq k) := knocks_of_sbuf hnormal hnamed rfl hdatagram _
    -- the request executed is the one that the client has sent
    have hub := knocks_unique hdisp.toKnocks hknocks
    refine Or.inl ⟨r, hr, hwaits, hlast, hnot, hexec, turn, ?_, ?_, ?_⟩
    · rw [List.getLast?_eq_getElem?, ← hlast, hturn]
    · rw [hub] at hcmd
      exact hcmd
    · rw [hub] at hallows
      exact hallows
  · obtain ⟨ub, old, hp, hdisp, hkeeps⟩ := hlist
    exact Or.inr ⟨r, ub, old, hp, hr, hdisp, hkeeps⟩

/-- The client asks for a file to be deleted. -/
def deleteTalk : List (Act Disk) :=
  [.call ⟨Command.delFile.code, 0, Scenario.path "f", [], length_path_f⟩ 8]

def deleteStart : Conversation Disk Path := start deletable 5 0

theorem effective_of_changes_delete : ∃ c c' e, deleteStart.play Scenario.config Scenario.client
      deleteTalk = some c ∧
    c.act Scenario.config Scenario.client (.arrive 0 (Scenario.arrival 100 7 [])) = some c' ∧
    e ∈ c'.server.trace ∧ e.changes = true ∧
    ∃ r, c.requests[0]? = some r ∧ Effective Scenario.config c c' r.1 := by
  have hplay : (deleteStart.play Scenario.config Scenario.client deleteTalk).map (fun c =>
      decide (c.Orderly Scenario.config Scenario.client (.arrive 0 (Scenario.arrival 100 7 []))) &&
        (c.act Scenario.config Scenario.client (.arrive 0 (Scenario.arrival 100 7 []))).any fun c' =>
          c'.server.trace.any Event.changes) = some true := by
    decide +kernel
  obtain ⟨c, hc, hact⟩ := Option.map_eq_some_iff.mp hplay
  obtain ⟨horderly, hact⟩ := Bool.and_eq_true_iff.mp hact
  obtain ⟨c', hc', hchanges⟩ := (Option.any_eq_true _ _).mp hact
  obtain ⟨e, he, hchanges⟩ := List.any_eq_true.mp hchanges
  refine ⟨c, c', e, hc, hc', he, hchanges, ?_⟩
  rcases effective_of_changes (by decide +kernel) rfl (by decide) (.start ⟨_, _, _, rfl⟩)
    (by decide +kernel) (reaches_of_play .start hc) (of_decide_eq_true horderly) hc' he hchanges with
    heffective | ⟨_, _, _, _, -, -, -, hprebuilt, -⟩
  · exact heffective
  · -- this server keeps no listings
    exact absurd hprebuilt (by decide)

end Conversation

end Fsp
