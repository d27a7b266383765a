import Fsp.Server.Answers

/-!
# Where replies go

Whatever becomes of a request, all that is sent for it goes to its client, with its sequence number
and the key that the client is to use next; also when the server halts afterwards.
-/

namespace Fsp

open Effect

variable {Fs Cwd : Type}

/-- A reply to the message goes to the client. -/
def RepliesTo (client : SockAddr) (ub : Ubuf) : Event → Prop
  | .sent dest datagram => dest = client ∧ ∃ reply : Ubuf, datagram = reply.encode ∧
      reply.bbKey = ub.bbKey ∧ reply.bbSeq0 = ub.bbSeq0 ∧ reply.bbSeq1 = ub.bbSeq1
  | _ => True

theorem repliesTo_of_notSent {client : SockAddr} {ub : Ubuf} {e : Event} (h : NotSent e) :
    RepliesTo client ub e := by
  cases e with
  | sent _ _ => exact h.elim
  | _ => trivial

theorem mem_sents {trace : List Event} {dest : SockAddr} {datagram : ByteString} :
    (dest, datagram) ∈ sents trace ↔ .sent dest datagram ∈ trace := by
  unfold sents
  rw [List.mem_filterMap]
  constructor
  · intro ⟨e, he, heq⟩
    cases e with
    | sent _ _ =>
        injection heq with heq
        injection heq with hdest hdatagram
        rw [← hdest, ← hdatagram]
        exact he
    | _ => cases heq
  · exact fun h => ⟨_, h, rfl⟩

section

variable [Posix Fs Cwd] {cfg : Config} {r : Request}

/-- `R` respects all that is done for the request. -/
theorem primitives_sent (client : SockAddr) (ub : Ubuf) :
    Primitives (Appends (RepliesTo client ub) : Server Fs Cwd → Server Fs Cwd → Prop)
      (RepliesTo client ub) fun _ => True :=
  (primitives_acts _).mono fun _ _ h => h.1

theorem emits_serverReply {client : SockAddr} {ub ub' : Ubuf} {data xtra : ByteString}
    (hkey : ub'.bbKey = ub.bbKey) (hseq0 : ub'.bbSeq0 = ub.bbSeq0)
    (hseq1 : ub'.bbSeq1 = ub.bbSeq1) :
    Emits (RepliesTo client ub) (serverReply cfg client ub' data xtra : Srv Fs Cwd Unit) :=
  does_serverReply (primitives_sent client ub).toSteps
    ⟨rfl, replyTo ub' data xtra, rfl, hkey, hseq0, hseq1⟩

theorem replies_sent (cfg : Config) (r : Request) :
    Replies (fun m => Emits (σ := Server Fs Cwd) (RepliesTo r.client r.ub) m)
      (fun m => Emits (RepliesTo r.client r.ub) m) ubufMaxspace cfg r where
  block_le _ := block_le_maxspace cfg
  file_le _ := requestedLen_le_maxspace cfg r.s2
  bind_of_returns := compositional_does.bind_of_returns
  refuse _ _ := emits_serverReply rfl rfl rfl
  checkAccessRights _ _ _ _ hnext := by
    apply does_bind (does_requireAccess (primitives_sent r.client r.ub).toSteps fun _ => trivial)
    intro pe
    apply does_ite
    · exact fun _ => does_pure _
    · exact fun _ => does_ite (fun _ => emits_serverReply rfl rfl rfl) fun _ => hnext pe
  reply _ _ := emits_serverReply rfl rfl rfl
  replyThen _ _ _ hm := does_bind (emits_serverReply rfl rfl rfl) fun _ => hm
  replyPro _ _ _ := does_bind (does_dirInfo _) fun _ => emits_serverReply rfl rfl rfl
  renamed := emits_serverReply rfl rfl rfl
  version _ := does_ite (fun _ => emits_serverReply rfl rfl rfl) fun _ => does_pure _

/-- All commands reply to the client of the request, if they reply. -/
theorem emits_serve (cfg : Config) (r : Request) (hp : ℕ) :
    Emits (RepliesTo r.client r.ub) (serve cfg r hp : Srv Fs Cwd Unit) := by
  have hprims := @primitives_sent Fs Cwd _ r.client r.ub
  have hnot : ∀ e, NotSent e → RepliesTo r.client r.ub e := fun _ h => repliesTo_of_notSent h
  exact holds_serve (operations_of_primitives hprims hnot returns_loadAccessRights
      (does_serverMakeDir_of_good hprims hnot fun _ => trivial)) (replies_sent cfg r)
    (fun _ => streams_of_primitives hprims hnot) fun _ _ => appends_of_log_eq rfl

variable {a : Arrival Fs} {s : Server Fs Cwd} {ub : Ubuf} {old : Bool} {h : HTab}

/-- What is written to the trace for a request begins with the entry of the dispatcher. -/
theorem trace_of_dispatches (hs : HostTable s.htab) (hdisp : Dispatches cfg a s ub old h) :
    ∃ new, (final (serverRound cfg a s)).trace = .dispatched old :: new ∧
      ∀ e ∈ new, RepliesTo a.client (requestOf a ub old h).ub e := by
  obtain ⟨new, hnew, hreplies⟩ := emits_serve cfg (requestOf a ub old h) (findClient cfg a s).1
    (dispatchState cfg a s old h)
  refine ⟨new, ?_, hreplies⟩
  rw [serverRound_of_dispatches hs hdisp]
  exact hnew

/-- Nothing is sent but to the client whose datagram it is. -/
theorem client_of_sent (hs : HostTable s.htab) {dest : SockAddr} {datagram : ByteString}
    (hsent : .sent dest datagram ∈ (final (serverRound cfg a s)).trace) : dest = a.client := by
  have hreply : ∀ {ub : Ubuf} {msg : ByteString} {s' : Server Fs Cwd}, s'.trace = [] →
      .sent dest datagram ∈ (final (sendError cfg a.client ub msg s')).trace → dest = a.client := by
    intro ub msg s' htrace hin
    have hemits : Emits (RepliesTo a.client ub) (sendError cfg a.client ub msg : Srv Fs Cwd Unit) :=
      emits_serverReply rfl rfl rfl
    obtain ⟨new, hnew, hreplies⟩ := hemits s'
    have hnew' : (final (sendError cfg a.client ub msg s')).trace = s'.trace ++ new := hnew
    rw [hnew', htrace, List.nil_append] at hin
    exact (hreplies _ hin).1
  have hgoes := serverRound_goes cfg a hs
  generalize hres : serverRound cfg a s = res at hgoes hsent
  cases hgoes with
  | unread => exact absurd hsent List.not_mem_nil
  | exits => exact absurd hsent List.not_mem_nil
  | denied => exact hreply rfl hsent
  | unnamed => exact hreply rfl hsent
  | ignored => exact absurd hsent List.not_mem_nil
  | garbled => exact absurd hsent List.not_mem_nil
  | dispatched hdisp =>
      obtain ⟨new, hnew, hreplies⟩ := trace_of_dispatches hs hdisp
      rw [hres] at hnew
      rw [hnew, List.mem_cons] at hsent
      exact hsent.elim (fun heq => by cases heq) fun hin => (hreplies _ hin).1

end

end Fsp
