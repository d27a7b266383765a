import Fsp.Scenario
import Fsp.Server.HostMask
import Fsp.Server.Rounds

/-!
# Types of hosts

`parse_ipline` takes any letter for the type of a host, and `server_loop` knows three: a datagram from
a host of another type makes the server exit.  A line with such a letter does no harm only if no
address gets to it, because its range is upside down or lines before it have all its addresses.
-/

namespace Fsp

open Bytes Effect

/-- Disabled, ignored and normal. -/
def hostTypes : List UInt8 := [0x44, 0x49, 0x4E]

/-- The octets of an address are in the bounds of a record. -/
def IPrange.Has (r : IPrange) (a : Fin 4 → UInt8) : Prop := ∀ j, r.lo j ≤ a j ∧ a j ≤ r.hi j

/-- The letter that a line gives for the type of the host. -/
def IplineCall.letter (call : IplineCall) : Option UInt8 := (behindField call.line).head?

/-- Every line with another letter is out of reach: lines before it have all addresses of its
record. -/
def OthersUnreached (calls : List IplineCall) : Prop :=
  ∀ before call after, calls = before ++ call :: after →
    (∀ c ∈ hostTypes, call.letter ≠ some c) → ∀ r, call.parsed = some r → ∀ a, r.Has a →
      ∃ call' ∈ before, ∃ r', call'.parsed = some r' ∧ r'.Has a

/-- What the host table says about a client is one of the types that `server_loop` knows. -/
def Classified (cfg : Config) (addr : UInt32) : Prop :=
  ∃ c ∈ hostTypes, (hostType cfg addr).head? = some c

/-! ## Tables -/

theorem checkIp_eq_some {bigEndian : Bool} {addr : UInt32} {r : IPrange} {t : ByteString} :
    checkIp bigEndian addr r = some t ↔ r.Has (octet (ntohl bigEndian addr)) ∧ r.text = t := by
  rw [checkIp]
  constructor
  · intro h
    split_ifs at h with hin
    exact ⟨hin, Option.some.inj h⟩
  · rintro ⟨hin, rfl⟩
    exact if_pos hin

/-- The first letter of a record is that of its line. -/
theorem head?_text_parsed {call : IplineCall} {r : IPrange} (h : call.parsed = some r) :
    r.text.head? = call.letter := by
  obtain ⟨c, type, message, b, -, -, hbehind, -, -, rfl⟩ := parseIpline_eq_some.mp h
  rw [IplineCall.letter, hbehind]
  rfl

/-- The line that classifies an address. -/
theorem firstMatch_eq_some {bigEndian : Bool} {addr : UInt32} {calls : List IplineCall}
    {t : ByteString} :
    firstMatch bigEndian addr calls = some t ↔
      ∃ before call after r, calls = before ++ call :: after ∧ call.parsed = some r ∧
        r.Has (octet (ntohl bigEndian addr)) ∧ r.text = t ∧
        ∀ call' ∈ before, ∀ r', call'.parsed = some r' →
          ¬ r'.Has (octet (ntohl bigEndian addr)) := by
  have hnone : ∀ call : IplineCall, call.parsed.bind (checkIp bigEndian addr) = none ↔
      ∀ r, call.parsed = some r → ¬ r.Has (octet (ntohl bigEndian addr)) := by
    intro call
    rw [Option.bind_eq_none_iff]
    refine forall_congr' fun r => imp_congr_right fun _ => ?_
    rw [Option.eq_none_iff_forall_ne_some]
    constructor
    · exact fun h hin => h r.text (checkIp_eq_some.mpr ⟨hin, rfl⟩)
    · exact fun h t ht => h (checkIp_eq_some.mp ht).1
  rw [firstMatch, List.findSome?_eq_some_iff]
  constructor
  · rintro ⟨before, call, after, rfl, hcall, hbefore⟩
    obtain ⟨r, hr, hcheck⟩ := Option.bind_eq_some_iff.mp hcall
    obtain ⟨hin, htext⟩ := checkIp_eq_some.mp hcheck
    exact ⟨before, call, after, r, rfl, hr, hin, htext,
      fun call' hcall' => (hnone call').mp (hbefore call' hcall')⟩
  · rintro ⟨before, call, after, r, rfl, hr, hin, htext, hbefore⟩
    refine ⟨before, call, after, rfl, ?_, fun call' hcall' => (hnone call').mpr (hbefore call' hcall')⟩
    rw [hr]
    exact checkIp_eq_some.mpr ⟨hin, htext⟩

/-- Every address is classified if and only if no line with another letter is reached. -/
theorem classified_iff {cfg : Config} {calls : List IplineCall}
    (hconf : cfg.iptab = accepted calls) :
    (∀ addr, Classified cfg addr) ↔ OthersUnreached calls := by
  have htype : ∀ addr, hostType cfg addr = (firstMatch cfg.bigEndian addr calls).getD
      (if cfg.privMode then text "DFSP service not available" else text "N") := by
    intro addr
    rw [firstMatch_eq_findSome?, hostType, hconf]
  constructor
  · rintro hall before call after rfl hletter r hr a hin
    by_contra hbefore
    have haddr : octet (ntohl cfg.bigEndian (inAddr cfg.bigEndian a)) = a := by
      rw [ntohl_inAddr, octet_ofBe32]
    have hfirst : firstMatch cfg.bigEndian (inAddr cfg.bigEndian a) (before ++ call :: after) =
        some r.text := by
      refine firstMatch_eq_some.mpr ⟨before, call, after, r, rfl, hr, ?_, rfl, ?_⟩
      · rw [haddr]
        exact hin
      · intro call' hcall' r' hr' hin'
        rw [haddr] at hin'
        exact hbefore ⟨call', hcall', r', hr', hin'⟩
    obtain ⟨c, hc, hhead⟩ := hall (inAddr cfg.bigEndian a)
    rw [htype, hfirst, Option.getD_some, head?_text_parsed hr] at hhead
    exact hletter c hc hhead
  · intro hothers addr
    rw [Classified, htype]
    cases hfirst : firstMatch cfg.bigEndian addr calls with
    | none =>
        rw [Option.getD_none]
        cases cfg.privMode with
        | true => exact ⟨0x44, by decide, rfl⟩
        | false => exact ⟨0x4E, by decide, rfl⟩
    | some t =>
        obtain ⟨before, call, after, r, hcalls, hr, hin, rfl, hbefore⟩ :=
          firstMatch_eq_some.mp hfirst
        rw [Option.getD_some, head?_text_parsed hr]
        by_contra hletter
        obtain ⟨call', hcall', r', hr', hin'⟩ := hothers before call after hcalls
          (fun c hc heq => hletter ⟨c, hc, heq⟩) r hr _ hin
        exact hbefore call' hcall' r' hr' hin'

/-! ## Rounds -/

variable {Fs Cwd : Type} [Posix Fs Cwd] {cfg : Config} {a : Arrival Fs} {s : Server Fs Cwd}
  {ub : Ubuf}

/-- A complete datagram of a host that is not classified ends the server. -/
theorem serverRound_of_not_classified (hreads : Reads a ub)
    (hclass : ¬ Classified cfg a.client.addr) :
    serverRound cfg a s = .error (.exit 99) (s.meets a) := by
  show serverReceive cfg a (s.meets a) = _
  rw [serverReceive_of_reads hreads]
  split
  · rename_i hhost
    exact absurd ⟨0x44, by decide, by rw [hhost]; rfl⟩ hclass
  · rename_i hhost
    exact absurd ⟨0x49, by decide, by rw [hhost]; rfl⟩ hclass
  · rename_i hhost
    exact absurd ⟨0x4E, by decide, by rw [hhost]; rfl⟩ hclass
  · rfl

omit [Posix Fs Cwd] in
/-- `throttle` returns or waits for ever. -/
theorem throttle_result (n : ℕ) (s : Server Fs Cwd) :
    (∃ s', throttle cfg n s = .ok () s') ∨ ∃ s', throttle cfg n s = .error .hang s' := by
  by_cases hmax : cfg.maxthcallowed = 0
  · left
    exact ⟨s, by simp only [throttle, hmax, if_true]; rfl⟩
  · by_cases hsum : (advanceThc s.curTime s.thc s.thcBase).1.foldl (· + ·) 0 / 10 ≤
        cfg.maxthcallowed
    · left
      exact ⟨_, by
        simp only [throttle, hmax, if_false]
        exact congrFun (if_pos hsum) s⟩
    · right
      exact ⟨s, by
        simp only [throttle, hmax, if_false]
        exact congrFun (if_neg hsum) s⟩

/-- A reply is sent, or the server ends with another code. -/
theorem serverReply_ne_exit {client : SockAddr} {data xtra : ByteString} (s s' : Server Fs Cwd) :
    serverReply cfg client ub data xtra s ≠ .error (.exit 99) s' := by
  intro h
  have hreply : serverReply cfg client ub data xtra s =
      EStateM.bind (throttle cfg (replyTo ub data xtra).encode.length) (fun _ => do
        let sent ← query fun (fs : Fs) _ =>
          Posix.sendto fs client.addr client.port (replyTo ub data xtra).encode
        if sent then emit (.sent client (replyTo ub data xtra).encode) else throw (.exit 9)) s := rfl
  rw [hreply, EStateM.bind] at h
  have hthrottle : ∀ n, (∃ s', throttle cfg n s = .ok () s') ∨
      ∃ s', throttle cfg n s = .error .hang s' := fun n => throttle_result n s
  rcases hthrottle (replyTo ub data xtra).encode.length with ⟨s₁, hs₁⟩ | ⟨s₁, hs₁⟩
  · rw [hs₁] at h
    have hsend : ((if Posix.sendto s₁.fs client.addr client.port (replyTo ub data xtra).encode
        then emit (.sent client (replyTo ub data xtra).encode) else throw (.exit 9) :
          Srv Fs Cwd Unit)) s₁ = .error (.exit 99) s' := h
    split_ifs at hsend
    · cases hsend
    · cases hsend
  · rw [hs₁] at h
    cases h

/-- The dispatcher leaves the trace as it is or adds to it. -/
theorem trace_serve_ne_nil {r : Request} {hp : ℕ} (hs : s.trace ≠ []) :
    (final (serve cfg r hp s)).trace ≠ [] := by
  have hacts : ∀ {m : Srv Fs Cwd Unit} {s : Server Fs Cwd}, Does (Acts fun _ => True) m →
      s.trace ≠ [] → (final (m s)).trace ≠ [] := by
    intro m s hm hs
    obtain ⟨⟨new, hnew, -⟩, -⟩ := hm s
    have htrace : (final (m s)).trace = s.trace ++ new := hnew
    rw [htrace]
    exact List.append_ne_nil_of_left_ne_nil hs new
  have hprims := @primitives_acts Fs Cwd _ fun _ => True
  by_cases hbye : Command.ofByte r.ub.cmd = .bye
  · unfold serve
    rw [hbye]
    exact hacts (s := { s with htab := s.htab.set hp { hostAt s.htab hp with active := false } })
      (does_serverReply hprims.toSteps trivial) hs
  · exact hacts (holds_serve (operations_of_primitives hprims (fun _ _ => trivial)
      returns_loadAccessRights (does_serverMakeDir_of_good hprims (fun _ _ => trivial)
        fun _ => trivial)) (replies_of_primitives hprims (fun _ => trivial) r)
      (fun _ => streams_of_primitives hprims fun _ _ => trivial) fun h => absurd h hbye) hs

/-- A datagram of a host that is classified does not end the server with this code before anything
is done for it. -/
theorem serverRound_of_classified (hs : HostTable s.htab) (hclass : Classified cfg a.client.addr) :
    serverRound cfg a s ≠ .error (.exit 99) (s.meets a) := by
  have haccept : ∀ {ub : Ubuf}, Reads a ub → Admits cfg a.client.addr ub →
      serverAccept cfg a ub a.bytes.length (s.meets a) ≠ .error (.exit 99) (s.meets a) := by
    intro ub hreads hadmits
    by_cases hnamed : (clientRecord cfg a s).hostname = none ∧ cfg.noUnnamed = true
    · rw [serverAccept_of_unnamed hnamed]
      exact serverReply_ne_exit _ _
    · rw [serverAccept_of_knocks hs ⟨hreads, hadmits, hnamed⟩]
      rcases checkKey cfg (clientRecord cfg a s) ub.bbKey a.now with _ | ⟨old, h⟩
      · exact fun h => by cases h
      · simp only
        split_ifs
        · intro hserve
          have htrace : (final (serve cfg (requestOf a ub old h) (findClient cfg a s).1
              (dispatchState cfg a s old h))).trace ≠ [] :=
            trace_serve_ne_nil (List.cons_ne_nil (Event.dispatched old) [])
          rw [hserve] at htrace
          exact htrace rfl
        · exact fun h => by cases h
  show serverReceive cfg a (s.meets a) ≠ _
  by_cases hreads : ∃ ub, Reads a ub
  · obtain ⟨ub, hreads⟩ := hreads
    rw [serverReceive_of_reads hreads]
    split
    · rename_i msg hhost
      split_ifs with hbye
      · exact haccept hreads (Or.inr ⟨by rw [hhost]; rfl, hbye⟩)
      · exact serverReply_ne_exit _ _
    · exact fun h => by cases h
    · rename_i hhost
      exact haccept hreads (Or.inl (by rw [hhost]; rfl))
    · rename_i hD hI hN
      obtain ⟨c, hc, hhead⟩ := hclass
      obtain ⟨msg, hmsg⟩ : ∃ msg, hostType cfg a.client.addr = c :: msg :=
        List.head?_eq_some_iff.mp hhead
      rcases List.mem_cons.mp hc with rfl | hc
      · exact absurd hmsg (hD msg)
      · rcases List.mem_cons.mp hc with rfl | hc
        · exact absurd hmsg (hI msg)
        · obtain rfl := List.mem_singleton.mp hc
          exact absurd hmsg (hN msg)
  · rw [serverReceive_of_not_reads fun ub h => hreads ⟨ub, h⟩]
    exact fun h => by cases h

/-- A header without data. -/
def emptyDatagram : ByteString := List.replicate ubufHsize 0

/-- The round of a host that sends a header without data. -/
def emptyArrival (addr : UInt32) (now : ℤ) : Arrival Fs where
  client := ⟨addr, 0⟩
  datagram := emptyDatagram
  now := now
  genNextKey := 0
  findHostname := none
  world := id
  behind := []
  junk := 0

theorem reads_emptyArrival (addr : UInt32) (now : ℤ) :
    ∃ ub, Reads (emptyArrival addr now : Arrival Fs) ub := by
  obtain ⟨ub, hub, hlen⟩ : ∃ ub, Ubuf.decode emptyDatagram = some ub ∧ ub.bbLen = 0 :=
    ⟨_, rfl, rfl⟩
  exact ⟨ub, hub, hlen ▸ le_refl ubufHsize⟩

/-- A header from a host that is not classified ends a run with its first round. -/
theorem exists_round_of_not_classified {addr : UInt32} (hclass : ¬ Classified cfg addr) (now : ℤ)
    (s : Server Fs Cwd) :
    ∃ r ∈ history cfg s [emptyArrival addr now],
      serverRound cfg r.input r.before = .error (.exit 99) (r.before.meets r.input) := by
  obtain ⟨ub, hreads⟩ : ∃ ub, Reads (emptyArrival addr now : Arrival Fs) ub :=
    reads_emptyArrival addr now
  have hexit : serverRound cfg (emptyArrival addr now) s =
      .error (.exit 99) (s.meets (emptyArrival addr now)) :=
    serverRound_of_not_classified hreads hclass
  refine ⟨⟨emptyArrival addr now, s, s.meets (emptyArrival addr now)⟩, ?_, hexit⟩
  simp only [history, rounds, hexit]
  exact List.mem_singleton_self _

/-- For a table of all accepted lines, every address has a type that `server_loop` knows, and no run
gets to `exit (99)`, which comes before anything is done for a datagram, if and only if each line
with another letter is out of reach. -/
theorem hosts_classified_iff (cfg : Config) (calls : List IplineCall)
    (hconf : cfg.iptab = accepted calls) (fs : Fs) (cwd : Cwd) (now : ℤ) :
    ((∀ addr, Classified cfg addr) ↔ OthersUnreached calls) ∧
      ((∀ arrivals : List (Arrival Fs), ∀ r ∈ history cfg (initServer cfg fs cwd now) arrivals,
          serverRound cfg r.input r.before ≠ .error (.exit 99) (r.before.meets r.input)) ↔
        OthersUnreached calls) := by
  have hiff := classified_iff hconf
  refine ⟨hiff, ?_⟩
  constructor
  · intro hruns
    refine hiff.mp fun addr => ?_
    by_contra hclass
    obtain ⟨r, hr, hexit⟩ :=
      exists_round_of_not_classified hclass now (initServer cfg fs cwd now)
    exact hruns _ r hr hexit
  · intro hothers arrivals r hr
    obtain ⟨before, after, hsplit⟩ := List.append_of_mem hr
    exact serverRound_of_classified (hostTable_history cfg fs cwd now hsplit)
      (hiff.mpr hothers _)

/-- The host table of one line for a normal host. -/
theorem hosts_classified_iff_normal :
    let cfg : Config := { Scenario.config with iptab := accepted [⟨fun _ => none, text "* N"⟩] }
    ((∀ addr, Classified cfg addr) ↔ OthersUnreached [⟨fun _ => none, text "* N"⟩]) ∧
      ((∀ arrivals : List (Arrival Disk), ∀ r ∈ history cfg
          (initServer cfg (Scenario.disk []) [text "h"] 0 : Server Disk Path) arrivals,
          serverRound cfg r.input r.before ≠ .error (.exit 99) (r.before.meets r.input)) ↔
        OthersUnreached [⟨fun _ => none, text "* N"⟩]) :=
  hosts_classified_iff { Scenario.config with iptab := accepted [⟨fun _ => none, text "* N"⟩] }
    [⟨fun _ => none, text "* N"⟩] rfl (Scenario.disk []) [text "h"] 0

/-- A line for this machine, with a letter that is not known. -/
def otherCall : IplineCall := ⟨fun _ => none, text "127.0.0.1 X"⟩

/-- The line is accepted, and with the first datagram that the machine sends the server exits. -/
theorem other_type_exits :
    ∃ table, addCalls [otherCall] [] = some table ∧ table.length = 1 ∧
      ¬ Classified { Scenario.config with iptab := table } Scenario.client.addr ∧
      ∃ arrivals, ∃ r ∈ history { Scenario.config with iptab := table }
        (initServer { Scenario.config with iptab := table } (Scenario.disk []) [text "h"] 0 :
          Server Disk Path) arrivals,
        serverRound { Scenario.config with iptab := table } r.input r.before =
          .error (.exit 99) (r.before.meets r.input) := by
  have hlen : (accepted [otherCall]).length = 1 := by decide +kernel
  have htype : (hostType { Scenario.config with iptab := accepted [otherCall] }
      Scenario.client.addr).head? = some 0x58 := by decide +kernel
  have hclass : ¬ Classified { Scenario.config with iptab := accepted [otherCall] }
      Scenario.client.addr := by
    intro ⟨c, hc, hhead⟩
    rw [htype] at hhead
    exact absurd (Option.some.inj hhead ▸ hc) (by decide)
  exact ⟨accepted [otherCall], addCalls_of_length_le hlen.le, hlen, hclass,
    [emptyArrival Scenario.client.addr 0], exists_round_of_not_classified hclass 0 _⟩

end Fsp
