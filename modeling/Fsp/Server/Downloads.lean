import Fsp.OpenDisk
import Fsp.Server.Handles
import Fsp.Server.PathParts
import Fsp.Server.Phases
import Fsp.Server.Throughput

/-!
# Downloads after changes

`server_get_file` keeps the streams it opens in the cache, under the name of the file and for one
client, and looks there before it looks for the file.  `server_del_file`, `server_install`,
`server_secure_file` and `server_rename` take no notice of that cache, so that a client may go on
reading a file that is no longer there.  A download sees all changes when the stream it is read from was
opened after the last of them; `seesChanges_history` is about the runs in which no file is changed while
a stream is cached under its name.
-/

namespace Fsp

open Bytes Effect

variable {Fs Cwd : Type}

/-! ## Changes -/

/-- The name under which `server_get_file` looks for a file. -/
def realfn (realname : ByteString) (pp : PPath) : ByteString := realname ++ [slash] ++ pp.fPtr

/-- The file `path` is removed, replaced or renamed. -/
def Alters (path : ByteString) : Event → Prop
  | .unlink p ok => p = path ∧ ok = true
  | .fopen p .w (some _) => p = path
  | .rename src dst _ ok => (src = path ∨ dst = path) ∧ ok = true
  | _ => False

/-- A request has removed, replaced or renamed the file with the name `key`. -/
def Changes (key : ByteString) (trace : List Event) : Prop :=
  ∃ pp di realname, .validated pp di realname ∈ trace ∧ realfn realname pp = key ∧
    ∃ e ∈ trace, Alters pp.fullp e

/-- The stream `fp` was opened for reading the file with the name `key`, at a place of the log with
`late`, and neither closed nor opened again since. -/
def Opening (late : ByteString → ℕ → Prop) (key : ByteString) (fp : Handle) (log : List Event) :
    Prop :=
  ∃ earlier path later, log = earlier ++ .fopen path .r (some fp) :: later ∧
    streamLedger.Untouched later fp ∧
    (∃ pp di realname, .validated pp di realname ∈ earlier ∧ pp.fullp = path ∧
      realfn realname pp = key) ∧ late key earlier.length

variable {late : ByteString → ℕ → Prop} {key : ByteString} {fp : Handle} {log : List Event}

theorem Opening.append (h : Opening late key fp log) {new : List Event}
    (hnew : streamLedger.Untouched new fp) : Opening late key fp (log ++ new) := by
  obtain ⟨earlier, path, later, rfl, hlater, hname, hlate⟩ := h
  exact ⟨earlier, path, later ++ new, by rw [List.append_assoc, List.cons_append],
    hlater.append hnew, hname, hlate⟩

theorem Opening.concat (h : Opening late key fp log) {e : Event}
    (hopened : streamLedger.opened e ≠ some fp) (hclosed : streamLedger.closed e ≠ some fp) :
    Opening late key fp (log ++ [e]) :=
  h.append (Ledger.untouched_singleton hopened hclosed)

/-- A temporary file of a client. -/
def IsTemp (cfg : Config) (key : ByteString) : Prop :=
  ∃ inetNum portNum, key = uploadName cfg inetNum portNum ∨ key = grabName cfg inetNum portNum

/-- A slot of the cache holds the stream `fp` under the name `key`. -/
def HoldsFp (c : FifoCache ByteString FpCache) (key : ByteString) (fp : Handle) : Prop :=
  ∃ i, c.fCacheGetKey i = some key ∧ (c.entry i).fp = some fp

variable {cfg : Config} {past : List Event} {locals locals' : List Handle} {s s' : Server Fs Cwd}

theorem HoldsFp.mem {c : FifoCache ByteString FpCache} (h : HoldsFp c key fp) : fp ∈ cachedFps c := by
  obtain ⟨i, -, hfp⟩ := h
  exact mem_cachedFps hfp

/-- A stream that is held only once is closed, and the cache does not hold it afterwards. -/
theorem Watched.close {c : FifoCache ByteString FpCache} {own : List Handle} {log : List Event}
    (howns : streamLedger.Account log own)
    (hcount : ∀ k, (fp :: cachedFps c).count k ≤ own.count k)
    (h : streamLedger.Fresh log → ∀ key fp', HoldsFp c key fp' → ¬ IsTemp cfg key →
      Opening late key fp' log)
    (hfresh : streamLedger.Fresh (log ++ [.fclose fp])) (key : ByteString) (fp' : Handle)
    (hholds : HoldsFp c key fp') (htemp : ¬ IsTemp cfg key) :
    Opening late key fp' (log ++ [.fclose fp]) := by
  have hopening := h hfresh.of_append key fp' hholds htemp
  have honce := howns.count_le_one hfresh.of_append fp'
  have hheld : 0 < (cachedFps c).count fp' := List.count_pos_iff.mpr hholds.mem
  have hclosed : fp ≠ fp' := by
    intro heq
    have htwice := hcount fp'
    rw [heq, List.count_cons_self] at htwice
    omega
  apply hopening.concat
  · nofun
  · simpa [streamLedger] using hclosed

/-! ### Steps -/

section

variable [Posix Fs Cwd]

variable {E : Server Fs Cwd → Prop}

end

/-! ## Names -/

/-- An entry from before the access check of a request. -/
def Calm : Event → Prop
  | .access _ _ _ _ _ => False
  | .fread _ _ => False
  | .sent _ _ => False
  | _ => True

/-- An entry from before the bytes are read. -/
def Unread : Event → Prop
  | .fread _ _ => False
  | .sent _ _ => False
  | _ => True

theorem Calm.unread {e : Event} (h : Calm e) : Unread e := by
  cases e <;> trivial

/-- There is no file with the real name, or it is no regular file, or it cannot be opened. -/
def Missing (pp : PPath) (realname : ByteString) (trace : List Event) : Prop :=
  (∃ sb, .stat (realfn realname pp) sb ∈ trace ∧ ∀ st ∈ sb, st.kind ≠ .reg) ∨
    .fopen pp.fullp .r none ∈ trace

/-- The datagram of an error reply to a request. -/
def errorDatagram (r : Request) (msg : ByteString) : ByteString :=
  (replyTo { r.ub with cmd := ccErr, bbPos := 0 } (msg ++ [0]) []).encode

/-- No bytes were read for the request, and nothing was sent but error replies to its client. -/
structure Unserved (r : Request) (trace : List Event) : Prop where
  unread : ∀ fp data, .fread fp data ∉ trace
  sent : ∀ client datagram, .sent client datagram ∈ trace →
    client = r.client ∧ ∃ msg, datagram = errorDatagram r msg

/-- How a `CC_GET_FILE` can go.  The client may not read in the directory, and is sent nothing or an
error.  Or there is no file, and it is sent an error.  Or bytes are read from a stream that was opened
late enough, at the position and as many as the request asks for, and these bytes are what it is sent.
Only if the server stops (`stops`), it may be sent nothing at all. -/
inductive Download (Fs : Type) {Cwd : Type} [Posix Fs Cwd] (cfg : Config) (r : Request) (stops : Prop)
    (late : ByteString → ℕ → Prop) (past trace : List Event) : Prop
  | refused : Unserved r trace →
      (∀ di rights inetNum passwd pe, .access di rights inetNum passwd pe ∈ trace →
        pe.head? = some 0x49 ∨ pe.head? = some 0x44) → Download Fs cfg r stops late past trace
  | missing (pp : PPath) (di : ℕ) (realname : ByteString) : Unserved r trace →
      .validated pp di realname ∈ trace → Missing pp realname trace →
      ((∃ msg, .sent r.client (errorDatagram r msg) ∈ trace) ∨ stops) →
      Download Fs cfg r stops late past trace
  | served (pp : PPath) (di : ℕ) (realname : ByteString) (l : List Event) (fp : Handle) (fs : Fs)
      (data : ByteString) (l' : List Event) :
      trace = l ++ .fseeko fp r.pos (Posix.fseeko fs fp r.pos).1 :: .fread fp data :: l' →
      data = (Posix.fread (Posix.fseeko fs fp r.pos).2 fp
        (if (Posix.fseeko fs fp r.pos).1 then requestedLen cfg r.s2 else 0)).1 →
      (∀ e ∈ l, Unread e) → .validated pp di realname ∈ l →
      Opening late (realfn realname pp) fp (past ++ l) →
      (l' = [.sent r.client (replyTo r.ub data []).encode] ∨ l' = [] ∧ stops) →
      Download Fs cfg r stops late past trace
  | stopped : stops → (∀ fp data, .fread fp data ∉ trace) →
      (∀ client datagram, .sent client datagram ∉ trace) → Download Fs cfg r stops late past trace

/-- It matters only whether the server stops. -/
theorem Download.imp [Posix Fs Cwd] {cfg : Config} {r : Request} {stops stops' : Prop}
    {past trace : List Event} (h : Download Fs cfg r stops late past trace) (hstops : stops → stops') :
    Download Fs cfg r stops' late past trace := by
  cases h with
  | refused hunserved haccess => exact .refused hunserved haccess
  | missing pp di realname hunserved hvalidated hmissing hsent =>
      exact .missing pp di realname hunserved hvalidated hmissing (hsent.imp_right hstops)
  | served pp di realname l fp fs data l' htrace hdata hunread hvalidated hopening hsent =>
      exact .served pp di realname l fp fs data l' htrace hdata hunread hvalidated hopening
        (hsent.imp_right (And.imp_right hstops))
  | stopped hs hread hsent => exact .stopped (hstops hs) hread hsent

section

variable [Posix Fs Cwd]

/-- A place of the log behind all changes of a file. -/
def AfterChanges (rounds : List (Effect.Round (Arrival Fs) (Server Fs Cwd))) (key : ByteString) (n : ℕ) :
    Prop :=
  ∀ before r after, rounds = before ++ r :: after → Changes key r.after.trace →
    (logOf (before ++ [r])).length ≤ n

/-- The streams in the cache between two rounds. -/
def Between (cfg : Config) (log : List Event) (late : ByteString → ℕ → Prop) (s : Server Fs Cwd) : Prop :=
  streamLedger.Account log (cachedFps s.fpCache) ∧ (streamLedger.Fresh log → ∀ key fp,
    HoldsFp s.fpCache key fp → ¬ IsTemp cfg key → Opening late key fp log)

theorem Opening.mono {late' : ByteString → ℕ → Prop} (h : Opening late key fp log)
    (hlate : ∀ n, late key n → late' key n) : Opening late' key fp log := by
  obtain ⟨earlier, path, later, hlog, hlater, hname, hn⟩ := h
  exact ⟨earlier, path, later, hlog, hlater, hname, hlate _ hn⟩

omit [Posix Fs Cwd] in
theorem Between.mono {late' : ByteString → ℕ → Prop} (h : Between cfg log late s)
    (hlate : ∀ key n, (∃ fp, HoldsFp s.fpCache key fp) → late key n → late' key n) :
    Between cfg log late' s :=
  ⟨h.1, fun hfresh key fp hholds htemp =>
    (h.2 hfresh key fp hholds htemp).mono fun n => hlate key n ⟨fp, hholds⟩⟩

omit [Posix Fs Cwd] in
/-- A round that does not change the file. -/
theorem AfterChanges.concat {rounds : List (Effect.Round (Arrival Fs) (Server Fs Cwd))}
    {r : Effect.Round (Arrival Fs) (Server Fs Cwd)} {n : ℕ} (h : AfterChanges rounds key n)
    (hr : ¬ Changes key r.after.trace) : AfterChanges (rounds ++ [r]) key n := by
  intro before r' after hrounds hchanges
  rcases List.eq_nil_or_concat after with rfl | ⟨after', last, rfl⟩
  · obtain ⟨-, hlast⟩ := List.append_inj' hrounds rfl
    cases hlast
    exact absurd hchanges hr
  · rw [List.concat_eq_append, ← List.cons_append, ← List.append_assoc] at hrounds
    obtain ⟨hfirst, -⟩ := List.append_inj' hrounds rfl
    exact h before r' after' hfirst hchanges

end

/-! ### Two runs -/

/-- What is read in a round. -/
def readBytes : Event → Option ByteString
  | .fread _ data => some data
  | _ => none

end Fsp
