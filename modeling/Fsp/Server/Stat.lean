import Fsp.LinkedDisk
import Fsp.Server.Throughput

/-!
# What the reply to `CC_STAT` tells

`server_stat` sets the type in its reply to zero for all that a client may not know about, but it
fills in the time and the size in any case.  They come from the `stat` that is made before the
directory is validated; when that fails, the time is zero and the size is what `sb` held before.
-/

namespace Fsp

open Bytes Effect

variable {Fs Cwd : Type} [Posix Fs Cwd] {cfg : Config} {s : Server Fs Cwd}

/-- What `stat` says about the object that a path names, if the path can be parsed. -/
def statFound (path : ByteString) (s : Server Fs Cwd) : Option Stat :=
  match parsePath (if path.length < 2 then [0] else path) with
  | .error _ => none
  | .ok pp => Posix.stat s.fs s.cwd pp.fullp

/-- The time and the size of an object as they are written to a reply. -/
def timeAndSize (junk : UInt32) : Option Stat → UInt32 × UInt32
  | none => (0, junk)
  | some sb => (UInt32.ofNat (sb.mtime % 4294967296).toNat, UInt32.ofNat sb.size)

/-- The bytes of two words determine the words. -/
theorem be32_append_inj {a b c d : UInt32} (h : be32 a ++ be32 b = be32 c ++ be32 d) :
    (a, b) = (c, d) := by
  obtain ⟨hfirst, hsecond⟩ := List.append_inj h rfl
  have hinj : ∀ {v w : UInt32}, be32 v = be32 w → v = w := by
    intro v w hvw
    simp only [be32, List.cons.injEq, and_true] at hvw
    rw [← ofBe32_be32 v, ← ofBe32_be32 w, hvw.1, hvw.2.1, hvw.2.2.1, hvw.2.2.2]
  rw [hinj hfirst, hinj hsecond]

/-- The time and the size in the reply do not depend on whether the client may know about the
object. -/
theorem serverStat_spec (path : ByteString) (junk : UInt32) (s : Server Fs Cwd) :
    wp (serverStat cfg path junk)
      (fun data _ => ∃ type, data =
        be32 (timeAndSize junk (statFound path s)).1 ++ be32 (timeAndSize junk (statFound path s)).2 ++
          [type])
      (fun _ => True) s := by
  unfold serverStat statFound
  cases hparse : parsePath (if path.length < 2 then [0] else path) with
  | error err =>
      simp only [hparse]
      exact ⟨0, rfl⟩
  | ok pp =>
      simp only [hparse]
      have hstat : wp (stat pp.fullp) (fun sb _ => sb = Posix.stat s.fs s.cwd pp.fullp)
          (fun _ => True) s := rfl
      apply wp_seq hstat
      rintro sb s₁ rfl
      cases Posix.stat s.fs s.cwd pp.fullp with
      | none => exact ⟨0, rfl⟩
      | some sb =>
          apply wp_seq ((returns_true (statAllowed cfg _ sb.kind)).run s₁)
          intro allowed s₂ _
          exact ⟨_, rfl⟩

/-- `u` is the reply to a request for information that the server answers in the state `s`, and its
type says that there is nothing. -/
def RepliesNothing (cfg : Config) (r : Request) (hp : ℕ) (s : Server Fs Cwd) (u : Ubuf) : Prop :=
  ∃ s' before, serve cfg r hp s = .ok () s' ∧
    s'.trace = before ++ [.sent r.client u.encode] ∧ u.data.getD 8 0 = 0

/-- The time and the size in such a reply are those of the object. -/
theorem take_data_of_repliesNothing {r : Request} {hp : ℕ} {u : Ubuf}
    (hcmd : Command.ofByte r.ub.cmd = .stat) (hreply : RepliesNothing cfg r hp s u) :
    u.data.take 8 = be32 (timeAndSize r.junk (statFound r.s1 s)).1 ++
      be32 (timeAndSize r.junk (statFound r.s1 s)).2 := by
  obtain ⟨s', before, hserve, htrace, -⟩ := hreply
  have hsends : wp (serve cfg r hp)
      (fun _ s' => ∃ before type, s'.trace = before ++ [.sent r.client (replyTo r.ub
        (be32 (timeAndSize r.junk (statFound r.s1 s)).1 ++
          be32 (timeAndSize r.junk (statFound r.s1 s)).2 ++ [type]) []).encode])
      (fun _ => True) s := by
    unfold serve
    rw [hcmd]
    apply wp_seq (serverStat_spec r.s1 r.junk s)
    rintro data s₁ ⟨type, rfl⟩
    apply wp_mono (sends_serverReply r.client r.ub _ _ s₁)
    · intro _ s₂ hs₂
      exact ⟨_, type, hs₂⟩
    · exact fun _ h => h
  obtain ⟨before', type, htrace'⟩ := wp_of_ok hsends hserve
  rw [htrace] at htrace'
  obtain ⟨-, hlast⟩ := List.append_inj' htrace' rfl
  have hencode : u.encode = (replyTo r.ub (be32 (timeAndSize r.junk (statFound r.s1 s)).1 ++
      be32 (timeAndSize r.junk (statFound r.s1 s)).2 ++ [type]) []).encode := by
    injection hlast with hevent
    injection hevent
  have hu := congrArg Ubuf.decode hencode
  rw [Ubuf.decode_encode, Ubuf.decode_encode] at hu
  obtain rfl := Option.some.inj hu
  rfl

/-- Two requests of the same client with the same content, to two servers. -/
structure SameRequest (r r' : Request) : Prop where
  client : r'.client = r.client
  cmd : r'.ub.cmd = r.ub.cmd
  pos : r'.pos = r.pos
  s1 : r'.s1 = r.s1
  s2 : r'.s2 = r.s2

/-- Two servers that tell the client that there is nothing tell it the same exactly if the objects
they do not want it to know about have the same time and size; of an object that does not exist, the
size is what is found on the stack. -/
theorem repliesNothing_eq_iff {r r' : Request} {hp hp' : ℕ} {s s' : Server Fs Cwd} {u u' : Ubuf}
    (hcmd : Command.ofByte r.ub.cmd = .stat) (hsame : SameRequest r r')
    (hreply : RepliesNothing cfg r hp s u) (hreply' : RepliesNothing cfg r' hp' s' u') :
    u'.data.take 8 = u.data.take 8 ↔
      timeAndSize r'.junk (statFound r.s1 s') = timeAndSize r.junk (statFound r.s1 s) := by
  have hcmd' : Command.ofByte r'.ub.cmd = .stat := by rw [hsame.cmd, hcmd]
  rw [take_data_of_repliesNothing hcmd hreply, take_data_of_repliesNothing hcmd' hreply', hsame.s1]
  constructor
  · exact be32_append_inj
  · intro heq
    rw [heq]

/-! ### Two servers without the file -/

/-- A request for information about a file; `junk` is what is on the stack. -/
def statRequest (junk : UInt32) : Request where
  client := Scenario.client
  ub := ⟨Command.stat.code, 0, 7, 0, 8, 2, 0, Scenario.path "f"⟩
  old := false
  inetNum := 0
  behind := []
  junk := junk

/-- The reply of a server without the file. -/
def statReply (junk : UInt32) : Ubuf :=
  replyTo (statRequest junk).ub (statBytes 0 junk 0) []

theorem repliesNothing_statReply (junk : UInt32) :
    RepliesNothing Scenario.config (statRequest junk) 0 (Scenario.start Scenario.config [])
      (statReply junk) :=
  ⟨_, [.stat (text "f") none], rfl, rfl, rfl⟩

/-- Two replies that say that there is nothing show what was on the stack. -/
theorem statReply_shows_junk :
    SameRequest (statRequest 0) (statRequest 7) ∧
      RepliesNothing Scenario.config (statRequest 0) 0 (Scenario.start Scenario.config [])
        (statReply 0) ∧
      RepliesNothing Scenario.config (statRequest 7) 0 (Scenario.start Scenario.config [])
        (statReply 7) ∧
      (statReply 0).data.take 8 ≠ (statReply 7).data.take 8 :=
  ⟨⟨rfl, rfl, rfl, rfl, rfl⟩, repliesNothing_statReply 0, repliesNothing_statReply 7, by decide⟩

/-! ### A file outside the tree of the server -/

/-- A server with its files below `/h`, with a link `l` from there to another directory, in which there
is a file `f`, or none. -/
def linkedStart (content : Option ByteString) : Server LinkedDisk Path :=
  initServer Scenario.config
    { disk := Scenario.disk (("x", .dir) :: (content.map fun content => ("x/f", .file content)).toList)
      links := [([text "h", text "l"], [text "x"])] } [text "h"] 0

/-- A request for information about the file, with `5` on the stack. -/
def linkedRequest : Request where
  client := Scenario.client
  ub := ⟨Command.stat.code, 0, 7, 0, 8, 4, 0, Scenario.path "l/f"⟩
  old := false
  inetNum := 0
  behind := []
  junk := 5

/-- A reply that says that there is nothing. -/
def linkedReply (size : UInt32) : Ubuf := replyTo linkedRequest.ub (statBytes 0 size 0) []

/-- Without the file the reply has what was on the stack. -/
theorem repliesNothing_linkedStart_none :
    RepliesNothing Scenario.config linkedRequest 0 (linkedStart none) (linkedReply 5) :=
  ⟨_, [.stat (text "l/f") none], rfl, rfl, rfl⟩

/-- With the file, the directory is refused when the server has gone there, and the file is said not
to be there. -/
theorem repliesNothing_linkedStart_some :
    RepliesNothing Scenario.config linkedRequest 0 (linkedStart (some [1, 2, 3])) (linkedReply 3) :=
  ⟨_, [.stat (text "l/f") (some ⟨.reg, 3, 0⟩), .lookup (text "l"), .stat (text "l") (some ⟨.dir, 0, 0⟩),
    .chdir (text "l") true, .chdir (text "/h") true], rfl, rfl, rfl⟩

/-- The client may not know about the file, but the size tells that it is there. -/
theorem repliesNothing_eq_iff_outside :
    statFound (Scenario.path "l/f") (linkedStart (some [1, 2, 3])) = some ⟨.reg, 3, 0⟩ ∧
      statFound (Scenario.path "l/f") (linkedStart none) = none ∧
      (linkedReply 3).data.take 8 ≠ (linkedReply 5).data.take 8 := by
  refine ⟨rfl, rfl, ?_⟩
  intro heq
  have hsame : timeAndSize 5 (some ⟨.reg, 3, 0⟩) = timeAndSize 5 none :=
    (repliesNothing_eq_iff rfl ⟨rfl, rfl, rfl, rfl, rfl⟩ repliesNothing_linkedStart_none
      repliesNothing_linkedStart_some).1 heq
  exact absurd hsame (by decide)

end Fsp
