import Fsp.Client.Transfer

/-!
# The paths in requests

A request that names a file or a directory carries the path that `util_abs_path` makes of it, then
the password, if there is one, and a zero.  `Carries` says so of one call of `client_interact`, and
`CarriesPaths` of all calls for which the transfers build a path.
-/

namespace Fsp

open Bytes Effect

/-- The data of the call is the string `path` from its second byte on, the password suffix and a
zero. -/
structure Carries (env : ClientEnv) (path : ByteString) (c : Call) : Prop where
  data : c.p1 = path.tail ++ env.passwordSuffix ++ [0]
  declared : c.l1 = c.p1.length

/-- `q` is the directory that the object `path` is in. -/
def IsParent (q path : ByteString) : Prop :=
  ∃ name, slash ∉ name ∧ (path = q ++ slash :: name ∨ q = [slash] ∧ path = slash :: name)

/-- The calls of a transfer carry paths as `ok` says. -/
def CallsCarry {α : Type} (ok : Call → Prop) (m : Client α) : Prop :=
  ∀ s : ClientState, s.trace = [] → ∀ c, .call c ∈ (final (m s)).trace → ok c

/-- The requests of `util_download`, `util_grab_file` and `util_upload` for an object carry its path,
or that of the directory it is in. -/
structure CarriesPaths (env : ClientEnv) (path : ByteString) (junk : UInt32)
    (behind : ByteString) : Prop where
  download : ∀ net largeOffT fwrite startFrom,
    CallsCarry (fun c => c.cmd = Command.getFile.code → Carries env (canonicalPath env path) c)
      (utilDownload net env largeOffT fwrite path startFrom)
  grabFile : ∀ net largeOffT fwrite startFrom,
    CallsCarry (fun c => c.cmd = Command.grabFile.code ∨ c.cmd = Command.grabDone.code →
      Carries env (canonicalPath env path) c)
      (utilGrabFile net env largeOffT fwrite path startFrom junk behind)
  getPro : ∀ net largeOffT stamp fp,
    CallsCarry (fun c => c.cmd = Command.getPro.code →
      ∃ q, IsParent q (canonicalPath env path) ∧ Carries env q c)
      (utilUpload net env largeOffT path stamp fp)
  install : ∀ net largeOffT stamp fp,
    CallsCarry (fun c => c.cmd = Command.install.code → Carries env (canonicalPath env path) c)
      (utilUpload net env largeOffT path stamp fp)

/-! ## The calls -/

section

variable {env : ClientEnv} {path : ByteString}

/-- Only calls with `P` are made. -/
def Calling (P : Call → Prop) : NetEvent → Prop
  | .call c => P c
  | .reply c _ => P c

variable {P : Call → Prop}

theorem emits_record {e : NetEvent} (h : Calling P e) : Emits (Calling P) (record e) :=
  fun _ => appends_one rfl h

theorem emits_clientInteract (net : Net) {c : Call} (h : P c) :
    Emits (Calling P) (clientInteract net c) := by
  have hcall : Calling P (.call c) := h
  have hreply : ∀ ub, Calling P (.reply c ub) := fun _ => h
  refine does_bind does_get fun s => ?_
  apply does_bind (emits_record hcall)
  intro _
  apply does_ite
  · exact fun _ => does_throw _
  · intro _
    apply does_ite
    · exact fun _ => does_bind (emits_record (hreply _)) fun _ => does_pure _
    · exact fun _ => does_throw _

theorem callsCarry_of_emits {α : Type} {m : Client α} (h : Emits (Calling P) m) :
    CallsCarry P m := by
  intro s hs c hc
  obtain ⟨new, hnew, hP⟩ := h s
  have htrace : (final (m s)).trace = s.trace ++ new := hnew
  rw [htrace, hs, List.nil_append] at hc
  exact hP _ hc

theorem emits_fillBlocks (net : Net) {call : ℕ → Call} (h : ∀ pos, P (call pos)) (fuel : ℕ)
    (v : DirFetch) : Emits (Calling P) (fillBlocks net call fuel v) := by
  induction fuel generalizing v with
  | zero =>
      unfold fillBlocks
      exact does_ite (fun _ => does_throw _) fun _ => does_pure _
  | succ fuel ih =>
      unfold fillBlocks
      apply does_ite
      · intro _
        apply does_bind (emits_clientInteract net (h _))
        intro ub
        exact does_ite (fun _ => does_pure _) fun _ => ih _
      · exact fun _ => does_pure _

theorem emits_readBlocks (net : Net) {call : ℕ → Call} (h : ∀ pos, P (call pos)) (fuel : ℕ)
    (v : DirFetch) : Emits (Calling P) (readBlocks net call fuel v) := by
  induction fuel generalizing v with
  | zero => exact does_throw _
  | succ fuel ih =>
      apply does_bind (emits_fillBlocks net h _ _)
      intro v
      cases v with
      | none => exact does_pure _
      | some v => exact does_ite (fun _ => does_pure _) fun _ => ih _

theorem emits_utilOpendir (net : Net) (path : ByteString)
    (h : ∀ c : Call, c.cmd = Command.getDir.code → P c) :
    Emits (Calling P) (utilOpendir net env path) := by
  refine does_bind does_get fun s => ?_
  split
  · exact does_pure _
  · apply does_bind (emits_readBlocks net (fun _ => h _ rfl) _ _)
    intro dep
    cases dep with
    | none => exact does_pure _
    | some dep => exact does_bind (fun _ => appends_of_log_eq rfl) fun _ => does_pure _

/-- `util_stat` only asks about the object and for the listing of its directory. -/
theorem emits_utilStat (net : Net) (path : ByteString)
    (hdir : ∀ c : Call, c.cmd = Command.getDir.code → P c)
    (hstat : ∀ c : Call, c.cmd = Command.stat.code → P c) :
    Emits (Calling P) (utilStat net env path) := by
  have hlisted : ∀ ppath pfile, Emits (Calling P) (statListed net env ppath pfile) := by
    intro ppath pfile
    apply does_bind (emits_utilOpendir net ppath hdir)
    intro dep
    cases dep <;> exact does_pure _
  refine does_bind does_get fun s => ?_
  apply does_ite
  · intro _
    apply does_bind (emits_clientInteract net (hstat _ rfl))
    intro ub
    apply does_ite
    · exact fun _ => does_ite (fun _ => does_pure _) fun _ => does_pure _
    · exact fun _ => does_bind (fun _ => appends_of_log_eq rfl) fun _ => hlisted _ _
  · exact fun _ => hlisted _ _

theorem emits_downloadLoop (net : Net) (largeOffT : Bool) (fwrite : ByteString → ByteString → ℕ)
    (cmd : Command) (fpath : ByteString) (h : ∀ pos, P (pathCall cmd pos fpath env.netLen))
    (fuel pos : ℕ) (fp : ByteString) :
    Emits (Calling P) (downloadLoop net env largeOffT fwrite cmd fpath fuel pos fp) := by
  induction fuel generalizing pos fp with
  | zero => exact does_throw _
  | succ fuel ih =>
      apply does_bind (emits_clientInteract net (h pos))
      intro ub
      apply does_ite
      · exact fun _ => does_pure _
      intro _
      apply does_ite
      · exact fun _ => does_pure _
      intro _
      apply does_ite
      · exact fun _ => does_pure _
      intro _
      exact does_ite (fun _ => does_pure _) fun _ => ih _ _

theorem emits_uploadLoop (net : Net) (largeOffT : Bool) (stamp : ℤ)
    (hupLoad : ∀ c : Call, c.cmd = Command.upLoad.code →
      c.p1.length ≤ env.clientBufLen.toNat → P c)
    (hinstall : P (installCall env path stamp)) (fuel pos : ℕ) (first : Bool) (fp : ByteString) :
    Emits (Calling P) (uploadLoop net env largeOffT path stamp fuel pos first fp) := by
  induction fuel generalizing pos first fp with
  | zero => exact does_throw _
  | succ fuel ih =>
      apply does_bind (emits_clientInteract net ?_)
      · intro ub
        apply does_ite
        · exact fun _ => does_pure _
        intro _
        apply does_ite
        · exact fun _ => does_pure _
        intro _
        exact does_ite (fun _ => does_pure _) fun _ => ih _ _ _
      · split
        · exact hupLoad _ rfl (List.length_take_le _ _)
        · exact hinstall

theorem emits_checkUpload (net : Net) (hgetPro : P (getProCall env path))
    (hdir : ∀ c : Call, c.cmd = Command.getDir.code → P c)
    (hstat : ∀ c : Call, c.cmd = Command.stat.code → P c) :
    Emits (Calling P) (checkUpload net env path) := by
  apply does_bind (emits_clientInteract net hgetPro)
  intro ub
  apply does_ite
  · exact fun _ => does_pure _
  intro _
  apply does_ite
  · exact fun _ => does_pure _
  intro _
  apply does_ite
  · exact fun _ => does_pure _
  intro _
  apply does_ite
  · intro _
    apply does_bind (emits_utilStat net _ hdir hstat)
    exact fun _ => does_pure _
  · exact fun _ => does_pure _

theorem emits_utilUpload (net : Net) (largeOffT : Bool) (stamp : ℤ) (fp : ByteString)
    (hother : ∀ c : Call, c.cmd = Command.getDir.code ∨ c.cmd = Command.stat.code ∨
      c.cmd = Command.upLoad.code ∧ c.p1.length ≤ env.clientBufLen.toNat → P c)
    (hgetPro : P (getProCall env path)) (hinstall : P (installCall env path stamp)) :
    Emits (Calling P) (utilUpload net env largeOffT path stamp fp) := by
  apply does_bind
  · exact emits_checkUpload net hgetPro (fun c hc => hother c (Or.inl hc))
      fun c hc => hother c (Or.inr (Or.inl hc))
  · intro ok
    apply does_ite
    · exact fun _ => emits_uploadLoop net largeOffT stamp
        (fun c hc hlen => hother c (Or.inr (Or.inr ⟨hc, hlen⟩))) hinstall _ _ _ _
    · exact fun _ => does_pure _

end

/-! ## Paths and passwords -/

section

variable {env : ClientEnv} {path : ByteString}

theorem passwordSuffix_eq_nil_iff : env.passwordSuffix = [] ↔ env.envPasswd = [] := by
  unfold ClientEnv.passwordSuffix
  split
  · simp [*]
  · simp [*]

theorem utilAbsPath_of_no_password (henv : env.envPasswd = []) :
    utilAbsPath env path = canonicalPath env path := by
  unfold utilAbsPath
  rw [passwordSuffix_eq_nil_iff.mpr henv, List.append_nil, ite_self]

theorem canonicalPath_eq_cons (env : ClientEnv) (path : ByteString) :
    ∃ t, canonicalPath env path = slash :: t := by
  have hhead := head?_canonicalPath env path
  cases hpath : canonicalPath env path with
  | nil => simp [hpath] at hhead
  | cons c t =>
      rw [hpath, List.head?_cons] at hhead
      exact ⟨t, by rw [Option.some.inj hhead]⟩

/-- Without a password the path is sent as it is. -/
theorem carries_pathCall (henv : env.envPasswd = []) {q : ByteString} (hq : q ≠ []) (cmd : Command)
    (pos : ℕ) (p2 : ByteString) : Carries env q (pathCall cmd pos q p2) where
  data := by rw [passwordSuffix_eq_nil_iff.mpr henv, List.append_nil]; rfl
  declared := by
    have := List.length_pos_iff.mpr hq
    simp only [pathCall, List.length_append, List.length_tail, List.length_singleton]
    omega

/-- What stands before the last `b` of a list, and what follows it. -/
theorem eq_append_afterLast {b : UInt8} {l : ByteString} (h : b ∈ l) :
    b ∉ afterLast b l ∧ ∃ before, l = before ++ b :: afterLast b l := by
  obtain ⟨after, before, hl, hafter⟩ := List.eq_append_cons_of_mem (List.mem_reverse.mpr h)
  have hlast : afterLast b l = after.reverse := by
    unfold afterLast
    rw [hl, List.takeWhile_append_of_pos, List.takeWhile_cons_of_neg (by simp), List.append_nil]
    intro a ha
    have hne : a ≠ b := fun heq => hafter (heq ▸ ha)
    simpa using hne
  rw [hlast]
  refine ⟨fun hmem => hafter (List.mem_reverse.mp hmem), before.reverse, ?_⟩
  have hrev := congrArg List.reverse hl
  simpa using hrev

/-- The directory part of a path. -/
theorem fst_utilSplitPath (t : ByteString) :
    (utilSplitPath (slash :: t)).1 = [slash] ∧ slash ∉ t ∨
      ∃ before name, (utilSplitPath (slash :: t)).1 = slash :: before ∧
        t = before ++ slash :: name ∧ slash ∉ name := by
  by_cases hslash : slash ∈ t
  · obtain ⟨hname, before, ht⟩ := eq_append_afterLast hslash
    refine Or.inr ⟨before, afterLast slash t, ?_, ht, hname⟩
    show (if slash ∈ t then (slash :: t).take ((slash :: t).length - (afterLast slash t).length - 1)
      else [slash]) = slash :: before
    rw [if_pos hslash]
    have hlen : (slash :: t).length - (afterLast slash t).length - 1 = (slash :: before).length := by
      have := congrArg List.length ht
      simp only [List.length_append, List.length_cons] at this ⊢
      omega
    rw [hlen]
    conv_lhs => rw [ht, ← List.cons_append, List.take_left]
  · exact Or.inl ⟨if_neg hslash, hslash⟩

theorem isParent_utilSplitPath (t : ByteString) :
    IsParent (utilSplitPath (slash :: t)).1 (slash :: t) := by
  rcases fst_utilSplitPath t with ⟨hdir, hslash⟩ | ⟨before, name, hdir, ht, hname⟩
  · exact ⟨t, hslash, Or.inr ⟨hdir, rfl⟩⟩
  · exact ⟨name, hname, Or.inl (by rw [hdir, ht]; rfl)⟩

/-- A newline in a directory part stands in the path. -/
theorem newline_notMem_of_isParent {q : ByteString} (h : IsParent q path) (hpath : newline ∉ path) :
    newline ∉ q := by
  obtain ⟨name, -, rfl | ⟨rfl, -⟩⟩ := h
  · exact fun hq => hpath (List.mem_append_left _ hq)
  · decide

/-- What stands before the first `b`, and what follows it. -/
theorem append_cons_inj {b : UInt8} {l l' r r' : ByteString} (hl : b ∉ l) (hl' : b ∉ l')
    (h : l ++ b :: r = l' ++ b :: r') : l = l' ∧ r = r' := by
  have htake : ∀ {l : ByteString}, b ∉ l → ∀ r, (l ++ b :: r).takeWhile (· != b) = l := by
    intro l hl r
    rw [List.takeWhile_append_of_pos, List.takeWhile_cons_of_neg (by simp), List.append_nil]
    intro a ha
    have hne : a ≠ b := fun heq => hl (heq ▸ ha)
    simpa using hne
  have heq : l = l' := by rw [← htake hl r, h, htake hl' r']
  subst heq
  exact ⟨rfl, List.cons_injective (List.append_cancel_left h)⟩

/-- With a password the request for the protection of the directory is wrong: the last component is
cut off together with what follows the last slash, which is either the password or a part of it. -/
theorem not_carries_getProCall (henv : env.envPasswd ≠ []) {q : ByteString}
    (hq : IsParent q (canonicalPath env path)) : ¬ Carries env q (getProCall env path) := by
  intro hcarries
  have hnewline := newline_notMem_canonicalPath henv path
  have hnewlineq : newline ∉ q.tail := fun h =>
    newline_notMem_of_isParent hq hnewline (List.mem_of_mem_tail h)
  have hsuffix : env.passwordSuffix = newline :: env.envPasswd := if_neg henv
  obtain ⟨t, ht⟩ := canonicalPath_eq_cons env path
  have hdata : (utilSplitPath (utilAbsPath env path)).1.tail = q.tail ++ newline :: env.envPasswd := by
    have := hcarries.data
    rw [hsuffix] at this
    exact List.append_cancel_right this
  -- what `util_split_path` gets
  obtain ⟨rest, habs, hrest⟩ : ∃ rest, utilAbsPath env path = slash :: (t ++ rest) ∧
      (rest = [] ∨ rest = newline :: env.envPasswd) := by
    unfold utilAbsPath
    rw [ht, hsuffix]
    split
    · exact ⟨[], by rw [List.append_nil], Or.inl rfl⟩
    · exact ⟨newline :: env.envPasswd, rfl, Or.inr rfl⟩
  rw [habs] at hdata
  have hnewlinet : newline ∉ t := fun h => hnewline (by rw [ht]; exact List.mem_cons_of_mem _ h)
  rcases fst_utilSplitPath (t ++ rest) with ⟨hdir, -⟩ | ⟨before, name, hdir, heq, -⟩
  · rw [hdir] at hdata
    simp at hdata
  · rw [hdir, List.tail_cons] at hdata
    subst hdata
    rcases hrest with rfl | rfl
    · apply hnewlinet
      rw [List.append_nil] at heq
      rw [heq]
      simp
    · rw [List.append_assoc, List.cons_append] at heq
      have hpasswd := append_cons_inj hnewlinet hnewlineq heq
      have := congrArg List.length hpasswd.2
      simp at this

/-! ## When the paths are right -/

/-- A network in which no reply arrives. -/
def silentNet : Net := fun _ _ => ⟨0, 0, 0, 0, 0, 0, 0, []⟩

/-- A network whose replies have no data. -/
def emptyNet : Net := fun _ c => ⟨c.cmd, 0, 0, 0, 0, 0, UInt32.ofNat c.pos, []⟩

/-- A call that does not return is the last one. -/
theorem trace_of_not_takes {net : Net} {c : Call} {s : ClientState} {α : Type}
    (h : ubufMaxspace < c.p1.length + c.p2.length ∨ ¬ c.Takes (net s.trace c))
    (k : Ubuf → Client α) :
    (final ((clientInteract net c >>= k) s)).trace = s.trace ++ [.call c] := by
  obtain ⟨halt, herror⟩ := clientInteract_of_not_takes h
  simp only [bind, EStateM.bind, herror]
  rfl

theorem not_takes_silentNet {c : Call} (hcmd : c.cmd ≠ 0) (trace : List NetEvent) :
    ¬ c.Takes (silentNet trace c) := by
  intro htakes
  rcases htakes.code with h | h
  · exact hcmd h.symm
  · exact absurd (show (0 : UInt8) = ccErr from h) (by decide)

theorem takes_emptyNet {c : Call} (hpos : c.pos < 4294967296) (trace : List NetEvent) :
    c.Takes (emptyNet trace c) where
  length_le := Nat.zero_le _
  code := Or.inl rfl
  bbPos _ := by
    show (UInt32.ofNat c.pos).toNat = c.pos
    exact UInt32.toNat_ofNat_of_lt' hpos

/-- The first request of an upload is made in any case. -/
theorem getProCall_mem_utilUpload (largeOffT : Bool) (stamp : ℤ) (fp : ByteString)
    (s : ClientState) :
    .call (getProCall env path) ∈
      (final (utilUpload silentNet env largeOffT path stamp fp s)).trace := by
  have htrace : (final (utilUpload silentNet env largeOffT path stamp fp s)).trace =
      s.trace ++ [.call (getProCall env path)] := by
    unfold utilUpload checkUpload
    rw [bind_assoc]
    have hcmd : (getProCall env path).cmd ≠ 0 := by
      rw [cmd_getProCall]
      decide
    exact trace_of_not_takes (Or.inr (not_takes_silentNet hcmd _)) _
  rw [htrace]
  simp

/-- A call is made in any case. -/
theorem call_mem_clientInteract {net : Net} {c : Call} {s : ClientState} {α : Type} (a : α) :
    .call c ∈ (final ((do
      let _ ← clientInteract net c
      pure a : Client α) s)).trace := by
  by_cases h : ubufMaxspace < c.p1.length + c.p2.length ∨ ¬ c.Takes (net s.trace c)
  · rw [trace_of_not_takes h]
    simp
  · rw [not_or, not_lt, not_not] at h
    rw [bind_of_ok (clientInteract_of_takes h.1 h.2)]
    show .call c ∈ ((s.recorded (.call c)).recorded (.reply c _)).trace
    simp

theorem downloadPath_of_no_password (henv : env.envPasswd = []) :
    downloadPath env path = canonicalPath env path := by
  unfold downloadPath
  rw [utilAbsPath_of_no_password henv, passwordSuffix_eq_nil_iff.mpr henv, List.append_nil]

theorem length_pathCall (cmd : Command) (pos : ℕ) {fpath : ByteString} (h : fpath ≠ [])
    (p2 : ByteString) : (pathCall cmd pos fpath p2).p1.length = fpath.length := by
  have := List.length_pos_iff.mpr h
  simp only [pathCall, List.length_append, List.length_tail, List.length_singleton]
  omega

theorem carries_grabDoneCall (henv : env.envPasswd = []) {junk : UInt32}
    (hjunk : junk.toNat = (canonicalPath env path).length) (behind : ByteString) :
    Carries env (canonicalPath env path) (grabDoneCall env path junk behind) := by
  have hlen : grabDoneLen env path junk = (canonicalPath env path).length := by
    unfold grabDoneLen
    rw [if_pos henv, hjunk]
  obtain ⟨t, ht⟩ := canonicalPath_eq_cons env path
  have hdata : (grabDoneCall env path junk behind).p1 = (canonicalPath env path).tail ++ [0] := by
    show ((downloadPath env path).tail ++ 0 :: behind).take (grabDoneLen env path junk) = _
    rw [downloadPath_of_no_password henv, hlen, ht, List.tail_cons]
    have hsplit : t ++ 0 :: behind = (t ++ [0]) ++ behind := by simp
    rw [hsplit]
    exact List.take_left' (by simp)
  constructor
  · rw [hdata, passwordSuffix_eq_nil_iff.mpr henv, List.append_nil]
  · rw [hdata]
    show grabDoneLen env path junk = _
    rw [hlen, ht]
    simp

/-- A path that does not fit into a request for file data ends a grab. -/
theorem trace_utilGrabFile_of_long (net : Net) (largeOffT : Bool)
    (fwrite : ByteString → ByteString → ℕ) (startFrom : ℕ) (junk : UInt32) (behind : ByteString)
    (hlong : ubufMaxspace < (pathCall .grabFile startFrom (downloadPath env path)
      env.netLen).p1.length + 2) (s : ClientState) :
    (final (utilGrabFile net env largeOffT fwrite path startFrom junk behind s)).trace =
      s.trace ++ [.call (pathCall .grabFile startFrom (downloadPath env path) env.netLen)] := by
  unfold utilGrabFile utilDownloadMain
  rw [downloadLoop, bind_assoc]
  exact trace_of_not_takes (Or.inl hlong) _

/-- An empty file is grabbed with two requests. -/
theorem grabDoneCall_mem_utilGrabFile (fwrite : ByteString → ByteString → ℕ) (junk : UInt32)
    (behind : ByteString) (hfits : (pathCall .grabFile 0 (downloadPath env path)
      env.netLen).p1.length + 2 ≤ ubufMaxspace) (s : ClientState) :
    .call (grabDoneCall env path junk behind) ∈
      (final (utilGrabFile emptyNet env false fwrite path 0 junk behind s)).trace := by
  obtain ⟨s', hok⟩ : ∃ s', utilDownloadMain emptyNet env false fwrite .grabFile
      (downloadPath env path) 0 s = .ok (0, []) s' := by
    unfold utilDownloadMain
    rw [downloadLoop]
    have hpos : (pathCall .grabFile 0 (downloadPath env path) env.netLen).pos < 4294967296 :=
      show 0 < 4294967296 by decide
    rw [bind_of_ok (clientInteract_of_takes hfits (takes_emptyNet hpos _))]
    have hcmd : (emptyNet s.trace (pathCall .grabFile 0 (downloadPath env path) env.netLen)).cmd ≠
        ccErr := show Command.grabFile.code ≠ ccErr by decide
    have hlen : (emptyNet s.trace (pathCall .grabFile 0 (downloadPath env path)
        env.netLen)).bbLen.toNat = 0 := rfl
    rw [if_neg hcmd]
    simp only [hlen, Nat.min_zero, List.take_zero, List.append_nil]
    exact ⟨_, rfl⟩
  unfold utilGrabFile
  rw [bind_of_ok hok]
  exact call_mem_clientInteract (0, [])

/-- Without a password the paths are right, and so is the last request of a grab if its length is. -/
theorem carriesPaths_of_no_password (henv : env.envPasswd = []) (junk : UInt32) (behind : ByteString)
    (hjunk : junk.toNat = (canonicalPath env path).length ∨
      ubufMaxspace < (canonicalPath env path).length + 2) :
    CarriesPaths env path junk behind := by
  obtain ⟨t, ht⟩ := canonicalPath_eq_cons env path
  have hne : canonicalPath env path ≠ [] := by simp [ht]
  have habs : utilAbsPath env path = canonicalPath env path := utilAbsPath_of_no_password henv
  have hdown : downloadPath env path = canonicalPath env path := downloadPath_of_no_password henv
  have hcarries := fun cmd pos p2 => carries_pathCall henv hne cmd pos p2
  constructor
  · intro net largeOffT fwrite startFrom
    apply callsCarry_of_emits
    apply emits_downloadLoop
    intro pos _
    rw [hdown]
    exact hcarries _ _ _
  · intro net largeOffT fwrite startFrom
    rcases hjunk with hjunk | hlong
    · apply callsCarry_of_emits
      apply does_bind
      · apply emits_downloadLoop
        intro pos _
        rw [hdown]
        exact hcarries _ _ _
      · intro res
        apply does_ite
        · exact fun _ => does_pure _
        · intro _
          exact does_bind (emits_clientInteract net fun _ =>
            carries_grabDoneCall henv hjunk behind) fun _ => does_pure _
    · intro s hs c hc
      rw [trace_utilGrabFile_of_long net largeOffT fwrite startFrom junk behind, hs,
        List.nil_append, List.mem_singleton] at hc
      · intro _
        obtain rfl := NetEvent.call.inj hc
        rw [hdown]
        exact hcarries _ _ _
      · rw [hdown, length_pathCall _ _ hne]
        exact hlong
  · intro net largeOffT stamp fp
    apply callsCarry_of_emits
    apply emits_utilUpload
    · rintro c (h | h | ⟨h, -⟩) hpro <;> exact absurd (h.symm.trans hpro) (by decide)
    · intro _
      refine ⟨_, ht ▸ isParent_utilSplitPath t, ?_⟩
      unfold getProCall
      rw [habs, ht]
      apply carries_pathCall henv
      rcases fst_utilSplitPath t with ⟨hdir, -⟩ | ⟨before, name, hdir, -⟩ <;> simp [hdir]
    · rw [cmd_installCall]
      exact fun h => absurd h (by decide)
  · intro net largeOffT stamp fp
    apply callsCarry_of_emits
    apply emits_utilUpload
    · rintro c (h | h | ⟨h, -⟩) hpro <;> exact absurd (h.symm.trans hpro) (by decide)
    · rw [cmd_getProCall]
      exact fun h => absurd h (by decide)
    · intro _
      unfold installCall
      rw [habs]
      exact hcarries _ _ _

/-- The requests of a transfer carry their paths as they should exactly when there is no password
and the length that `util_grab_file` does not set is right by chance, or does not matter because the
path does not fit into a request for file data. -/
theorem carriesPaths_iff (env : ClientEnv) (path : ByteString) (junk : UInt32)
    (behind : ByteString) :
    CarriesPaths env path junk behind ↔ env.envPasswd = [] ∧
      (junk.toNat = (canonicalPath env path).length ∨
        ubufMaxspace < (canonicalPath env path).length + 2) := by
  constructor
  · intro h
    have henv : env.envPasswd = [] := by
      by_contra henv
      obtain ⟨q, hq, hcarries⟩ := h.getPro silentNet false 0 [] ⟨[], [], true⟩ rfl _
        (getProCall_mem_utilUpload false 0 [] _) rfl
      exact not_carries_getProCall henv hq hcarries
    refine ⟨henv, ?_⟩
    obtain ⟨t, ht⟩ := canonicalPath_eq_cons env path
    by_cases hlong : ubufMaxspace < (canonicalPath env path).length + 2
    · exact Or.inr hlong
    · have hfits : (pathCall .grabFile 0 (downloadPath env path) env.netLen).p1.length + 2 ≤
          ubufMaxspace := by
        rw [downloadPath_of_no_password henv, length_pathCall _ _ (by simp [ht])]
        omega
      have hcarries := h.grabFile emptyNet false (fun _ _ => 0) 0 ⟨[], [], true⟩ rfl _
        (grabDoneCall_mem_utilGrabFile _ junk behind hfits _) (Or.inr rfl)
      have hlen := hcarries.declared
      rw [hcarries.data, passwordSuffix_eq_nil_iff.mpr henv] at hlen
      have hl1 : (grabDoneCall env path junk behind).l1 = junk.toNat := if_pos henv
      rw [hl1, ht] at hlen
      exact Or.inl (by rw [hlen, ht]; simp)
  · rintro ⟨henv, hjunk⟩
    exact carriesPaths_of_no_password henv junk behind hjunk

/-- With a password the name of a file that is asked for has it twice. -/
theorem passworded_not_carriesPaths :
    ¬ CarriesPaths ⟨text "/", text "pw", 1024⟩ (text "f") 0 [] := by
  intro h
  let c := pathCall .getFile 0 (text "/f\npw\npw") (be16 1024)
  have hcall : .call c ∈ (final (utilDownload silentNet ⟨text "/", text "pw", 1024⟩ false
      (fun _ _ => 0) (text "f") 0 ⟨[], [], true⟩)).trace := by
    have hpath : downloadPath ⟨text "/", text "pw", 1024⟩ (text "f") = text "/f\npw\npw" := by
      decide +kernel
    have htrace : (final (utilDownload silentNet ⟨text "/", text "pw", 1024⟩ false
        (fun _ _ => 0) (text "f") 0 ⟨[], [], true⟩)).trace = [.call c] := by
      unfold utilDownload utilDownloadMain
      rw [hpath, downloadLoop]
      exact trace_of_not_takes (Or.inr (not_takes_silentNet (by decide) _)) _
    rw [htrace]
    exact List.mem_singleton_self _
  have hdata := (h.download silentNet false (fun _ _ => 0) 0 _ rfl c hcall rfl).data
  revert hdata
  decide +kernel

end

end Fsp
