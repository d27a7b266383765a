import Fsp.Client.Requests

/-!
# Transfers that report success

An upload that returns 0 should have installed the whole file, and a download that returns 0 should
have written the rest of the remote file.  Both loops also end when the position gets too large for
a message, and an upload in blocks of no bytes ends at once; `complete_iff` says that nothing else
goes wrong.
-/

namespace Fsp

open Bytes Effect

/-! ## Success -/

/-- The blocks of an upload that were accepted, one after the other. -/
def acceptedBlocks (trace : List NetEvent) : ByteString :=
  trace.flatMap fun
    | .reply c ub => if c.cmd = Command.upLoad.code ∧ ub.cmd ≠ ccErr then c.p1 else []
    | .call _ => []

/-- The file was installed, after all of it was accepted. -/
def Installed (trace : List NetEvent) (file : ByteString) : Prop :=
  ∃ before c ub after, trace = before ++ .reply c ub :: after ∧
    c.cmd = Command.install.code ∧ ub.cmd ≠ ccErr ∧ acceptedBlocks before = file

/-- The network serves the file `remote`: a reply to a request for file data is an error, or holds some
of the bytes from the position on, and none only at the end of the file. -/
def Serves (remote : ByteString) (net : Net) : Prop :=
  ∀ trace c, c.cmd = Command.getFile.code → (net trace c).cmd ≠ ccErr →
    (net trace c).data <+: remote.drop (c.pos % 4294967296) ∧
      ((net trace c).data = [] → remote.length ≤ c.pos % 4294967296)

/-- What a transfer depends on, besides the server: what `atoi` makes of `FSP_BUF_SIZE`, how the
client was compiled, and the files. -/
structure TransferInput where
  bufSize : Option ℤ
  largeOffT : Bool
  file : ByteString
  remote : ByteString
  startFrom : ℕ

namespace TransferInput

/-- The environments with that block size. -/
def Env (i : TransferInput) (env : ClientEnv) : Prop := env.clientBufLen = bufLenOf i.bufSize

/-- Transfers report success only when they are complete, whatever the network does. -/
structure Complete (i : TransferInput) : Prop where
  upload : ∀ env, i.Env env → ∀ net path stamp s s', s.trace = [] →
    utilUpload net env i.largeOffT path stamp i.file s = .ok 0 s' → Installed s'.trace i.file
  download : ∀ env, i.Env env → ∀ net, Serves i.remote net → ∀ fwrite path s fp s', s.trace = [] →
    utilDownload net env i.largeOffT fwrite path i.startFrom s = .ok (0, fp) s' →
      fp = i.remote.drop i.startFrom

end TransferInput

/-! ## Calls -/

theorem wp_clientInteract {net : Net} {c : Call} {s : ClientState}
    {Q : Ubuf → ClientState → Prop}
    (h : ∀ ub, c.Takes ub → ub = net s.trace c →
      Q ub ((s.recorded (.call c)).recorded (.reply c ub))) :
    wp (clientInteract net c) Q (fun _ => True) s := by
  unfold wp
  by_cases hrefused : ubufMaxspace < c.p1.length + c.p2.length ∨ ¬ c.Takes (net s.trace c)
  · obtain ⟨halt, herror⟩ := clientInteract_of_not_takes hrefused
    rw [herror]
    trivial
  · rw [not_or, not_lt, not_not] at hrefused
    rw [clientInteract_of_takes hrefused.1 hrefused.2]
    exact h _ hrefused.2 rfl

/-- A reply to a request with a position shows that the position fits into a message. -/
theorem Call.Takes.pos_lt {c : Call} {ub : Ubuf} (h : c.Takes ub) (hpos : checksPos c.cmd = true) :
    c.pos < 4294967296 := by
  rw [← h.bbPos hpos]
  exact ub.bbPos.toNat_lt

/-! ## Uploads -/

section

variable {env : ClientEnv} {net : Net} {largeOffT : Bool} {path : ByteString} {stamp : ℤ}

theorem acceptedBlocks_append (l l' : List NetEvent) : acceptedBlocks (l ++ l') = acceptedBlocks l ++ acceptedBlocks l' :=
  List.flatMap_append

@[simp] theorem acceptedBlocks_call (c : Call) : acceptedBlocks [.call c] = [] := rfl

theorem acceptedBlocks_upLoad {c : Call} {ub : Ubuf} (hcmd : c.cmd = Command.upLoad.code)
    (herr : ub.cmd ≠ ccErr) : acceptedBlocks [.reply c ub] = c.p1 := by
  show (if c.cmd = Command.upLoad.code ∧ ub.cmd ≠ ccErr then c.p1 else []) ++ [] = c.p1
  rw [if_pos ⟨hcmd, herr⟩, List.append_nil]

/-- No block is accepted where no block is sent. -/
theorem acceptedBlocks_eq_nil {l : List NetEvent}
    (h : ∀ e ∈ l, Calling (fun c => c.cmd = Command.upLoad.code → c.p1 = []) e) :
    acceptedBlocks l = [] := by
  apply List.flatMap_eq_nil_iff.mpr
  intro e he
  cases e with
  | call c => rfl
  | reply c ub =>
      show (if c.cmd = Command.upLoad.code ∧ ub.cmd ≠ ccErr then c.p1 else []) = []
      split
      · rename_i hcmd
        have hcalling : c.cmd = Command.upLoad.code → c.p1 = [] := h _ he
        exact hcalling hcmd.1
      · rfl

theorem posOverflows_eq_false {pos n : ℕ} (hpos : pos < 4294967296) (hn : n ≤ 65535)
    (h : largeOffT = true → pos + n < 4294967296) : posOverflows largeOffT pos n = false := by
  unfold posOverflows fourGigs
  cases largeOffT with
  | true =>
      have := h rfl
      simp
      omega
  | false =>
      simp
      omega

/-- What the loop of `util_upload` keeps: the blocks accepted so far and the rest of the file are the
file. -/
theorem wp_uploadLoop {file : ByteString} (hbuf : env.clientBufLen.toNat ≠ 0 ∨ file = [])
    (hlarge : largeOffT = true → file.length < 4294967296) (fuel pos : ℕ) (first : Bool)
    (rest : ByteString) (s : ClientState) (hfile : acceptedBlocks s.trace ++ rest = file)
    (hpos : pos + rest.length = file.length) :
    wp (uploadLoop net env largeOffT path stamp fuel pos first rest)
      (fun code s' => code = 0 → Installed s'.trace file) (fun _ => True) s := by
  induction fuel generalizing pos first rest s with
  | zero => trivial
  | succ fuel ih =>
      unfold uploadLoop
      simp only
      have hsplit : rest.take env.clientBufLen.toNat ++ rest.drop env.clientBufLen.toNat = rest :=
        List.take_append_drop _ _
      have hlen : (rest.take env.clientBufLen.toNat).length =
          min env.clientBufLen.toNat rest.length := List.length_take
      have hsmall := env.clientBufLen.toNat_lt
      generalize rest.take env.clientBufLen.toNat = buf at hsplit hlen ⊢
      by_cases hmore : buf.length ≠ 0 ∨ first = true
      · rw [if_pos hmore]
        apply wp_seq (wp_clientInteract fun ub htakes _ => ?_) fun _ _ h => h
        have hlt : pos < 4294967296 := htakes.pos_lt rfl
        by_cases herr : ub.cmd = ccErr
        · rw [if_pos herr]
          exact fun hcode => absurd hcode (by decide)
        · have hgoes : posOverflows largeOffT pos buf.length = false := by
            apply posOverflows_eq_false hlt (by omega)
            intro h
            have := hlarge h
            omega
          rw [if_neg herr, if_neg (by tauto), hgoes, if_neg (by decide)]
          apply ih
          · rw [trace_recorded, trace_recorded, acceptedBlocks_append, acceptedBlocks_append, acceptedBlocks_call,
              acceptedBlocks_upLoad rfl herr, List.append_nil, List.append_assoc]
            show acceptedBlocks s.trace ++ (buf ++ rest.drop _) = file
            rw [hsplit]
            exact hfile
          · rw [List.length_drop]
            omega
      · rw [if_neg hmore]
        apply wp_seq (wp_clientInteract fun ub htakes _ => ?_) fun _ _ h => h
        have hempty : buf.length = 0 ∧ ¬ first = true := by tauto
        by_cases herr : ub.cmd = ccErr
        · rw [if_pos herr]
          exact fun hcode => absurd hcode (by decide)
        · rw [if_neg herr, if_pos hempty]
          intro _
          refine ⟨s.trace ++ [.call (installCall env path stamp)], _, ub, [], rfl, rfl, herr, ?_⟩
          rw [acceptedBlocks_append, acceptedBlocks_call, List.append_nil]
          -- nothing was read: the blocks are empty, or there is nothing left
          have hrest : rest = [] := by
            rcases hbuf with hbuf | rfl
            · exact List.length_eq_zero_iff.mp (by omega)
            · exact (List.append_eq_nil_iff.mp hfile).2
          rw [hrest, List.append_nil] at hfile
          exact hfile

theorem upload_complete {file : ByteString} (hbuf : env.clientBufLen.toNat ≠ 0 ∨ file = [])
    (hlarge : largeOffT = true → file.length < 4294967296) {s s' : ClientState}
    (hs : s.trace = []) (hok : utilUpload net env largeOffT path stamp file s = .ok 0 s') :
    Installed s'.trace file := by
  have hcheck : Emits (Calling fun c => c.cmd = Command.upLoad.code → c.p1 = [])
      (checkUpload net env path) := by
    apply emits_checkUpload net
    · rw [cmd_getProCall]
      exact fun h => absurd h (by decide)
    · exact fun c hc h => absurd (hc.symm.trans h) (by decide)
    · exact fun c hc h => absurd (hc.symm.trans h) (by decide)
  have hwp : wp (utilUpload net env largeOffT path stamp file)
      (fun code s' => code = 0 → Installed s'.trace file) (fun _ => True) s := by
    apply wp_seq (wp_mono (wp_does ((returns_true _).run s) hcheck) (fun _ _ h => h.2)
      fun _ _ => trivial)
    rintro ok s₁ ⟨new, hnew, hnone⟩
    have htrace : s₁.trace = new := by
      have : s₁.trace = s.trace ++ new := hnew
      rw [this, hs, List.nil_append]
    apply wp_ite
    · intro _
      apply wp_uploadLoop hbuf hlarge
      · rw [htrace, acceptedBlocks_eq_nil hnone, List.nil_append]
      · exact Nat.zero_add _
    · exact fun _ hcode => absurd hcode (by decide)
  exact wp_of_ok hwp hok rfl

/-! ## Downloads -/

theorem data_eq_take {u : Ubuf} : u.buf.take u.bbLen.toNat = u.data := rfl

/-- What the loop of `util_download_main` keeps: what was written and what is left of the remote file
are the part that was asked for. -/
theorem wp_downloadLoop {remote : ByteString} {startFrom : ℕ} {fpath : ByteString}
    {fwrite : ByteString → ByteString → ℕ} (hserves : Serves remote net)
    (hlarge : largeOffT = true → remote.length ≤ 4294967296) (fuel pos : ℕ) (fp : ByteString)
    (s : ClientState) (hfp : fp ++ remote.drop pos = remote.drop startFrom) :
    wp (downloadLoop net env largeOffT fwrite .getFile fpath fuel pos fp)
      (fun res _ => res.1 = 0 → res.2 = remote.drop startFrom) (fun _ => True) s := by
  induction fuel generalizing pos fp s with
  | zero => trivial
  | succ fuel ih =>
      unfold downloadLoop
      apply wp_seq (wp_clientInteract fun ub htakes hub => ?_) fun _ _ h => h
      have hlt : pos < 4294967296 := htakes.pos_lt rfl
      have hmod : pos % 4294967296 = pos := Nat.mod_eq_of_lt hlt
      have hfail : (-1 : ℤ) ≠ 0 := by decide
      by_cases herr : ub.cmd = ccErr
      · rw [if_pos herr]
        exact fun hcode => absurd hcode hfail
      · rw [if_neg herr]
        obtain ⟨hdata, hend⟩ := hserves s.trace (pathCall .getFile pos fpath env.netLen) rfl
          (by rw [← hub]; exact herr)
        rw [← hub] at hdata hend
        change ub.data <+: remote.drop (pos % 4294967296) at hdata
        change ub.data = [] → remote.length ≤ pos % 4294967296 at hend
        rw [hmod] at hdata hend
        simp only [data_eq_take]
        have hlen : ub.data.length = ub.bbLen.toNat := by
          have := htakes.length_le
          rw [Ubuf.data, List.length_take]
          omega
        -- what is written is the next part of the file
        have hnext : ∀ n, n ≤ ub.bbLen.toNat →
            fp ++ ub.data.take n ++ remote.drop (pos + n) = remote.drop startFrom := by
          intro n hn
          have htake : ub.data.take n = (remote.drop pos).take n := by
            obtain ⟨rest, hrest⟩ := hdata
            rw [← hrest, List.take_append_of_le_length (by omega)]
          rw [htake, List.append_assoc, ← List.drop_drop, List.take_append_drop]
          exact hfp
        have hwrote : min (fwrite fp ub.data) ub.bbLen.toNat ≤ ub.bbLen.toNat := min_le_right _ _
        apply wp_ite
        · intro hoverflow _
          have hlarge' : remote.drop (pos + min (fwrite fp ub.data) ub.bbLen.toNat) = [] := by
            have := ub.bbLen.toNat_lt
            unfold posOverflows fourGigs at hoverflow
            cases largeOffT with
            | true =>
                have := hlarge rfl
                simp only [if_true, decide_eq_true_eq] at hoverflow
                exact List.drop_eq_nil_of_le (by omega)
            | false =>
                simp only [Bool.false_eq_true, if_false, decide_eq_true_eq] at hoverflow
                omega
          have := hnext _ hwrote
          rw [hlarge', List.append_nil] at this
          exact this
        intro _
        apply wp_ite
        · intro _ _
          have hnone : ub.data = [] := List.length_eq_zero_iff.mp (by omega)
          have hdrop : remote.drop pos = [] := List.drop_eq_nil_of_le (hend hnone)
          rw [hdrop, List.append_nil] at hfp
          show fp ++ ub.data.take _ = _
          rw [hnone, List.take_nil, List.append_nil]
          exact hfp
        intro _
        apply wp_ite
        · exact fun _ hcode => absurd hcode hfail
        · exact fun _ => ih _ _ _ (hnext _ hwrote)

/-- From a position that does not fit into a message no download returns. -/
theorem wp_downloadLoop_of_large {fpath : ByteString} {fwrite : ByteString → ByteString → ℕ}
    {Q : ℤ × ByteString → ClientState → Prop} (fuel : ℕ) {pos : ℕ} (hpos : 4294967296 ≤ pos)
    (fp : ByteString) (s : ClientState) :
    wp (downloadLoop net env largeOffT fwrite .getFile fpath fuel pos fp) Q (fun _ => True) s := by
  cases fuel with
  | zero => trivial
  | succ fuel =>
      unfold downloadLoop
      apply wp_seq (wp_clientInteract fun ub htakes _ => ?_) fun _ _ h => h
      have hlt : pos < 4294967296 := htakes.pos_lt rfl
      omega

theorem download_complete {remote : ByteString} {startFrom : ℕ} {fp : ByteString}
    {fwrite : ByteString → ByteString → ℕ} (hserves : Serves remote net)
    (hlarge : largeOffT = true → remote.length ≤ 4294967296 ∨ 4294967296 ≤ startFrom)
    {s s' : ClientState}
    (hok : utilDownload net env largeOffT fwrite path startFrom s = .ok (0, fp) s') :
    fp = remote.drop startFrom := by
  have hwp : wp (utilDownload net env largeOffT fwrite path startFrom)
      (fun res _ => res.1 = 0 → res.2 = remote.drop startFrom) (fun _ => True) s := by
    by_cases hstart : 4294967296 ≤ startFrom
    · exact wp_downloadLoop_of_large _ hstart _ _
    · apply wp_downloadLoop hserves
      · exact fun h => (hlarge h).resolve_right hstart
      · rfl
  exact wp_of_ok hwp hok rfl

end

/-! ## Transfers that are cut short -/

section

/-- The environment of a client at the root of the server, without a password. -/
def plainEnv (clientBufLen : UInt16) : ClientEnv := ⟨[slash], [], clientBufLen⟩

/-- `"f"` -/
def plainPath : ByteString := [0x66]

theorem utilAbsPath_plainEnv (clientBufLen : UInt16) :
    utilAbsPath (plainEnv clientBufLen) plainPath = slash :: plainPath := by
  have hraw : rawPath (plainEnv clientBufLen) plainPath =
      slash :: slash :: slash :: plainPath := rfl
  have hloop : absLoop [] (slash :: slash :: slash :: plainPath) = ⟨slash :: plainPath, false⟩ := by
    decide +kernel
  rw [utilAbsPath_of_no_password rfl, canonicalPath, hraw, hloop]

/-- The state of a client that has sent nothing yet. -/
def newClient : ClientState := ⟨[], [], true⟩

theorem bufLenOf_le (bufSize : Option ℤ) : (bufLenOf bufSize).toNat ≤ ubufMaxspace := by
  unfold bufLenOf
  split
  all_goals
    simp only
    split
    · exact Nat.le_refl _
    · omega

theorem checkUpload_emptyNet (clientBufLen : UInt16) :
    ∃ s, checkUpload emptyNet (plainEnv clientBufLen) plainPath newClient = .ok true s := by
  have hcall : getProCall (plainEnv clientBufLen) plainPath = pathCall .getPro 0 [slash] [] := by
    unfold getProCall
    rw [utilAbsPath_plainEnv]
    rfl
  unfold checkUpload
  rw [hcall, bind_of_ok (clientInteract_of_takes (by decide) (takes_emptyNet (by decide) _))]
  exact ⟨_, rfl⟩

theorem installCall_plainEnv (clientBufLen : UInt16) :
    installCall (plainEnv clientBufLen) plainPath 0 = pathCall .install 0 (slash :: plainPath) [] := by
  unfold installCall
  rw [utilAbsPath_plainEnv]
  rfl

variable {env : ClientEnv} {path : ByteString} {stamp : ℤ}

/-- A round of the loop with a server that takes everything: a block is sent. -/
theorem uploadLoop_block (largeOffT : Bool) (fuel : ℕ) {pos : ℕ} {first : Bool} {rest : ByteString}
    (hle : env.clientBufLen.toNat ≤ ubufMaxspace) (hpos : pos < 4294967296)
    (hmore : (rest.take env.clientBufLen.toNat).length ≠ 0 ∨ first = true) (s : ClientState) :
    ∃ s₁, (∀ e ∈ s₁.trace, e ∈ s.trace ∨ Calling (fun c => c.cmd = Command.upLoad.code) e) ∧
      uploadLoop emptyNet env largeOffT path stamp (fuel + 1) pos first rest s =
        (if posOverflows largeOffT pos (rest.take env.clientBufLen.toNat).length then .ok 0 s₁
        else uploadLoop emptyNet env largeOffT path stamp fuel
          (pos + (rest.take env.clientBufLen.toNat).length) false (rest.drop env.clientBufLen.toNat) s₁) := by
  let call : Call := ⟨Command.upLoad.code, pos, (rest.take env.clientBufLen.toNat).length,
    rest.take env.clientBufLen.toNat, []⟩
  have hfits : call.p1.length + call.p2.length ≤ ubufMaxspace :=
    (List.length_take_le _ _).trans hle
  have herr : (emptyNet s.trace call).cmd ≠ ccErr := show Command.upLoad.code ≠ ccErr by decide
  refine ⟨(s.recorded (.call call)).recorded (.reply call (emptyNet s.trace call)), ?_, ?_⟩
  · intro e he
    rw [trace_recorded, trace_recorded, List.append_assoc] at he
    rcases List.mem_append.mp he with he | he
    · exact Or.inl he
    · refine Or.inr ?_
      rcases List.mem_cons.mp he with rfl | he
      · rfl
      · rw [List.mem_singleton.mp he]
        rfl
  · rw [uploadLoop]
    rw [if_pos hmore, bind_of_ok (clientInteract_of_takes hfits (takes_emptyNet hpos _)),
      if_neg herr, if_neg (by tauto)]
    split <;> rfl

/-- The last round. -/
theorem uploadLoop_install (largeOffT : Bool) (fuel pos : ℕ) {rest : ByteString}
    (hfits : (installCall env path stamp).p1.length + (installCall env path stamp).p2.length ≤
      ubufMaxspace) (hend : (rest.take env.clientBufLen.toNat).length = 0) (s : ClientState) :
    ∃ s', uploadLoop emptyNet env largeOffT path stamp (fuel + 1) pos false rest
      s = .ok 0 s' := by
  have herr : (emptyNet s.trace (installCall env path stamp)).cmd ≠ ccErr :=
    show Command.install.code ≠ ccErr by decide
  have hpos : (installCall env path stamp).pos < 4294967296 := by
    show (if stamp = 0 then 0 else 4) < 4294967296
    split <;> decide
  have hlast : ¬ ((rest.take env.clientBufLen.toNat).length ≠ 0 ∨ false = true) := by
    rintro (h | h)
    · exact h hend
    · cases h
  rw [uploadLoop]
  rw [if_neg hlast, bind_of_ok (clientInteract_of_takes hfits (takes_emptyNet hpos _)), if_neg herr,
    if_pos ⟨hend, by decide⟩]
  exact ⟨_, rfl⟩

/-- An upload of a file that is too large returns before it gets to the end of it. -/
theorem uploadLoop_large {fuel pos : ℕ} {first : Bool} {rest : ByteString} (hbuf : env.clientBufLen ≠ 0)
    (hle : env.clientBufLen.toNat ≤ ubufMaxspace)
    (s : ClientState) (hpos : pos < 4294967296) (hlarge : 4294967296 ≤ pos + rest.length)
    (hfuel : rest.length < fuel) :
    ∃ s', uploadLoop emptyNet env true path stamp fuel pos first rest s =
        .ok 0 s' ∧ ∀ e ∈ s'.trace, e ∈ s.trace ∨ Calling (fun c => c.cmd = Command.upLoad.code) e := by
  induction fuel generalizing pos first rest s with
  | zero => omega
  | succ fuel ih =>
      have hpositive : 0 < env.clientBufLen.toNat := by
        rcases Nat.eq_zero_or_pos env.clientBufLen.toNat with h | h
        · exact absurd (UInt16.toNat.inj h) hbuf
        · exact h
      have hlen : (rest.take env.clientBufLen.toNat).length = min env.clientBufLen.toNat rest.length :=
        List.length_take
      have hmore : (rest.take env.clientBufLen.toNat).length ≠ 0 ∨ first = true := Or.inl (by omega)
      obtain ⟨s₁, htrace, hstep⟩ := uploadLoop_block true fuel hle hpos hmore s
      rw [hstep]
      by_cases hoverflow : posOverflows true pos (rest.take env.clientBufLen.toNat).length = true
      · rw [if_pos hoverflow]
        exact ⟨s₁, rfl, htrace⟩
      · rw [if_neg hoverflow]
        have hlt : pos + (rest.take env.clientBufLen.toNat).length < 4294967296 := by
          have hle' : ¬ fourGigs < pos + (rest.take env.clientBufLen.toNat).length := fun h =>
            hoverflow (decide_eq_true h)
          simp only [fourGigs] at hle'
          omega
        have hdrop : (rest.drop env.clientBufLen.toNat).length = rest.length - env.clientBufLen.toNat :=
          List.length_drop
        obtain ⟨s', hok, htrace'⟩ := @ih _ false (rest.drop env.clientBufLen.toNat) s₁ hlt (by omega)
          (by omega)
        refine ⟨s', hok, fun e he => ?_⟩
        rcases htrace' e he with he | he
        · exact htrace e he
        · exact Or.inr he

/-- An upload that sends no blocks of data installs no data. -/
theorem not_installed_of_empty {trace : List NetEvent} {file : ByteString} (hfile : file ≠ [])
    (h : ∀ e ∈ trace, Calling (fun c => c.cmd = Command.upLoad.code → c.p1 = []) e) :
    ¬ Installed trace file := by
  rintro ⟨before, c, ub, after, htrace, -, -, haccepted⟩
  apply hfile
  rw [← haccepted]
  apply acceptedBlocks_eq_nil
  intro e he
  exact h e (by rw [htrace]; exact List.mem_append_left _ he)

theorem not_installed_of_forall {trace : List NetEvent} {file : ByteString}
    (h : ∀ e ∈ trace, Calling (fun c => c.cmd ≠ Command.install.code) e) :
    ¬ Installed trace file := by
  rintro ⟨before, c, ub, after, htrace, hcmd, -, -⟩
  have hcall : c.cmd ≠ Command.install.code := h (.reply c ub) (by rw [htrace]; simp)
  exact hcall hcmd

/-- Blocks of no bytes install an empty file. -/
theorem upload_zero (largeOffT : Bool) {file : ByteString} (hfile : file ≠ []) :
    ∃ s', utilUpload emptyNet (plainEnv 0) largeOffT plainPath 0 file newClient = .ok 0 s' ∧
      ¬ Installed s'.trace file := by
  have hcalls : Emits (Calling fun c => c.cmd = Command.upLoad.code → c.p1 = [])
      (utilUpload emptyNet (plainEnv 0) largeOffT plainPath 0 file) := by
    apply emits_utilUpload
    · rintro c (hc | hc | ⟨-, hlen⟩) h
      · exact absurd (hc.symm.trans h) (by decide)
      · exact absurd (hc.symm.trans h) (by decide)
      · exact List.length_eq_zero_iff.mp (Nat.le_zero.mp hlen)
    · rw [cmd_getProCall]
      exact fun h => absurd h (by decide)
    · rw [cmd_installCall]
      exact fun h => absurd h (by decide)
  have hempty : ∀ l : ByteString, (l.take (plainEnv 0).clientBufLen.toNat).length = 0 := fun l => by
    rw [show (plainEnv 0).clientBufLen.toNat = 0 from rfl, List.take_zero, List.length_nil]
  obtain ⟨s₁, hcheck⟩ := checkUpload_emptyNet 0
  obtain ⟨s₂, -, hblock⟩ := @uploadLoop_block (plainEnv 0) plainPath 0 largeOffT (file.length + 1) 0 true
    file (Nat.zero_le _) (by decide) (Or.inr rfl) s₁
  have hgoes : posOverflows largeOffT 0 0 = false := by cases largeOffT <;> rfl
  rw [hempty, hgoes, if_neg (by decide)] at hblock
  obtain ⟨s', hlast⟩ := @uploadLoop_install (plainEnv 0) plainPath 0 largeOffT file.length (0 + 0)
    (file.drop (plainEnv 0).clientBufLen.toNat) (by rw [installCall_plainEnv]; decide) (hempty _) s₂
  have hok : utilUpload emptyNet (plainEnv 0) largeOffT plainPath 0 file newClient = .ok 0 s' := by
    unfold utilUpload
    rw [bind_of_ok hcheck, if_pos rfl, hblock, hlast]
  refine ⟨s', hok, not_installed_of_empty hfile ?_⟩
  obtain ⟨new, hnew, hnone⟩ := hcalls newClient
  rw [hok] at hnew
  intro e he
  have htrace : s'.trace = [] ++ new := hnew
  rw [htrace] at he
  exact hnone e he

/-- A file that is too large for the positions is not installed. -/
theorem upload_large {clientBufLen : UInt16} (hbuf : clientBufLen ≠ 0)
    (hle : clientBufLen.toNat ≤ ubufMaxspace) {file : ByteString}
    (hfile : 4294967296 ≤ file.length) :
    ∃ s', utilUpload emptyNet (plainEnv clientBufLen) true plainPath 0 file newClient = .ok 0 s' ∧
      ¬ Installed s'.trace file := by
  have hchecks : Emits (Calling fun c => c.cmd ≠ Command.install.code)
      (checkUpload emptyNet (plainEnv clientBufLen) plainPath) := by
    apply emits_checkUpload
    · rw [cmd_getProCall]
      decide
    · exact fun c hc h => absurd (hc.symm.trans h) (by decide)
    · exact fun c hc h => absurd (hc.symm.trans h) (by decide)
  obtain ⟨s₁, hcheck⟩ := checkUpload_emptyNet clientBufLen
  obtain ⟨new, hnew, hnone⟩ := hchecks newClient
  rw [hcheck] at hnew
  have htrace : s₁.trace = [] ++ new := hnew
  obtain ⟨s', hloop, hrest⟩ := @uploadLoop_large (plainEnv clientBufLen) plainPath 0 (file.length + 2) 0
    true file hbuf hle s₁ (by decide) (by omega) (by omega)
  have hok : utilUpload emptyNet (plainEnv clientBufLen) true plainPath 0 file newClient =
      .ok 0 s' := by
    unfold utilUpload
    rw [bind_of_ok hcheck, if_pos rfl, hloop]
  refine ⟨s', hok, not_installed_of_forall fun e he => ?_⟩
  rcases hrest e he with he | he
  · rw [htrace] at he
    exact hnone e he
  · cases e with
    | call c => exact fun h => absurd ((show c.cmd = _ from he).symm.trans h) (by decide)
    | reply c ub => exact fun h => absurd ((show c.cmd = _ from he).symm.trans h) (by decide)

/-! ### Downloads -/

/-- A server that sends the bytes of a file one at a time. -/
def byteNet (remote : ByteString) : Net := fun _ c =>
  let data := (remote.drop (c.pos % 4294967296)).take 1
  ⟨c.cmd, 0, 0, 0, 0, UInt16.ofNat data.length, UInt32.ofNat c.pos, data⟩

theorem data_byteNet (remote : ByteString) (trace : List NetEvent) (c : Call) :
    (byteNet remote trace c).data = (remote.drop (c.pos % 4294967296)).take 1 := by
  have hlen := List.length_take_le 1 (remote.drop (c.pos % 4294967296))
  show ((remote.drop (c.pos % 4294967296)).take 1).take (UInt16.ofNat
    ((remote.drop (c.pos % 4294967296)).take 1).length).toNat = _
  rw [UInt16.toNat_ofNat_of_lt' (by simp only [UInt16.size]; omega), List.take_length]

theorem serves_byteNet (remote : ByteString) : Serves remote (byteNet remote) := by
  intro trace c _ _
  rw [data_byteNet]
  refine ⟨List.take_prefix _ _, fun hnone => ?_⟩
  have := congrArg List.length hnone
  rw [List.length_take, List.length_drop, List.length_nil] at this
  omega

/-- A download of a file that is too large returns before it gets to the end of it. -/
theorem downloadLoop_large {env : ClientEnv} {remote : ByteString} {fuel pos : ℕ} {fp : ByteString}
    (hpos : pos < 4294967296) (hlarge : 4294967296 < remote.length)
    (hfuel : 4294967296 - pos < fuel) (s : ClientState) :
    ∃ fp' s', downloadLoop (byteNet remote) env true (fun _ data => data.length) .getFile (slash :: plainPath)
      fuel pos fp s = .ok (0, fp') s' ∧ fp'.length = fp.length + (4294967296 - pos) := by
  induction fuel generalizing pos fp s with
  | zero => omega
  | succ fuel ih =>
      let call : Call := pathCall .getFile pos (slash :: plainPath) env.netLen
      have hmod : pos % 4294967296 = pos := Nat.mod_eq_of_lt hpos
      have hlen : ((remote.drop pos).take 1).length = 1 := by
        rw [List.length_take, List.length_drop]
        omega
      have hbbLen : (byteNet remote s.trace call).bbLen.toNat = 1 := by
        show (UInt16.ofNat ((remote.drop (pos % 4294967296)).take 1).length).toNat = 1
        rw [hmod, hlen]
        rfl
      have htakes : call.Takes (byteNet remote s.trace call) := by
        refine ⟨?_, Or.inl rfl, fun _ => UInt32.toNat_ofNat_of_lt' hpos⟩
        rw [hbbLen]
        show 1 ≤ ((remote.drop (pos % 4294967296)).take 1).length
        rw [hmod, hlen]
      have hdata : (byteNet remote s.trace call).buf.take 1 = (remote.drop pos).take 1 := by
        show ((remote.drop (pos % 4294967296)).take 1).take 1 = _
        rw [hmod, List.take_take]
        rfl
      have hcmd : (byteNet remote s.trace call).cmd ≠ ccErr :=
        show Command.getFile.code ≠ ccErr by decide
      have hfits : call.p1.length + call.p2.length ≤ ubufMaxspace :=
        show 2 + 2 ≤ ubufMaxspace by decide
      rw [downloadLoop, bind_of_ok (clientInteract_of_takes hfits htakes), if_neg hcmd]
      simp only [hbbLen, hdata, hlen, Nat.min_self]
      rw [List.take_of_length_le (Nat.le_of_eq hlen)]
      by_cases hlast : fourGigs < pos + 1
      · have hoverflow : posOverflows true pos 1 = true := decide_eq_true hlast
        rw [if_pos hoverflow]
        refine ⟨_, _, rfl, ?_⟩
        simp only [fourGigs] at hlast
        rw [List.length_append, hlen]
        omega
      · have hgoes : posOverflows true pos 1 = false := decide_eq_false hlast
        simp only [fourGigs] at hlast
        rw [hgoes, if_neg Bool.false_ne_true, if_neg (by decide), if_neg (by decide)]
        obtain ⟨fp', s', hok, hlength⟩ := @ih (pos + 1) (fp ++ (remote.drop pos).take 1) (by omega)
          (by omega) ((s.recorded (.call call)).recorded (.reply call (byteNet remote s.trace call)))
        refine ⟨fp', s', hok, ?_⟩
        rw [hlength, List.length_append, hlen]
        omega

theorem download_large (clientBufLen : UInt16) {remote : ByteString} {startFrom : ℕ}
    (hstart : startFrom < 4294967296) (hlarge : 4294967296 < remote.length) :
    ∃ fp s', utilDownload (byteNet remote) (plainEnv clientBufLen) true (fun _ data => data.length)
      plainPath startFrom newClient = .ok (0, fp) s' ∧ fp ≠ remote.drop startFrom := by
  have hpath : downloadPath (plainEnv clientBufLen) plainPath = slash :: plainPath := by
    unfold downloadPath
    rw [utilAbsPath_plainEnv]
    rfl
  obtain ⟨fp, s', hok, hlength⟩ := @downloadLoop_large (plainEnv clientBufLen) remote (fourGigs + 2)
    startFrom [] hstart hlarge (by simp only [fourGigs]; omega) newClient
  refine ⟨fp, s', ?_, ?_⟩
  · unfold utilDownload utilDownloadMain
    rw [hpath]
    exact hok
  · intro heq
    have := congrArg List.length heq
    rw [hlength, List.length_drop, List.length_nil] at this
    omega

end

/-! ## When success means completion -/

/-- Transfers report success only when they are complete exactly if blocks have bytes or the file has
none, and if files fit into the positions of the protocol, where the client looks at that. -/
theorem TransferInput.complete_iff (i : TransferInput) :
    i.Complete ↔ (bufLenOf i.bufSize ≠ 0 ∨ i.file = []) ∧
      (i.largeOffT = true → i.file.length < 4294967296) ∧
      (i.largeOffT = true → i.remote.length ≤ 4294967296 ∨ 4294967296 ≤ i.startFrom) := by
  obtain ⟨bufSize, largeOffT, file, remote, startFrom⟩ := i
  have hle := bufLenOf_le bufSize
  simp only
  constructor
  · intro h
    have hbuf : bufLenOf bufSize ≠ 0 ∨ file = [] := by
      by_contra hnone
      rw [not_or, not_not] at hnone
      obtain ⟨s', hok, hnot⟩ := upload_zero largeOffT hnone.2
      exact hnot (h.upload (plainEnv 0) hnone.1.symm _ _ _ _ _ rfl hok)
    refine ⟨hbuf, ?_, ?_⟩
    · rintro rfl
      by_contra hlarge
      rcases hbuf with hbuf | rfl
      · obtain ⟨s', hok, hnot⟩ := upload_large hbuf hle (not_lt.mp hlarge)
        exact hnot (h.upload (plainEnv (bufLenOf bufSize)) rfl _ _ _ _ _ rfl hok)
      · exact hlarge (by decide)
    · rintro rfl
      by_contra hlarge
      rw [not_or, not_le, not_le] at hlarge
      obtain ⟨fp, s', hok, hne⟩ := download_large (bufLenOf bufSize) hlarge.2 hlarge.1
      exact hne (h.download (plainEnv (bufLenOf bufSize)) rfl _ (serves_byteNet remote) _ _ _ _ _
        rfl hok)
  · rintro ⟨hbuf, hfile, hremote⟩
    constructor
    · intro env henv net path stamp s s' hs hok
      refine upload_complete ?_ hfile hs hok
      rcases hbuf with hbuf | hbuf
      · refine Or.inl fun hzero => hbuf ?_
        rw [← henv]
        exact UInt16.toNat.inj hzero
      · exact Or.inr hbuf
    · intro env _ net hserves fwrite path s fp s' _ hok
      exact download_complete hserves hremote hok

/-- A client with `FSP_BUF_SIZE` 0 installs an empty file in place of one of a byte, and reports
success. -/
theorem zeroBlocks_not_complete : ¬ TransferInput.Complete ⟨some 0, false, [0x61], [], 0⟩ := by
  intro h
  obtain ⟨s', hok, hnot⟩ := upload_zero false (List.cons_ne_nil 0x61 [])
  exact hnot (h.upload (plainEnv 0) rfl _ _ _ _ _ rfl hok)

end Fsp
