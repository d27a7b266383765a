import Fsp.Lib.Ledger
import Fsp.Scenario
import Fsp.Server.Rounds

/-!
# Open files

The streams in the cache of open files belong to the cache: it closes them when it drops them.
The log of a run tells which streams were opened, closed and used, so that it is a ledger, and what
each operation has to keep is its account: the streams in the cache, and those an operation has
opened and not yet put there, are open.

`CC_GRAB_FILE` breaks it, because it closes a stream that stays in the cache.  A run without such an
answer keeps it from beginning to end.
-/

namespace Fsp

open Bytes Effect

variable {Fs Cwd : Type}

/-! ## The ledger -/

/-- The entries of a trace, as entries about streams. -/
def streamLedger : Ledger Event Handle where
  opened
    | .fopen _ _ fp => fp
    | _ => none
  closed
    | .fclose fp => some fp
    | _ => none
  used
    | .fseeko fp _ _ => some fp
    | .fread fp _ => some fp
    | .fwrite fp _ _ => some fp
    | _ => none

/-- The streams in the cache. -/
def cachedFps (c : FifoCache ByteString FpCache) : List Handle :=
  c.slots.filterMap fun slot => slot.entry.fp

/-- The streams in the cache and those in `locals` are open, after the entries in `past` and those
of the trace. -/
def Owns (past : List Event) (locals : List Handle) (s : Server Fs Cwd) : Prop :=
  streamLedger.Account (past ++ s.trace) (locals ++ cachedFps s.fpCache)

variable {past : List Event} {locals locals' : List Handle} {s s' : Server Fs Cwd} {fp : Handle}

theorem Owns.mono (h : Owns past locals s) (hlocals : ∀ k, locals'.count k ≤ locals.count k) :
    Owns past locals' s := by
  apply Ledger.Account.mono h
  intro k
  rw [List.count_append, List.count_append]
  exact Nat.add_le_add_right (hlocals k) _

/-- A stream may be forgotten. -/
theorem Owns.drop (h : Owns past (fp :: locals) s) : Owns past locals s :=
  h.mono fun k => by rw [List.count_cons]; omega

/-! ### The cache -/

theorem mem_cachedFps {c : FifoCache ByteString FpCache} {i : ℕ} (h : (c.entry i).fp = some fp) :
    fp ∈ cachedFps c := by
  rw [FifoCache.entry] at h
  by_cases hi : i < c.slots.length
  · rw [FifoCache.slot_of_lt hi] at h
    exact List.mem_filterMap.mpr ⟨c.slots[i], List.getElem_mem hi, h⟩
  · rw [FifoCache.slot_of_length_le (by omega)] at h
    cases h

/-- A put brings in the new stream and throws out the one of the slot it overwrites. -/
theorem count_cachedFps_put (c : FifoCache ByteString FpCache) (key : ByteString) (entry : FpCache)
    (k : Handle) :
    (cachedFps (c.fCachePut key entry).2.2).count k +
        ((c.fCachePut key entry).2.1.entry.fp).toList.count k =
      (cachedFps c).count k + entry.fp.toList.count k := by
  rw [cachedFps, FifoCache.slots_fCachePut, FifoCache.old_fCachePut,
    FifoCache.slot_of_lt c.eNext_lt]
  exact Ledger.count_filterMap_set (f := fun slot : Slot ByteString FpCache => slot.entry.fp)
    c.eNext_lt k

/-- A deletion throws out the stream of the slot. -/
theorem count_cachedFps_delete (c : FifoCache ByteString FpCache) (i : ℕ) (k : Handle) :
    (cachedFps (c.fCacheDeleteEntry i).2).count k +
        ((c.fCacheDeleteEntry i).1.entry.fp).toList.count k = (cachedFps c).count k := by
  show ((c.slots.set i FifoCache.zeroSlot).filterMap _).count k + (c.slot i).entry.fp.toList.count k
    = _
  by_cases hi : i < c.slots.length
  · rw [FifoCache.slot_of_lt hi]
    exact Ledger.count_filterMap_set (f := fun slot : Slot ByteString FpCache => slot.entry.fp)
      hi k
  · rw [FifoCache.slot_of_length_le (by omega), List.set_eq_of_length_le (by omega)]
    rfl

/-! ## Steps that have nothing to do with streams -/

/-- The trace has grown by entries that touch no open stream, and the cache is the same. -/
def Idles (s s' : Server Fs Cwd) : Prop :=
  Acts streamLedger.Idle s s' ∧ Same (fun s => s.fpCache) s s'

instance : IsPreorder (Server Fs Cwd) Idles :=
  inferInstanceAs (IsPreorder (Server Fs Cwd) fun s s' =>
    Acts streamLedger.Idle s s' ∧ Same (fun s => s.fpCache) s s')

theorem Idles.owns (h : Idles s s') (hs : Owns past locals s) : Owns past locals s' := by
  obtain ⟨⟨⟨new, hnew, hidle⟩, -⟩, hcache⟩ := h
  have htrace : s'.trace = s.trace ++ new := hnew
  have hcache' : s'.fpCache = s.fpCache := hcache
  unfold Owns
  rw [htrace, hcache', ← List.append_assoc]
  exact Ledger.Account.idle_append hs hidle

section

variable [Posix Fs Cwd]

theorem primitives_idles :
    Primitives (Idles : Server Fs Cwd → Server Fs Cwd → Prop) streamLedger.Idle fun _ => True := by
  have hacts := @primitives_acts Fs Cwd _ streamLedger.Idle
  have hused : ∀ {e : Event} (fp : Handle), streamLedger.used e = some fp →
      ¬ streamLedger.Idle e := by
    intro e fp he hidle
    rw [hidle.2] at he
    cases he
  have hclosed : ∀ fp : Handle, ¬ streamLedger.Idle (.fclose fp) := by
    rintro fp ⟨he, -⟩
    cases he
  refine ⟨?_, fun f => (hacts.setListCache f).and fun _ => rfl⟩
  constructor
  · exact fun e he => (hacts.emit e he).and fun _ => rfl
  · exact fun path hP => (hacts.stat path hP).and fun _ => rfl
  · exact fun path hP => (hacts.lstat path hP).and fun _ => rfl
  · refine fun path hP => (hacts.chdir path hP).and fun s => ?_
    unfold chdir
    split <;> rfl
  · exact fun path hP => (hacts.unlink path hP).and fun _ => rfl
  · exact fun path hP => (hacts.remove path hP).and fun _ => rfl
  · exact fun path hP => (hacts.rmdir path hP).and fun _ => rfl
  · exact fun path hP => (hacts.mkdir path hP).and fun _ => rfl
  · exact fun src dst hP => (hacts.rename src dst hP).and fun _ => rfl
  · exact fun path hP => (hacts.touch path hP).and fun _ => rfl
  · exact fun path data hP => (hacts.writeFile path data hP).and fun _ => rfl
  · exact fun path hP => (hacts.chmod path hP).and fun _ => rfl
  · exact fun path a m hP => (hacts.utime path a m hP).and fun _ => rfl
  · exact fun path mode hP => (hacts.fopen path mode hP).and fun _ => rfl
  · exact fun fp hP => absurd hP (hclosed fp)
  · exact fun fp _ hP => absurd (hP true) (hused fp rfl)
  · exact fun fp _ hP => absurd (hP []) (hused fp rfl)
  · exact fun fp _ hP => absurd (hP 0) (hused fp rfl)
  · exact fun hP => absurd (hP 0) (hclosed 0)
  · exact fun f g => (hacts.setThc f g).and fun _ => rfl
  · exact fun di f hf => (hacts.setDirInfo di f hf).and fun _ => rfl
  · exact fun di => (hacts.deleteDirInfo di).and fun _ => rfl
  · exact fun key d hd => (hacts.putDirInfo key d hd).and fun _ => rfl
  · exact hacts.good_update

omit [Posix Fs Cwd] in
/-- A step that has nothing to do with streams. -/
theorem preserves_of_idles {α : Type} {m : Srv Fs Cwd α} (h : Does Idles m) :
    Preserves (Owns past locals) m := h.mono fun _ _ hidle hs => hidle.owns hs

/-! ## Streams -/

section Streams

variable {E : Server Fs Cwd → Prop}

theorem wp_fopen (path : ByteString) (mode : OpenMode) (hs : Owns past locals s) :
    wp (fopen path mode) (fun fp s' => Owns past (fp.toList ++ locals) s') E s := by
  show streamLedger.Account (past ++ (s.trace ++ [_])) ((_ ++ locals) ++ cachedFps s.fpCache)
  rw [← List.append_assoc, List.append_assoc _ locals]
  exact Ledger.Account.opens (e := .fopen path mode _) hs ⟨rfl, rfl⟩

theorem wp_fclose (hs : Owns past (fp :: locals) s) :
    wp (fclose fp) (fun _ s' => Owns past locals s') E s := by
  show streamLedger.Account (past ++ (s.trace ++ [_])) (locals ++ cachedFps s.fpCache)
  rw [← List.append_assoc]
  exact Ledger.Account.closes (e := .fclose fp) hs rfl rfl

omit [Posix Fs Cwd] in
/-- A call that uses a stream at hand, or one in the cache. -/
theorem wp_uses {α : Type} {call : Fs → Cwd → α × Fs} {event : α → Event}
    (hevent : ∀ a, streamLedger.used (event a) = some fp ∧ streamLedger.closed (event a) = none)
    (hfp : fp ∈ locals ++ cachedFps s.fpCache) (hs : Owns past locals s) :
    wp (syscall call event)
      (fun _ s' => Owns past locals s' ∧ s'.fpCache = s.fpCache) E s := by
  refine ⟨?_, rfl⟩
  show streamLedger.Account (past ++ (s.trace ++ [_])) (locals ++ cachedFps s.fpCache)
  rw [← List.append_assoc]
  exact Ledger.Account.uses hs hfp (hevent _).1 (hevent _).2

omit [Posix Fs Cwd] in
/-- A stream found in the cache. -/
theorem wp_fpOf (i : ℕ) (hs : E s) :
    wp (fpOf i) (fun fp s' => s' = s ∧ fp ∈ cachedFps s.fpCache) E s := by
  refine wp_seq (R := fun r s' => r = s ∧ s' = s) ⟨rfl, rfl⟩ ?_
  rintro _ _ ⟨rfl, rfl⟩
  split
  · rename_i fp hfp
    exact ⟨rfl, mem_cachedFps hfp⟩
  · exact hs

/-- The cache hands a stream out to be closed. -/
theorem wp_freeFp {entry : FpCache} {own : List Handle}
    (hs : streamLedger.Account (past ++ s.trace) (entry.fp.toList ++ own)) :
    wp (freeFp entry) (fun _ s' => streamLedger.Account (past ++ s'.trace) own ∧
      s'.fpCache = s.fpCache) E s := by
  unfold freeFp
  split
  · rename_i fp hfp
    rw [hfp] at hs
    refine ⟨?_, rfl⟩
    show streamLedger.Account (past ++ (s.trace ++ [_])) own
    rw [← List.append_assoc]
    exact Ledger.Account.closes (e := .fclose fp) hs rfl rfl
  · rename_i hfp
    rw [hfp] at hs
    exact ⟨hs, rfl⟩

/-- The cache takes a stream over. -/
theorem wp_putFp (key : ByteString) (inetNum : UInt32) (portNum : UInt16)
    (hs : Owns past (fp :: locals) s) :
    wp (putFp key ⟨some fp, inetNum, portNum⟩)
      (fun _ s' => Owns past locals s' ∧ fp ∈ cachedFps s'.fpCache) E s := by
  have hput := count_cachedFps_put s.fpCache key ⟨some fp, inetNum, portNum⟩
  have hafter : streamLedger.Account (past ++ s.trace)
      ((s.fpCache.fCachePut key ⟨some fp, inetNum, portNum⟩).2.1.entry.fp.toList ++
        (locals ++ cachedFps (s.fpCache.fCachePut key ⟨some fp, inetNum, portNum⟩).2.2)) := by
    apply Ledger.Account.mono hs
    intro k
    have hk := hput k
    simp only [List.count_append, List.count_cons, Option.toList_some, List.count_nil] at hk ⊢
    omega
  have hmem : fp ∈ cachedFps (s.fpCache.fCachePut key ⟨some fp, inetNum, portNum⟩).2.2 := by
    have hself : (⟨some key, ⟨some fp, inetNum, portNum⟩⟩ : Slot ByteString FpCache) ∈
        (s.fpCache.fCachePut key ⟨some fp, inetNum, portNum⟩).2.2.slots := by
      rw [FifoCache.slots_fCachePut]
      exact List.mem_set s.fpCache.eNext_lt _
    exact List.mem_filterMap.mpr ⟨_, hself, rfl⟩
  refine wp_seq (R := fun r s' => r = s ∧ s' = s) ⟨rfl, rfl⟩ ?_
  rintro _ _ ⟨rfl, rfl⟩
  exact wp_seq (wp_freeFp hafter) fun _ s₁ hs₁ => ⟨hs₁.1, hmem⟩

theorem preserves_deleteFp (i : Option ℕ) :
    Preserves (Owns past locals) (deleteFp i : Srv Fs Cwd Unit) := by
  cases i with
  | none => exact does_pure _
  | some i =>
      apply preserves_of_wp
      intro s hs
      have hdelete := count_cachedFps_delete s.fpCache i
      have hafter : streamLedger.Account (past ++ s.trace)
          ((s.fpCache.fCacheDeleteEntry i).1.entry.fp.toList ++
            (locals ++ cachedFps (s.fpCache.fCacheDeleteEntry i).2)) := by
        apply Ledger.Account.mono hs
        intro k
        have hk := hdelete k
        simp only [List.count_append] at hk ⊢
        omega
      refine wp_seq (R := fun r s' => r = s ∧ s' = s) ⟨rfl, rfl⟩ ?_
      rintro _ _ ⟨rfl, rfl⟩
      exact wp_seq (wp_freeFp hafter) fun _ s₁ hs₁ => hs₁.1

end Streams

/-! ## Programs that mind the streams -/

/-- `I locals` is kept by the steps that have to do with streams, when `locals` are those that a
program has opened and not put into the cache yet.  A stream goes into the cache under a name with
`T`. -/
structure Minding (T : ByteString → Prop) (I : List Handle → Server Fs Cwd → Prop) : Prop where
  mono : ∀ {locals locals' : List Handle} {s : Server Fs Cwd}, I locals s →
    (∀ k, locals'.count k ≤ locals.count k) → I locals' s
  idle : ∀ {α : Type} {m : Srv Fs Cwd α} (locals : List Handle), Does Idles m →
    Preserves (I locals) m
  fopen : ∀ {E : Server Fs Cwd → Prop} {locals : List Handle} {s : Server Fs Cwd} path mode,
    I locals s → wp (fopen path mode) (fun fp s' => I (fp.toList ++ locals) s') E s
  fclose : ∀ {E : Server Fs Cwd → Prop} {locals : List Handle} {s : Server Fs Cwd} {fp : Handle},
    I (fp :: locals) s → wp (fclose fp) (fun _ s' => I locals s') E s
  uses : ∀ {E : Server Fs Cwd → Prop} {α : Type} {call : Fs → Cwd → α × Fs} {event : α → Event}
    {locals : List Handle} {s : Server Fs Cwd} {fp : Handle},
    (∀ a, streamLedger.used (event a) = some fp ∧ streamLedger.closed (event a) = none) →
    fp ∈ locals ++ cachedFps s.fpCache → I locals s →
      wp (syscall call event) (fun _ s' => I locals s' ∧ s'.fpCache = s.fpCache) E s
  putFp : ∀ {E : Server Fs Cwd → Prop} {locals : List Handle} {s : Server Fs Cwd} {fp : Handle}
    {key : ByteString} (inetNum : UInt32) (portNum : UInt16), T key → I (fp :: locals) s →
      wp (putFp key ⟨some fp, inetNum, portNum⟩)
        (fun _ s' => I locals s' ∧ fp ∈ cachedFps s'.fpCache) E s
  deleteFp : ∀ (locals : List Handle) i, Preserves (I locals) (deleteFp i : Srv Fs Cwd Unit)
  setHost : ∀ (locals : List Handle) hp f, Preserves (I locals) (setHost hp f : Srv Fs Cwd Unit)

theorem minding_owns (past : List Event) :
    Minding (fun _ => True) (Owns past : List Handle → Server Fs Cwd → Prop) where
  mono h hlocals := h.mono hlocals
  idle _ h := preserves_of_idles h
  fopen path mode hs := wp_fopen path mode hs
  fclose hs := wp_fclose hs
  uses hevent hfp hs := wp_uses hevent hfp hs
  putFp inetNum portNum _ hs := wp_putFp _ inetNum portNum hs
  deleteFp _ i := preserves_deleteFp i
  setHost _ _ _ := fun _ hs => hs

/-- An operation leaves the streams it does not hold as they are. -/
def Minds (I : List Handle → Server Fs Cwd → Prop) {α : Type} (m : Srv Fs Cwd α) : Prop :=
  ∀ locals, Preserves (I locals) m

omit [Posix Fs Cwd] in
theorem compositional_minds {I : List Handle → Server Fs Cwd → Prop} :
    Compositional fun {α : Type} (m : Srv Fs Cwd α) => Minds I m where
  pure a := fun _ => does_pure a
  throw e := fun _ => does_throw e
  bind_of_returns := fun hm hV hk locals => does_bind_of_returns (hm locals) hV
    fun a ha => hk a ha locals


theorem idles_unlink (path : ByteString) : Does Idles (unlink path : Srv Fs Cwd Bool) :=
  primitives_idles.unlink _ fun _ => ⟨rfl, rfl⟩

theorem idles_stat (path : ByteString) : Does Idles (stat path : Srv Fs Cwd (Option Stat)) :=
  primitives_idles.stat _ fun _ => ⟨rfl, rfl⟩

theorem idles_touchDirInfo (di : ℕ) : Does Idles (touchDirInfo di : Srv Fs Cwd Unit) :=
  does_touchDirInfo primitives_idles.toSteps di

omit [Posix Fs Cwd] in
theorem idle_of_sent (client : SockAddr) (datagram : ByteString) :
    streamLedger.Idle (.sent client datagram) := ⟨rfl, rfl⟩

/-- What a request is served from is in the cache. -/
def Cached (res : Except ByteString Handle) (s : Server Fs Cwd) : Prop :=
  ∀ fp, res = .ok fp → fp ∈ cachedFps s.fpCache

omit [Posix Fs Cwd] in
theorem cached_error (e : ByteString) (s : Server Fs Cwd) : Cached (.error e) s := by
  rintro fp ⟨⟩

/-! ## Operations -/

section Walk

variable {cfg : Config} {T : ByteString → Prop} {I : List Handle → Server Fs Cwd → Prop}
  (hI : Minding T I)
include hI

theorem minds_of_idles {α : Type} {m : Srv Fs Cwd α} (h : Does Idles m) : Minds I m :=
  fun locals => hI.idle locals h

/-- The same in the middle of a program that holds more streams than it had at first. -/
theorem wp_minds {α : Type} {m : Srv Fs Cwd α} (h : Preserves (I locals') m)
    (hlocals : ∀ k, locals.count k ≤ locals'.count k) (hs : I locals' s) :
    wp m (fun _ s' => I locals' s') (I locals) s :=
  wp_mono (h.wp hs) (fun _ _ h => h) fun _ h => hI.mono h hlocals

theorem wp_idles {α : Type} {m : Srv Fs Cwd α} (h : Does Idles m)
    (hlocals : ∀ k, locals.count k ≤ locals'.count k) (hs : I locals' s) :
    wp m (fun _ s' => I locals' s') (I locals) s :=
  wp_minds hI (hI.idle _ h) hlocals hs

theorem wp_fseeko (pos : ℕ) {E : Server Fs Cwd → Prop} (hfp : fp ∈ locals ++ cachedFps s.fpCache)
    (hs : I locals s) :
    wp (fseeko fp pos) (fun _ s' => I locals s' ∧ s'.fpCache = s.fpCache) E s :=
  hI.uses (fun _ => ⟨rfl, rfl⟩) hfp hs

theorem wp_fread (len : ℕ) {E : Server Fs Cwd → Prop} (hfp : fp ∈ locals ++ cachedFps s.fpCache)
    (hs : I locals s) :
    wp (fread fp len) (fun _ s' => I locals s' ∧ s'.fpCache = s.fpCache) E s :=
  hI.uses (fun _ => ⟨rfl, rfl⟩) hfp hs

theorem wp_fwrite (data : ByteString) {E : Server Fs Cwd → Prop}
    (hfp : fp ∈ locals ++ cachedFps s.fpCache) (hs : I locals s) :
    wp (fwrite fp data) (fun _ s' => I locals s' ∧ s'.fpCache = s.fpCache) E s :=
  hI.uses (fun _ => ⟨rfl, rfl⟩) hfp hs

/-! ### Copying -/

theorem preserves_copyLoop {ft : Handle} (hft : ft ∈ locals) (hfp : fp ∈ locals) (fuel : ℕ) :
    Preserves (I locals) (copyLoop fuel ft fp : Srv Fs Cwd Unit) := by
  induction fuel with
  | zero => exact does_throw _
  | succ fuel ih =>
      apply preserves_of_wp
      intro s hs
      refine wp_seq (wp_fread hI 1024 (List.mem_append_left _ hft) hs) fun buf s₁ hs₁ => ?_
      refine wp_ite (fun _ => hs₁.1) fun _ => ?_
      refine wp_seq (wp_fwrite hI buf (List.mem_append_left _ hfp) hs₁.1) fun bytes s₂ hs₂ => ?_
      exact wp_ite (fun _ => ih.wp hs₂.1) fun _ => hs₂.1

theorem minds_copyFile (n1 n2 : ByteString) :
    Minds I (copyFile n1 n2 : Srv Fs Cwd (Option ByteString)) := by
  intro locals
  apply preserves_of_wp
  intro s hs
  refine wp_seq (hI.fopen n1 .r hs) fun ft s₁ hs₁ => ?_
  cases ft with
  | none => exact hs₁
  | some ft =>
      refine wp_seq (hI.fopen n2 .w hs₁) fun fp s₂ hs₂ => ?_
      cases fp with
      | none => exact wp_seq (hI.fclose hs₂) fun _ s₃ hs₃ => hs₃
      | some fp =>
          have hboth : ∀ k, locals.count k ≤ (fp :: ft :: locals).count k := by
            intro k
            simp only [List.count_cons]
            omega
          have hquery : ∀ {α : Type} (call : Fs → Cwd → α),
              Does Idles (query call : Srv Fs Cwd α) := fun call => does_query call
          have hloop : ∀ fuel, Preserves (I (fp :: ft :: locals))
              (copyLoop fuel ft fp : Srv Fs Cwd Unit) :=
            fun fuel => preserves_copyLoop hI (by simp) (by simp) fuel
          refine wp_seq (wp_idles hI (hquery _) hboth hs₂) fun fuel s₃ hs₃ => ?_
          refine wp_seq (wp_minds hI (hloop fuel) hboth hs₃) fun _ s₄ hs₄ => ?_
          refine wp_seq (wp_idles hI (hquery _) hboth hs₄) fun readError s₅ hs₅ => ?_
          refine wp_seq (wp_idles hI (hquery _) hboth hs₅) fun writeError s₆ hs₆ => ?_
          have hswap : I (ft :: fp :: locals) s₆ := hI.mono hs₆ fun k => by
            simp only [List.count_cons]
            omega
          refine wp_seq (hI.fclose hswap) fun _ s₇ hs₇ => ?_
          refine wp_seq (hI.fclose hs₇) fun _ s₈ hs₈ => ?_
          refine wp_ite (fun _ => ?_) fun _ => ?_
          · exact wp_seq ((hI.idle _ (idles_unlink n2)).wp hs₈) fun _ _ h => h
          · have hemit : Does Idles (emit (.copied n1 n2) : Srv Fs Cwd Unit) :=
              primitives_idles.emit _ ⟨rfl, rfl⟩
            exact wp_seq ((hI.idle _ hemit).wp hs₈) fun _ _ h => h

/-! ### Listings -/

theorem minds_savePrebuilt (listP listing : ByteString) :
    Minds I (savePrebuilt listP listing : Srv Fs Cwd Bool) := by
  intro locals
  have hunlink : Preserves (I locals) (unlink listP : Srv Fs Cwd Bool) :=
    hI.idle _ (idles_unlink listP)
  apply preserves_of_wp
  intro s hs
  refine wp_seq (hI.fopen listP .w hs) fun f s₁ hs₁ => ?_
  cases f with
  | none => exact wp_seq (hunlink.wp hs₁) fun _ _ h => h
  | some f =>
      refine wp_seq (wp_fwrite hI listing (by simp) hs₁) fun written s₂ hs₂ => ?_
      refine wp_seq (hI.fclose hs₂.1) fun _ s₃ hs₃ => ?_
      exact wp_ite (fun _ => wp_seq (hunlink.wp hs₃) fun _ _ h => h) fun _ => hs₃

theorem minds_storeListing (listP : Option ByteString) (di : DirInfo) (new : DirListing) :
    Minds I (storeListing listP di new : Srv Fs Cwd ℕ) := by
  have hput : Minds I (putDirListing di.realname new : Srv Fs Cwd ℕ) :=
    minds_of_idles hI (does_putDirListing primitives_idles _ _)
  refine compositional_minds.bind hput fun dl => ?_
  refine compositional_minds.bind (minds_of_idles hI does_get) fun s => ?_
  cases listP with
  | none => exact compositional_minds.pure _
  | some listP =>
      refine compositional_minds.bind (minds_savePrebuilt hI listP _) fun ok => ?_
      refine iteInduction (fun _ => ?_) fun _ => compositional_minds.pure _
      refine compositional_minds.bind (minds_of_idles hI ?_) fun _ => compositional_minds.pure _
      exact primitives_idles.setListCache _

theorem minds_makeListing (di : DirInfo) :
    Minds I (makeListing cfg di : Srv Fs Cwd (Except ByteString ℕ)) := by
  refine compositional_minds.bind (minds_of_idles hI ?_) fun prebuilt => ?_
  · refine does_ite (fun _ => ?_) fun _ => does_pure _
    exact does_loadPrebuilt primitives_idles.toSteps (fun _ => ⟨rfl, rfl⟩) _
  cases prebuilt with
  | some new =>
      exact compositional_minds.bind (minds_storeListing hI _ _ _) fun _ => compositional_minds.pure _
  | none =>
      refine compositional_minds.bind (minds_of_idles hI (does_query _)) fun entries => ?_
      cases entries with
      | none => exact compositional_minds.pure _
      | some entries =>
          simp only
          split
          · exact compositional_minds.throw _
          · refine compositional_minds.bind (minds_of_idles hI does_get) fun s => ?_
            exact compositional_minds.bind (minds_storeListing hI _ _ _) fun _ =>
              compositional_minds.pure _

theorem minds_serverGetDir (di : ℕ) :
    Minds I (serverGetDir cfg di : Srv Fs Cwd (Except ByteString ℕ)) := by
  refine compositional_minds.bind (minds_of_idles hI (does_dirInfo _)) fun d => ?_
  refine compositional_minds.bind (minds_of_idles hI does_get) fun s => ?_
  split
  · exact minds_makeListing hI _
  · refine iteInduction (fun _ => ?_) fun _ => compositional_minds.pure _
    refine compositional_minds.bind (minds_of_idles hI ?_) fun _ => minds_makeListing hI _
    exact primitives_idles.setListCache _

/-! ### Files of clients -/

variable (hT : ∀ inetNum portNum, T (uploadName cfg inetNum portNum) ∧ T (grabName cfg inetNum portNum))

theorem wp_serverGetFile (hkey : ∀ key, T key) (pp : PPath) (inetNum : UInt32) (portNum : UInt16) (di : ℕ)
    (hs : I locals s) :
    wp (serverGetFile pp inetNum portNum di)
      (fun res s' => I locals s' ∧ Cached res s') (I locals) s := by
  have hdir : Does Idles (dirInfo di : Srv Fs Cwd DirInfo) := does_dirInfo di
  refine wp_seq ((hI.idle _ hdir).wp hs) fun d s₁ hs₁ => ?_
  have hsearch : Does Idles (searchFpcache inetNum portNum (d.realname ++ [slash] ++ pp.fPtr) :
      Srv Fs Cwd (Option ℕ)) := does_searchFpcache _ _ _
  refine wp_seq ((hI.idle _ hsearch).wp hs₁) fun i s₂ hs₂ => ?_
  cases i with
  | some i =>
      refine wp_seq (wp_fpOf i hs₂) ?_
      rintro fp _ ⟨rfl, hfp⟩
      exact ⟨hs₂, by rintro _ ⟨⟩; exact hfp⟩
  | none =>
      refine wp_seq ((hI.idle _ (idles_stat _)).wp hs₂) fun sb s₃ hs₃ => ?_
      cases sb with
      | none => exact ⟨hs₃, cached_error _ _⟩
      | some sb =>
          refine wp_ite (fun _ => ⟨hs₃, cached_error _ _⟩) fun _ => ?_
          refine wp_ite (fun _ => ⟨hs₃, cached_error _ _⟩) fun _ => ?_
          refine wp_seq (hI.fopen pp.fullp .r hs₃) fun fp s₄ hs₄ => ?_
          cases fp with
          | none => exact ⟨hs₄, cached_error _ _⟩
          | some fp =>
              refine wp_seq (hI.putFp inetNum portNum (hkey _) hs₄) fun _ s₅ hs₅ => ?_
              exact ⟨hs₅.1, by rintro _ ⟨⟩; exact hs₅.2⟩

include hT in
theorem minds_serverGrabFile (inetNum : UInt32) (portNum : UInt16) :
    Minds I (serverGrabFile cfg inetNum portNum : Srv Fs Cwd (Except ByteString Handle)) := by
  intro locals
  apply preserves_of_wp
  intro s hs
  have hfind : Does Idles (findFp (grabName cfg inetNum portNum) : Srv Fs Cwd (Option ℕ)) :=
    does_findFp _
  refine wp_seq ((hI.idle _ hfind).wp hs) fun i s₁ hs₁ => ?_
  cases i with
  | some i =>
      refine wp_seq (wp_fpOf i hs₁) ?_
      rintro fp _ ⟨rfl, -⟩
      exact hs₁
  | none =>
      refine wp_seq ((hI.idle _ (idles_stat _)).wp hs₁) fun sb s₂ hs₂ => ?_
      cases sb with
      | none => exact hs₂
      | some sb =>
          refine wp_ite (fun _ => hs₂) fun _ => ?_
          refine wp_seq (hI.fopen _ .r hs₂) fun fp s₃ hs₃ => ?_
          cases fp with
          | none => exact hs₃
          | some fp => exact wp_seq (hI.putFp inetNum portNum (hT _ _).2 hs₃) fun _ s₄ hs₄ => hs₄.1

/-! ### Uploads and grabs -/

theorem wp_uploadTail (tname data : ByteString) (pos : ℕ) (cacheF : Option ℕ)
    {again : Srv Fs Cwd (Option ByteString)} (hagain : Preserves (I locals) again)
    (hfp : fp ∈ cachedFps s.fpCache) (hs : I locals s) :
    wp (uploadTail tname data pos cacheF fp again) (fun _ => I locals)
      (I locals) s := by
  have hdelete : Preserves (I locals) (deleteFp cacheF : Srv Fs Cwd Unit) :=
    hI.deleteFp _ cacheF
  have hunlink : Preserves (I locals) (unlink tname : Srv Fs Cwd Bool) :=
    hI.idle _ (idles_unlink tname)
  have hsize : wp (ftello fp) (fun _ s' => s' = s) (I locals) s := rfl
  refine wp_seq hsize ?_
  rintro size s₀ rfl
  refine wp_ite (fun _ => ?_) fun _ => wp_ite (fun _ => ?_) fun _ => ?_
  · exact wp_seq (hdelete.wp hs) fun _ _ h₁ => wp_seq (hunlink.wp h₁) fun _ _ h₂ => h₂
  · refine wp_seq (hdelete.wp hs) fun _ s₁ hs₁ => wp_seq (hunlink.wp hs₁) fun _ s₂ hs₂ => ?_
    exact wp_ite (fun _ => hagain.wp hs₂) fun _ => hs₂
  · refine wp_seq (R := fun _ s' => I locals s' ∧ s'.fpCache = s₀.fpCache)
      (wp_ite (fun _ => ?_) fun _ => ⟨hs, rfl⟩) fun ok s₁ hs₁ => ?_
    · exact wp_fseeko hI pos (List.mem_append_right _ hfp) hs
    have hfp₁ : fp ∈ locals ++ cachedFps s₁.fpCache := by
      rw [hs₁.2]
      exact List.mem_append_right _ hfp
    refine wp_ite (fun _ => ?_) fun _ => wp_seq (hdelete.wp hs₁.1) fun _ _ h => h
    refine wp_seq (wp_fwrite hI data hfp₁ hs₁.1) fun written s₂ hs₂ => ?_
    exact wp_ite (fun _ => hs₂.1) fun _ => wp_seq (hdelete.wp hs₂.1) fun _ _ h => h

theorem wp_uploadOpen (tname : ByteString) (pos : ℕ) (hs : I locals s) :
    wp (uploadOpen tname pos) (fun fp s' => I (fp.toList ++ locals) s')
      (I locals) s := by
  refine wp_ite (fun _ => hI.fopen tname .rPlus hs) fun _ => ?_
  refine wp_seq ((hI.idle _ (idles_unlink tname)).wp hs) fun _ s₁ hs₁ => ?_
  exact hI.fopen tname .w hs₁

include hT in
theorem minds_serverUpLoad (data : ByteString) (pos : ℕ) (inetNum : UInt32) (portNum : UInt16)
    (depth : ℕ) : Minds I (serverUpLoad cfg data pos inetNum portNum depth :
      Srv Fs Cwd (Option ByteString)) := by
  intro locals
  induction depth with
  | zero => exact does_throw _
  | succ depth ih =>
      have hunlink : Preserves (I locals)
          (unlink (uploadName cfg inetNum portNum) : Srv Fs Cwd Bool) :=
        hI.idle _ (idles_unlink _)
      have hremove : Preserves (I locals)
          (remove (uploadName cfg inetNum portNum) : Srv Fs Cwd Bool) :=
        hI.idle _ (primitives_idles.remove _ fun _ => ⟨rfl, rfl⟩)
      have hfind : Does Idles (findFp (uploadName cfg inetNum portNum) : Srv Fs Cwd (Option ℕ)) :=
        does_findFp _
      apply preserves_of_wp
      intro s hs
      refine wp_seq ((hI.idle _ hfind).wp hs) fun i s₁ hs₁ => ?_
      cases i with
      | some i =>
          refine wp_seq (wp_fpOf i hs₁) ?_
          rintro fp _ ⟨rfl, hfp⟩
          exact wp_uploadTail hI _ data pos (some i) ih hfp hs₁
      | none =>
          refine wp_seq (wp_uploadOpen hI _ pos hs₁) fun fp s₂ hs₂ => ?_
          cases fp with
          | none => exact hs₂
          | some fp =>
              have hmore : ∀ k, locals.count k ≤ (fp :: locals).count k := by
                intro k
                rw [List.count_cons]
                omega
              have hlstat : Does Idles (lstat (uploadName cfg inetNum portNum) :
                  Srv Fs Cwd (Option Stat)) := primitives_idles.lstat _ fun _ => ⟨rfl, rfl⟩
              -- the stream is closed before the file is given up
              have hgiveUp : ∀ {α : Type} {m : Srv Fs Cwd Bool} {r : Bool → Srv Fs Cwd α}
                  {s' : Server Fs Cwd}, Preserves (I locals) m →
                  (∀ ok, Preserves (I locals) (r ok)) → I (fp :: locals) s' →
                  wp (do fclose fp; let ok ← m; r ok) (fun _ => I locals)
                    (I locals) s' := fun hm hr hs' =>
                wp_seq (hI.fclose hs') fun _ _ h => wp_seq (hm.wp h) fun ok _ h => (hr ok).wp h
              refine wp_seq (wp_idles hI hlstat hmore hs₂) fun sf s₃ hs₃ => ?_
              cases sf with
              | none => exact hgiveUp hremove (fun _ => does_pure _) hs₃
              | some sf =>
                  refine wp_ite (fun _ => ?_) fun _ => wp_ite (fun _ => ?_) fun _ =>
                    wp_ite (fun _ => ?_) fun _ => ?_
                  · exact hgiveUp hremove (fun _ => does_pure _) hs₃
                  · exact hgiveUp hunlink (fun _ => does_pure _) hs₃
                  · exact hgiveUp hunlink (fun _ => does_ite (fun _ => ih) fun _ => does_pure _) hs₃
                  · refine wp_seq (wp_fseeko hI pos (by simp) hs₃) fun ok s₄ hs₄ => ?_
                    refine wp_ite (fun _ => ?_) fun _ => ?_
                    · have hchmod : Does Idles (chmod (uploadName cfg inetNum portNum) :
                          Srv Fs Cwd Unit) := primitives_idles.chmod _ ⟨rfl, rfl⟩
                      refine wp_seq (wp_idles hI hchmod hmore hs₄.1) fun _ s₅ hs₅ => ?_
                      refine wp_seq (hI.putFp inetNum portNum (hT _ _).1 hs₅) fun _ s₆ hs₆ => ?_
                      exact wp_uploadTail hI _ data pos none ih hs₆.2 hs₆.1
                    · exact hgiveUp hunlink (fun _ => does_pure _) hs₄.1

theorem minds_serverInstall (pp : PPath) (inetNum : UInt32) (portNum : UInt16) (acc : ByteString)
    (di : ℕ) (s2 : ByteString) : Minds I (serverInstall cfg pp inetNum portNum acc di s2 :
      Srv Fs Cwd (Option ByteString)) := by
  have hunlink : ∀ path, Minds I (unlink path : Srv Fs Cwd Bool) :=
    fun path => minds_of_idles hI (idles_unlink path)
  refine compositional_minds.bind (minds_of_idles hI (does_findFp _)) fun cacheF => ?_
  refine compositional_minds.bind (fun _ => hI.deleteFp _ cacheF) fun _ => ?_
  refine iteInduction (fun _ => ?_) fun _ => ?_
  · exact compositional_minds.bind (hunlink _) fun _ => compositional_minds.pure _
  refine compositional_minds.bind (minds_of_idles hI (does_dirInfo _)) fun d => ?_
  refine compositional_minds.bind (minds_of_idles hI (does_fexist _)) fun exist => ?_
  refine iteInduction (fun _ => ?_) fun _ => ?_
  · exact compositional_minds.bind (hunlink _) fun _ => compositional_minds.pure _
  refine compositional_minds.bind (minds_of_idles hI (idles_touchDirInfo _)) fun _ => ?_
  refine compositional_minds.bind (hunlink _) fun _ => ?_
  refine compositional_minds.bind (minds_copyFile hI _ _) fun tmp => ?_
  refine compositional_minds.bind (hunlink _) fun _ => ?_
  split
  · refine compositional_minds.bind (minds_of_idles hI does_get) fun s => ?_
    refine compositional_minds.bind (minds_of_idles hI ?_) fun _ => compositional_minds.pure _
    exact primitives_idles.utime _ _ _ ⟨rfl, rfl⟩
  · exact compositional_minds.pure _

theorem minds_serverSecureFile (pp : PPath) (inetNum : UInt32) (portNum : UInt16) (di : ℕ) :
    Minds I (serverSecureFile cfg pp inetNum portNum di : Srv Fs Cwd (Option ByteString)) := by
  have hunlink : ∀ path, Minds I (unlink path : Srv Fs Cwd Bool) :=
    fun path => minds_of_idles hI (idles_unlink path)
  refine compositional_minds.bind (minds_of_idles hI (idles_stat _)) fun sb => ?_
  cases sb with
  | none => exact compositional_minds.pure _
  | some sb =>
      refine iteInduction (fun _ => compositional_minds.pure _) fun _ => ?_
      refine compositional_minds.bind (hunlink _) fun _ => ?_
      refine compositional_minds.bind (minds_copyFile hI _ _) fun tmp => ?_
      cases tmp with
      | some tmp => exact compositional_minds.pure _
      | none =>
          refine compositional_minds.bind (hunlink _) fun ok => iteInduction (fun _ => ?_) fun _ => ?_
          · exact compositional_minds.bind (minds_of_idles hI (idles_touchDirInfo _)) fun _ =>
              compositional_minds.pure _
          · exact compositional_minds.bind (hunlink _) fun _ => compositional_minds.pure _

theorem minds_serverGrabDone (inetNum : UInt32) (portNum : UInt16) :
    Minds I (serverGrabDone cfg inetNum portNum : Srv Fs Cwd (Option ByteString)) := by
  refine compositional_minds.bind (minds_of_idles hI (idles_stat _)) fun sb => ?_
  cases sb with
  | none => exact compositional_minds.pure _
  | some sb =>
      refine compositional_minds.bind (minds_of_idles hI (does_findFp _)) fun i => ?_
      refine compositional_minds.bind (fun _ => hI.deleteFp _ i) fun _ => ?_
      refine compositional_minds.bind (minds_of_idles hI (idles_unlink _)) fun ok => ?_
      exact iteInduction (fun _ => compositional_minds.pure _) fun _ => compositional_minds.pure _

/-! ## Requests -/

include hT in
theorem operations_minds :
    Operations (fun {α : Type} (m : Srv Fs Cwd α) => Minds I m) cfg where
  toCompositional := compositional_minds
  listed _ := minds_of_idles hI (primitives_idles.emit _ ⟨rfl, rfl⟩)
  dirListing _ := minds_of_idles hI (does_dirListing _)
  stat _ := minds_of_idles hI (idles_stat _)
  requireAccess _ _ _ _ :=
    minds_of_idles hI (does_requireAccess primitives_idles.toSteps fun _ => ⟨rfl, rfl⟩)
  validatePath _ _ := minds_of_idles hI (does_validatePath primitives_idles.toSteps
    (fun _ _ => ⟨⟨rfl, rfl⟩, fun _ => ⟨rfl, rfl⟩, fun _ _ _ => ⟨rfl, rfl⟩, fun _ => ⟨rfl, rfl⟩,
      fun _ => ⟨rfl, rfl⟩⟩) (fun _ _ _ => ⟨rfl, rfl⟩) returns_loadAccessRights)
  serverGetDir := minds_serverGetDir hI
  serverDelFile _ _ := minds_of_idles hI (does_serverDelFile primitives_idles.toSteps
    (fun _ => ⟨rfl, rfl⟩) (fun _ => ⟨rfl, rfl⟩) _)
  serverDelDir _ _ := minds_of_idles hI (does_serverDelDir primitives_idles.toSteps
    ⟨fun _ _ _ => ⟨rfl, rfl⟩, fun _ _ => ⟨rfl, rfl⟩, fun _ _ _ => ⟨rfl, rfl⟩⟩
    (fun _ => ⟨rfl, rfl⟩) (fun _ => ⟨rfl, rfl⟩) (fun _ => ⟨rfl, rfl⟩) (fun _ => ⟨rfl, rfl⟩) _)
  serverMakeDir _ _ _ := minds_of_idles hI (does_serverMakeDir primitives_idles.toSteps
    ⟨fun _ _ _ => ⟨rfl, rfl⟩, fun _ _ => ⟨rfl, rfl⟩, fun _ _ _ => ⟨rfl, rfl⟩⟩
    (fun _ => ⟨rfl, rfl⟩) (fun _ => ⟨rfl, rfl⟩) (fun _ => ⟨rfl, rfl⟩)
    (fun _ _ _ _ => trivial) _)
  serverSetPro _ _ _ := minds_of_idles hI (does_serverSetPro primitives_idles.toSteps
    ⟨fun _ _ _ => ⟨rfl, rfl⟩, fun _ _ => ⟨rfl, rfl⟩, fun _ _ _ => ⟨rfl, rfl⟩⟩
    (fun _ _ _ => ⟨rfl, rfl⟩) (fun _ _ => ⟨rfl, rfl⟩) _ _ _)
  serverUpLoad data pos inetNum portNum := minds_serverUpLoad hI hT data pos inetNum portNum _
  serverInstall := minds_serverInstall hI
  serverSecureFile := minds_serverSecureFile hI
  serverGrabDone := minds_serverGrabDone hI
  serverStat _ _ := minds_of_idles hI (does_serverStat primitives_idles.toSteps
    (fun _ _ => ⟨rfl, rfl⟩) (fun _ => ⟨⟨rfl, rfl⟩, fun _ => ⟨rfl, rfl⟩, fun _ _ _ => ⟨rfl, rfl⟩,
      fun _ => ⟨rfl, rfl⟩, fun _ => ⟨rfl, rfl⟩⟩) (fun _ _ _ => ⟨rfl, rfl⟩)
    returns_loadAccessRights _)
  serverRename _ _ _ _ := minds_of_idles hI (does_serverRename primitives_idles.toSteps
    (fun _ _ => ⟨rfl, rfl⟩) (fun _ _ => ⟨rfl, rfl⟩) _ _)

theorem minds_serverReply {client : SockAddr} {ub : Ubuf} {data xtra : ByteString} :
    Minds I (serverReply cfg client ub data xtra : Srv Fs Cwd Unit) :=
  minds_of_idles hI (does_serverReply primitives_idles.toSteps (idle_of_sent _ _))

include hT in
theorem replies_minds (r : Request) :
    Replies (fun {α : Type} (m : Srv Fs Cwd α) => Minds I m) (fun m => Minds I m)
      ubufMaxspace cfg r :=
  replies_of_compositional compositional_minds (fun _ _ _ _ => minds_serverReply hI) r
    (fun _ _ _ => (operations_minds hI hT).requireAccess _ _ _ _)
    fun _ => minds_of_idles hI (does_dirInfo _)

/-- A stream from the cache is read. -/
theorem wp_serveFile (r : Request) (hfp : fp ∈ cachedFps s.fpCache) (hs : I locals s) :
    wp (serveFile cfg r fp) (fun _ => I locals) (I locals) s := by
  refine wp_seq (wp_fseeko hI r.pos (List.mem_append_right _ hfp) hs) fun sought s₁ hs₁ => ?_
  have hfp₁ : fp ∈ locals ++ cachedFps s₁.fpCache := by
    rw [hs₁.2]
    exact List.mem_append_right _ hfp
  refine wp_seq (wp_fread hI _ hfp₁ hs₁.1) fun bytes s₂ hs₂ => ?_
  exact (minds_serverReply hI locals).wp hs₂.1

include hT in
theorem minds_caseGetFile (hkey : ∀ key, T key) (r : Request) : Minds I (caseGetFile cfg r : Srv Fs Cwd Unit) := by
  refine compositional_minds.bind ((operations_minds hI hT).validatePath _ _) fun res => ?_
  cases res with
  | error pe => exact minds_serverReply hI
  | ok res =>
      refine (replies_minds hI hT r).checkAccessRights _ _ _ _ fun pe locals =>
        preserves_of_wp fun s hs => ?_
      refine wp_seq (wp_serverGetFile hI hkey res.1 r.inetNum r.portNum res.2 hs) fun fp s₁ hs₁ => ?_
      cases fp with
      | error pe => exact (minds_serverReply hI locals).wp hs₁.1
      | ok fp => exact wp_serveFile hI r (hs₁.2 fp rfl) hs₁.1

/-- A `CC_GRAB_FILE` gets to the point where it sends a part of the file. -/
def Grabs (cfg : Config) (r : Request) (s : Server Fs Cwd) : Prop :=
  ∃ pp di s₁ pe s₂ s₃ fp s₄,
    validatePath cfg r.s1 false s = .ok (.ok (pp, di)) s₁ ∧
    requireAccess cfg r di dirDel pp.passwd s₁ = .ok pe s₂ ∧
    pe.head? ≠ some 0x49 ∧ pe.head? ≠ some 0x44 ∧
    (if ¬ r.old ∧ r.pos = 0 then serverSecureFile cfg pp r.inetNum r.portNum di
      else pure none : Srv Fs Cwd (Option ByteString)) s₂ = .ok none s₃ ∧
    serverGrabFile cfg r.inetNum r.portNum s₃ = .ok (.ok fp) s₄

include hT in
theorem wp_caseGrabFile (r : Request) (hs : I locals s)
    (hgrabs : cfg.readOnly = false → cfg.grabEnabled = true → ¬ Grabs cfg r s) :
    wp (caseGrabFile cfg r) (fun _ => I locals) (I locals) s := by
  have hrefuse : ∀ msg, Preserves (I locals) (refuse cfg r msg : Srv Fs Cwd Unit) :=
    fun msg => minds_serverReply hI locals
  refine wp_ite (fun _ => (hrefuse _).wp hs) fun henabled => ?_
  have hgrabs' : ¬ Grabs cfg r s := hgrabs (by simp_all) (by simp_all)
  have hvalidate : Preserves (I locals)
      (validatePath cfg r.s1 false : Srv Fs Cwd (Except ByteString (PPath × ℕ))) :=
    (operations_minds hI hT).validatePath _ _ locals
  refine wp_seq (wp_run (hvalidate.wp hs)) fun res s₁ h₁ => ?_
  obtain ⟨hs₁, hrun₁⟩ := h₁
  cases res with
  | error pe => exact (hrefuse pe).wp hs₁
  | ok res =>
      have haccess : Preserves (I locals)
          (requireAccess cfg r res.2 dirDel res.1.passwd : Srv Fs Cwd ByteString) :=
        (operations_minds hI hT).requireAccess _ _ _ _ locals
      refine wp_seq (wp_run (haccess.wp hs₁)) fun pe s₂ h₂ => ?_
      obtain ⟨hs₂, hrun₂⟩ := h₂
      refine wp_ite (fun _ => hs₂) fun hpassed => wp_ite (fun _ => (hrefuse _).wp hs₂) fun hadmitted => ?_
      have hsecure : Preserves (I locals)
          (if ¬ r.old ∧ r.pos = 0 then serverSecureFile cfg res.1 r.inetNum r.portNum res.2
            else pure none : Srv Fs Cwd (Option ByteString)) :=
        does_ite (fun _ => minds_serverSecureFile hI _ _ _ _ locals) fun _ => does_pure _
      refine wp_seq (wp_run (hsecure.wp hs₂)) fun err s₃ h₃ => ?_
      obtain ⟨hs₃, hrun₃⟩ := h₃
      cases err with
      | some err => exact (hrefuse err).wp hs₃
      | none =>
          have hgrab : Preserves (I locals)
              (serverGrabFile cfg r.inetNum r.portNum : Srv Fs Cwd (Except ByteString Handle)) :=
            minds_serverGrabFile hI hT _ _ locals
          refine wp_seq (wp_run (hgrab.wp hs₃)) fun fp s₄ h₄ => ?_
          obtain ⟨hs₄, hrun₄⟩ := h₄
          cases fp with
          | error pe => exact (hrefuse pe).wp hs₄
          | ok fp =>
              exact absurd ⟨res.1, res.2, s₁, pe, s₂, s₃, fp, s₄, hrun₁, hrun₂, hpassed, hadmitted, hrun₃,
                hrun₄⟩ hgrabs'

include hT in
/-- A request for anything but the bytes of a file. -/
theorem wp_serve {r : Request} {hp : ℕ} (hs : I [] s) (hget : Command.ofByte r.ub.cmd ≠ .getFile)
    (hgrabs : Command.ofByte r.ub.cmd = .grabFile → cfg.readOnly = false →
      cfg.grabEnabled = true → ¬ Grabs cfg r s) :
    wp (serve cfg r hp) (fun _ => I []) (I []) s := by
  by_cases hgrab : Command.ofByte r.ub.cmd = .grabFile
  · unfold serve
    rw [hgrab]
    exact wp_caseGrabFile hI hT r hs (hgrabs hgrab)
  · have hserve : Minds I (serve cfg r hp : Srv Fs Cwd Unit) :=
      holds_serve (operations_minds hI hT) (replies_minds hI hT r)
        (fun h => absurd h (not_or.mpr ⟨hget, hgrab⟩)) fun _ locals => hI.setHost locals _ _
    exact (hserve []).wp hs

end Walk

/-- A request keeps the account, unless it is sent a part of a grabbed file. -/
theorem owns_serve {cfg : Config} {r : Request} {hp : ℕ} (hs : Owns past [] s)
    (hgrabs : Command.ofByte r.ub.cmd = .grabFile → cfg.readOnly = false →
      cfg.grabEnabled = true → ¬ Grabs cfg r s) : Owns past [] (final (serve cfg r hp s)) := by
  by_cases hget : Command.ofByte r.ub.cmd = .getFile
  · unfold serve
    rw [hget]
    exact minds_caseGetFile (minding_owns past) (fun _ _ => ⟨trivial, trivial⟩) (fun _ => trivial) r [] s hs
  · exact wp_final (wp_serve (minding_owns past) (fun _ _ => ⟨trivial, trivial⟩) hs hget hgrabs)

/-! ## Runs -/

variable {cfg : Config}

/-- A datagram is a `CC_GRAB_FILE` that is answered with a part of the file. -/
def GrabAnswered (cfg : Config) (a : Arrival Fs) (s : Server Fs Cwd) : Prop :=
  ∃ ub old h, Dispatches cfg a s ub old h ∧ Command.ofByte ub.cmd = .grabFile ∧
    cfg.readOnly = false ∧ cfg.grabEnabled = true ∧
    Grabs cfg (requestOf a ub old h) (dispatchState cfg a s old h)

theorem owns_serverRound {a : Arrival Fs} (htable : HostTable s.htab)
    (hs : streamLedger.Account past (cachedFps s.fpCache)) (hgrab : ¬ GrabAnswered cfg a s) :
    Owns past [] (final (serverRound cfg a s)) := by
  have hstart : ∀ s' : Server Fs Cwd, s'.trace = [] → s'.fpCache = s.fpCache →
      Owns past [] s' := by
    intro s' htrace hcache
    unfold Owns
    rw [htrace, hcache, List.append_nil]
    exact hs
  have hreply : ∀ {ub : Ubuf} {msg : ByteString} {s' : Server Fs Cwd}, Owns past [] s' →
      Owns past [] (final (sendError cfg a.client ub msg s')) :=
    fun h => minds_serverReply (minding_owns past) [] _ h
  have hgoes := serverRound_goes cfg a htable
  generalize serverRound cfg a s = res at hgoes ⊢
  cases hgoes with
  | unread => exact hstart _ rfl rfl
  | exits => exact hstart _ rfl rfl
  | denied => exact hreply (hstart _ rfl rfl)
  | unnamed => exact hreply (hstart _ rfl rfl)
  | ignored => exact hstart _ rfl rfl
  | garbled => exact hstart _ rfl rfl
  | @dispatched ub old h hdisp =>
      apply owns_serve
      · show streamLedger.Account (past ++ [.dispatched old]) (cachedFps s.fpCache)
        exact hs.idle ⟨rfl, rfl⟩
      · intro hcmd hwritable henabled hgrabs
        exact hgrab ⟨ub, old, h, hdisp, hcmd, hwritable, henabled, hgrabs⟩

/-- In a state after the entries of `log`, every stream in the cache is open, and no stream was
closed, read, written or positioned when it was not open. -/
structure OpenFiles (log : List Event) (s : Server Fs Cwd) : Prop where
  sound : streamLedger.Sound log
  cached : ∀ fp ∈ cachedFps s.fpCache, streamLedger.Open log fp

omit [Posix Fs Cwd] in
/-- The server starts without open streams. -/
theorem account_initServer (cfg : Config) (fs : Fs) (cwd : Cwd) (now : ℤ) :
    streamLedger.Account [] (cachedFps (initServer cfg fs cwd now).fpCache) := by
  have hempty : cachedFps (initServer cfg fs cwd now).fpCache = [] := by
    apply List.filterMap_eq_nil_iff.mpr
    intro slot hslot
    rw [List.eq_of_mem_replicate hslot]
    rfl
  rw [hempty]
  exact Ledger.account_nil

/-- In every run, as long as no `CC_GRAB_FILE` is answered with a part of the file, the streams in
the cache are open, each stream is closed at most once, and none is used after that. -/
theorem openFiles_history (cfg : Config) (fs : Fs) (cwd : Cwd) (now : ℤ)
    (arrivals : List (Arrival Fs)) {before after : List (Effect.Round (Arrival Fs) (Server Fs Cwd))}
    {r : Effect.Round (Arrival Fs) (Server Fs Cwd)}
    (hrun : history cfg (initServer cfg fs cwd now) arrivals = before ++ r :: after)
    (hgrab : ∀ r' ∈ before ++ [r], ¬ GrabAnswered cfg r'.input r'.before) :
    OpenFiles (logOf (before ++ [r])) r.after := by
  have hruns := rounds_induction
    (I := fun past s => HostTable s.htab ∧
      ((∀ r ∈ past, ¬ GrabAnswered cfg r.input r.before) →
        streamLedger.Account (logOf past) (cachedFps s.fpCache))) [] ⟨hostTable_initHtab, fun _ => account_initServer cfg fs cwd now⟩
    (by
      intro before r after _ hafter ⟨htable, haccount⟩
      constructor
      · rw [hafter]
        exact hostTable_serverRound cfg r.input htable
      · intro hgrab
        have hpast := haccount fun r' hr' => hgrab r' (List.mem_append_left _ hr')
        have hround := owns_serverRound htable hpast (hgrab r (by simp))
        rw [← hafter] at hround
        simpa [Owns, logOf] using hround) hrun
  have haccount := hruns.2.2 hgrab
  exact ⟨haccount.sound, fun fp hfp => haccount.isOpen hfp⟩

end

/-! ### Two runs -/

/-- A home directory in which everybody may delete the only file. -/
def grabFiles : List (String × Node) :=
  [("h/.FSP_OK_DEL", Scenario.emptyFile), ("h/f", .file (text "abc"))]

/-- A request for the bytes of the file from `pos` on. -/
def fileRequest (cmd : Command) (genNextKey key : UInt16) (pos : UInt32) : Arrival Disk :=
  Scenario.arrival 100 genNextKey (Scenario.datagram cmd key pos (Scenario.path "f") [])

def noGrabConfig : Config := { Scenario.config with grabEnabled := false }

/-- The rounds of the server for some requests. -/
def grabRun (cfg : Config) (arrivals : List (Arrival Disk)) :
    List (Effect.Round (Arrival Disk) (Server Disk Path)) :=
  history cfg (initServer cfg (Scenario.disk grabFiles) [text "h"] 0) arrivals

/-- The file is got and stays open in the cache. -/
theorem openFiles_history_getFile :
    ∃ r, grabRun noGrabConfig [fileRequest .getFile 7 5 0] = [] ++ r :: [] ∧
      cachedFps r.after.fpCache = [0] ∧ OpenFiles (logOf ([] ++ [r])) r.after := by
  have hlength : (grabRun noGrabConfig [fileRequest .getFile 7 5 0]).length = 1 := by
    decide +kernel
  have hcached : (grabRun noGrabConfig [fileRequest .getFile 7 5 0]).map
      (fun r => cachedFps r.after.fpCache) = [[0]] := by decide +kernel
  obtain ⟨r, hr⟩ := List.length_eq_one_iff.mp hlength
  rw [hr] at hcached
  refine ⟨r, hr, by simpa using hcached, openFiles_history noGrabConfig _ _ _ _ hr ?_⟩
  rintro r - ⟨ub, old, h, -, -, -, henabled, -⟩
  cases henabled

/-- The file is grabbed in two parts. -/
def grabbed : List (Effect.Round (Arrival Disk) (Server Disk Path)) :=
  grabRun Scenario.config [fileRequest .grabFile 7 5 0, fileRequest .grabFile 8 7 1]

/-- After the first request the stream in the cache is closed, and for the second it is positioned,
read and closed again. -/
theorem grabbed_not_openFiles :
    ¬ (∀ before r after, grabbed = before ++ r :: after →
        OpenFiles (logOf (before ++ [r])) r.after) ∧
      ¬ streamLedger.Sound (logOf grabbed) := by
  constructor
  · intro h
    have hcached : (grabbed.take 1).map (fun r => cachedFps r.after.fpCache) = [[0]] := by
      decide +kernel
    have hclosed : ¬ streamLedger.Open (logOf (grabbed.take 1)) 0 := by decide +kernel
    obtain ⟨r, rest, hr⟩ := List.exists_cons_of_length_pos
      (show 0 < grabbed.length by decide +kernel)
    rw [hr] at hcached hclosed
    have hmem : 0 ∈ cachedFps r.after.fpCache := by
      have heq : cachedFps r.after.fpCache = [0] := by simpa using hcached
      rw [heq]
      exact List.mem_singleton_self 0
    exact hclosed ((h [] r rest hr).cached 0 hmem)
  · intro h
    have hopen := h.isOpen (i := 30) (e := .fseeko 0 1 false) (k := 0) (by decide +kernel)
      (Or.inr rfl)
    exact absurd hopen (by decide +kernel)

end Fsp
