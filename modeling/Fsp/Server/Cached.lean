import Fsp.Server.Rounds

/-!
# What holds of every cached directory information

A directory information in the cache was loaded by `load_access_rights`, or made by `server_make_dir`
out of another one, and later at most its times and its protection are changed.  What holds of the
ones that are made so, and does not depend on the times and the protection, therefore holds of all of
them in every state: `allCached_reachable`.
-/

namespace Fsp

open Effect

variable {Fs Cwd : Type} [Posix Fs Cwd] {cfg : Config}

/-- `W` holds of every directory information that the server makes. -/
structure Lasting (Fs : Type) {Cwd : Type} [Posix Fs Cwd] (cfg : Config) (W : DirInfo → Prop) :
    Prop where
  empty : W default
  update : ∀ d mtime lastcheck protection, W d → W { d with mtime, lastcheck, protection }
  load : ∀ d, Returns W (loadAccessRights cfg d : Srv Fs Cwd DirInfo)
  create : ∀ inetNum gethostbyname d t realname, W d →
    W { creatorInfo gethostbyname (creatorLine cfg.bigEndian inetNum) d t with realname }

/-- `W` holds of every slot of the cache. -/
def AllCached (W : DirInfo → Prop) (s : Server Fs Cwd) : Prop := ∀ di, W (s.dirStatCache.entry di)

variable {W : DirInfo → Prop} {s : Server Fs Cwd}

omit [Posix Fs Cwd] in
theorem kept_syscall {α : Type} (call : Fs → Cwd → α × Fs) (event : α → Event) :
    Does (Kept (AllCached W)) (syscall call event : Srv Fs Cwd α) := fun _ hs => hs

theorem primitives_allCached (hW : Lasting Fs cfg W) :
    Primitives (Kept (AllCached W) : Server Fs Cwd → Server Fs Cwd → Prop) (fun _ => True) W where
  emit _ _ := fun _ hs => hs
  stat _ _ := kept_syscall _ _
  lstat _ _ := kept_syscall _ _
  chdir _ _ := by
    intro s hs
    unfold chdir
    split <;> exact hs
  unlink _ _ := kept_syscall _ _
  remove _ _ := kept_syscall _ _
  rmdir _ _ := kept_syscall _ _
  mkdir _ _ := kept_syscall _ _
  rename _ _ _ := fun _ hs => hs
  touch _ _ := kept_syscall _ _
  writeFile _ _ _ := kept_syscall _ _
  chmod _ _ := kept_syscall _ _
  utime _ _ _ _ := kept_syscall _ _
  fopen _ _ _ := kept_syscall _ _
  fclose _ _ := kept_syscall _ _
  fseeko _ _ _ := kept_syscall _ _
  fread _ _ _ := kept_syscall _ _
  fwrite _ _ _ := kept_syscall _ _
  setFpCache _ _ := fun _ hs => hs
  setListCache _ := fun _ hs => hs
  setThc _ _ := fun _ hs => hs
  setDirInfo di f hf := by
    intro s hs i
    show W ((s.dirStatCache.setEntry di (f (s.dirStatCache.entry di))).entry i)
    unfold FifoCache.entry
    rw [FifoCache.slot_setEntry]
    split
    · exact hf _ (hs di)
    · exact hs i
  deleteDirInfo di := by
    intro s hs i
    show W ((s.dirStatCache.fCacheDeleteEntry di).2.entry i)
    unfold FifoCache.entry
    rw [FifoCache.slot_fCacheDeleteEntry]
    split
    · exact hW.empty
    · exact hs i
  putDirInfo key d hd := by
    intro s hs i
    show W ((s.dirStatCache.fCachePut key d).2.2.entry i)
    unfold FifoCache.entry
    rw [FifoCache.slot_fCachePut]
    split
    · exact hd
    · exact hs i
  good_update := hW.update

theorem kept_serverMakeDir (hW : Lasting Fs cfg W) (pp : PPath) (inetNum : UInt32) (di : ℕ) :
    Preserves (AllCached W) (serverMakeDir cfg pp inetNum di :
      Srv Fs Cwd (Except ByteString ℕ)) := by
  have hprims : Primitives (Kept (AllCached W) : Server Fs Cwd → Server Fs Cwd → Prop)
      (fun _ => True) W := primitives_allCached hW
  apply preserves_of_wp
  apply Triple.run
  apply triple_seq (Preserves.triple (hprims.mkdir _ fun _ => trivial))
  intro ok
  apply triple_ite
  · intro _
    have hdir : Triple (AllCached W) (dirInfo di : Srv Fs Cwd DirInfo)
        (fun d s => AllCached W s ∧ W d) (AllCached W) := ⟨fun s hs => ⟨hs, hs di⟩⟩
    apply triple_seq hdir
    intro d
    apply triple_fact
    intro hd
    apply triple_seq (Preserves.triple does_get)
    intro now
    apply triple_seq (Preserves.triple (does_query _))
    intro gethostbyname
    apply triple_seq (Preserves.triple (hprims.chdir _ fun _ => trivial))
    intro _
    apply triple_seq (Preserves.triple (does_saveAccessRights hprims.toSteps
      ⟨fun _ _ _ => trivial, fun _ _ => trivial, fun _ _ _ => trivial⟩ _))
    intro _
    apply triple_seq (Preserves.triple (does_query _))
    intro cwd
    apply triple_seq (Preserves.triple (hprims.chdir _ fun _ => trivial))
    intro _
    apply triple_seq (Preserves.triple (hprims.putDirInfo _ _ (hW.create _ _ _ _ _ hd)))
    exact fun _ => triple_pure fun _ hs => hs
  · exact fun _ => triple_pure fun _ hs => hs

theorem kept_serverReply (hW : Lasting Fs cfg W) {client : SockAddr} {ub : Ubuf}
    {data xtra : ByteString} :
    Preserves (AllCached W) (serverReply cfg client ub data xtra : Srv Fs Cwd Unit) :=
  does_serverReply (primitives_allCached hW).toSteps trivial

theorem kept_serve (hW : Lasting Fs cfg W) (r : Request) (hp : ℕ) :
    Preserves (AllCached W) (serve cfg r hp : Srv Fs Cwd Unit) := by
  have hprims : Primitives (Kept (AllCached W) : Server Fs Cwd → Server Fs Cwd → Prop)
      (fun _ => True) W := primitives_allCached hW
  apply holds_serve (operations_of_primitives hprims (fun _ _ => trivial) hW.load
    (kept_serverMakeDir hW)) (replies_of_primitives hprims (fun _ => trivial) r)
  · exact fun _ => streams_of_primitives hprims fun _ _ => trivial
  · exact fun _ _ hs => hs

theorem allCached_serverRound (hW : Lasting Fs cfg W) (a : Arrival Fs) (htable : HostTable s.htab)
    (hs : AllCached W s) : AllCached W (final (serverRound cfg a s)) := by
  have hgoes := serverRound_goes cfg a htable
  generalize serverRound cfg a s = res at hgoes ⊢
  cases hgoes with
  | unread => exact hs
  | exits => exact hs
  | denied => exact kept_serverReply hW _ hs
  | unnamed => exact kept_serverReply hW _ hs
  | ignored => exact hs
  | garbled => exact hs
  | dispatched => exact kept_serve hW _ _ _ hs

/-- In every state the server gets into, `W` holds of all cached directory information. -/
theorem allCached_reachable (hW : Lasting Fs cfg W)
    (hs : Reachable (serverRound cfg) (Starts cfg) s) : AllCached W s := by
  have hboth : HostTable s.htab ∧ AllCached W s := by
    refine hs.invariant (I := fun s => HostTable s.htab ∧ AllCached W s) ?_ ?_
    · rintro s ⟨fs, cwd, now, rfl⟩
      refine ⟨hostTable_initHtab, fun di => ?_⟩
      unfold FifoCache.entry
      rw [slot_initServer]
      exact hW.empty
    · rintro a s ⟨htable, hs⟩
      exact ⟨hostTable_serverRound cfg a htable, allCached_serverRound hW a htable hs⟩
  exact hboth.2

end Fsp
