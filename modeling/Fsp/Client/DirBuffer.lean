import Fsp.Client.Dir
import Fsp.Memory
import Mathlib.Logic.Relation

/-!
# The buffer of `get_dir_blk`

`get_dir_blk` collects the replies in a buffer of `NBSIZE` bytes and goes over each block in it
twice: once to find how much memory the entries need, and once to copy them.  Here the buffer is
memory, what is behind it included, and the replies are the sequence that arrives.  A reply that does
not fit is a fault, and so is a byte that is read but was not received (`DirFault`).

`DirHeld` is what the buffer is for: the bytes received and not yet read.  There is no fault as long
as each reply fits into what they leave of `NBSIZE`, and each entry that is read has the NUL at the
end of its name among them (`staysInside_iff`).  With replies of at most 1025 bytes there always is
room (`decodable_of_le`).
-/

namespace Fsp

open Bytes

/-! ## The code -/

/-- What `get_dir_blk` must not do with its buffer. -/
inductive DirFault where
  /-- Copy a reply past the end. -/
  | full
  /-- Read a byte that was not received. -/
  | unreceived
  deriving DecidableEq

/-- The variables of `get_dir_blk`, with the entries copied so far. -/
structure DirBuf where
  buf : Mem
  acc : ℕ
  atEof : Bool
  dirblocksize : ℕ
  dp : List ByteString

namespace DirBuf

/-- `buf[i]` -/
def read (v : DirBuf) (i : ℕ) : Except DirFault UInt8 :=
  if i < v.acc then .ok (v.buf i) else .error .unreceived

/-- The `n` bytes from `p2` on. -/
def readBytes (v : DirBuf) (p2 : ℕ) : ℕ → Except DirFault ByteString
  | 0 => .ok []
  | n + 1 => do
      let c ← v.read p2
      let rest ← v.readBytes (p2 + 1) n
      .ok (c :: rest)

/-- The bytes from `p2` on up to a NUL.  No more than `n` bytes were received. -/
def readName (v : DirBuf) : ℕ → ℕ → Except DirFault ByteString
  | 0, _ => .error .unreceived
  | n + 1, p2 => do
      let c ← v.read p2
      if c = 0 then .ok []
      else do
        let rest ← v.readName n (p2 + 1)
        .ok (c :: rest)

/-- The first pass over a block: where it ends, and how many entries it counts.  Each entry takes ten
bytes at least, so the size of the block is enough fuel. -/
def countPass (v : DirBuf) : ℕ → ℕ → ℤ → ℕ → Except DirFault (ℕ × ℕ)
  | 0, p2, _, k => .ok (p2, k)
  | fuel + 1, p2, rem, k =>
      if rem < rdhsize then .ok (p2, k)
      else do
        let type ← v.read (p2 + 8)
        if type = rdtypeSkip then .ok (p2, k)
        else if type = rdtypeEnd then .ok (p2, k + 1)
        else do
          let name ← v.readName v.acc (p2 + rdhsize)
          let size := rdhsize + 1 + name.length
          let pad := (4 - (p2 + size) % 4) % 4
          v.countPass fuel (p2 + size + pad) (rem - size - pad) (k + 1)

/-- The second pass: the entries, header and name, and why it ends. -/
def copyPass (v : DirBuf) : ℕ → ℕ → ℤ → Except DirFault (List ByteString × BlockEnd)
  | 0, _, _ => .ok ([], .skip)
  | fuel + 1, p2, rem =>
      if rem < rdhsize then .ok ([], .skip)
      else do
        let type ← v.read (p2 + 8)
        if type = rdtypeSkip then .ok ([], .skip)
        else if type = rdtypeEnd then .ok ([], .done)
        else do
          let header ← v.readBytes p2 rdhsize
          let name ← v.readName v.acc (p2 + rdhsize)
          let size := rdhsize + 1 + name.length
          let pad := (4 - (p2 + size) % 4) % 4
          let rest ← v.copyPass fuel (p2 + size + pad) (rem - size - pad)
          .ok ((header ++ name) :: rest.1, rest.2)

/-- Append a reply.  The length of the first one is the size of a block, and a shorter one is the
last. -/
def receive (v : DirBuf) (ub : Ubuf) : DirBuf :=
  let rlen := ub.bbLen.toNat
  { v with
    dirblocksize := if v.dirblocksize = 0 then rlen else v.dirblocksize
    atEof := v.atEof || (v.dirblocksize != 0 && rlen < v.dirblocksize)
    buf := memcpy v.buf v.acc (fun j => ub.buf.getD j 0) rlen
    acc := v.acc + rlen }

/-- Move what is behind the block to the front. -/
def shift (v : DirBuf) (es : List ByteString) : DirBuf :=
  { v with
    acc := v.acc - v.dirblocksize
    buf := memcpy v.buf 0 (fun j => v.buf (v.dirblocksize + j)) (v.acc - v.dirblocksize)
    dp := v.dp ++ es }

/-- One round: of the inner loop of `get_dir_blk` while that goes on, otherwise the rest of a round of
the outer loop.  Where there is nothing more to do, or no reply, there is no next state. -/
def step : DirBuf × List Ubuf → Except DirFault (Option (DirBuf × List Ubuf))
  | (v, replies) =>
      if v.acc < ubufMaxspace ∧ ¬ v.atEof then
        match replies with
        | [] => .ok none
        | ub :: replies =>
            if ub.cmd = ccErr then .ok none
            else if nbsize < v.acc + ub.bbLen.toNat then .error .full
            else .ok (some (v.receive ub, replies))
      else do
        let len := min v.acc v.dirblocksize
        let _ ← v.countPass (len + 1) 0 len 0
        let (es, blockEnd) ← v.copyPass (len + 1) 0 len
        if blockEnd = .done ∨ v.acc < v.dirblocksize then .ok none
        else .ok (some (v.shift es, replies))

/-- The start of `get_dir_blk`; `stack` is what the memory holds at first. -/
def start (stack : Mem) : DirBuf := ⟨stack, 0, false, 0, []⟩

/-- The states `get_dir_blk` comes to. -/
def Reaches (stack : Mem) (replies : List Ubuf) : DirBuf × List Ubuf → Prop :=
  Relation.ReflTransGen (fun s s' => step s = .ok (some s')) (start stack, replies)

end DirBuf

/-- Nothing is copied past the end of the buffer, and nothing is read from it that was not
received. -/
structure StaysInside (stack : Mem) (replies : List Ubuf) : Prop where
  acc_le : ∀ s, DirBuf.Reaches stack replies s → s.1.acc ≤ nbsize
  no_fault : ∀ s, DirBuf.Reaches stack replies s → ∀ f, DirBuf.step s ≠ .error f

/-! ## What is held -/

/-- The bytes received and not yet read. -/
structure DirHeld where
  bytes : ByteString
  atEof : Bool
  dirblocksize : ℕ

/-- An entry starts at offset `p` of a block of `len` bytes. -/
def IsEntry (bytes : ByteString) (len p : ℕ) : Prop :=
  p + rdhsize ≤ len ∧ bytes.getD (p + 8) 0 ≠ rdtypeSkip ∧ bytes.getD (p + 8) 0 ≠ rdtypeEnd

/-- The offset after the entry at `p`. -/
def nextEntry (bytes : ByteString) (p : ℕ) : ℕ :=
  let size := rdhsize + 1 + (cstr (bytes.drop (p + rdhsize))).length
  p + size + (4 - (p + size) % 4) % 4

/-- From offset `p` on the entries lead to offset `q`. -/
inductive EntriesTo (bytes : ByteString) (len : ℕ) : ℕ → ℕ → Prop
  | here (p : ℕ) : EntriesTo bytes len p p
  | next {p q : ℕ} (h : IsEntry bytes len p) (hrest : EntriesTo bytes len (nextEntry bytes p) q) :
      EntriesTo bytes len p q

/-- All entries from offset `p` on have the NUL at the end of their names among the bytes. -/
def NamesEnd (bytes : ByteString) (len p : ℕ) : Prop :=
  ∀ q, EntriesTo bytes len p q → IsEntry bytes len q → 0 ∈ bytes.drop (q + rdhsize)

namespace DirHeld

/-- There is no block to read yet. -/
def More (h : DirHeld) : Prop := h.bytes.length < ubufMaxspace ∧ ¬ h.atEof

instance (h : DirHeld) : Decidable h.More := inferInstanceAs (Decidable (_ ∧ _))

/-- The size of the block to read. -/
def len (h : DirHeld) : ℕ := min h.bytes.length h.dirblocksize

/-- The data of a reply. -/
def payload (ub : Ubuf) : ByteString := chunk (fun j => ub.buf.getD j 0) 0 ub.bbLen.toNat

def receive (h : DirHeld) (ub : Ubuf) : DirHeld where
  bytes := h.bytes ++ payload ub
  atEof := h.atEof || (h.dirblocksize != 0 && ub.bbLen.toNat < h.dirblocksize)
  dirblocksize := if h.dirblocksize = 0 then ub.bbLen.toNat else h.dirblocksize

/-- A reply is taken in, or a block is read. -/
def step : DirHeld × List Ubuf → Option (DirHeld × List Ubuf)
  | (h, replies) =>
      if h.More then
        match replies with
        | [] => none
        | ub :: replies => if ub.cmd = ccErr then none else some (h.receive ub, replies)
      else if (readBlock h.bytes (h.len + 1) 0 h.len).2 = .done ∨
          h.bytes.length < h.dirblocksize then none
      else some ({ h with bytes := h.bytes.drop h.dirblocksize }, replies)

def start : DirHeld := ⟨[], false, 0⟩

/-- What is held along the way. -/
def Reaches (replies : List Ubuf) : DirHeld × List Ubuf → Prop :=
  Relation.ReflTransGen (fun a a' => step a = some a') (start, replies)

end DirHeld

/-- Each reply fits into what the bytes held leave of `NBSIZE`, and each entry read ends among
them. -/
structure Decodable (replies : List Ubuf) : Prop where
  room : ∀ h ub rest, DirHeld.Reaches replies (h, ub :: rest) → h.More → ub.cmd ≠ ccErr →
    ub.bbLen.toNat ≤ nbsize - h.bytes.length
  names : ∀ h rest, DirHeld.Reaches replies (h, rest) → ¬ h.More → NamesEnd h.bytes h.len 0

/-! ## The two passes -/

/-- The memory holds the bytes. -/
structure DirBuf.Holds (v : DirBuf) (h : DirHeld) : Prop where
  acc : v.acc = h.bytes.length
  buf : ∀ i, i < h.bytes.length → v.buf i = h.bytes.getD i 0
  atEof : v.atEof = h.atEof
  dirblocksize : v.dirblocksize = h.dirblocksize

theorem namesEnd_iff {bytes : ByteString} {len p : ℕ} :
    NamesEnd bytes len p ↔ (IsEntry bytes len p →
      0 ∈ bytes.drop (p + rdhsize) ∧ NamesEnd bytes len (nextEntry bytes p)) := by
  constructor
  · intro h hentry
    exact ⟨h p (.here p) hentry, fun q hq => h q (.next hentry hq)⟩
  · intro h q hq hentry
    cases hq with
    | here => exact (h hentry).1
    | next hp hrest => exact (h hp).2 q hrest hentry

/-- An entry as it is copied. -/
def direntOf (e : ByteString) : Rdirent := ⟨long e 0, long e 4, e.getD 8 0, e.drop rdhsize⟩

namespace DirBuf.Holds

variable {v : DirBuf} {h : DirHeld}

theorem read (hv : v.Holds h) {i : ℕ} (hi : i < h.bytes.length) :
    v.read i = .ok (h.bytes.getD i 0) := by
  rw [DirBuf.read, hv.acc, if_pos hi, hv.buf i hi]

theorem read_unreceived (hv : v.Holds h) {i : ℕ} (hi : h.bytes.length ≤ i) :
    v.read i = .error .unreceived := by
  rw [DirBuf.read, hv.acc, if_neg (by omega)]

theorem drop_eq_cons {l : ByteString} {i : ℕ} (hi : i < l.length) :
    l.drop i = l.getD i 0 :: l.drop (i + 1) := by
  rw [List.drop_eq_getElem_cons hi, List.getD_eq_getElem?_getD, List.getElem?_eq_getElem hi]
  rfl

theorem readBytes (hv : v.Holds h) {p n : ℕ} (hp : p + n ≤ h.bytes.length) :
    v.readBytes p n = .ok ((h.bytes.drop p).take n) := by
  induction n generalizing p with
  | zero => rfl
  | succ n ih =>
      rw [DirBuf.readBytes, hv.read (by omega), drop_eq_cons (show p < h.bytes.length by omega)]
      show (v.readBytes (p + 1) n >>= fun rest => .ok (_ :: rest)) = _
      rw [ih (by omega)]
      rfl

/-- A name with a NUL at its end. -/
theorem readName (hv : v.Holds h) {n p : ℕ} (hzero : 0 ∈ h.bytes.drop p)
    (hn : h.bytes.length < p + n) : v.readName n p = .ok (cstr (h.bytes.drop p)) := by
  induction n generalizing p with
  | zero =>
      rw [List.drop_eq_nil_of_le (by omega)] at hzero
      cases hzero
  | succ n ih =>
      have hp : p < h.bytes.length := by
        by_contra hge
        rw [List.drop_eq_nil_of_le (by omega)] at hzero
        cases hzero
      rw [drop_eq_cons hp] at hzero ⊢
      rw [DirBuf.readName, hv.read hp]
      show (if h.bytes.getD p 0 = 0 then .ok [] else v.readName n (p + 1) >>= fun rest =>
        .ok (h.bytes.getD p 0 :: rest)) = _
      by_cases hc : h.bytes.getD p 0 = 0
      · rw [if_pos hc, hc]
        rfl
      · have hrest : 0 ∈ h.bytes.drop (p + 1) := by
          rcases List.mem_cons.mp hzero with heq | hrest
          · exact absurd heq.symm hc
          · exact hrest
        rw [if_neg hc, ih hrest (by omega), cstr, cstr, List.takeWhile_cons_of_pos (by simpa using hc)]
        rfl

/-- Without a NUL the name is read to the end of the bytes, and beyond. -/
theorem readName_unreceived (hv : v.Holds h) {n p : ℕ} (hzero : 0 ∉ h.bytes.drop p) :
    v.readName n p = .error .unreceived := by
  induction n generalizing p with
  | zero => rfl
  | succ n ih =>
      rw [DirBuf.readName]
      rcases Nat.lt_or_ge p h.bytes.length with hp | hp
      · rw [drop_eq_cons hp, List.mem_cons, not_or] at hzero
        rw [hv.read hp]
        show (if h.bytes.getD p 0 = 0 then .ok [] else v.readName n (p + 1) >>= fun rest =>
          .ok (h.bytes.getD p 0 :: rest)) = _
        rw [if_neg (Ne.symm hzero.1), ih hzero.2]
        rfl
      · rw [hv.read_unreceived hp]
        rfl

/-- Where no entry starts, both passes end as the pass over the list does. -/
theorem passes_of_not_isEntry (hv : v.Holds h) (fuel k : ℕ) {len p : ℕ}
    (hlen : len ≤ h.bytes.length) (hentry : ¬ IsEntry h.bytes len p) :
    (∃ r, v.countPass fuel p (len - p : ℤ) k = .ok r) ∧
      v.copyPass fuel p (len - p : ℤ) = .ok ([], (readBlock h.bytes fuel p (len - p : ℤ)).2) ∧
      (readBlock h.bytes fuel p (len - p : ℤ)).1 = [] := by
  have hnine : rdhsize = 9 := rfl
  cases fuel with
  | zero => exact ⟨⟨_, rfl⟩, rfl, rfl⟩
  | succ fuel =>
      rw [DirBuf.countPass, DirBuf.copyPass, readBlock]
      by_cases hshort : (len - p : ℤ) < rdhsize
      · rw [if_pos hshort, if_pos hshort, if_pos hshort]
        exact ⟨⟨_, rfl⟩, rfl, rfl⟩
      · rw [if_neg hshort, if_neg hshort, if_neg hshort, hv.read (by omega)]
        by_cases hskip : h.bytes.getD (p + 8) 0 = rdtypeSkip
        · refine ⟨⟨(p, k), if_pos hskip⟩, ?_, ?_⟩
          · rw [if_pos hskip]
            exact if_pos hskip
          · rw [if_pos hskip]
        · have hend : h.bytes.getD (p + 8) 0 = rdtypeEnd := by
            by_contra hend
            exact hentry ⟨by omega, hskip, hend⟩
          refine ⟨⟨(p, k + 1), ?_⟩, ?_, ?_⟩
          · exact (if_neg hskip).trans (if_pos hend)
          · rw [if_neg hskip, if_pos hend]
            exact (if_neg hskip).trans (if_pos hend)
          · rw [if_neg hskip, if_pos hend]

/-- Where an entry starts, both passes read its name. -/
theorem passes_of_isEntry (hv : v.Holds h) (fuel k : ℕ) {len p : ℕ}
    (hlen : len ≤ h.bytes.length) (hentry : IsEntry h.bytes len p) :
    (v.countPass (fuel + 1) p (len - p : ℤ) k = v.readName v.acc (p + rdhsize) >>= fun name =>
      let size := rdhsize + 1 + name.length
      let pad := (4 - (p + size) % 4) % 4
      v.countPass fuel (p + size + pad) (len - p - size - pad) (k + 1)) ∧
    (v.copyPass (fuel + 1) p (len - p : ℤ) = v.readName v.acc (p + rdhsize) >>= fun name =>
      let size := rdhsize + 1 + name.length
      let pad := (4 - (p + size) % 4) % 4
      v.copyPass fuel (p + size + pad) (len - p - size - pad) >>= fun rest =>
        .ok (((h.bytes.drop p).take rdhsize ++ name) :: rest.1, rest.2)) := by
  have hnine : rdhsize = 9 := rfl
  obtain ⟨hp, hskip, hend⟩ := hentry
  have hshort : ¬ (len - p : ℤ) < rdhsize := by omega
  refine ⟨?_, ?_⟩
  · rw [DirBuf.countPass, if_neg hshort, hv.read (by omega)]
    exact (if_neg hskip).trans (if_neg hend)
  · rw [DirBuf.copyPass, if_neg hshort, hv.read (by omega), hv.readBytes (by omega)]
    exact (if_neg hskip).trans (if_neg hend)

/-- The copy of an entry has what the list has. -/
theorem direntOf_copy {bytes name : ByteString} {p : ℕ} (hp : p + rdhsize ≤ bytes.length) :
    direntOf ((bytes.drop p).take rdhsize ++ name) =
      ⟨long bytes p, long bytes (p + 4), bytes.getD (p + 8) 0, name⟩ := by
  have hlen : ((bytes.drop p).take rdhsize).length = rdhsize := by
    rw [List.length_take, List.length_drop]
    omega
  have hget : ∀ i, i < rdhsize →
      ((bytes.drop p).take rdhsize ++ name).getD i 0 = bytes.getD (p + i) 0 := by
    intro i hi
    rw [List.getD_eq_getElem?_getD, List.getElem?_append_left (by omega),
      List.getElem?_take_of_lt hi, List.getElem?_drop, List.getD_eq_getElem?_getD]
  have hnine : rdhsize = 9 := rfl
  have hdrop : ((bytes.drop p).take rdhsize ++ name).drop rdhsize = name := List.drop_left' hlen
  unfold direntOf long
  rw [hdrop]
  simp only [Nat.zero_add]
  rw [hget 0 (by omega), hget 1 (by omega), hget 2 (by omega), hget 3 (by omega), hget 4 (by omega),
    hget (4 + 1) (by omega), hget (4 + 2) (by omega), hget (4 + 3) (by omega), hget 8 (by omega)]
  rfl

/-- The bytes left after an entry. -/
theorem rem_nextEntry (bytes : ByteString) (len p : ℕ) :
    (len - p - (rdhsize + 1 + (cstr (bytes.drop (p + rdhsize))).length : ℕ) -
      ((4 - (p + (rdhsize + 1 + (cstr (bytes.drop (p + rdhsize))).length)) % 4) % 4 : ℕ) : ℤ) =
      len - (nextEntry bytes p : ℕ) := by
  simp only [nextEntry]
  omega

/-- The second pass copies what the pass over the list returns, and neither pass reads beyond it. -/
theorem passes (hv : v.Holds h) (fuel k : ℕ) {len p : ℕ} (hlen : len ≤ h.bytes.length)
    (hnames : NamesEnd h.bytes len p) :
    (∃ r, v.countPass fuel p (len - p : ℤ) k = .ok r) ∧
      ∃ es, v.copyPass fuel p (len - p : ℤ) =
          .ok (es, (readBlock h.bytes fuel p (len - p : ℤ)).2) ∧
        es.map direntOf = (readBlock h.bytes fuel p (len - p : ℤ)).1 := by
  induction fuel generalizing p k with
  | zero => exact ⟨⟨_, rfl⟩, [], rfl, rfl⟩
  | succ fuel ih =>
      by_cases hentry : IsEntry h.bytes len p
      · obtain ⟨hzero, hrest⟩ := namesEnd_iff.mp hnames hentry
        obtain ⟨hcount, hcopy⟩ := hv.passes_of_isEntry fuel k hlen hentry
        have hnine : rdhsize = 9 := rfl
        have hname := hv.readName (n := v.acc) hzero (by
          rw [hv.acc]
          omega)
        obtain ⟨⟨r, hr⟩, es, hes, hmap⟩ := ih (k + 1) hrest
        rw [hname] at hcount hcopy
        rw [← rem_nextEntry] at hr hes hmap
        refine ⟨⟨r, hcount.trans hr⟩,
          ((h.bytes.drop p).take rdhsize ++ cstr (h.bytes.drop (p + rdhsize))) :: es, ?_, ?_⟩
        all_goals
          obtain ⟨hp, hskip, hend⟩ := hentry
          rw [readBlock, if_neg (by omega)]
          simp only [if_neg hskip, if_neg hend]
        · rw [hcopy]
          show (v.copyPass fuel (nextEntry h.bytes p) _ >>= _) = _
          rw [hes]
          rfl
        · rw [List.map_cons, direntOf_copy (by omega), hmap]
          rfl
      · obtain ⟨hcount, hcopy, hnil⟩ := hv.passes_of_not_isEntry (fuel + 1) k hlen hentry
        exact ⟨hcount, [], hcopy, hnil.symm⟩

/-- A name without a NUL is a fault of the second pass, if the first one gets past it. -/
theorem copyPass_unreceived (hv : v.Holds h) (fuel : ℕ) {len p : ℕ} (hlen : len ≤ h.bytes.length)
    (hfuel : len < p + fuel) (hnames : ¬ NamesEnd h.bytes len p) :
    v.copyPass fuel p (len - p : ℤ) = .error .unreceived := by
  induction fuel generalizing p with
  | zero =>
      refine absurd (namesEnd_iff.mpr fun hentry => ?_) hnames
      have := hentry.1
      omega
  | succ fuel ih =>
      have hentry : IsEntry h.bytes len p := by
        by_contra hentry
        exact hnames (namesEnd_iff.mpr fun h => absurd h hentry)
      have hcopy := (hv.passes_of_isEntry fuel 0 hlen hentry).2
      have hnine : rdhsize = 9 := rfl
      by_cases hzero : 0 ∈ h.bytes.drop (p + rdhsize)
      · have hrest : ¬ NamesEnd h.bytes len (nextEntry h.bytes p) := fun hrest =>
          hnames (namesEnd_iff.mpr fun _ => ⟨hzero, hrest⟩)
        have hname := hv.readName (n := v.acc) hzero (by
          rw [hv.acc]
          omega)
        have hnext : len < nextEntry h.bytes p + fuel := by
          simp only [nextEntry]
          omega
        have hfault := ih hnext hrest
        rw [hname] at hcopy
        rw [← rem_nextEntry] at hfault
        rw [hcopy]
        show (v.copyPass fuel (nextEntry h.bytes p) _ >>= _) = _
        rw [hfault]
        rfl
      · rw [hcopy, hv.readName_unreceived hzero]
        rfl

end DirBuf.Holds

/-! ## Rounds -/

namespace DirBuf.Holds

variable {v : DirBuf} {h : DirHeld}

theorem start (stack : Mem) : (DirBuf.start stack).Holds DirHeld.start where
  acc := rfl
  buf _ hi := absurd hi (Nat.not_lt_zero _)
  atEof := rfl
  dirblocksize := rfl

theorem receive (hv : v.Holds h) (ub : Ubuf) : (v.receive ub).Holds (h.receive ub) where
  acc := by
    simp [DirBuf.receive, DirHeld.receive, DirHeld.payload, chunk, hv.acc]
  buf i hi := by
    have hacc := hv.acc
    show memcpy v.buf v.acc (fun j => ub.buf.getD j 0) ub.bbLen.toNat i =
      (h.bytes ++ DirHeld.payload ub).getD i 0
    have hlen : (h.bytes ++ DirHeld.payload ub).length = h.bytes.length + ub.bbLen.toNat := by
      simp [DirHeld.payload, chunk]
    have hi : i < h.bytes.length + ub.bbLen.toNat := hlen ▸ hi
    rw [memcpy, List.getD_eq_getElem?_getD (l := h.bytes ++ _)]
    rcases Nat.lt_or_ge i h.bytes.length with hold | hnew
    · rw [if_neg (by omega), hv.buf i hold, List.getElem?_append_left hold,
        List.getD_eq_getElem?_getD]
    · rw [if_pos (by omega), List.getElem?_append_right hnew, hacc]
      simp [DirHeld.payload, chunk, show i - h.bytes.length < ub.bbLen.toNat by omega]
  atEof := by
    show (v.atEof || (v.dirblocksize != 0 && decide (ub.bbLen.toNat < v.dirblocksize))) = _
    rw [hv.atEof, hv.dirblocksize]
    rfl
  dirblocksize := by
    show (if v.dirblocksize = 0 then ub.bbLen.toNat else v.dirblocksize) = _
    rw [hv.dirblocksize]
    rfl

theorem shift (hv : v.Holds h) (es : List ByteString) :
    (v.shift es).Holds { h with bytes := h.bytes.drop h.dirblocksize } where
  acc := by
    show v.acc - v.dirblocksize = _
    rw [List.length_drop, hv.acc, hv.dirblocksize]
  buf i hi := by
    have hi : i < h.bytes.length - h.dirblocksize := List.length_drop ▸ hi
    show memcpy v.buf 0 (fun j => v.buf (v.dirblocksize + j)) (v.acc - v.dirblocksize) i =
      (h.bytes.drop h.dirblocksize).getD i 0
    rw [memcpy, if_pos ⟨Nat.zero_le i, by rw [hv.acc, hv.dirblocksize]; omega⟩, Nat.sub_zero,
      hv.dirblocksize, hv.buf _ (by omega), List.getD_eq_getElem?_getD, List.getD_eq_getElem?_getD,
      List.getElem?_drop]
  atEof := hv.atEof
  dirblocksize := hv.dirblocksize

theorem more_iff (hv : v.Holds h) : v.acc < ubufMaxspace ∧ ¬ v.atEof ↔ h.More := by
  rw [hv.acc, hv.atEof]
  rfl

theorem min_eq (hv : v.Holds h) : min v.acc v.dirblocksize = h.len := by
  rw [hv.acc, hv.dirblocksize]
  rfl

end DirBuf.Holds

/-- The next round goes well. -/
structure DirHeld.Good (h : DirHeld) (replies : List Ubuf) : Prop where
  room : ∀ ub rest, replies = ub :: rest → h.More → ub.cmd ≠ ccErr →
    ub.bbLen.toNat ≤ nbsize - h.bytes.length
  names : ¬ h.More → NamesEnd h.bytes h.len 0

section

variable {v : DirBuf} {h : DirHeld} {replies : List Ubuf}

/-- A round that takes in a reply. -/
theorem DirBuf.step_more (ub : Ubuf) (hmore : v.acc < ubufMaxspace ∧ ¬ v.atEof) :
    DirBuf.step (v, ub :: replies) =
      if ub.cmd = ccErr then .ok none
      else if nbsize < v.acc + ub.bbLen.toNat then .error .full
      else .ok (some (v.receive ub, replies)) := if_pos hmore

/-- A round that reads a block. -/
theorem DirBuf.step_block (hmore : ¬ (v.acc < ubufMaxspace ∧ ¬ v.atEof)) :
    DirBuf.step (v, replies) =
      (v.countPass (min v.acc v.dirblocksize + 1) 0 (min v.acc v.dirblocksize : ℕ) 0 >>= fun _ =>
        v.copyPass (min v.acc v.dirblocksize + 1) 0 (min v.acc v.dirblocksize : ℕ) >>= fun r =>
          if r.2 = .done ∨ v.acc < v.dirblocksize then .ok none
          else .ok (some (v.shift r.1, replies))) := if_neg hmore

/-- A good round does the same to the memory and to the bytes. -/
theorem DirBuf.Holds.step (hv : v.Holds h) (hacc : v.acc ≤ nbsize) (hgood : h.Good replies) :
    (DirBuf.step (v, replies) = .ok none ∧ DirHeld.step (h, replies) = none) ∨
      ∃ v' h' replies', DirBuf.step (v, replies) = .ok (some (v', replies')) ∧
        DirHeld.step (h, replies) = some (h', replies') ∧ v'.Holds h' ∧ v'.acc ≤ nbsize := by
  by_cases hmore : h.More
  · have hmore' := hv.more_iff.mpr hmore
    cases replies with
    | nil => exact Or.inl ⟨if_pos hmore', if_pos hmore⟩
    | cons ub rest =>
        have hheld : DirHeld.step (h, ub :: rest) =
            if ub.cmd = ccErr then none else some (h.receive ub, rest) := if_pos hmore
        rw [DirBuf.step_more ub hmore', hheld]
        by_cases herr : ub.cmd = ccErr
        · rw [if_pos herr, if_pos herr]
          exact Or.inl ⟨rfl, rfl⟩
        · have hroom := hgood.room ub rest rfl hmore herr
          have hle : v.acc + ub.bbLen.toNat ≤ nbsize := by
            have := hv.acc
            omega
          rw [if_neg herr, if_neg herr, if_neg (by omega)]
          exact Or.inr ⟨_, _, _, rfl, rfl, hv.receive ub, hle⟩
  · have hmore' : ¬ (v.acc < ubufMaxspace ∧ ¬ v.atEof) := fun hm => hmore (hv.more_iff.mp hm)
    have hle : h.len ≤ h.bytes.length := Nat.min_le_left _ _
    have hzero : ((h.len : ℕ) : ℤ) = (h.len : ℤ) - (0 : ℕ) := by omega
    obtain ⟨⟨r, hr⟩, es, hes, -⟩ := hv.passes (h.len + 1) 0 hle (hgood.names hmore)
    rw [← hzero] at hr hes
    have hheld : DirHeld.step (h, replies) =
        if (readBlock h.bytes (h.len + 1) 0 h.len).2 = .done ∨
          h.bytes.length < h.dirblocksize then none
        else some ({ h with bytes := h.bytes.drop h.dirblocksize }, replies) := if_neg hmore
    rw [DirBuf.step_block hmore', hheld, hv.min_eq, hr]
    show ((v.copyPass (h.len + 1) 0 (h.len : ℕ) >>= _) = _ ∧ _) ∨ _
    rw [hes]
    by_cases hlast : (readBlock h.bytes (h.len + 1) 0 h.len).2 = .done ∨
        h.bytes.length < h.dirblocksize
    · have hlast' : (readBlock h.bytes (h.len + 1) 0 h.len).2 = .done ∨ v.acc < v.dirblocksize := by
        rw [hv.acc, hv.dirblocksize]
        exact hlast
      rw [if_pos hlast]
      exact Or.inl ⟨if_pos hlast', rfl⟩
    · have hlast' : ¬ ((readBlock h.bytes (h.len + 1) 0 h.len).2 = .done ∨
          v.acc < v.dirblocksize) := by
        rw [hv.acc, hv.dirblocksize]
        exact hlast
      rw [if_neg hlast]
      refine Or.inr ⟨v.shift es, _, _, if_neg hlast', rfl, hv.shift es, ?_⟩
      exact (Nat.sub_le _ _).trans hacc

/-- Any other round is a fault. -/
theorem DirBuf.Holds.fault (hv : v.Holds h) (hacc : v.acc ≤ nbsize) (hgood : ¬ h.Good replies) :
    ∃ f, DirBuf.step (v, replies) = .error f := by
  by_cases hmore : h.More
  · have hmore' := hv.more_iff.mpr hmore
    have hroom : ∃ ub rest, replies = ub :: rest ∧ ub.cmd ≠ ccErr ∧
        nbsize - h.bytes.length < ub.bbLen.toNat := by
      by_contra hroom
      refine hgood ⟨fun ub rest heq _ herr => ?_, fun h => absurd hmore h⟩
      by_contra hlt
      exact hroom ⟨ub, rest, heq, herr, not_le.mp hlt⟩
    obtain ⟨ub, rest, rfl, herr, hlt⟩ := hroom
    have hfull : nbsize < v.acc + ub.bbLen.toNat := by
      have := hv.acc
      omega
    rw [DirBuf.step_more ub hmore', if_neg herr, if_pos hfull]
    exact ⟨_, rfl⟩
  · have hmore' : ¬ (v.acc < ubufMaxspace ∧ ¬ v.atEof) := fun hm => hmore (hv.more_iff.mp hm)
    have hnames : ¬ NamesEnd h.bytes h.len 0 := fun hnames =>
      hgood ⟨fun _ _ _ h => absurd h hmore, fun _ => hnames⟩
    have hle : h.len ≤ h.bytes.length := Nat.min_le_left _ _
    have hzero : ((h.len : ℕ) : ℤ) = (h.len : ℤ) - (0 : ℕ) := by omega
    have hcopy := hv.copyPass_unreceived (h.len + 1) hle (by omega) hnames
    rw [← hzero] at hcopy
    rw [DirBuf.step_block hmore', hv.min_eq]
    cases v.countPass (h.len + 1) 0 (h.len : ℕ) 0 with
    | error f => exact ⟨f, rfl⟩
    | ok r =>
        refine ⟨.unreceived, ?_⟩
        show (v.copyPass (h.len + 1) 0 (h.len : ℕ) >>= _) = _
        rw [hcopy]
        rfl

end

/-! ## Runs -/

section

variable {stack : Mem} {replies : List Ubuf}

theorem Decodable.good (h : Decodable replies) {a : DirHeld × List Ubuf}
    (ha : DirHeld.Reaches replies a) : a.1.Good a.2 where
  room ub rest heq := by
    obtain ⟨held, rs⟩ := a
    subst heq
    exact h.room held ub rest ha
  names := h.names a.1 a.2 ha

/-- As long as all goes well, the memory holds the bytes. -/
theorem Decodable.holds (h : Decodable replies) {s : DirBuf × List Ubuf}
    (hs : DirBuf.Reaches stack replies s) :
    ∃ held, DirHeld.Reaches replies (held, s.2) ∧ s.1.Holds held ∧ s.1.acc ≤ nbsize := by
  induction hs with
  | refl => exact ⟨.start, .refl, .start stack, Nat.zero_le _⟩
  | @tail s s' _ hstep ih =>
      obtain ⟨held, hreach, hholds, hacc⟩ := ih
      rcases hholds.step hacc (h.good hreach) with ⟨hnone, -⟩ | ⟨v', h', rs, hv', hh', hholds', hacc'⟩
      · rw [hnone] at hstep
        cases hstep
      · rw [hv'] at hstep
        cases hstep
        exact ⟨h', hreach.tail hh', hholds', hacc'⟩

theorem StaysInside.held (h : StaysInside stack replies) {a : DirHeld × List Ubuf}
    (ha : DirHeld.Reaches replies a) :
    ∃ v, DirBuf.Reaches stack replies (v, a.2) ∧ v.Holds a.1 := by
  induction ha with
  | refl => exact ⟨_, .refl, .start stack⟩
  | @tail a a' _ hstep ih =>
      obtain ⟨v, hreach, hholds⟩ := ih
      have hacc := h.acc_le _ hreach
      have hgood : a.1.Good a.2 := by
        by_contra hbad
        obtain ⟨f, hf⟩ := hholds.fault hacc hbad
        exact h.no_fault _ hreach f hf
      rcases hholds.step hacc hgood with ⟨-, hnone⟩ | ⟨v', h', rs, hv', hh', hholds', -⟩
      · rw [hnone] at hstep
        cases hstep
      · rw [hh'] at hstep
        cases hstep
        exact ⟨v', hreach.tail hv', hholds'⟩

/-- `get_dir_blk` stays inside its buffer if and only if the replies fit and their names end. -/
theorem staysInside_iff (stack : Mem) (replies : List Ubuf) :
    StaysInside stack replies ↔ Decodable replies := by
  constructor
  · intro h
    have hgood : ∀ a, DirHeld.Reaches replies a → a.1.Good a.2 := by
      intro a ha
      obtain ⟨v, hreach, hholds⟩ := h.held ha
      by_contra hbad
      obtain ⟨f, hf⟩ := hholds.fault (h.acc_le _ hreach) hbad
      exact h.no_fault _ hreach f hf
    exact ⟨fun held ub rest ha => (hgood _ ha).room ub rest rfl, fun held rest ha =>
      (hgood _ ha).names⟩
  · intro h
    refine ⟨fun s hs => ?_, fun s hs f hf => ?_⟩
    · obtain ⟨held, -, -, hacc⟩ := h.holds hs
      exact hacc
    · obtain ⟨held, hreach, hholds, hacc⟩ := h.holds hs
      rcases hholds.step hacc (h.good hreach) with ⟨hnone, -⟩ | ⟨v', h', rs, hv', -⟩
      · rw [hnone] at hf
        cases hf
      · rw [hv'] at hf
        cases hf

/-- The replies that are left are some of those that arrive. -/
theorem DirHeld.mem_of_reaches {a : DirHeld × List Ubuf} (ha : DirHeld.Reaches replies a) {ub : Ubuf}
    (hub : ub ∈ a.2) : ub ∈ replies := by
  induction ha with
  | refl => exact hub
  | @tail a a' _ hstep ih =>
      obtain ⟨h, rs⟩ := a
      apply ih
      by_cases hmore : h.More
      · cases rs with
        | nil =>
            have hnone : DirHeld.step (h, []) = none := if_pos hmore
            rw [hnone] at hstep
            cases hstep
        | cons ub' rs =>
            have hheld : DirHeld.step (h, ub' :: rs) =
                if ub'.cmd = ccErr then none else some (h.receive ub', rs) := if_pos hmore
            rw [hheld] at hstep
            split at hstep
            · cases hstep
            · cases hstep
              exact List.mem_cons_of_mem _ hub
      · have hheld : DirHeld.step (h, rs) =
            if (readBlock h.bytes (h.len + 1) 0 h.len).2 = .done ∨
              h.bytes.length < h.dirblocksize then none
            else some ({ h with bytes := h.bytes.drop h.dirblocksize }, rs) := if_neg hmore
        rw [hheld] at hstep
        split at hstep
        · cases hstep
        · cases hstep
          exact hub

/-- Replies of at most 1025 bytes always fit. -/
theorem decodable_of_le (hsize : ∀ ub ∈ replies, ub.bbLen.toNat ≤ 1025)
    (hnames : ∀ h rest, DirHeld.Reaches replies (h, rest) → ¬ h.More → NamesEnd h.bytes h.len 0) :
    Decodable replies where
  room h ub rest hreach hmore _ := by
    have hle := hsize ub (DirHeld.mem_of_reaches hreach List.mem_cons_self)
    have hless := hmore.1
    have hmax : ubufMaxspace = 4380 := rfl
    have hsize : nbsize = 5404 := rfl
    omega
  names := hnames

end

/-- A block of 1452 bytes, which is what an Ethernet frame has room for. -/
def frameReply : Ubuf := ⟨ccGetDir, 0, 0, 0, 0, 1452, 0, List.replicate 1452 0⟩

/-- The buffer after `n` such blocks. -/
def framesBuf : ℕ → DirBuf
  | 0 => .start fun _ => 0
  | n + 1 => (framesBuf n).receive frameReply

/-- The fourth such block does not fit. -/
theorem frames_not_staysInside : ¬ StaysInside (fun _ => 0) (List.replicate 4 frameReply) := by
  intro h
  have hreach : DirBuf.Reaches (fun _ => 0) (List.replicate 4 frameReply)
      (framesBuf 3, [frameReply]) := by
    have hfirst : DirBuf.step (framesBuf 0, List.replicate 4 frameReply) =
        .ok (some (framesBuf 1, List.replicate 3 frameReply)) := rfl
    have hsecond : DirBuf.step (framesBuf 1, List.replicate 3 frameReply) =
        .ok (some (framesBuf 2, List.replicate 2 frameReply)) := rfl
    have hthird : DirBuf.step (framesBuf 2, List.replicate 2 frameReply) =
        .ok (some (framesBuf 3, [frameReply])) := rfl
    exact .tail (.tail (.tail .refl hfirst) hsecond) hthird
  exact h.no_fault _ hreach .full rfl

end Fsp
