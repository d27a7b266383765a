import Fsp.Server.File
import Mathlib.Data.List.Forall2

/-!
# The layout of a directory listing

`build_dir_listing` packs entries of varying length into blocks of 1024 bytes.  `Lays es bytes`
says that `bytes` hold the entries `es`, each padded to a multiple of four; a full block is such a
run with filler behind it, and the last block is one with a final entry behind it.  What the
padding bytes are is left open, since they are what the buffer held before.
-/

namespace Fsp

open Bytes

/-- What the listing says about an object. -/
abbrev Entry := ByteString × Stat

/-- How far an entry is padded. -/
def skipLen (name : ByteString) : ℕ := (4 - (name.length + 1 + rdhsize) % 4) % 4

/-- `bytes` hold the entries `es`. -/
inductive Lays : List Entry → ByteString → Prop
  | nil : Lays [] []
  | cons {name : ByteString} {sb : Stat} {es : List Entry} {pad bytes : ByteString} :
      pad.length = skipLen name → Lays es bytes →
        Lays ((name, sb) :: es) (direntBytes name sb ++ pad ++ bytes)

theorem length_direntBytes (name : ByteString) (sb : Stat) :
    (direntBytes name sb).length = rdhsize + (name.length + 1) := by
  simp [direntBytes, rdhsize]
  omega

theorem Lays.append {es es' : List Entry} {bytes bytes' : ByteString} (h : Lays es bytes)
    (h' : Lays es' bytes') : Lays (es ++ es') (bytes ++ bytes') := by
  induction h with
  | nil => exact h'
  | cons hpad _ ih =>
      rw [List.append_assoc, List.cons_append]
      exact .cons hpad ih

theorem Lays.length_mod {es : List Entry} {bytes : ByteString} (h : Lays es bytes) :
    bytes.length % 4 = 0 := by
  induction h with
  | nil => rfl
  | cons hpad _ ih =>
      simp only [List.length_append, length_direntBytes, hpad, skipLen, rdhsize]
      omega

/-- Entries take twelve bytes at least. -/
theorem Lays.length_le {es : List Entry} {bytes : ByteString} (h : Lays es bytes) :
    12 * es.length ≤ bytes.length := by
  induction h with
  | nil => simp
  | cons hpad _ ih =>
      simp only [List.length_append, length_direntBytes, hpad, skipLen, rdhsize, List.length_cons]
      omega

/-- A block of `size` bytes that was closed because the next entry did not fit. -/
def FullBlockOf (size : ℕ) (es : List Entry) (block : ByteString) : Prop :=
  ∃ bytes n, block = bytes ++ List.replicate n rdtypeSkip ∧ Lays es bytes ∧ block.length = size

/-- A block of `size` bytes at most with the final entry. -/
def LastBlockOf (size : ℕ) (es : List Entry) (block : ByteString) : Prop :=
  ∃ bytes stale, block = bytes ++ stale ++ [rdtypeEnd] ∧ Lays es bytes ∧
    stale.length = rdhsize - 1 ∧ block.length ≤ size

/-- A listing of blocks of `size` bytes, each with its entries. -/
structure BlocksOf (size : ℕ) (groups : List (List Entry)) (last : List Entry)
    (blocks : List ByteString) (lastBlock : ByteString) : Prop where
  full : List.Forall₂ (FullBlockOf size) groups blocks
  last : LastBlockOf size last lastBlock

/-- A listing of blocks as large as those of this server. -/
abbrev Blocks : List (List Entry) → List Entry → List ByteString → ByteString → Prop :=
  BlocksOf ubufSpace

/-! ## Building a listing

The invariant of the loop: the blocks appended so far hold the entries of `groups`, and the buffer
those of `cur`. -/

/-- The invariant for blocks of `size` bytes. -/
structure BuildingOf (size : ℕ) (v : ListingState) (groups : List (List Entry))
    (cur : List Entry) : Prop where
  buffer : v.buffer.length = ubufSpace
  bufpos : v.bufpos ≤ size
  rem : v.rem.toNat = size - v.bufpos
  cur : Lays cur (v.buffer.take v.bufpos)
  listing : ∃ blocks : List ByteString, v.listing = blocks.flatten ∧
    List.Forall₂ (FullBlockOf size) groups blocks

section

variable {size : ℕ} {v : ListingState} {groups : List (List Entry)} {cur : List Entry}

theorem BuildingOf.bufpos_mod (hsize : size ≤ ubufSpace) (h : BuildingOf size v groups cur) :
    v.bufpos % 4 = 0 := by
  have := h.cur.length_mod
  rw [List.length_take, h.buffer, Nat.min_eq_left (h.bufpos.trans hsize)] at this
  exact this

theorem toNat_ofNat_size (hsize : size ≤ ubufSpace) : (UInt32.ofNat size).toNat = size := by
  have hspace : ubufSpace = 1024 := rfl
  rw [UInt32.toNat_ofNat', Nat.mod_eq_of_lt (by omega)]

/-- An empty buffer begins a block. -/
theorem buildingOf_start (hsize : size ≤ ubufSpace) (buffer : ByteString)
    (h : buffer.length = ubufSpace) {blocks : List ByteString}
    (hblocks : List.Forall₂ (FullBlockOf size) groups blocks) :
    BuildingOf size ⟨blocks.flatten, buffer, 0, UInt32.ofNat size⟩ groups [] where
  buffer := h
  bufpos := Nat.zero_le _
  rem := toNat_ofNat_size hsize
  cur := by
    rw [List.take_zero]
    exact .nil
  listing := ⟨blocks, rfl, hblocks⟩

theorem buildingOf_flushBlock (hsize : size ≤ ubufSpace) (h : BuildingOf size v groups cur) :
    BuildingOf size (flushBlock size v) (groups ++ [cur]) [] := by
  obtain ⟨blocks, hlisting, hblocks⟩ := h.listing
  have hpos := h.bufpos
  have hfits : v.bufpos + (List.replicate v.rem.toNat rdtypeSkip).length = size := by
    rw [List.length_replicate, h.rem]
    omega
  have hlen := length_splice (l := v.buffer) (i := v.bufpos)
    (b := List.replicate v.rem.toNat rdtypeSkip) (by rw [hfits, h.buffer]; exact hsize)
  rw [h.buffer] at hlen
  have hblock : (splice v.buffer v.bufpos (List.replicate v.rem.toNat rdtypeSkip)).take size =
      v.buffer.take v.bufpos ++ List.replicate v.rem.toNat rdtypeSkip := by
    conv_lhs => rw [← hfits]
    exact take_splice (by rw [h.buffer]; exact hpos.trans hsize)
  have hfull : FullBlockOf size cur
      ((splice v.buffer v.bufpos (List.replicate v.rem.toNat rdtypeSkip)).take size) := by
    refine ⟨_, _, hblock, h.cur, ?_⟩
    rw [List.length_take, hlen, Nat.min_eq_left hsize]
  have := buildingOf_start hsize _ hlen
    (List.rel_append hblocks (List.Forall₂.cons hfull .nil))
  rw [List.flatten_append, ← hlisting] at this
  simpa [flushBlock] using this

/-- Appending an entry that fits with its padding. -/
theorem buildingOf_addDirent_fits (hsize : size ≤ ubufSpace) (h : BuildingOf size v groups cur)
    (name : ByteString) (sb : Stat)
    (hfits : v.bufpos + (rdhsize + (name.length + 1) + skipLen name) ≤ size) :
    ∃ v', addDirent size v name sb = some v' ∧ BuildingOf size v' groups (cur ++ [(name, sb)]) ∧
      v'.bufpos = v.bufpos + (rdhsize + (name.length + 1) + skipLen name) := by
  have hpos := h.bufpos
  have hrem := h.rem
  have hspace : ubufSpace = 1024 := rfl
  have hhsize : rdhsize = 9 := rfl
  have hdlen := length_direntBytes name sb
  have hbuffer := length_splice (l := v.buffer) (i := v.bufpos) (b := direntBytes name sb)
    (by rw [hdlen, h.buffer]; omega)
  refine ⟨{ v with
    buffer := splice v.buffer v.bufpos (direntBytes name sb)
    bufpos := v.bufpos + (rdhsize + (name.length + 1) + skipLen name)
    rem := v.rem - UInt32.ofNat (rdhsize + (name.length + 1)) - UInt32.ofNat (skipLen name) },
    ?_, ?_, rfl⟩
  · have hroom : ¬ v.rem.toNat < rdhsize + (name.length + 1) := by omega
    unfold addDirent
    simp only
    rw [if_neg hroom, if_neg (by omega)]
    rfl
  · refine ⟨by rw [hbuffer, h.buffer], hfits, ?_, ?_, h.listing⟩
    · have hsub : ∀ (a b : UInt32), b.toNat ≤ a.toNat → (a - b).toNat = a.toNat - b.toNat :=
        fun a b hab => UInt32.toNat_sub_of_le a b (UInt32.le_iff_toNat_le.mpr hab)
      have hn : (UInt32.ofNat (rdhsize + (name.length + 1))).toNat = rdhsize + (name.length + 1) := by
        rw [UInt32.toNat_ofNat']
        omega
      have hs : (UInt32.ofNat (skipLen name)).toNat = skipLen name := by
        rw [UInt32.toNat_ofNat']
        omega
      have h₁ := hsub v.rem (UInt32.ofNat (rdhsize + (name.length + 1))) (by rw [hn]; omega)
      have h₂ := hsub (v.rem - UInt32.ofNat (rdhsize + (name.length + 1)))
        (UInt32.ofNat (skipLen name)) (by rw [h₁, hn, hs]; omega)
      simp only
      rw [h₂, h₁, hn, hs]
      omega
    · simp only
      -- the bytes of the padding are what the buffer held before
      have htake : (splice v.buffer v.bufpos (direntBytes name sb)).take
            (v.bufpos + (rdhsize + (name.length + 1) + skipLen name)) =
          v.buffer.take v.bufpos ++ (direntBytes name sb ++
            (v.buffer.drop (v.bufpos + (direntBytes name sb).length)).take (skipLen name) ++ []) := by
        have hle : v.bufpos ≤ v.buffer.length := by rw [h.buffer]; exact hpos.trans hsize
        rw [← hdlen, ← Nat.add_assoc, List.take_add, take_splice hle, drop_splice hle,
          List.append_nil, List.append_assoc]
      rw [htake]
      refine h.cur.append (.cons ?_ .nil)
      rw [List.length_take, List.length_drop, h.buffer, hdlen]
      omega

/-- Where an entry does not fit, it goes into a new block. -/
theorem addDirent_flushBlock (hsize : size ≤ ubufSpace) {name : ByteString} (sb : Stat)
    (hfull : v.rem.toNat < rdhsize + (name.length + 1))
    (hfits : rdhsize + (name.length + 1) ≤ size) :
    addDirent size v name sb = addDirent size (flushBlock size v) name sb := by
  have hrem : (flushBlock size v).rem.toNat = size := toNat_ofNat_size hsize
  have hroom : ¬ (flushBlock size v).rem.toNat < rdhsize + (name.length + 1) := by omega
  unfold addDirent
  simp only
  rw [if_pos hfull, if_neg hroom]

/-- The final entry, behind the others or in a block of its own. -/
theorem buildingOf_finishListing (hsize : size ≤ ubufSpace) (hhsize : rdhsize ≤ size)
    (h : BuildingOf size v groups cur) :
    ∃ groups' last blocks lastBlock, BlocksOf size groups' last blocks lastBlock ∧
      finishListing size v = some (blocks.flatten ++ lastBlock) ∧
      groups'.flatten ++ last = groups.flatten ++ cur := by
  -- what happens once there is space for the final entry
  have hlast : ∀ {v groups cur}, BuildingOf size v groups cur → rdhsize ≤ v.rem.toNat →
      ∃ blocks lastBlock, BlocksOf size groups cur blocks lastBlock ∧
        v.listing ++ (splice v.buffer (v.bufpos + 8) [rdtypeEnd]).take (v.bufpos + rdhsize) =
          blocks.flatten ++ lastBlock ∧ v.bufpos + rdhsize ≤ ubufSpace := by
    intro v groups cur h hfits
    obtain ⟨blocks, hlisting, hblocks⟩ := h.listing
    have hpos := h.bufpos
    have hnine : rdhsize = 9 := rfl
    have hbuffer := h.buffer
    rw [h.rem] at hfits
    have htake : (splice v.buffer (v.bufpos + 8) [rdtypeEnd]).take (v.bufpos + rdhsize) =
        v.buffer.take v.bufpos ++ (v.buffer.drop v.bufpos).take 8 ++ [rdtypeEnd] := by
      have := take_splice (l := v.buffer) (i := v.bufpos + 8) (b := [rdtypeEnd]) (by omega)
      rw [List.length_singleton, Nat.add_assoc] at this
      rw [hnine, this, List.take_add]
    refine ⟨blocks, _, ⟨hblocks, _, _, htake, h.cur, ?_, ?_⟩, by rw [hlisting], by omega⟩
    · rw [List.length_take, List.length_drop, hnine]
      omega
    · rw [List.length_take]
      omega
  unfold finishListing
  simp only
  by_cases hfits : v.rem.toNat < rdhsize
  · rw [if_pos hfits]
    have hflush := buildingOf_flushBlock hsize h
    have hrem : (flushBlock size v).rem.toNat = size := toNat_ofNat_size hsize
    obtain ⟨blocks, lastBlock, hb, heq, hle⟩ := hlast hflush (by rw [hrem]; exact hhsize)
    refine ⟨_, _, blocks, lastBlock, hb, ?_, by simp⟩
    rw [if_neg (by omega), heq]
  · rw [if_neg hfits]
    obtain ⟨blocks, lastBlock, hb, heq, hle⟩ := hlast h (by omega)
    refine ⟨_, _, blocks, lastBlock, hb, ?_, rfl⟩
    rw [if_neg (by omega), heq]

end

/-! ### Blocks of 1024 bytes -/

/-- The invariant for these. -/
abbrev Building : ListingState → List (List Entry) → List Entry → Prop := BuildingOf ubufSpace

/-- A name of at most 255 bytes, none of them zero. -/
structure ProperName (name : ByteString) : Prop where
  length_le : name.length ≤ 255
  zero_notMem : (0 : UInt8) ∉ name

/-- Appending an entry that fits. -/
theorem building_addDirent_fits {v : ListingState} {groups : List (List Entry)} {cur : List Entry}
    (h : Building v groups cur) (name : ByteString) (sb : Stat)
    (hfits : rdhsize + (name.length + 1) ≤ v.rem.toNat) :
    ∃ v', addDirent ubufSpace v name sb = some v' ∧ Building v' groups (cur ++ [(name, sb)]) := by
  have hpos := h.bufpos
  have hmod := BuildingOf.bufpos_mod le_rfl h
  have hrem := h.rem
  have hspace : ubufSpace = 1024 := rfl
  have hhsize : rdhsize = 9 := rfl
  rw [hrem] at hfits
  -- the size of the block and the position are multiples of four
  have hend : v.bufpos + (rdhsize + (name.length + 1) + skipLen name) ≤ ubufSpace := by
    simp only [skipLen] at *
    omega
  obtain ⟨v', hv', hb, -⟩ := buildingOf_addDirent_fits le_rfl h name sb hend
  exact ⟨v', hv', hb⟩

/-- Appending an entry, perhaps in a new block. -/
theorem building_addDirent {v : ListingState} {groups : List (List Entry)} {cur : List Entry}
    (h : Building v groups cur) {name : ByteString} (hname : name.length ≤ 255) (sb : Stat) :
    ∃ v' groups' cur', addDirent ubufSpace v name sb = some v' ∧ Building v' groups' cur' ∧
      groups'.flatten ++ cur' = groups.flatten ++ cur ++ [(name, sb)] := by
  by_cases hfits : rdhsize + (name.length + 1) ≤ v.rem.toNat
  · obtain ⟨v', hv', hb⟩ := building_addDirent_fits h name sb hfits
    exact ⟨v', _, _, hv', hb, by rw [List.append_assoc]⟩
  · have hflush := buildingOf_flushBlock le_rfl h
    obtain ⟨v', hv', hb⟩ := building_addDirent_fits hflush name sb
      (by simp [flushBlock, rdhsize, ubufSpace]; omega)
    refine ⟨v', _, _, ?_, hb, by simp⟩
    rw [← hv']
    exact addDirent_flushBlock le_rfl sb (by omega) (by simp [rdhsize, ubufSpace]; omega)

theorem building_addDirents {v : ListingState} {groups : List (List Entry)} {cur : List Entry}
    (h : Building v groups cur) {entries : List Entry}
    (hnames : ∀ e ∈ entries, e.1.length ≤ 255) :
    ∃ v' groups' cur', addDirents ubufSpace v entries = some v' ∧ Building v' groups' cur' ∧
      groups'.flatten ++ cur' = groups.flatten ++ cur ++ entries := by
  induction entries generalizing v groups cur with
  | nil => exact ⟨v, groups, cur, rfl, h, by simp⟩
  | cons e entries ih =>
      obtain ⟨name, sb⟩ := e
      obtain ⟨v₁, groups₁, cur₁, hv₁, hb₁, heq₁⟩ :=
        building_addDirent h (hnames _ List.mem_cons_self) sb
      obtain ⟨v', groups', cur', hv', hb', heq'⟩ :=
        ih hb₁ fun e he => hnames e (List.mem_cons_of_mem _ he)
      refine ⟨v', groups', cur', ?_, hb', ?_⟩
      · rw [addDirents, hv₁]
        exact hv'
      · rw [heq', heq₁]
        simp

theorem properName_of_visible {entries : List (Dirent × Option Stat)}
    (hnames : ∀ e ∈ entries, ProperName e.1.name) :
    ∀ e ∈ entries.filterMap visibleEntry, ProperName e.1 := by
  intro e he
  obtain ⟨⟨dp, sb⟩, hmem, hvis⟩ := List.mem_filterMap.mp he
  have hname := hnames _ hmem
  cases sb with
  | none => cases hvis
  | some sb =>
      simp only [visibleEntry] at hvis
      split at hvis
      · cases hvis
      · injection hvis with hvis
        subst hvis
        exact hname

/-- A listing is built, and it holds the visible entries in order. -/
theorem buildDirListing_blocks {cfg : Config} (hsize : 1024 ≤ cfg.packetsize.toNat)
    {entries : List (Dirent × Option Stat)} (hnames : ∀ e ∈ entries, ProperName e.1.name) :
    ∃ groups last blocks lastBlock, Blocks groups last blocks lastBlock ∧
      buildDirListing cfg entries = some (blocks.flatten ++ lastBlock) ∧
      groups.flatten ++ last = entries.filterMap visibleEntry := by
  have hblock : dirblocksize cfg = ubufSpace := Nat.min_eq_right hsize
  have hvisible : ∀ e ∈ entries.filterMap visibleEntry, e.1.length ≤ 255 :=
    fun e he => (properName_of_visible hnames e he).length_le
  obtain ⟨v, groups, cur, hv, hb, heq⟩ :=
    building_addDirents (buildingOf_start le_rfl (List.replicate ubufSpace 0) (by simp) .nil) hvisible
  obtain ⟨groups', last, blocks, lastBlock, hblocks, hfinish, heq'⟩ :=
    buildingOf_finishListing le_rfl (by decide) hb
  refine ⟨groups', last, blocks, lastBlock, hblocks, ?_, by rw [heq', heq]; simp⟩
  unfold buildDirListing
  simp only [hblock]
  rw [show ([] : List ByteString).flatten = [] from rfl] at hv
  rw [hv]
  exact hfinish

end Fsp
