import Fsp.Scenario
import Fsp.Server.Listing

/-!
# Directory blocks of other sizes

`build_dir_listing` works with blocks of `packetsize` bytes when that is less than 1024.  Between two
entries the write position and `rem` make up the size of a block, and the blocks are made of whole
entries, as long as each entry fits with its padding where it is put (`staysInBlocks_iff`).  The test
before it is put is about the entry without its padding, and it is not made again in a new block, so
this is not so for all sizes: the size of a block has to be a multiple of four, and large enough for
the longest name.  Otherwise `rem` wraps around, no later entry is taken for too long, and the entries
are written past the end of the block.
-/

namespace Fsp

open Bytes

/-- The size of an entry without its padding. -/
def entrySize (name : ByteString) : ℕ := rdhsize + (name.length + 1)

/-- `build_dir_listing` before its first entry. -/
def emptyListing (size : ℕ) : ListingState :=
  ⟨[], List.replicate ubufSpace 0, 0, UInt32.ofNat size⟩

/-- Neither subtraction from `rem` wraps around when an entry is put. -/
def NoWrap (size : ℕ) (v : ListingState) (name : ByteString) : Prop :=
  let v := if v.rem.toNat < entrySize name then flushBlock size v else v
  entrySize name ≤ v.rem.toNat ∧ skipLen name ≤ v.rem.toNat - entrySize name

/-- The blocks of the listing and the one in the buffer are made of whole entries. -/
def WholeEntries (size : ℕ) (past : List Entry) (v : ListingState) : Prop :=
  ∃ (groups : List (List Entry)) (cur : List Entry) (blocks : List ByteString),
    v.listing = blocks.flatten ∧ List.Forall₂ (FullBlockOf size) groups blocks ∧
      Lays cur (v.buffer.take v.bufpos) ∧ groups.flatten ++ cur = past

/-- The arithmetic of `build_dir_listing` on the visible entries `es` stays within a block. -/
structure StaysInBlocks (size : ℕ) (es : List Entry) : Prop where
  /-- Between two entries. -/
  loop : ∀ past later, es = past ++ later → ∃ v, addDirents size (emptyListing size) past = some v ∧
    v.bufpos + v.rem.toNat = size ∧ v.bufpos ≤ size ∧ WholeEntries size past v
  /-- At an entry. -/
  wrap : ∀ past e later v, es = past ++ e :: later →
    addDirents size (emptyListing size) past = some v → NoWrap size v e.1
  /-- At the final entry. -/
  last : ∀ v, addDirents size (emptyListing size) es = some v →
    (if v.rem.toNat < rdhsize then 0 else v.bufpos) + rdhsize ≤ size

/-- From position `used` of a block on, each entry fits with its padding where it is put: behind the
one before it, or at the start of a new block where it would not fit without its padding. -/
def Packs (size : ℕ) : ℕ → List Entry → Prop
  | _, [] => True
  | used, e :: es =>
      let used := if size < used + entrySize e.1 then 0 else used
      used + (entrySize e.1 + skipLen e.1) ≤ size ∧ Packs size (used + (entrySize e.1 + skipLen e.1)) es

section

variable {size : ℕ} {v : ListingState} {groups : List (List Entry)} {cur : List Entry}

/-- Where an entry is put. -/
def putAt (size used : ℕ) (name : ByteString) : ℕ := if size < used + entrySize name then 0 else used

theorem packs_cons {used : ℕ} {e : Entry} {es : List Entry} :
    Packs size used (e :: es) ↔ putAt size used e.1 + (entrySize e.1 + skipLen e.1) ≤ size ∧
      Packs size (putAt size used e.1 + (entrySize e.1 + skipLen e.1)) es := Iff.rfl

theorem BuildingOf.rem_lt_iff (h : BuildingOf size v groups cur) (n : ℕ) :
    v.rem.toNat < n ↔ size < v.bufpos + n := by
  have := h.rem
  have := h.bufpos
  omega

/-- Nothing wraps around where the entry fits with its padding. -/
theorem BuildingOf.noWrap_iff (hsize : size ≤ ubufSpace) (h : BuildingOf size v groups cur)
    (name : ByteString) :
    NoWrap size v name ↔ putAt size v.bufpos name + (entrySize name + skipLen name) ≤ size := by
  have hrem := h.rem
  have hpos := h.bufpos
  have hlt := h.rem_lt_iff (entrySize name)
  unfold NoWrap putAt
  by_cases hfull : v.rem.toNat < entrySize name
  · have hflush : (flushBlock size v).rem.toNat = size := toNat_ofNat_size hsize
    rw [if_pos (hlt.mp hfull)]
    simp only [if_pos hfull, hflush]
    omega
  · rw [if_neg (fun hlt' => hfull (hlt.mpr hlt'))]
    simp only [if_neg hfull]
    omega

/-- One entry. -/
theorem BuildingOf.addDirent (hsize : size ≤ ubufSpace) (h : BuildingOf size v groups cur)
    (name : ByteString) (sb : Stat)
    (hfits : putAt size v.bufpos name + (entrySize name + skipLen name) ≤ size) :
    ∃ v' groups' cur', Fsp.addDirent size v name sb = some v' ∧ BuildingOf size v' groups' cur' ∧
      v'.bufpos = putAt size v.bufpos name + (entrySize name + skipLen name) ∧
      groups'.flatten ++ cur' = groups.flatten ++ cur ++ [(name, sb)] := by
  have hlt := h.rem_lt_iff (entrySize name)
  unfold putAt at hfits ⊢
  by_cases hfull : v.rem.toNat < entrySize name
  · rw [if_pos (hlt.mp hfull), Nat.zero_add] at hfits ⊢
    have hflush := buildingOf_flushBlock hsize h
    obtain ⟨v', hv', hb, hpos⟩ := buildingOf_addDirent_fits hsize hflush name sb (by
      show 0 + (entrySize name + skipLen name) ≤ size
      omega)
    refine ⟨v', _, _, ?_, hb, ?_, by simp⟩
    · rw [← hv']
      exact addDirent_flushBlock hsize sb hfull (by
        show entrySize name ≤ size
        omega)
    · rw [hpos]
      exact Nat.zero_add _
  · rw [if_neg (fun hlt' => hfull (hlt.mpr hlt'))] at hfits ⊢
    obtain ⟨v', hv', hb, hpos⟩ := buildingOf_addDirent_fits hsize h name sb hfits
    exact ⟨v', _, _, hv', hb, hpos, by rw [List.append_assoc]⟩

/-- Entries that pack. -/
theorem BuildingOf.addDirents (hsize : size ≤ ubufSpace) (h : BuildingOf size v groups cur)
    {past later : List Entry} (hpacks : Packs size v.bufpos (past ++ later)) :
    ∃ v' groups' cur', Fsp.addDirents size v past = some v' ∧ BuildingOf size v' groups' cur' ∧
      Packs size v'.bufpos later ∧ groups'.flatten ++ cur' = groups.flatten ++ cur ++ past := by
  induction past generalizing v groups cur with
  | nil => exact ⟨v, groups, cur, rfl, h, hpacks, by simp⟩
  | cons e past ih =>
      obtain ⟨hfits, hrest⟩ := packs_cons.mp hpacks
      obtain ⟨v₁, groups₁, cur₁, hv₁, hb₁, hpos₁, heq₁⟩ := h.addDirent hsize e.1 e.2 hfits
      rw [← hpos₁] at hrest
      obtain ⟨v', groups', cur', hv', hb', hpacks', heq'⟩ := ih hb₁ hrest
      refine ⟨v', groups', cur', ?_, hb', hpacks', ?_⟩
      · rw [Fsp.addDirents, hv₁]
        exact hv'
      · rw [heq', heq₁]
        simp

theorem buildingOf_emptyListing (hsize : size ≤ ubufSpace) :
    BuildingOf size (emptyListing size) [] [] :=
  buildingOf_start hsize _ (by simp) .nil

theorem BuildingOf.wholeEntries (h : BuildingOf size v groups cur) :
    WholeEntries size (groups.flatten ++ cur) v := by
  obtain ⟨blocks, hlisting, hblocks⟩ := h.listing
  exact ⟨groups, cur, blocks, hlisting, hblocks, h.cur, rfl⟩

theorem Packs.staysInBlocks (hsize : size ≤ ubufSpace) (hhsize : rdhsize ≤ size) {es : List Entry}
    (hpacks : Packs size 0 es) : StaysInBlocks size es := by
  have hstart := buildingOf_emptyListing hsize
  refine ⟨?_, ?_, ?_⟩
  · rintro past later rfl
    obtain ⟨v, groups, cur, hv, hb, -, heq⟩ := hstart.addDirents hsize hpacks
    have hrem := hb.rem
    have hpos := hb.bufpos
    have hwhole := hb.wholeEntries
    rw [heq] at hwhole
    exact ⟨v, hv, by omega, hpos, hwhole⟩
  · rintro past e later v rfl hv
    obtain ⟨v', groups, cur, hv', hb, hpacks', -⟩ := hstart.addDirents hsize hpacks
    rw [hv'] at hv
    injection hv with hv
    rw [← hv]
    exact (hb.noWrap_iff hsize e.1).mpr (packs_cons.mp hpacks').1
  · intro v hv
    have hall : Packs size (emptyListing size).bufpos (es ++ []) := by
      rw [List.append_nil]
      exact hpacks
    obtain ⟨v', groups, cur, hv', hb, -, -⟩ := hstart.addDirents hsize hall
    rw [hv'] at hv
    injection hv with hv
    have hrem := hb.rem
    have hpos := hb.bufpos
    rw [← hv]
    split
    · omega
    · omega

theorem addDirents_append (v : ListingState) (past later : List Entry) :
    addDirents size v (past ++ later) =
      (addDirents size v past).bind fun v' => addDirents size v' later := by
  induction past generalizing v with
  | nil => rfl
  | cons e past ih =>
      rw [List.cons_append, addDirents, addDirents]
      cases Fsp.addDirent size v e.1 e.2 with
      | none => rfl
      | some v₁ => exact ih v₁

theorem StaysInBlocks.packs (hsize : size ≤ ubufSpace) {es : List Entry}
    (h : StaysInBlocks size es) : Packs size 0 es := by
  have hfrom : ∀ (past later : List Entry) (v : ListingState) (groups : List (List Entry))
      (cur : List Entry), es = past ++ later →
      addDirents size (emptyListing size) past = some v → BuildingOf size v groups cur →
      Packs size v.bufpos later := by
    intro past later
    induction later generalizing past with
    | nil => exact fun _ _ _ _ _ _ => trivial
    | cons e later ih =>
        intro v groups cur hes hv hb
        have hfits := (hb.noWrap_iff hsize e.1).mp (h.wrap past e later v hes hv)
        obtain ⟨v', groups', cur', hv', hb', hpos, -⟩ := hb.addDirent hsize e.1 e.2 hfits
        refine packs_cons.mpr ⟨hfits, ?_⟩
        rw [← hpos]
        refine ih (past ++ [e]) v' groups' cur' (by rw [hes]; simp) ?_ hb'
        rw [addDirents_append, hv]
        show addDirents size v [e] = some v'
        rw [addDirents, hv']
        rfl
  exact hfrom [] es _ [] [] rfl rfl (buildingOf_emptyListing hsize)

end

/-! ## The listing -/

/-- The size of a block leaves room for the final entry, and a block fits into the buffer. -/
theorem dirblocksize_bounds (cfg : Config) :
    rdhsize ≤ dirblocksize cfg ∧ dirblocksize cfg ≤ ubufSpace := by
  have hge := cfg.packetsize_ge
  have hspace : ubufSpace = 1024 := rfl
  have hnine : rdhsize = 9 := rfl
  unfold dirblocksize
  omega

/-- Where the entries pack, a listing is built, and it holds the visible entries in order. -/
theorem buildDirListing_packs {cfg : Config} {entries : List (Dirent × Option Stat)}
    (hpacks : Packs (dirblocksize cfg) 0 (entries.filterMap visibleEntry)) :
    ∃ groups last blocks lastBlock, BlocksOf (dirblocksize cfg) groups last blocks lastBlock ∧
      buildDirListing cfg entries = some (blocks.flatten ++ lastBlock) ∧
      groups.flatten ++ last = entries.filterMap visibleEntry := by
  obtain ⟨hhsize, hsize⟩ := dirblocksize_bounds cfg
  have hall : Packs (dirblocksize cfg) (emptyListing (dirblocksize cfg)).bufpos
      (entries.filterMap visibleEntry ++ []) := by
    rw [List.append_nil]
    exact hpacks
  obtain ⟨v, groups, cur, hv, hb, -, heq⟩ := (buildingOf_emptyListing hsize).addDirents hsize hall
  obtain ⟨groups', last, blocks, lastBlock, hblocks, hfinish, heq'⟩ :=
    buildingOf_finishListing hsize hhsize hb
  refine ⟨groups', last, blocks, lastBlock, hblocks, ?_, by rw [heq', heq]; simp⟩
  show (addDirents (dirblocksize cfg) (emptyListing (dirblocksize cfg)) _).bind _ = _
  rw [hv]
  exact hfinish

theorem length_flushBlock_le (size : ℕ) (v : ListingState) :
    (flushBlock size v).listing.length ≤ v.listing.length + size := by
  simp only [flushBlock, List.length_append]
  exact Nat.add_le_add_left (List.length_take_le _ _) _

/-- An entry closes one block at most. -/
theorem length_addDirents_le {size : ℕ} {v v' : ListingState} {es : List Entry}
    (h : addDirents size v es = some v') :
    v'.listing.length ≤ v.listing.length + es.length * size := by
  induction es generalizing v with
  | nil =>
      rw [addDirents] at h
      injection h with h
      rw [← h]
      exact Nat.le_add_right _ _
  | cons e es ih =>
      rw [addDirents] at h
      cases hadd : Fsp.addDirent size v e.1 e.2 with
      | none =>
          rw [hadd] at h
          cases h
      | some v₁ =>
          rw [hadd] at h
          have hfirst : v₁.listing.length ≤ v.listing.length + size := by
            have hflush := length_flushBlock_le size v
            unfold Fsp.addDirent at hadd
            simp only at hadd
            split_ifs at hadd
            · injection hadd with hadd
              rw [← hadd]
              exact hflush
            · injection hadd with hadd
              rw [← hadd]
              exact Nat.le_add_right _ _
          calc v'.listing.length
              ≤ v₁.listing.length + es.length * size := ih h
            _ ≤ v.listing.length + size + es.length * size := Nat.add_le_add_right hfirst _
            _ = v.listing.length + (es.length + 1) * size := by
                rw [Nat.succ_mul]
                omega

theorem length_buildDirListing_le {cfg : Config} {entries : List (Dirent × Option Stat)}
    {listing : ByteString} (h : buildDirListing cfg entries = some listing) :
    listing.length ≤ (entries.length + 2) * ubufSpace := by
  have hsize := (dirblocksize_bounds cfg).2
  unfold buildDirListing at h
  obtain ⟨v, hv, hfinish⟩ := Option.bind_eq_some_iff.mp h
  have hloop : v.listing.length ≤
      (entries.filterMap visibleEntry).length * dirblocksize cfg := by
    simpa using length_addDirents_le hv
  have hflush := length_flushBlock_le (dirblocksize cfg) v
  have hcount := List.length_filterMap_le visibleEntry entries
  unfold finishListing at hfinish
  simp only at hfinish
  have hlast : listing.length ≤ v.listing.length + dirblocksize cfg + ubufSpace := by
    split_ifs at hfinish with hfull hfits hfits
    · injection hfinish with hfinish
      rw [← hfinish, List.length_append]
      have := List.length_take_le ((flushBlock (dirblocksize cfg) v).bufpos + rdhsize)
        (splice (flushBlock (dirblocksize cfg) v).buffer
          ((flushBlock (dirblocksize cfg) v).bufpos + 8) [rdtypeEnd])
      omega
    · injection hfinish with hfinish
      rw [← hfinish, List.length_append]
      have := List.length_take_le (v.bufpos + rdhsize)
        (splice v.buffer (v.bufpos + 8) [rdtypeEnd])
      omega
  calc listing.length
      ≤ v.listing.length + dirblocksize cfg + ubufSpace := hlast
    _ ≤ (entries.filterMap visibleEntry).length * dirblocksize cfg + dirblocksize cfg + ubufSpace :=
        Nat.add_le_add_right (Nat.add_le_add_right hloop _) _
    _ ≤ entries.length * ubufSpace + ubufSpace + ubufSpace :=
        Nat.add_le_add_right (Nat.add_le_add (Nat.mul_le_mul hcount hsize) hsize) _
    _ = (entries.length + 2) * ubufSpace := by
        rw [Nat.succ_mul, Nat.succ_mul]

/-! ## Sizes that are good for all directories -/

section

variable {size : ℕ}

/-- Whole words, and room for the longest name. -/
theorem packs_of_size (hmod : size % 4 = 0) (hsize : 265 ≤ size) {es : List Entry}
    (hnames : ∀ e ∈ es, e.1.length ≤ 255) {used : ℕ} (hused : used % 4 = 0) :
    Packs size used es := by
  induction es generalizing used with
  | nil => trivial
  | cons e es ih =>
      have hname := hnames e List.mem_cons_self
      have hfits : putAt size used e.1 + (entrySize e.1 + skipLen e.1) ≤ size ∧
          (putAt size used e.1 + (entrySize e.1 + skipLen e.1)) % 4 = 0 := by
        have hat : putAt size used e.1 = 0 ∨
            putAt size used e.1 = used ∧ used + entrySize e.1 ≤ size := by
          unfold putAt
          by_cases hfull : size < used + entrySize e.1
          · exact Or.inl (if_pos hfull)
          · exact Or.inr ⟨if_neg hfull, not_lt.mp hfull⟩
        simp only [entrySize, skipLen, rdhsize] at hat ⊢
        omega
      exact packs_cons.mpr ⟨hfits.1, ih (fun e' he' => hnames e' (List.mem_cons_of_mem _ he'))
        hfits.2⟩

/-- A file whose name is that long, as `readdir` and `stat` give it. -/
def fileOf (n : ℕ) : Dirent × Option Stat := (⟨1, List.replicate n 97⟩, some ⟨.reg, 0, 0⟩)

theorem visibleEntry_fileOf (n : ℕ) :
    visibleEntry (fileOf n) = some (List.replicate n 97, ⟨.reg, 0, 0⟩) := by
  have hhidden : hiddenName (List.replicate n 97) = false := by
    cases n with
    | zero => rfl
    | succ n => rfl
  simp [visibleEntry, fileOf, hhidden]

/-- Names of two bytes fill a block twelve bytes at a time. -/
theorem packs_replicate {used k : ℕ} {rest : List Entry}
    (h : Packs size used (List.replicate k (List.replicate 2 97, ⟨.reg, 0, 0⟩) ++ rest))
    (hused : used + 12 * k ≤ size) : Packs size (used + 12 * k) rest := by
  induction k generalizing used with
  | zero => exact h
  | succ k ih =>
      rw [List.replicate_succ, List.cons_append] at h
      have hrest := (packs_cons.mp h).2
      have hat : putAt size used (List.replicate 2 97) = used := if_neg (by
        show ¬ size < used + 12
        omega)
      rw [hat] at hrest
      have hih : Packs size (used + 12 + 12 * k) rest := ih hrest (by omega)
      rwa [show used + 12 + 12 * k = used + 12 * (k + 1) by omega] at hih

theorem size_of_packs (h : ∀ ns : List ℕ, (∀ n ∈ ns, 1 ≤ n ∧ n ≤ 255) →
    Packs size 0 (ns.map fun n => (List.replicate n 97, ⟨.reg, 0, 0⟩))) :
    size % 4 = 0 ∧ 265 ≤ size := by
  have hlarge : 268 ≤ size := by
    have hlong := (packs_cons.mp (h [255] (by simp))).1
    have hat : putAt size 0 (List.replicate 255 97) = 0 := ite_self 0
    rw [hat] at hlong
    simp only [entrySize, skipLen, rdhsize, List.length_replicate] at hlong
    omega
  refine ⟨?_, by omega⟩
  by_contra hmod
  -- fill the block up to the last one or two dozen bytes, and put an entry there whose padding
  -- does not fit
  obtain ⟨k, hk⟩ : ∃ k, k = size / 12 - 1 := ⟨_, rfl⟩
  obtain ⟨n, hn⟩ : ∃ n, n = 4 * ((12 + size % 12) / 4) - 9 := ⟨_, rfl⟩
  have hpacks := h (List.replicate k 2 ++ [n]) (by
    intro m hm
    rcases List.mem_append.mp hm with hm | hm
    · rw [List.eq_of_mem_replicate hm]
      omega
    · rw [List.mem_singleton.mp hm]
      omega)
  rw [List.map_append, List.map_replicate] at hpacks
  have hlast := packs_replicate hpacks (by omega)
  rw [Nat.zero_add] at hlast
  have hfits := (packs_cons.mp hlast).1
  have hat : putAt size (12 * k) (List.replicate n 97) = 12 * k := if_neg (by
    simp only [entrySize, rdhsize, List.length_replicate]
    omega)
  rw [hat] at hfits
  simp only [entrySize, skipLen, rdhsize, List.length_replicate] at hfits
  omega

end

/-- The arithmetic of `build_dir_listing` stays within a block if and only if the entries pack; and it
does so for all directories if and only if the size of a block is a multiple of four and has room for
the longest name. -/
theorem staysInBlocks_iff (cfg : Config) :
    (∀ entries : List (Dirent × Option Stat),
      StaysInBlocks (dirblocksize cfg) (entries.filterMap visibleEntry) ↔
        Packs (dirblocksize cfg) 0 (entries.filterMap visibleEntry)) ∧
    ((∀ entries : List (Dirent × Option Stat),
        (∀ e ∈ entries, e.1.name ≠ [] ∧ ProperName e.1.name) →
          StaysInBlocks (dirblocksize cfg) (entries.filterMap visibleEntry)) ↔
      dirblocksize cfg % 4 = 0 ∧ 265 ≤ dirblocksize cfg) := by
  obtain ⟨hhsize, hsize⟩ := dirblocksize_bounds cfg
  refine ⟨fun entries => ⟨fun h => h.packs hsize, fun h => h.staysInBlocks hsize hhsize⟩, ?_, ?_⟩
  · intro h
    apply size_of_packs
    intro ns hns
    have hvisible : (ns.map fileOf).filterMap visibleEntry =
        ns.map fun n => (List.replicate n 97, ⟨.reg, 0, 0⟩) := by
      rw [List.filterMap_map]
      induction ns with
      | nil => rfl
      | cons n ns ih =>
          rw [List.filterMap_cons, Function.comp_apply, visibleEntry_fileOf,
            ih fun n' hn' => hns n' (List.mem_cons_of_mem _ hn')]
          rfl
    have hstays := h (ns.map fileOf) (by
      intro e he
      obtain ⟨n, hn, rfl⟩ := List.mem_map.mp he
      obtain ⟨hpos, hle⟩ := hns n hn
      refine ⟨?_, ?_, ?_⟩
      · show List.replicate n 97 ≠ []
        simp
        omega
      · show (List.replicate n 97).length ≤ 255
        rw [List.length_replicate]
        exact hle
      · intro hmem
        exact absurd (List.eq_of_mem_replicate hmem) (by decide))
    rw [hvisible] at hstays
    exact hstays.packs hsize
  · rintro ⟨hmod, hlarge⟩ entries hnames
    refine (packs_of_size hmod hlarge ?_ (Nat.zero_mod 4)).staysInBlocks hsize hhsize
    exact fun e he => (properName_of_visible (fun e he => (hnames e he).2) e he).length_le

/-- Blocks of 65 bytes. -/
def oddConfig : Config :=
  { Scenario.config with packetsize := 65, packetsize_ge := by decide, packetsize_le := by decide }

/-- A name of 55 bytes fills such a block, but for its padding. -/
theorem oddConfig_not_staysInBlocks :
    ¬ StaysInBlocks (dirblocksize oddConfig) ([fileOf 55].filterMap visibleEntry) := by
  intro h
  have hpacks := h.packs (by decide)
  rw [List.filterMap_cons, visibleEntry_fileOf] at hpacks
  have hfits := (packs_cons.mp hpacks).1
  exact absurd hfits (by decide)

end Fsp
