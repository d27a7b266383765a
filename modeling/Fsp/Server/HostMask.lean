import Fsp.Server.OwnerLines

/-!
# Numeric host masks

`parse_ipnumber` reads up to four components and stops: it does not look at what follows the fourth,
and the number of a component is added up in an `unsigned long`, which a long one overflows.  A mask
that is neither is read as what it says, and an address matches it if its octets do.

`parseIpline_numeric_iff` says this of every line with a numeric host: the line is accepted if and only
if its host is a mask, and matches the addresses of the mask, unless the field is `Misread`.  The way
there follows the parser from the inside out.

* One component.  `parseIpcomponent_iff` says which texts are read as one: those that begin with a
  component written out, where that ends (`EndsBefore`) and its numbers are octets once they are in
  a word (`Read`).  It stands on `parseIpcomponentnum_iff` for the numbers.
* A field.  `parseIpfields_iff` puts up to four of them together, by induction on how many may still
  come (`ReadsMore`); nothing is asked of what stands behind the fourth.
* One reading.  A field is read in one way only (`ReadsAs.unique`), since a component can be told
  from the text it begins (`MaskComponent.append_inj`).  So the mask that is read is the mask that is
  written, or the field is misread: `misread_iff`.
* Addresses.  `checkIp_inAddr` turns the comparison of words into one of octets, in either byte order,
  and `covers_iff` says that the bounds that are read are those of the mask.

`parse_hostname` does not go by the octets of an address but by the bytes of the word that holds them,
so the byte order of the machine matters there: `parseHostname_matches_iff`.
-/

namespace Fsp

open Bytes

/-! ## What a mask says -/

/-- The digits of a number. -/
abbrev Digits := {l : ByteString // l ≠ [] ∧ ∀ c ∈ l, isDigit c = true}

/-- The number. -/
def digitsNumber (l : ByteString) : ℕ := l.foldl (fun n c => 10 * n + (c.toNat - 0x30)) 0

def Digits.value (d : Digits) : ℕ := digitsNumber d.val

/-- What the number is in an `unsigned long`. -/
def Digits.word (d : Digits) : ℕ := d.value % 2 ^ 64

/-- A component of a mask. -/
inductive MaskComponent where
  | any
  | one (n : Digits)
  | span (n m : Digits)

namespace MaskComponent

def write : MaskComponent → ByteString
  | any => [0x2A]
  | one n => n.val
  | span n m => n.val ++ 0x2D :: m.val

def lo : MaskComponent → ℕ
  | any => 0
  | one n => n.value
  | span n _ => n.value

def hi : MaskComponent → ℕ
  | any => 255
  | one n => n.value
  | span _ m => m.value

/-- The numbers are octets. -/
def Small (c : MaskComponent) : Prop := c.lo ≤ 255 ∧ c.hi ≤ 255

instance decidableSmall (c : MaskComponent) : Decidable c.Small :=
  inferInstanceAs (Decidable (_ ∧ _))

/-- The numbers are taken for octets. -/
def Read : MaskComponent → Prop
  | any => True
  | one n => n.word ≤ 255
  | span n m => n.word ≤ 255 ∧ m.word ≤ 255

instance decidableRead : (c : MaskComponent) → Decidable c.Read
  | any => inferInstanceAs (Decidable True)
  | one n => inferInstanceAs (Decidable (n.word ≤ 255))
  | span n m => inferInstanceAs (Decidable (n.word ≤ 255 ∧ m.word ≤ 255))

/-- The bounds they are taken for. -/
def bounds : MaskComponent → UInt8 × UInt8
  | any => (0x00, 0xff)
  | one n => (UInt8.ofNat n.word, UInt8.ofNat n.word)
  | span n m => (UInt8.ofNat n.word, UInt8.ofNat m.word)

/-- The component does not go on in what follows it. -/
def EndsBefore (rest : ByteString) : MaskComponent → Prop
  | any => True
  | one _ => ∀ c, rest.head? = some c → isDigit c = false ∧ c ≠ 0x2D
  | span _ _ => ∀ c, rest.head? = some c → isDigit c = false

end MaskComponent

/-- The components behind the first one. -/
def writeMore (cs : List MaskComponent) : ByteString := cs.flatMap fun c => text "." ++ c.write

/-- A mask. -/
def writeMask : List MaskComponent → ByteString
  | [] => []
  | c :: cs => c.write ++ writeMore cs

/-- The mask says what `cs` says. -/
structure IsMask (field : ByteString) (cs : List MaskComponent) : Prop where
  field_eq : field = writeMask cs
  ne_nil : cs ≠ []
  length_le : cs.length ≤ 4
  small : ∀ c ∈ cs, c.Small

/-- An address has the octets that a mask says, the most significant one first. -/
def Covers (cs : List MaskComponent) (a : Fin 4 → UInt8) : Prop :=
  ∀ (i : Fin 4) (c : MaskComponent), cs[3 - i.val]? = some c →
    c.lo ≤ (a i).toNat ∧ (a i).toNat ≤ c.hi

/-- A field that is read as the mask `cs`, with `tail` behind it: its numbers are octets in an
`unsigned long`, and something can be behind it if it has four components. -/
structure ReadsAs (field : ByteString) (cs : List MaskComponent) (tail : ByteString) : Prop where
  field_eq : field = writeMask cs ++ tail
  ne_nil : cs ≠ []
  length_le : cs.length ≤ 4
  read : ∀ c ∈ cs, c.Read
  ends : ∀ c, cs.getLast? = some c → c.EndsBefore tail
  full : tail = [] ∨ cs.length = 4

/-- A field that is read, but not as it stands: something is behind the fourth component, or a
number is larger than an `unsigned long`. -/
def Misread (field : ByteString) : Prop :=
  ∃ cs tail, ReadsAs field cs tail ∧ (tail ≠ [] ∨ ∃ c ∈ cs, ¬ c.Small)

/-! ## Numbers -/

theorem toNat_digitsValue (l : ByteString) : (digitsValue l).toNat = digitsNumber l % 2 ^ 64 := by
  have hfold : ∀ (val : UInt64) (n : ℕ), val.toNat = n % 2 ^ 64 →
      (l.foldl (fun val c => 10 * val + UInt64.ofNat (c.toNat - 0x30)) val).toNat =
        l.foldl (fun n c => 10 * n + (c.toNat - 0x30)) n % 2 ^ 64 := by
    induction l with
    | nil => exact fun _ _ h => h
    | cons c l ih =>
        intro val n h
        refine ih _ _ ?_
        rw [UInt64.toNat_add, UInt64.toNat_mul, h, UInt64.toNat_ofNat']
        show (10 * (n % 2 ^ 64) % 2 ^ 64 + (c.toNat - 0x30) % 2 ^ 64) % 2 ^ 64 =
          (10 * n + (c.toNat - 0x30)) % 2 ^ 64
        omega
  exact hfold 0 0 rfl

theorem takeWhile_dropWhile_isDigit (t : ByteString) :
    (t.dropWhile isDigit).takeWhile isDigit = [] := by
  cases hrest : t.dropWhile isDigit with
  | nil => rfl
  | cons c rest =>
      have hidem := List.dropWhile_idempotent isDigit t
      rw [hrest, List.dropWhile_eq_self_iff] at hidem
      have hc : ¬ isDigit c = true := hidem (Nat.succ_pos _)
      exact takeWhile_isDigit_cons (eq_false_of_ne_true hc) rest

theorem takeWhile_isDigit_eq_nil {rest : ByteString} :
    rest.takeWhile isDigit = [] ↔ ∀ c, rest.head? = some c → isDigit c = false := by
  cases rest with
  | nil => simp
  | cons c rest =>
      rw [List.takeWhile_cons]
      cases hc : isDigit c with
      | false => simp [hc]
      | true => simp [hc]

/-- The digits of a number are what stands before the rest. -/
theorem Digits.takeWhile_append (d : Digits) {rest : ByteString}
    (hrest : rest.takeWhile isDigit = []) : (d.val ++ rest).takeWhile isDigit = d.val := by
  rw [List.takeWhile_append_of_pos d.2.2, hrest, List.append_nil]

theorem Digits.dropWhile_append (d : Digits) {rest : ByteString}
    (hrest : rest.takeWhile isDigit = []) : (d.val ++ rest).dropWhile isDigit = rest := by
  rw [List.dropWhile_append_of_pos d.2.2]
  conv_rhs => rw [← List.takeWhile_append_dropWhile (p := isDigit) (l := rest), hrest]
  rfl

/-- A number is read to its last digit. -/
theorem parseIpcomponentnum_iff {t rest : ByteString} {v : UInt8} :
    parseIpcomponentnum t = some (v, rest) ↔
      ∃ d : Digits, t = d.val ++ rest ∧ rest.takeWhile isDigit = [] ∧ d.word ≤ 255 ∧
        v = UInt8.ofNat d.word := by
  have hvalue : ∀ l, (digitsValue l).toUInt8 = UInt8.ofNat (digitsNumber l % 2 ^ 64) := by
    intro l
    rw [← toNat_digitsValue]
    rfl
  have hlt : ∀ l, 0xff < digitsValue l ↔ ¬ digitsNumber l % 2 ^ 64 ≤ 255 := by
    intro l
    rw [UInt64.lt_iff_toNat_lt, toNat_digitsValue, Nat.not_le]
    rfl
  unfold parseIpcomponentnum
  simp only
  constructor
  · intro h
    split_ifs at h with hnil hlarge
    injection h with h
    injection h with hv hrest
    rw [hlt, Classical.not_not] at hlarge
    refine ⟨⟨t.takeWhile isDigit, hnil, fun c hc => List.mem_takeWhile_imp hc⟩, ?_, ?_, hlarge, ?_⟩
    · rw [← hrest, List.takeWhile_append_dropWhile]
    · rw [← hrest]
      exact takeWhile_dropWhile_isDigit t
    · rw [← hv, hvalue]
      rfl
  · rintro ⟨d, rfl, hrest, hsmall, rfl⟩
    rw [d.takeWhile_append hrest, d.dropWhile_append hrest, if_neg d.2.1,
      if_neg (fun h => (hlt _).mp h hsmall), hvalue]
    rfl

/-! ## Components -/

theorem Digits.exists_cons (d : Digits) : ∃ c l, d.val = c :: l ∧ isDigit c = true := by
  obtain ⟨c, l, h⟩ := List.exists_cons_of_ne_nil d.2.1
  exact ⟨c, l, h, d.2.2 c (h ▸ List.mem_cons_self)⟩

theorem parseIpcomponent_num {t rest : ByteString} {v : UInt8} (hstar : t.head? ≠ some 0x2A)
    (h : parseIpcomponentnum t = some (v, rest)) :
    (rest.head? ≠ some 0x2D → parseIpcomponent t = some ((v, v), rest)) ∧
      ∀ more w rest', rest = 0x2D :: more → parseIpcomponentnum more = some (w, rest') →
        parseIpcomponent t = some ((v, w), rest') := by
  constructor
  · intro hdash
    unfold parseIpcomponent
    split
    · exact absurd rfl hstar
    · split
      · rename_i hnone
        rw [h] at hnone
        cases hnone
      · rename_i hsome
        obtain rfl := (Prod.mk.inj (Option.some.inj (h.symm.trans hsome))).2
        exact absurd rfl hdash
      · rename_i hsome
        obtain ⟨rfl, rfl⟩ := Prod.mk.inj (Option.some.inj (h.symm.trans hsome))
        rfl
  · rintro more w rest' rfl hmore
    unfold parseIpcomponent
    split
    · exact absurd rfl hstar
    · split
      · rename_i hnone
        rw [h] at hnone
        cases hnone
      · rename_i hsome
        obtain ⟨rfl, heq⟩ := Prod.mk.inj (Option.some.inj (h.symm.trans hsome))
        rw [← (List.cons.inj heq).2, hmore]
        rfl
      · rename_i hdash hsome
        obtain ⟨-, heq⟩ := Prod.mk.inj (Option.some.inj (h.symm.trans hsome))
        exact absurd heq.symm (hdash more)

/-- A component is read to where it ends. -/
theorem parseIpcomponent_iff {t rest : ByteString} {b : UInt8 × UInt8} :
    parseIpcomponent t = some (b, rest) ↔
      ∃ c : MaskComponent, t = c.write ++ rest ∧ c.Read ∧ c.EndsBefore rest ∧ b = c.bounds := by
  constructor
  · intro h
    unfold parseIpcomponent at h
    split at h
    · injection h with h
      injection h with hb hrest
      exact ⟨.any, by rw [← hrest]; rfl, trivial, trivial, hb.symm⟩
    · split at h
      · cases h
      · rename_i lo rest' hlo
        obtain ⟨⟨hi, rest''⟩, hhi, heq⟩ := Option.map_eq_some_iff.mp h
        injection heq with hb hrest
        obtain ⟨n, rfl, -, hn, rfl⟩ := parseIpcomponentnum_iff.mp hlo
        obtain ⟨m, rfl, hends, hm, rfl⟩ := parseIpcomponentnum_iff.mp hhi
        subst hrest hb
        exact ⟨.span n m, by simp [MaskComponent.write], ⟨hn, hm⟩,
          takeWhile_isDigit_eq_nil.mp hends, rfl⟩
      -- not a dash behind the number: the component ends where its digits do
      · rename_i lo rest' hdash hlo
        injection h with h
        injection h with hb hrest
        subst hrest hb
        obtain ⟨n, rfl, hends, hn, rfl⟩ := parseIpcomponentnum_iff.mp hlo
        refine ⟨.one n, rfl, hn, fun c hhead => ⟨takeWhile_isDigit_eq_nil.mp hends c hhead, ?_⟩, rfl⟩
        rintro rfl
        cases rest' with
        | nil => cases hhead
        | cons c l =>
            rw [Option.some.inj hhead] at hdash
            exact hdash l rfl
  · rintro ⟨c, rfl, hread, hends, rfl⟩
    -- a number does not begin with a star
    have hstar : ∀ (n : Digits) (l : ByteString), (n.val ++ l).head? ≠ some 0x2A := by
      intro n l h
      obtain ⟨c, l', hcons, hc⟩ := n.exists_cons
      rw [hcons] at h
      obtain rfl := Option.some.inj h
      exact absurd hc (by decide)
    cases c with
    | any => rfl
    | one n =>
        have hstop := takeWhile_isDigit_eq_nil.mpr fun c hc => (hends c hc).1
        have hnum := parseIpcomponentnum_iff.mpr ⟨n, rfl, hstop, hread, rfl⟩
        exact (parseIpcomponent_num (hstar n rest) hnum).1 fun h => (hends 0x2D h).2 rfl
    | span n m =>
        have hdash : (0x2D :: (m.val ++ rest)).takeWhile isDigit = [] :=
          takeWhile_isDigit_cons (by decide) _
        have hlo := parseIpcomponentnum_iff.mpr ⟨n, rfl, hdash, hread.1, rfl⟩
        have hstop := takeWhile_isDigit_eq_nil.mpr hends
        have hhi := parseIpcomponentnum_iff.mpr ⟨m, rfl, hstop, hread.2, rfl⟩
        have hwrite : (MaskComponent.span n m).write ++ rest =
            n.val ++ 0x2D :: (m.val ++ rest) := by simp [MaskComponent.write]
        rw [hwrite]
        exact (parseIpcomponent_num (hstar n _) hlo).2 _ _ _ rfl hhi

/-! ## Fields -/

/-- Up to `n` more components, each after a dot, with `tail` behind them. -/
structure ReadsMore (n : ℕ) (field : ByteString) (cs : List MaskComponent) (tail : ByteString) :
    Prop where
  field_eq : field = writeMore cs ++ tail
  length_le : cs.length ≤ n
  read : ∀ c ∈ cs, c.Read
  ends : ∀ c, cs.getLast? = some c → c.EndsBefore tail
  full : tail = [] ∨ cs.length = n

/-- The bounds of `n` components, the missing ones free. -/
def fieldBounds (n : ℕ) (cs : List MaskComponent) : List (UInt8 × UInt8) :=
  cs.map MaskComponent.bounds ++ List.replicate (n - cs.length) (0x00, 0xff)

/-- The bounds of octet `j`. -/
def maskLo (cs : List MaskComponent) (j : Fin 4) : UInt8 :=
  ((fieldBounds 4 cs).getD (3 - j.val) (0, 0)).1

def maskHi (cs : List MaskComponent) (j : Fin 4) : UInt8 :=
  ((fieldBounds 4 cs).getD (3 - j.val) (0, 0)).2

/-- What stands behind a field: white space. -/
def Behind (s : ByteString) : Prop := ∃ c l, s = c :: l ∧ isSpace c = true

theorem MaskComponent.endsBefore_of_head? {f f' : ByteString} {c : MaskComponent}
    (h : ∀ b, f'.head? = some b → (isDigit b = false ∧ b ≠ 0x2D) ∨ f.head? = some b)
    (hends : c.EndsBefore f) : c.EndsBefore f' := by
  cases c with
  | any => trivial
  | one n => exact fun b hb => (h b hb).elim id fun hb => hends b hb
  | span n m => exact fun b hb => (h b hb).elim And.left fun hb => hends b hb

/-- White space ends a component. -/
theorem MaskComponent.endsBefore_append {f s : ByteString} {c : MaskComponent} (hs : Behind s) :
    c.EndsBefore (f ++ s) ↔ c.EndsBefore f := by
  obtain ⟨b, l, rfl, hb⟩ := hs
  have hspace : isDigit b = false ∧ b ≠ 0x2D := by
    constructor
    · by_contra hdigit
      rw [isSpace_of_isDigit (by simpa using hdigit)] at hb
      cases hb
    · rintro rfl
      exact absurd hb (by decide)
  constructor
  · refine endsBefore_of_head? fun b' hb' => Or.inr ?_
    cases f with
    | nil => cases hb'
    | cons d f => exact hb'
  · refine endsBefore_of_head? fun b' hb' => ?_
    cases f with
    | nil =>
        obtain rfl := Option.some.inj hb'
        exact Or.inl hspace
    | cons d f => exact Or.inr hb'

theorem writeMore_cons (c : MaskComponent) (cs : List MaskComponent) :
    writeMore (c :: cs) = dot :: (c.write ++ writeMore cs) := rfl

/-- A dot ends a component. -/
theorem MaskComponent.endsBefore_writeMore {c : MaskComponent} {cs : List MaskComponent}
    {tail : ByteString} (hne : cs ≠ []) : c.EndsBefore (writeMore cs ++ tail) := by
  obtain ⟨d, cs, rfl⟩ := List.exists_cons_of_ne_nil hne
  have hdot : ∀ b, (writeMore (d :: cs) ++ tail).head? = some b → isDigit b = false ∧ b ≠ 0x2D := by
    intro b hb
    obtain rfl : dot = b := Option.some.inj hb
    decide
  cases c with
  | any => trivial
  | one n => exact hdot
  | span n m => exact fun b hb => (hdot b hb).1

/-- There is no white space in a component. -/
theorem MaskComponent.not_isSpace {c : MaskComponent} : ∀ b ∈ c.write, isSpace b = false := by
  have hdigits : ∀ (n : Digits), ∀ b ∈ n.val, isSpace b = false :=
    fun n b hb => isSpace_of_isDigit (n.2.2 b hb)
  intro b hb
  cases c with
  | any =>
      rw [List.mem_singleton.mp hb]
      rfl
  | one n => exact hdigits n b hb
  | span n m =>
      rcases List.mem_append.mp hb with hb | hb
      · exact hdigits n b hb
      · rcases List.mem_cons.mp hb with rfl | hb
        · rfl
        · exact hdigits m b hb

theorem not_isSpace_writeMask (cs : List MaskComponent) :
    ∀ b ∈ writeMask cs, isSpace b = false := by
  have hmore : ∀ cs, ∀ b ∈ writeMore cs, isSpace b = false := by
    intro cs b hb
    obtain ⟨c, -, hb⟩ := List.mem_flatMap.mp hb
    rcases List.mem_append.mp hb with hb | hb
    · rw [List.mem_singleton.mp hb]
      rfl
    · exact MaskComponent.not_isSpace b hb
  cases cs with
  | nil => exact fun b hb => absurd hb List.not_mem_nil
  | cons c cs =>
      intro b hb
      rcases List.mem_append.mp hb with hb | hb
      · exact MaskComponent.not_isSpace b hb
      · exact hmore cs b hb

/-- A component that stands at the start of a field with white space behind it is in the field. -/
theorem MaskComponent.split_field {f s rest : ByteString} {c : MaskComponent} (hs : Behind s)
    (h : f ++ s = c.write ++ rest) : ∃ f', f = c.write ++ f' ∧ rest = f' ++ s := by
  rcases List.append_eq_append_iff.mp h with ⟨l, hwrite, hrest⟩ | ⟨l, hfield, hrest⟩
  · cases l with
    | nil => exact ⟨[], by rw [hwrite, List.append_nil, List.append_nil], hrest.symm⟩
    | cons b l =>
        obtain ⟨b', l', rfl, hb⟩ := hs
        obtain ⟨rfl, -⟩ := List.cons.inj hrest
        have hnot := not_isSpace (c := c) b' (hwrite ▸ List.mem_append_right f List.mem_cons_self)
        rw [hnot] at hb
        cases hb
  · exact ⟨l, hfield, hrest⟩

/-- One turn of the loop that reads a component. -/
theorem parseIpfields_succ {n : ℕ} {first : Bool} {t : ByteString} {fs : List (UInt8 × UInt8)}
    (hspace : t.head?.any isSpace = false) :
    parseIpfields (n + 1) first t = some fs ↔
      ∃ u b rest fs', t = (if first then u else dot :: u) ∧ parseIpcomponent u = some (b, rest) ∧
        parseIpfields n false rest = some fs' ∧ fs = b :: fs' := by
  constructor
  · intro h
    rw [parseIpfields, if_neg (by simp [hspace])] at h
    split at h
    · cases h
    · rename_i u hu
      split at h
      · cases h
      · rename_i b rest hparse
        obtain ⟨fs', hfs, rfl⟩ := Option.map_eq_some_iff.mp h
        refine ⟨u, b, rest, fs', ?_, hparse, hfs, rfl⟩
        cases first with
        | true => exact Option.some.inj hu
        | false =>
            simp only [Bool.false_eq_true, if_false] at hu ⊢
            split_ifs at hu with hdot
            cases t with
            | nil => cases hdot
            | cons c t =>
                obtain rfl := Option.some.inj hdot
                obtain rfl := Option.some.inj hu
                rfl
  · rintro ⟨u, b, rest, fs', rfl, hparse, hfs, rfl⟩
    rw [parseIpfields, if_neg (by simp [hspace])]
    cases first with
    | true => simp [hparse, hfs]
    | false =>
        have hdot : (if (dot :: u).head? = some parseIpfields.dot then some (dot :: u).tail
            else none) = some u := rfl
        simp only [Bool.false_eq_true, if_false, hdot, hparse, hfs, Option.map_some]

/-- A component with what is read after it. -/
theorem parseIpfields_component {n : ℕ} {first : Bool} {field s : ByteString}
    {fs : List (UInt8 × UInt8)} (hs : Behind s)
    (hspace : (field ++ s).head?.any isSpace = false)
    (hmore : ∀ (f : ByteString) (fs : List (UInt8 × UInt8)), (∀ b ∈ f, isSpace b = false) →
      (parseIpfields n false (f ++ s) = some fs ↔
        ∃ cs tail, ReadsMore n f cs tail ∧ fs = fieldBounds n cs))
    (hfield : ∀ b ∈ field, isSpace b = false) :
    parseIpfields (n + 1) first (field ++ s) = some fs ↔
      ∃ (c : MaskComponent) (f : ByteString) (cs : List MaskComponent) (tail : ByteString),
        field = (if first then c.write ++ f else dot :: (c.write ++ f)) ∧ c.Read ∧
          c.EndsBefore f ∧ ReadsMore n f cs tail ∧ fs = c.bounds :: fieldBounds n cs := by
  rw [parseIpfields_succ hspace]
  constructor
  · rintro ⟨u, b, rest, fs', heq, hparse, hfs, rfl⟩
    -- the dot is a byte of the field, as what stands behind the field begins with a blank
    obtain ⟨g, rfl, hg⟩ : ∃ g, u = g ++ s ∧ field = if first then g else dot :: g := by
      cases first with
      | true => exact ⟨field, heq.symm, rfl⟩
      | false =>
          cases field with
          | nil =>
              obtain ⟨b', l, rfl, hb⟩ := hs
              obtain ⟨rfl, -⟩ := List.cons.inj heq
              exact absurd hb (by decide)
          | cons d field =>
              obtain ⟨rfl, rfl⟩ := List.cons.inj heq
              exact ⟨field, rfl, rfl⟩
    obtain ⟨c, hwrite, hread, hends, rfl⟩ := parseIpcomponent_iff.mp hparse
    obtain ⟨f, rfl, rfl⟩ := MaskComponent.split_field hs hwrite
    have hf : ∀ b ∈ f, isSpace b = false := by
      intro b hb
      refine hfield b (hg ▸ ?_)
      cases first <;> simp [hb]
    obtain ⟨cs, tail, hreads, rfl⟩ := (hmore f fs' hf).mp hfs
    exact ⟨c, f, cs, tail, hg, hread, (c.endsBefore_append hs).mp hends, hreads, rfl⟩
  · rintro ⟨c, f, cs, tail, rfl, hread, hends, hreads, rfl⟩
    have hf : ∀ b ∈ f, isSpace b = false := by
      intro b hb
      refine hfield b ?_
      cases first <;> simp [hb]
    refine ⟨c.write ++ (f ++ s), c.bounds, f ++ s, fieldBounds n cs, ?_, ?_, ?_, rfl⟩
    · cases first <;> simp
    · exact parseIpcomponent_iff.mpr ⟨c, rfl, hread, (c.endsBefore_append hs).mpr hends, rfl⟩
    · exact (hmore f _ hf).mpr ⟨cs, tail, hreads, rfl⟩

theorem readsMore_nil {n : ℕ} {field tail : ByteString} :
    ReadsMore n field [] tail ↔ field = tail ∧ (tail = [] ∨ n = 0) := by
  constructor
  · intro h
    exact ⟨h.field_eq, h.full.imp id Eq.symm⟩
  · rintro ⟨rfl, hfull⟩
    exact ⟨rfl, Nat.zero_le n, fun c hc => absurd hc List.not_mem_nil, (fun c hc => by cases hc),
      hfull.imp id Eq.symm⟩

/-- A component and those after it end where they should if each of them does. -/
theorem MaskComponent.ends_cons {c : MaskComponent} {cs : List MaskComponent} {tail : ByteString} :
    (∀ d, (c :: cs).getLast? = some d → d.EndsBefore tail) ↔
      c.EndsBefore (writeMore cs ++ tail) ∧ ∀ d, cs.getLast? = some d → d.EndsBefore tail := by
  by_cases hnil : cs = []
  · subst hnil
    constructor
    · exact fun h => ⟨h c rfl, fun d hd => by cases hd⟩
    · rintro ⟨hc, -⟩ d hd
      rw [← Option.some.inj hd]
      exact hc
  · have hlast : ∀ d, (c :: cs).getLast? = some d ↔ cs.getLast? = some d := by
      intro d
      obtain ⟨e, cs, rfl⟩ := List.exists_cons_of_ne_nil hnil
      rw [List.getLast?_cons_cons]
    simp only [hlast]
    exact ⟨fun h => ⟨endsBefore_writeMore hnil, h⟩, And.right⟩

theorem readsMore_cons {n : ℕ} {field tail : ByteString} {c : MaskComponent}
    {cs : List MaskComponent} :
    ReadsMore (n + 1) field (c :: cs) tail ↔
      ∃ f, field = dot :: (c.write ++ f) ∧ c.Read ∧ c.EndsBefore f ∧ ReadsMore n f cs tail := by
  constructor
  · intro h
    obtain ⟨hends, hlast⟩ := MaskComponent.ends_cons.mp h.ends
    refine ⟨writeMore cs ++ tail, ?_, h.read c List.mem_cons_self, hends,
      ⟨rfl, Nat.le_of_succ_le_succ h.length_le, fun d hd => h.read d (List.mem_cons_of_mem _ hd),
        hlast, h.full.imp id fun h => Nat.succ.inj h⟩⟩
    rw [h.field_eq, writeMore_cons, List.cons_append, List.append_assoc]
  · rintro ⟨f, rfl, hread, hends, h⟩
    refine ⟨?_, Nat.succ_le_succ h.length_le, ?_, ?_, h.full.imp id (congrArg Nat.succ)⟩
    · rw [h.field_eq, writeMore_cons, List.cons_append, List.append_assoc]
    · intro d hd
      rcases List.mem_cons.mp hd with rfl | hd
      · exact hread
      · exact h.read d hd
    · exact MaskComponent.ends_cons.mpr ⟨h.field_eq ▸ hends, h.ends⟩

theorem fieldBounds_cons (n : ℕ) (c : MaskComponent) (cs : List MaskComponent) :
    fieldBounds (n + 1) (c :: cs) = c.bounds :: fieldBounds n cs := by
  simp [fieldBounds]

/-- The components after the first one. -/
theorem parseIpfields_more {n : ℕ} {field s : ByteString} {fs : List (UInt8 × UInt8)}
    (hs : Behind s) (hfield : ∀ b ∈ field, isSpace b = false) :
    parseIpfields n false (field ++ s) = some fs ↔
      ∃ cs tail, ReadsMore n field cs tail ∧ fs = fieldBounds n cs := by
  induction n generalizing field fs with
  | zero =>
      rw [parseIpfields]
      constructor
      · rintro ⟨⟩
        exact ⟨[], field, readsMore_nil.mpr ⟨rfl, Or.inr rfl⟩, rfl⟩
      · rintro ⟨cs, tail, hreads, rfl⟩
        rw [List.length_eq_zero_iff.mp (Nat.le_zero.mp hreads.length_le)]
        rfl
  | succ n ih =>
      by_cases hnil : field = []
      · subst hnil
        obtain ⟨b, l, rfl, hb⟩ := hs
        rw [parseIpfields, if_pos (by simpa using hb)]
        constructor
        · rintro ⟨⟩
          exact ⟨[], [], readsMore_nil.mpr ⟨rfl, Or.inl rfl⟩, rfl⟩
        · rintro ⟨cs, tail, hreads, rfl⟩
          cases cs with
          | nil => rfl
          | cons c cs => exact absurd hreads.field_eq (by simp [writeMore_cons])
      -- something is left of the field: a dot must come, and a component
      · have hspace : (field ++ s).head?.any isSpace = false := by
          obtain ⟨d, field, rfl⟩ := List.exists_cons_of_ne_nil hnil
          exact hfield d List.mem_cons_self
        rw [parseIpfields_component hs hspace (fun f fs hf => ih hf) hfield]
        constructor
        · rintro ⟨c, f, cs, tail, hc, hread, hends, hreads, rfl⟩
          exact ⟨c :: cs, tail, readsMore_cons.mpr ⟨f, hc, hread, hends, hreads⟩,
            (fieldBounds_cons n c cs).symm⟩
        · rintro ⟨cs, tail, hreads, rfl⟩
          cases cs with
          | nil =>
              obtain ⟨rfl, hfull⟩ := readsMore_nil.mp hreads
              exact absurd (hfull.resolve_right n.succ_ne_zero) hnil
          | cons c cs =>
              obtain ⟨f, hc, hread, hends, hreads⟩ := readsMore_cons.mp hreads
              exact ⟨c, f, cs, tail, hc, hread, hends, hreads, fieldBounds_cons n c cs⟩

theorem readsAs_cons {field tail : ByteString} {c : MaskComponent} {cs : List MaskComponent} :
    ReadsAs field (c :: cs) tail ↔
      ∃ f, field = c.write ++ f ∧ c.Read ∧ c.EndsBefore f ∧ ReadsMore 3 f cs tail := by
  constructor
  · intro h
    obtain ⟨hends, hlast⟩ := MaskComponent.ends_cons.mp h.ends
    refine ⟨writeMore cs ++ tail, ?_, h.read c List.mem_cons_self, hends,
      ⟨rfl, Nat.le_of_succ_le_succ h.length_le, fun d hd => h.read d (List.mem_cons_of_mem _ hd),
        hlast, h.full.imp id fun h => Nat.succ.inj h⟩⟩
    rw [h.field_eq, writeMask, List.append_assoc]
  · rintro ⟨f, rfl, hread, hends, h⟩
    refine ⟨?_, List.cons_ne_nil c cs, Nat.succ_le_succ h.length_le, ?_, ?_,
      h.full.imp id (congrArg Nat.succ)⟩
    · rw [h.field_eq, writeMask, List.append_assoc]
    · intro d hd
      rcases List.mem_cons.mp hd with rfl | hd
      · exact hread
      · exact h.read d hd
    · exact MaskComponent.ends_cons.mpr ⟨h.field_eq ▸ hends, h.ends⟩

/-- All components of a field that does not start with white space. -/
theorem parseIpfields_iff {field s : ByteString} {fs : List (UInt8 × UInt8)} (hs : Behind s)
    (hne : field ≠ []) (hfield : ∀ b ∈ field, isSpace b = false) :
    parseIpfields 4 true (field ++ s) = some fs ↔
      ∃ cs tail, ReadsAs field cs tail ∧ fs = fieldBounds 4 cs := by
  have hspace : (field ++ s).head?.any isSpace = false := by
    obtain ⟨d, field, rfl⟩ := List.exists_cons_of_ne_nil hne
    exact hfield d List.mem_cons_self
  rw [parseIpfields_component hs hspace (fun f fs hf => parseIpfields_more hs hf) hfield]
  constructor
  · rintro ⟨c, f, cs, tail, hc, hread, hends, hreads, rfl⟩
    exact ⟨c :: cs, tail, readsAs_cons.mpr ⟨f, hc, hread, hends, hreads⟩,
      (fieldBounds_cons 3 c cs).symm⟩
  · rintro ⟨cs, tail, hreads, rfl⟩
    obtain ⟨c, cs, rfl⟩ := List.exists_cons_of_ne_nil hreads.ne_nil
    obtain ⟨f, hc, hread, hends, hreads⟩ := readsAs_cons.mp hreads
    exact ⟨c, f, cs, tail, hc, hread, hends, hreads, fieldBounds_cons 3 c cs⟩

/-! ## One reading -/

theorem MaskComponent.write_injective {c d : MaskComponent} (h : c.write = d.write) : c = d := by
  have hdigit : ∀ (n : Digits) (b : UInt8), b ∈ n.val → isDigit b = false → False := by
    intro n b hb hfalse
    rw [n.2.2 b hb] at hfalse
    cases hfalse
  have hstar : ∀ (n : Digits) (l : ByteString), [0x2A] ≠ n.val ++ l := by
    intro n l heq
    obtain ⟨b, digits, hcons, hb⟩ := n.exists_cons
    rw [hcons] at heq
    obtain ⟨rfl, -⟩ := List.cons.inj heq
    exact absurd hb (by decide)
  have hdash : ∀ (n m m' : Digits), n.val ≠ m.val ++ 0x2D :: m'.val := fun n m m' heq =>
    hdigit n 0x2D (heq ▸ List.mem_append_right _ List.mem_cons_self) rfl
  -- by the first byte or the dash, the two are of one kind; digits stop at the dash
  cases c with
  | any =>
      cases d with
      | any => rfl
      | one n => exact absurd (h.trans (List.append_nil _).symm) (hstar n [])
      | span n m => exact absurd h (hstar n _)
  | one n =>
      cases d with
      | any => exact absurd (h.symm.trans (List.append_nil _).symm) (hstar n [])
      | one n' => rw [Subtype.ext h]
      | span n' m => exact absurd h (hdash n n' m)
  | span n m =>
      cases d with
      | any => exact absurd h.symm (hstar n _)
      | one n' => exact absurd h.symm (hdash n' n m)
      | span n' m' =>
          have hstop : ∀ l : ByteString, (0x2D :: l).takeWhile isDigit = [] :=
            takeWhile_isDigit_cons (by decide)
          have hn : n.val = n'.val := by
            rw [← n.takeWhile_append (hstop m.val), ← n'.takeWhile_append (hstop m'.val)]
            exact congrArg _ h
          have hm : 0x2D :: m.val = 0x2D :: m'.val := by
            rw [← n.dropWhile_append (hstop m.val), ← n'.dropWhile_append (hstop m'.val)]
            exact congrArg _ h
          rw [Subtype.ext hn, Subtype.ext (List.cons.inj hm).2]

/-- A component that is read can be told from what follows it. -/
theorem MaskComponent.append_inj {c d : MaskComponent} {f f' : ByteString}
    (h : c.write ++ f = d.write ++ f') (hc : c.Read) (hd : d.Read) (hf : c.EndsBefore f)
    (hf' : d.EndsBefore f') : c = d ∧ f = f' := by
  have hparse := parseIpcomponent_iff.mpr ⟨c, rfl, hc, hf, rfl⟩
  have hparse' := parseIpcomponent_iff.mpr ⟨d, rfl, hd, hf', rfl⟩
  rw [h, hparse'] at hparse
  have heq : f' = f := congrArg Prod.snd (Option.some.inj hparse)
  subst heq
  exact ⟨write_injective (List.append_cancel_right h), rfl⟩

theorem ReadsMore.unique {n : ℕ} {field tail tail' : ByteString} {cs cs' : List MaskComponent}
    (h : ReadsMore n field cs tail) (h' : ReadsMore n field cs' tail') :
    cs = cs' ∧ tail = tail' := by
  induction n generalizing field cs cs' with
  | zero =>
      obtain rfl := List.length_eq_zero_iff.mp (Nat.le_zero.mp h.length_le)
      obtain rfl := List.length_eq_zero_iff.mp (Nat.le_zero.mp h'.length_le)
      exact ⟨rfl, (readsMore_nil.mp h).1.symm.trans (readsMore_nil.mp h').1⟩
  | succ n ih =>
      -- while components may come, reading stops at the end of the field only
      have hnil : ∀ {c cs tail tail'}, ReadsMore (n + 1) field [] tail →
          ¬ ReadsMore (n + 1) field (c :: cs) tail' := by
        intro c cs tail tail' h h'
        obtain ⟨rfl, hfull⟩ := readsMore_nil.mp h
        obtain ⟨f, heq, -⟩ := readsMore_cons.mp h'
        rw [hfull.resolve_right n.succ_ne_zero] at heq
        cases heq
      cases cs with
      | nil =>
          cases cs' with
          | nil => exact ⟨rfl, (readsMore_nil.mp h).1.symm.trans (readsMore_nil.mp h').1⟩
          | cons c' cs' => exact absurd h' (hnil h)
      | cons c cs =>
          cases cs' with
          | nil => exact absurd h (hnil h')
          | cons c' cs' =>
              obtain ⟨f, hf, hread, hends, hmore⟩ := readsMore_cons.mp h
              obtain ⟨f', hf', hread', hends', hmore'⟩ := readsMore_cons.mp h'
              obtain ⟨rfl, rfl⟩ := MaskComponent.append_inj
                (List.cons.inj (hf.symm.trans hf')).2 hread hread' hends hends'
              obtain ⟨rfl, rfl⟩ := ih hmore hmore'
              exact ⟨rfl, rfl⟩

/-- A field is read in one way. -/
theorem ReadsAs.unique {field tail tail' : ByteString} {cs cs' : List MaskComponent}
    (h : ReadsAs field cs tail) (h' : ReadsAs field cs' tail') : cs = cs' ∧ tail = tail' := by
  obtain ⟨c, cs, rfl⟩ := List.exists_cons_of_ne_nil h.ne_nil
  obtain ⟨c', cs', rfl⟩ := List.exists_cons_of_ne_nil h'.ne_nil
  obtain ⟨f, hf, hread, hends, hmore⟩ := readsAs_cons.mp h
  obtain ⟨f', hf', hread', hends', hmore'⟩ := readsAs_cons.mp h'
  obtain ⟨rfl, rfl⟩ :=
    MaskComponent.append_inj (hf.symm.trans hf') hread hread' hends hends'
  obtain ⟨rfl, rfl⟩ := hmore.unique hmore'
  exact ⟨rfl, rfl⟩

/-! ## Addresses -/

/-- `sin_addr.s_addr` of an address: its octets in memory, the most significant one first. -/
def inAddr (bigEndian : Bool) (a : Fin 4 → UInt8) : UInt32 :=
  if bigEndian then ofBe32 (a 3) (a 2) (a 1) (a 0) else ofBe32 (a 0) (a 1) (a 2) (a 3)

theorem toNat_ofBe32 (b₃ b₂ b₁ b₀ : UInt8) : (ofBe32 b₃ b₂ b₁ b₀).toNat =
    b₃.toNat * 16777216 + b₂.toNat * 65536 + b₁.toNat * 256 + b₀.toNat := by
  have h₃ := b₃.toNat_lt
  have h₂ := b₂.toNat_lt
  have h₁ := b₁.toNat_lt
  have h₀ := b₀.toNat_lt
  simp only [ofBe32, UInt32.toNat_ofNat']
  omega

/-- The bytes of a word. -/
theorem bytes_of_word (b₃ b₂ b₁ b₀ : UInt8) :
    let n := b₃.toNat * 16777216 + b₂.toNat * 65536 + b₁.toNat * 256 + b₀.toNat
    n % 256 = b₀.toNat ∧ n / 256 % 256 = b₁.toNat ∧ n / 65536 % 256 = b₂.toNat ∧
      n / 16777216 = b₃.toNat := by
  have h₃ := b₃.toNat_lt
  have h₂ := b₂.toNat_lt
  have h₁ := b₁.toNat_lt
  have h₀ := b₀.toNat_lt
  refine ⟨?_, ?_, ?_, ?_⟩
  · omega
  · omega
  · omega
  · omega

/-- `ntohl` makes the number of an address. -/
theorem ntohl_inAddr (bigEndian : Bool) (a : Fin 4 → UInt8) :
    ntohl bigEndian (inAddr bigEndian a) = ofBe32 (a 3) (a 2) (a 1) (a 0) := by
  cases bigEndian with
  | true => rfl
  | false =>
      obtain ⟨h₀, h₁, h₂, h₃⟩ := bytes_of_word (a 0) (a 1) (a 2) (a 3)
      show UInt32.ofNat _ = UInt32.ofNat _
      simp only [inAddr, Bool.false_eq_true, if_false, toNat_ofBe32, h₀, h₁, h₂, h₃]

theorem forall_octet {P : Fin 4 → Prop} (h₀ : P 0) (h₁ : P 1) (h₂ : P 2) (h₃ : P 3) : ∀ j, P j
  | 0 => h₀
  | 1 => h₁
  | 2 => h₂
  | 3 => h₃

theorem octet_ofBe32 (a : Fin 4 → UInt8) : octet (ofBe32 (a 3) (a 2) (a 1) (a 0)) = a := by
  obtain ⟨h₀, h₁, h₂, h₃⟩ := bytes_of_word (a 3) (a 2) (a 1) (a 0)
  have hbyte : ∀ j : Fin 4, ((a 3).toNat * 16777216 + (a 2).toNat * 65536 + (a 1).toNat * 256 +
      (a 0).toNat) / 256 ^ j.val % 256 = (a j).toNat := by
    apply forall_octet
    · refine Eq.trans ?_ h₀
      exact congrArg (· % 256) (Nat.div_one _)
    · exact h₁
    · exact h₂
    · refine Eq.trans (Nat.mod_eq_of_lt ?_) h₃
      have hlt := (a 3).toNat_lt
      rw [← h₃] at hlt
      exact hlt
  funext j
  apply UInt8.toNat_inj.mp
  rw [octet, UInt8.toNat_ofNat', toNat_ofBe32]
  exact hbyte j

/-- `check_ip` compares the octets of an address. -/
theorem checkIp_inAddr (bigEndian : Bool) (a : Fin 4 → UInt8) (r : IPrange) :
    checkIp bigEndian (inAddr bigEndian a) r =
      if ∀ j, r.lo j ≤ a j ∧ a j ≤ r.hi j then some r.text else none := by
  rw [checkIp, ntohl_inAddr, octet_ofBe32]

/-! ## Masks -/

theorem Digits.word_of_value {n : Digits} (h : n.value ≤ 255) : n.word = n.value :=
  Nat.mod_eq_of_lt (by omega)

theorem MaskComponent.Small.read {c : MaskComponent} (h : c.Small) : c.Read := by
  cases c with
  | any => trivial
  | one n => exact (Digits.word_of_value h.1).trans_le h.1
  | span n m =>
      exact ⟨(Digits.word_of_value h.1).trans_le h.1, (Digits.word_of_value h.2).trans_le h.2⟩

theorem MaskComponent.Small.toNat_bounds {c : MaskComponent} (h : c.Small) :
    c.bounds.1.toNat = c.lo ∧ c.bounds.2.toNat = c.hi := by
  have hbyte : ∀ n : Digits, n.value ≤ 255 → (UInt8.ofNat n.word).toNat = n.value := by
    intro n hn
    rw [Digits.word_of_value hn, UInt8.toNat_ofNat']
    omega
  cases c with
  | any => exact ⟨rfl, rfl⟩
  | one n => exact ⟨hbyte n h.1, hbyte n h.1⟩
  | span n m => exact ⟨hbyte n h.1, hbyte m h.2⟩

/-- A mask is read as it stands. -/
theorem IsMask.readsAs {field : ByteString} {cs : List MaskComponent} (h : IsMask field cs) :
    ReadsAs field cs [] where
  field_eq := by rw [h.field_eq, List.append_nil]
  ne_nil := h.ne_nil
  length_le := h.length_le
  read := fun c hc => (h.small c hc).read
  ends := by
    intro c _
    cases c with
    | any => trivial
    | one n => exact fun b hb => by cases hb
    | span n m => exact fun b hb => by cases hb
  full := Or.inl rfl

/-- A field that is misread is no mask. -/
theorem misread_iff {field : ByteString} {cs : List MaskComponent} {tail : ByteString}
    (h : ReadsAs field cs tail) : Misread field ↔ ¬ ∃ cs, IsMask field cs := by
  constructor
  · rintro ⟨cs', tail', hreads, hbad⟩ ⟨cs'', hmask⟩
    obtain ⟨rfl, rfl⟩ := hreads.unique hmask.readsAs
    rcases hbad with hbad | ⟨c, hc, hbad⟩
    · exact hbad rfl
    · exact hbad (hmask.small c hc)
  · intro hmask
    refine ⟨cs, tail, h, ?_⟩
    by_contra hgood
    rw [not_or, Classical.not_not] at hgood
    refine hmask ⟨cs, ?_, h.ne_nil, h.length_le, fun c hc => ?_⟩
    · rw [h.field_eq, hgood.1, List.append_nil]
    · by_contra hsmall
      exact hgood.2 ⟨c, hc, hsmall⟩

theorem getD_fieldBounds (cs : List MaskComponent) (j : Fin 4) :
    (fieldBounds 4 cs).getD (3 - j.val) (0, 0) =
      ((cs[3 - j.val]?).map MaskComponent.bounds).getD (0x00, 0xff) := by
  have hj := j.isLt
  rw [fieldBounds, List.getD_eq_getElem?_getD]
  by_cases hlt : 3 - j.val < cs.length
  · rw [List.getElem?_append_left (by simpa using hlt), List.getElem?_map,
      List.getElem?_eq_getElem hlt]
    rfl
  · rw [List.getElem?_append_right (by simpa using hlt), List.getElem?_replicate,
      List.getElem?_eq_none (by omega), List.length_map, if_pos (by omega)]
    rfl

/-- The octets of an address lie in the bounds that a mask stands for if it covers the address. -/
theorem covers_iff {field : ByteString} {cs : List MaskComponent} (h : IsMask field cs)
    (a : Fin 4 → UInt8) :
    (∀ j : Fin 4, maskLo cs j ≤ a j ∧ a j ≤ maskHi cs j) ↔ Covers cs a := by
  have hone : ∀ j : Fin 4, (maskLo cs j ≤ a j ∧ a j ≤ maskHi cs j) ↔
      ∀ c, cs[3 - j.val]? = some c → c.lo ≤ (a j).toNat ∧ (a j).toNat ≤ c.hi := by
    intro j
    rw [maskLo, maskHi, getD_fieldBounds, UInt8.le_iff_toNat_le, UInt8.le_iff_toNat_le]
    cases hc : cs[3 - j.val]? with
    | none =>
        have ha := (a j).toNat_lt
        refine iff_of_true ⟨Nat.zero_le _, ?_⟩ fun c hc => by cases hc
        show (a j).toNat ≤ 255
        omega
    | some c =>
        obtain ⟨hlo, hhi⟩ := (h.small c (List.mem_of_getElem? hc)).toNat_bounds
        show c.bounds.1.toNat ≤ _ ∧ _ ≤ c.bounds.2.toNat ↔ _
        rw [hlo, hhi]
        constructor
        · rintro hbounds d hd
          rw [← Option.some.inj hd]
          exact hbounds
        · exact fun h => h c rfl
  constructor
  · exact fun h i c hc => (hone i).mp (h i) c hc
  · exact fun h j => (hone j).mpr fun c hc => h j c hc

/-! ## Lines -/

/-- The first field of a line. -/
def hostField (line : ByteString) : ByteString :=
  (skipWhitespace line).takeWhile fun c => !isSpace c

/-- What comes after the first field and the white space behind it. -/
def behindField (line : ByteString) : ByteString :=
  skipWhitespace ((skipWhitespace line).dropWhile fun c => !isSpace c)

/-- The type of host and its message. -/
def typeText (line : ByteString) : ByteString :=
  (behindField line).take 1 ++
    (skipWhitespace (skipWhitespace ((behindField line).drop 1)).reverse).reverse

/-- A type of host is given. -/
def HasType (line : ByteString) : Prop := ∃ c, (behindField line).head? = some c ∧ c ≠ 0x23

/-- The first field is a number or a star. -/
def Numeric (line : ByteString) : Prop :=
  ∃ c, (hostField line).head? = some c ∧ (c = 0x2A ∨ isDigit c = true)

/-- When `parse_ipline` returns a record, and which. -/
theorem parseIpline_eq_some {gethostbyname : ByteString → Option UInt32} {line : ByteString}
    {r : IPrange} :
    parseIpline gethostbyname line = some r ↔
      ∃ c type message b, (hostField line).head? = some c ∧ c ≠ 0x23 ∧
        behindField line = type :: message ∧ type ≠ 0x23 ∧
        (if c = 0x2A ∨ isDigit c = true then parseIpnumber (skipWhitespace line)
          else parseHostname gethostbyname (hostField line)) = some b ∧
        r = ⟨b.1, b.2, type :: (skipWhitespace (skipWhitespace message).reverse).reverse⟩ := by
  have hfirst : ∀ c, (skipWhitespace line).head? = some c →
      (hostField line).head? = some c := by
    intro c hc
    obtain ⟨l, hl⟩ : ∃ l, skipWhitespace line = c :: l := by
      cases hl : skipWhitespace line with
      | nil =>
          rw [hl] at hc
          cases hc
      | cons d l =>
          rw [hl] at hc
          exact ⟨l, by rw [Option.some.inj hc]⟩
    rw [hostField, hl, List.takeWhile_cons_of_pos (by rw [isSpace_of_skipWhitespace hl]; rfl)]
    rfl
  unfold parseIpline
  simp only
  cases hline : skipWhitespace line with
  | nil =>
      refine iff_of_false (fun h => by cases h) ?_
      rintro ⟨c, -, -, -, hc, -⟩
      rw [hostField, hline] at hc
      cases hc
  | cons c l =>
      have hc : (hostField line).head? = some c := hfirst c (by rw [hline]; rfl)
      simp only [hc, Option.some.injEq]
      by_cases hhash : c = 0x23
      · rw [if_pos hhash]
        refine iff_of_false (fun h => by cases h) ?_
        rintro ⟨c', -, -, -, rfl, hne, -⟩
        exact hne hhash
      · rw [if_neg hhash]
        have hbehind : skipWhitespace ((c :: l).dropWhile fun c => !isSpace c) =
            behindField line := by rw [behindField, hline]
        have hfield : (c :: l).takeWhile (fun c => !isSpace c) = hostField line := by
          rw [hostField, hline]
        rw [hbehind, hfield]
        cases behindField line with
        | nil =>
            refine iff_of_false (fun h => by cases h) ?_
            rintro ⟨c', type, message, b, hc', hne, hnil, hrest⟩
            cases hnil
        | cons type message =>
            dsimp only
            by_cases htype : type = 0x23
            · rw [if_pos htype]
              refine iff_of_false (fun h => by cases h) ?_
              rintro ⟨c', type', message', b, hc', hne, heq, hne', hrest⟩
              exact hne' ((List.cons.inj heq).1 ▸ htype)
            · rw [if_neg htype, Option.map_eq_some_iff]
              constructor
              · rintro ⟨b, hb, rfl⟩
                exact ⟨c, type, message, b, rfl, hhash, rfl, htype, hb, rfl⟩
              · rintro ⟨c', type', message', b, rfl, hne, heq, hne', hb, rfl⟩
                obtain ⟨rfl, rfl⟩ := List.cons.inj heq
                exact ⟨b, hb, rfl⟩

/-- White space stands behind the first field of a line with a type of host. -/
theorem behind_of_hasType {line : ByteString} (h : HasType line) :
    ∃ s, skipWhitespace line = hostField line ++ s ∧ Behind s := by
  refine ⟨(skipWhitespace line).dropWhile fun c => !isSpace c,
    List.takeWhile_append_dropWhile.symm, ?_⟩
  obtain ⟨type, htype, -⟩ := h
  cases hs : (skipWhitespace line).dropWhile fun c => !isSpace c with
  | nil =>
      rw [behindField, hs] at htype
      cases htype
  | cons b l =>
      refine ⟨b, l, rfl, ?_⟩
      have hidem := List.dropWhile_idempotent (fun c => !isSpace c) (skipWhitespace line)
      rw [hs, List.dropWhile_eq_self_iff] at hidem
      simpa using hidem (Nat.succ_pos _)

theorem not_isSpace_hostField (line : ByteString) : ∀ b ∈ hostField line, isSpace b = false := by
  intro b hb
  have hb := List.mem_takeWhile_imp hb
  simpa using hb

/-- A line with a numeric mask. -/
theorem parseIpline_numeric {gethostbyname : ByteString → Option UInt32} {line : ByteString}
    (hnumeric : Numeric line) {r : IPrange} :
    parseIpline gethostbyname line = some r ↔
      HasType line ∧ ∃ cs tail, ReadsAs (hostField line) cs tail ∧
        r = ⟨maskLo cs, maskHi cs, typeText line⟩ := by
  obtain ⟨c, hc, hnum⟩ := hnumeric
  have hne : hostField line ≠ [] := by
    intro hnil
    rw [hnil] at hc
    cases hc
  have hhash : c ≠ 0x23 := by
    rintro rfl
    exact absurd hnum (by decide)
  rw [parseIpline_eq_some]
  constructor
  · rintro ⟨c', type, message, b, hc', hne', hbehind, htype, hb, rfl⟩
    have hhas : HasType line := ⟨type, by rw [hbehind]; rfl, htype⟩
    obtain ⟨s, hline, hs⟩ := behind_of_hasType hhas
    obtain rfl : c = c' := Option.some.inj (hc.symm.trans hc')
    rw [if_pos hnum, hline, parseIpnumber, Option.map_eq_some_iff] at hb
    obtain ⟨fs, hfs, rfl⟩ := hb
    obtain ⟨cs, tail, hreads, rfl⟩ :=
      (parseIpfields_iff hs hne (not_isSpace_hostField line)).mp hfs
    exact ⟨hhas, cs, tail, hreads, by rw [typeText, hbehind]; rfl⟩
  · rintro ⟨hhas, cs, tail, hreads, rfl⟩
    obtain ⟨s, hline, hs⟩ := behind_of_hasType hhas
    obtain ⟨type, htype, hne'⟩ := hhas
    obtain ⟨message, hbehind⟩ : ∃ message, behindField line = type :: message := by
      cases hb : behindField line with
      | nil =>
          rw [hb] at htype
          cases htype
      | cons d message =>
          rw [hb] at htype
          exact ⟨message, by rw [Option.some.inj htype]⟩
    have hfs := (parseIpfields_iff hs hne (not_isSpace_hostField line)).mpr
      ⟨cs, tail, hreads, rfl⟩
    refine ⟨c, type, message, (maskLo cs, maskHi cs), hc, hhash, hbehind, hne', ?_,
      by rw [typeText, hbehind]; rfl⟩
    rw [if_pos hnum, hline, parseIpnumber, hfs]
    rfl

/-- For every line with a numeric mask: `parse_ipline` accepts the mask if and only if it is one, and
it then matches the addresses that the mask says.  It does so unless it misreads a field. -/
theorem parseIpline_numeric_iff (gethostbyname : ByteString → Option UInt32) (line : ByteString)
    (hnumeric : Numeric line) :
    ((∃ r, parseIpline gethostbyname line = some r) ↔
        HasType line ∧ ∃ cs, IsMask (hostField line) cs) ∧
      (∀ r cs, parseIpline gethostbyname line = some r → IsMask (hostField line) cs →
        ∀ (bigEndian : Bool) (a : Fin 4 → UInt8),
          checkIp bigEndian (inAddr bigEndian a) r = some r.text ↔ Covers cs a) ↔
    ¬ (HasType line ∧ Misread (hostField line)) := by
  have hmatches : ∀ r cs, parseIpline gethostbyname line = some r → IsMask (hostField line) cs →
      ∀ (bigEndian : Bool) (a : Fin 4 → UInt8),
        checkIp bigEndian (inAddr bigEndian a) r = some r.text ↔ Covers cs a := by
    intro r cs hr hmask bigEndian a
    obtain ⟨-, cs', tail, hreads, rfl⟩ := (parseIpline_numeric hnumeric).mp hr
    obtain ⟨rfl, -⟩ := hreads.unique hmask.readsAs
    rw [checkIp_inAddr, ← covers_iff hmask]
    simp
  constructor
  · intro h hmisread
    obtain ⟨hhas, cs, tail, hreads, -⟩ := id hmisread
    exact (misread_iff hreads).mp hmisread.2 (h.1.mp ⟨_, (parseIpline_numeric hnumeric).mpr
      ⟨hhas, cs, tail, hreads, rfl⟩⟩).2
  · intro hread
    refine ⟨⟨?_, ?_⟩, hmatches⟩
    · rintro ⟨r, hr⟩
      obtain ⟨hhas, cs, tail, hreads, -⟩ := (parseIpline_numeric hnumeric).mp hr
      refine ⟨hhas, ?_⟩
      by_contra hmask
      exact hread ⟨hhas, (misread_iff hreads).mpr hmask⟩
    · rintro ⟨hhas, cs, hmask⟩
      exact ⟨_, (parseIpline_numeric hnumeric).mpr ⟨hhas, cs, [], hmask.readsAs, rfl⟩⟩

/-- A number that is written out. -/
theorem digits_of_all {l : ByteString} (h : (!l.isEmpty && l.all isDigit) = true) :
    l ≠ [] ∧ ∀ c ∈ l, isDigit c = true := by
  obtain ⟨hne, hall⟩ := Bool.and_eq_true_iff.mp h
  refine ⟨?_, List.all_eq_true.mp hall⟩
  rintro rfl
  cases hne

/-- A mask with a range and two components missing. -/
theorem parseIpline_numeric_iff_range :
    (∃ r, parseIpline (fun _ => none) (text "128.4-8 N") = some r) ↔
      HasType (text "128.4-8 N") ∧ ∃ cs, IsMask (hostField (text "128.4-8 N")) cs := by
  have hmask : IsMask (hostField (text "128.4-8 N"))
      [.one ⟨text "128", digits_of_all (by decide)⟩,
        .span ⟨text "4", digits_of_all (by decide)⟩ ⟨text "8", digits_of_all (by decide)⟩] :=
    ⟨by decide +kernel, by decide, by decide, by decide +kernel⟩
  exact ((parseIpline_numeric_iff (fun _ => none) (text "128.4-8 N")
    ⟨0x31, by decide +kernel, Or.inr (by decide)⟩).mpr
      fun h => (misread_iff hmask.readsAs).mp h.2 ⟨_, hmask⟩).1

/-- Something behind the fourth component, and a number that is 1 in an `unsigned long`. -/
theorem parseIpline_misreads :
    ((∃ r, parseIpline (fun _ => none) (text "1.2.3.4xyz N") = some r) ∧
      ¬ ∃ cs, IsMask (hostField (text "1.2.3.4xyz N")) cs) ∧
    ((∃ r, parseIpline (fun _ => none) (text "18446744073709551617 N") = some r) ∧
      ¬ ∃ cs, IsMask (hostField (text "18446744073709551617 N")) cs) := by
  have hjunk : ReadsAs (hostField (text "1.2.3.4xyz N"))
      [.one ⟨text "1", digits_of_all (by decide)⟩, .one ⟨text "2", digits_of_all (by decide)⟩,
        .one ⟨text "3", digits_of_all (by decide)⟩,
        .one ⟨text "4", digits_of_all (by decide)⟩] (text "xyz") := by
    refine ⟨by decide +kernel, by decide, by decide, by decide +kernel, ?_, Or.inr rfl⟩
    rintro c ⟨⟩ b ⟨⟩
    decide
  have hlong : ReadsAs (hostField (text "18446744073709551617 N"))
      [.one ⟨text "18446744073709551617", digits_of_all (by decide)⟩] [] := by
    refine ⟨by decide +kernel, by decide, by decide, by decide +kernel, ?_, Or.inl rfl⟩
    rintro c ⟨⟩ b ⟨⟩
  refine ⟨⟨?_, (misread_iff hjunk).mp ⟨_, _, hjunk, Or.inl (by decide)⟩⟩, ?_,
    (misread_iff hlong).mp ⟨_, _, hlong, Or.inr ⟨_, List.mem_cons_self, by decide +kernel⟩⟩⟩
  · exact Option.isSome_iff_exists.mp (by decide +kernel)
  · exact Option.isSome_iff_exists.mp (by decide +kernel)

/-! ## Named hosts -/

/-- The digits of an octet. -/
def octetDigits (b : UInt8) : Digits :=
  ⟨decimal b.toNat, (decimal_spec b.toNat b.toNat_lt).2.1, isDigit_of_mem_decimal b⟩

theorem word_octetDigits (b : UInt8) : (octetDigits b).word = b.toNat := by
  rw [← (decimal_spec b.toNat b.toNat_lt).2.2, toNat_digitsValue]
  rfl

/-- An address in dotted decimal. -/
def dottedDecimal (a : Fin 4 → UInt8) : ByteString :=
  writeMask [.one (octetDigits (a 3)), .one (octetDigits (a 2)), .one (octetDigits (a 1)),
    .one (octetDigits (a 0))]

/-- `parse_ipnumber` reads an address in dotted decimal. -/
theorem parseIpnumber_dottedDecimal (a : Fin 4 → UInt8) {s : ByteString} (hs : Behind s) :
    parseIpnumber (dottedDecimal a ++ s) = some (a, a) := by
  set cs : List MaskComponent := [.one (octetDigits (a 3)), .one (octetDigits (a 2)),
    .one (octetDigits (a 1)), .one (octetDigits (a 0))]
  have hread : ∀ b, (MaskComponent.one (octetDigits b)).Read := fun b => by
    show (octetDigits b).word ≤ 255
    have := b.toNat_lt
    rw [word_octetDigits]
    omega
  have hreads : ReadsAs (dottedDecimal a) cs [] := by
    refine ⟨(List.append_nil _).symm, List.cons_ne_nil _ _, le_rfl, ?_, ?_, Or.inl rfl⟩
    · intro c hc
      simp only [cs, List.mem_cons, List.not_mem_nil, or_false] at hc
      rcases hc with rfl | rfl | rfl | rfl
      · exact hread (a 3)
      · exact hread (a 2)
      · exact hread (a 1)
      · exact hread (a 0)
    · rintro c ⟨⟩ b ⟨⟩
  have hne : dottedDecimal a ≠ [] := by
    obtain ⟨c, l, hcons, -⟩ := (octetDigits (a 3)).exists_cons
    rw [dottedDecimal, writeMask, MaskComponent.write, hcons]
    exact List.cons_ne_nil c _
  have hspace : ∀ b ∈ dottedDecimal a, isSpace b = false := not_isSpace_writeMask cs
  rw [parseIpnumber, (parseIpfields_iff hs hne hspace).mpr ⟨cs, [], hreads, rfl⟩]
  have hbounds : ∀ b, (MaskComponent.one (octetDigits b)).bounds = (b, b) := by
    intro b
    rw [MaskComponent.bounds, word_octetDigits, UInt8.ofNat_toNat]
  have hfields : fieldBounds 4 cs =
      [(a 3, a 3), (a 2, a 2), (a 1, a 1), (a 0, a 0)] := by
    simp [fieldBounds, cs, hbounds]
  rw [hfields, Option.map_some, Option.some.injEq, Prod.mk.injEq]
  constructor
  · funext j
    revert j
    exact forall_octet rfl rfl rfl rfl
  · funext j
    revert j
    exact forall_octet rfl rfl rfl rfl

/-- An entry for one address. -/
theorem checkIp_single (bigEndian : Bool) (a b : Fin 4 → UInt8) (message : ByteString) :
    checkIp bigEndian (inAddr bigEndian b) ⟨a, a, message⟩ = some message ↔ b = a := by
  rw [checkIp_inAddr]
  constructor
  · intro h
    split_ifs at h with hbounds
    funext j
    exact UInt8.le_antisymm (hbounds j).2 (hbounds j).1
  · rintro rfl
    exact if_pos fun j => ⟨UInt8.le_refl _, UInt8.le_refl _⟩

/-- The octets of an address as `parse_hostname` takes them. -/
theorem octet_inAddr (bigEndian : Bool) (a : Fin 4 → UInt8) :
    octet (inAddr bigEndian a) = if bigEndian then a else fun j => a j.rev := by
  cases bigEndian with
  | true => exact octet_ofBe32 a
  | false =>
      have hrev : (3 : Fin 4).rev = 0 ∧ (2 : Fin 4).rev = 1 ∧ (1 : Fin 4).rev = 2 ∧
          (0 : Fin 4).rev = 3 := by decide
      have hoctet := octet_ofBe32 fun j => a j.rev
      rw [hrev.1, hrev.2.1, hrev.2.2.1, hrev.2.2.2] at hoctet
      exact hoctet

theorem octet_inAddr_eq_iff (bigEndian : Bool) (a : Fin 4 → UInt8) :
    octet (inAddr bigEndian a) = a ↔ bigEndian = true ∨ a 3 = a 0 ∧ a 2 = a 1 := by
  rw [octet_inAddr]
  cases bigEndian with
  | true => exact iff_of_true rfl (Or.inl rfl)
  | false =>
      simp only [Bool.false_eq_true, if_false, false_or]
      constructor
      · intro h
        exact ⟨(congrFun h 0 : _), (congrFun h 1 : _)⟩
      · rintro ⟨h₃, h₂⟩
        funext j
        revert j
        exact forall_octet h₃ h₂ h₂.symm h₃.symm

/-- For every address and machine, the entry that `parse_hostname` builds for a name of the address
matches this address and no other, as the one that `parse_ipnumber` builds for it in dotted decimal
does, if and only if the machine is big-endian or the address is the same from both ends. -/
theorem parseHostname_matches_iff (gethostbyname : ByteString → Option UInt32) (name : ByteString)
    (bigEndian : Bool) (a : Fin 4 → UInt8) (message s : ByteString) (hs : Behind s)
    (hname : gethostbyname name = some (inAddr bigEndian a)) :
    ∃ named numeric, parseHostname gethostbyname name = some named ∧
      parseIpnumber (dottedDecimal a ++ s) = some numeric ∧
      ((∀ b, (checkIp bigEndian (inAddr bigEndian b) ⟨named.1, named.2, message⟩ = some message ↔
            b = a) ∧
          checkIp bigEndian (inAddr bigEndian b) ⟨named.1, named.2, message⟩ =
            checkIp bigEndian (inAddr bigEndian b) ⟨numeric.1, numeric.2, message⟩) ↔
        bigEndian = true ∨ a 3 = a 0 ∧ a 2 = a 1) := by
  have hnamed : parseHostname gethostbyname name =
      some (octet (inAddr bigEndian a), octet (inAddr bigEndian a)) := by
    rw [parseHostname, hname]
    rfl
  refine ⟨_, _, hnamed, parseIpnumber_dottedDecimal a hs, ?_⟩
  rw [← octet_inAddr_eq_iff]
  constructor
  · intro h
    exact ((checkIp_single bigEndian _ a message).mp ((h a).1.mpr rfl)).symm
  · intro h b
    rw [h]
    exact ⟨checkIp_single bigEndian a b message, rfl⟩

/-- `localhost` on a machine that is not big-endian. -/
theorem parseHostname_matches_iff_localhost :
    ∃ named numeric, parseHostname (fun _ => some 0x0100007F) (text "localhost") = some named ∧
      parseIpnumber (dottedDecimal (fun j => if j = 3 then 127 else if j = 0 then 1 else 0) ++
        text " N") = some numeric ∧
      ((∀ b, (checkIp false (inAddr false b) ⟨named.1, named.2, text "N"⟩ = some (text "N") ↔
            b = fun j => if j = 3 then 127 else if j = 0 then 1 else 0) ∧
          checkIp false (inAddr false b) ⟨named.1, named.2, text "N"⟩ =
            checkIp false (inAddr false b) ⟨numeric.1, numeric.2, text "N"⟩) ↔
        false = true ∨ (127 : UInt8) = 1 ∧ (0 : UInt8) = 0) :=
  parseHostname_matches_iff (fun _ => some 0x0100007F) (text "localhost") false
    (fun j => if j = 3 then 127 else if j = 0 then 1 else 0) (text "N") (text " N")
    ⟨0x20, text "N", rfl, rfl⟩ (by decide +kernel)

/-- The entry for `localhost` matches `1.0.0.127` and not `127.0.0.1`. -/
theorem parseHostname_reversed :
    ∃ named, parseHostname (fun _ => some (inAddr false fun j =>
        if j = 3 then 127 else if j = 0 then 1 else 0)) (text "localhost") = some named ∧
      checkIp false (inAddr false fun j => if j = 3 then 127 else if j = 0 then 1 else 0)
        ⟨named.1, named.2, text "N"⟩ = none ∧
      checkIp false (inAddr false fun j => if j = 3 then 1 else if j = 0 then 127 else 0)
        ⟨named.1, named.2, text "N"⟩ = some (text "N") := by
  exact ⟨_, rfl, by decide +kernel, by decide +kernel⟩

end Fsp
