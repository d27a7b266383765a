import Fsp.Server.Lines
import Mathlib.Data.List.DropRight

/-!
# Owner files

`dump_iptab` writes one line for each record of a table, and `load_access_rights` hands lines of the
owner file to `add_ipline`.  Every line that is dumped is read back as the record it stands for:
`parseIpline_dumpRecord`.  The file as a whole is not: the reader takes the first line and stops at
its end, which it never gets past.
-/

namespace Fsp

open Bytes

/-! ## Numbers -/

theorem decimal_spec : ∀ n < 256, (decimal n).all isDigit = true ∧ decimal n ≠ [] ∧
    (digitsValue (decimal n)).toNat = n := by
  decide +kernel

theorem isDigit_of_mem_decimal (b : UInt8) : ∀ c ∈ decimal b.toNat, isDigit c = true :=
  List.all_eq_true.mp (decimal_spec b.toNat b.toNat_lt).1

theorem isSpace_of_isDigit {c : UInt8} (h : isDigit c = true) : isSpace c = false := by
  simp only [isDigit, isSpace, Bool.and_eq_true, decide_eq_true_eq, UInt8.le_iff_toNat_le,
    Bool.or_eq_false_iff, Bool.and_eq_false_iff, decide_eq_false_iff_not, beq_eq_false_iff_ne,
    ne_eq, ← UInt8.toNat_inj] at h ⊢
  have h₁ : (0x30 : UInt8).toNat = 48 := rfl
  have h₂ : (0x20 : UInt8).toNat = 32 := rfl
  have h₃ : (0x0D : UInt8).toNat = 13 := rfl
  omega

/-- A number is read back, whatever follows it but a digit. -/
theorem parseIpcomponentnum_decimal (b : UInt8) {rest : ByteString}
    (hrest : rest.takeWhile isDigit = []) :
    parseIpcomponentnum (decimal b.toNat ++ rest) = some (b, rest) := by
  have hb : b.toNat < 256 := b.toNat_lt
  obtain ⟨-, hne, hvalue⟩ := decimal_spec b.toNat hb
  have hdigits : (decimal b.toNat ++ rest).takeWhile isDigit = decimal b.toNat := by
    rw [List.takeWhile_append_of_pos (isDigit_of_mem_decimal b), hrest, List.append_nil]
  have hafter : (decimal b.toNat ++ rest).dropWhile isDigit = rest := by
    rw [List.dropWhile_append_of_pos (isDigit_of_mem_decimal b)]
    conv_rhs => rw [← List.takeWhile_append_dropWhile (p := isDigit) (l := rest), hrest]
    rfl
  have hsmall : ¬ 0xff < digitsValue (decimal b.toNat) := by
    rw [UInt64.lt_iff_toNat_lt, hvalue]
    show ¬ 255 < b.toNat
    omega
  have hbyte : (digitsValue (decimal b.toNat)).toUInt8 = b := by
    apply UInt8.toNat_inj.mp
    rw [UInt64.toNat_toUInt8, hvalue]
    omega
  unfold parseIpcomponentnum
  simp only [hdigits, hafter, if_neg hne, if_neg hsmall, hbyte]

/-- What no digit starts. -/
theorem takeWhile_isDigit_cons {c : UInt8} (hc : isDigit c = false) (rest : ByteString) :
    (c :: rest).takeWhile isDigit = [] := by
  rw [List.takeWhile_cons, hc]
  rfl

/-! ## Ranges -/

/-- `"%d-%d"` -/
def dumpRange (lo hi : UInt8) : ByteString :=
  decimal lo.toNat ++ text "-" ++ decimal hi.toNat

theorem exists_digit_dumpRange (lo hi : UInt8) :
    ∃ c rest, dumpRange lo hi = c :: rest ∧ isDigit c = true := by
  obtain ⟨c, digits, hdigits⟩ :=
    List.exists_cons_of_ne_nil (decimal_spec lo.toNat lo.toNat_lt).2.1
  refine ⟨c, digits ++ text "-" ++ decimal hi.toNat, ?_, ?_⟩
  · rw [dumpRange, hdigits]
    rfl
  · apply isDigit_of_mem_decimal lo
    rw [hdigits]
    exact List.mem_cons_self

theorem parseIpcomponent_dumpRange (lo hi : UInt8) {rest : ByteString}
    (hrest : rest.takeWhile isDigit = []) :
    parseIpcomponent (dumpRange lo hi ++ rest) = some ((lo, hi), rest) := by
  have hfirst : parseIpcomponentnum (dumpRange lo hi ++ rest) =
      some (lo, text "-" ++ decimal hi.toNat ++ rest) := by
    have hminus : (text "-" ++ decimal hi.toNat ++ rest).takeWhile isDigit = [] :=
      takeWhile_isDigit_cons (by decide) _
    rw [← parseIpcomponentnum_decimal lo hminus]
    simp only [dumpRange, List.append_assoc]
  obtain ⟨c, digits, hdigits, hc⟩ := exists_digit_dumpRange lo hi
  unfold parseIpcomponent
  split
  · rename_i heq
    rw [hdigits] at heq
    injection heq with heq
    rw [heq] at hc
    exact absurd hc (by decide)
  · rw [hfirst]
    show (parseIpcomponentnum (decimal hi.toNat ++ rest)).map _ = _
    rw [parseIpcomponentnum_decimal hi hrest]
    rfl

/-- The ranges of a record, most significant first. -/
def dumpRanges (r : IPrange) : ByteString :=
  dumpRange (r.lo 3) (r.hi 3) ++ text "." ++ dumpRange (r.lo 2) (r.hi 2) ++ text "." ++
    dumpRange (r.lo 1) (r.hi 1) ++ text "." ++ dumpRange (r.lo 0) (r.hi 0)

/-- The first field of a mask. -/
theorem parseIpfields_first (n : ℕ) (lo hi : UInt8) {rest : ByteString}
    (hrest : rest.takeWhile isDigit = []) :
    parseIpfields (n + 1) true (dumpRange lo hi ++ rest) =
      (parseIpfields n false rest).map ((lo, hi) :: ·) := by
  obtain ⟨c, digits, hdigits, hc⟩ := exists_digit_dumpRange lo hi
  have hspace : ¬ (dumpRange lo hi ++ rest).head?.any isSpace = true := by
    rw [hdigits]
    show ¬ isSpace c = true
    rw [isSpace_of_isDigit hc]
    exact Bool.false_ne_true
  rw [parseIpfields, if_neg hspace, if_pos rfl]
  simp only [parseIpcomponent_dumpRange lo hi hrest]

/-- Another one, after a dot. -/
theorem parseIpfields_next (n : ℕ) (lo hi : UInt8) {rest : ByteString}
    (hrest : rest.takeWhile isDigit = []) :
    parseIpfields (n + 1) false (text "." ++ (dumpRange lo hi ++ rest)) =
      (parseIpfields n false rest).map ((lo, hi) :: ·) := by
  have hdot : (text "." ++ (dumpRange lo hi ++ rest)).head? = some parseIpfields.dot := rfl
  rw [parseIpfields, if_neg (by rw [hdot]; decide), if_neg (by decide), if_pos hdot]
  have htail : (text "." ++ (dumpRange lo hi ++ rest)).tail = dumpRange lo hi ++ rest := rfl
  simp only [htail, parseIpcomponent_dumpRange lo hi hrest]

theorem parseIpnumber_dumpRanges (r : IPrange) {rest : ByteString}
    (hrest : rest.takeWhile isDigit = []) :
    parseIpnumber (dumpRanges r ++ rest) = some (r.lo, r.hi) := by
  have hdot : ∀ l, (text "." ++ l).takeWhile isDigit = [] := fun l =>
    takeWhile_isDigit_cons (by decide) l
  have hfields : parseIpfields 4 true (dumpRanges r ++ rest) =
      some [(r.lo 3, r.hi 3), (r.lo 2, r.hi 2), (r.lo 1, r.hi 1), (r.lo 0, r.hi 0)] := by
    simp only [dumpRanges, List.append_assoc]
    rw [parseIpfields_first 3 _ _ (hdot _), parseIpfields_next 2 _ _ (hdot _),
      parseIpfields_next 1 _ _ (hdot _), parseIpfields_next 0 _ _ hrest, parseIpfields]
    rfl
  unfold parseIpnumber
  rw [hfields]
  rw [Option.map_some, Option.some.injEq, Prod.mk.injEq]
  constructor
  · funext j
    match j with
    | 0 | 1 | 2 | 3 => rfl
  · funext j
    match j with
    | 0 | 1 | 2 | 3 => rfl

/-! ## Texts -/

/-- No white space at either end. -/
def Trimmed (message : ByteString) : Prop :=
  skipWhitespace message = message ∧ skipWhitespace message.reverse = message.reverse

/-- A type of host with a message, as `parse_ipline` makes them of a line. -/
def KeptText (t : ByteString) : Prop :=
  ∃ type message, t = type :: message ∧ isSpace type = false ∧ type ≠ 0x23 ∧ Trimmed message

/-- A type of host with a message, as `parse_ipline` keeps them. -/
def HostText (t : ByteString) : Prop :=
  ∃ type message, t = type :: message ∧ isSpace type = false ∧ type ≠ 0x23 ∧ Trimmed message ∧
    (0 : UInt8) ∉ t

theorem HostText.kept {t : ByteString} (h : HostText t) : KeptText t := by
  obtain ⟨type, message, heq, hspace, htype, htrimmed, -⟩ := h
  exact ⟨type, message, heq, hspace, htype, htrimmed⟩

theorem skipWhitespace_idem (l : ByteString) :
    skipWhitespace (skipWhitespace l) = skipWhitespace l :=
  List.dropWhile_idempotent isSpace l

theorem isSpace_of_skipWhitespace {l rest : ByteString} {c : UInt8}
    (h : skipWhitespace l = c :: rest) : isSpace c = false := by
  have hidem := skipWhitespace_idem l
  rw [h, skipWhitespace, List.dropWhile_eq_self_iff] at hidem
  simpa using hidem (Nat.succ_pos _)

/-- White space that is cut off at the end leaves the beginning as it is. -/
theorem trimmed_of_skipWhitespace {l : ByteString} (h : skipWhitespace l = l) :
    Trimmed (skipWhitespace l.reverse).reverse := by
  have hprefix : (skipWhitespace l.reverse).reverse <+: l := List.rdropWhile_prefix isSpace l
  constructor
  · cases hl : (skipWhitespace l.reverse).reverse with
    | nil => rfl
    | cons c rest =>
        rw [hl] at hprefix
        obtain ⟨after, rfl⟩ := hprefix
        have hc : isSpace c = false := isSpace_of_skipWhitespace h
        rw [skipWhitespace, List.dropWhile_cons, hc]
        rfl
  · rw [List.reverse_reverse, skipWhitespace_idem]

/-- What the white space after a message does not change. -/
theorem skipWhitespace_trimmed_append {message tail : ByteString} (h : Trimmed message)
    (htail : ∀ c ∈ tail, isSpace c = true) :
    (skipWhitespace (skipWhitespace (message ++ tail)).reverse).reverse = message := by
  have hspaces : ∀ l : ByteString, skipWhitespace (tail.reverse ++ l) = skipWhitespace l :=
    fun l => List.dropWhile_append_of_pos fun c hc => htail c (List.mem_reverse.mp hc)
  cases message with
  | nil =>
      have hnil : skipWhitespace ([] ++ tail) = [] := by
        rw [List.nil_append, ← List.append_nil tail]
        exact List.dropWhile_append_of_pos htail
      rw [hnil]
      rfl
  | cons c message =>
      have hfront : skipWhitespace (c :: message ++ tail) = c :: message ++ tail := by
        have hc : isSpace c = false := isSpace_of_skipWhitespace h.1
        rw [List.cons_append, skipWhitespace, List.dropWhile_cons, hc]
        rfl
      rw [hfront, List.reverse_append, hspaces, h.2, List.reverse_reverse]

/-- The text of an accepted line. -/
theorem keptText_parseIpline {gethostbyname : ByteString → Option UInt32} {line : ByteString}
    {r : IPrange} (h : parseIpline gethostbyname line = some r) :
    KeptText r.text ∧ ∀ c ∈ r.text, c ∈ line := by
  have hskip : ∀ (p : UInt8 → Bool) (l : ByteString), ∀ c ∈ l.dropWhile p, c ∈ l :=
    fun p l c hc => (List.dropWhile_sublist p).subset hc
  unfold parseIpline at h
  simp only at h
  split at h
  · cases h
  · split at h
    · cases h
    · split at h
      · cases h
      · rename_i type message hmessage
        split at h
        · cases h
        · rename_i htype
          obtain ⟨b, -, rfl⟩ := Option.map_eq_some_iff.mp h
          have hsub : ∀ c ∈ type :: ((skipWhitespace message).reverse.dropWhile isSpace).reverse,
              c ∈ line := by
            intro c hc
            have hmem : c ∈ type :: message := by
              rcases List.mem_cons.mp hc with rfl | hc
              · exact List.mem_cons_self
              · exact List.mem_cons_of_mem _
                  (hskip _ _ _ (List.mem_reverse.mp (hskip _ _ _ (List.mem_reverse.mp hc))))
            rw [← hmessage] at hmem
            exact hskip _ _ _ (hskip _ _ _ (hskip _ _ _ hmem))
          refine ⟨⟨type, _, rfl, isSpace_of_skipWhitespace hmessage, htype, ?_⟩, hsub⟩
          exact trimmed_of_skipWhitespace (skipWhitespace_idem message)

theorem hostText_parseIpline {gethostbyname : ByteString → Option UInt32} {line : ByteString}
    {r : IPrange} (h : parseIpline gethostbyname line = some r) (hline : (0 : UInt8) ∉ line) :
    HostText r.text ∧ ∀ c ∈ r.text, c ∈ line := by
  obtain ⟨⟨type, message, heq, hspace, htype, htrimmed⟩, hsub⟩ := keptText_parseIpline h
  exact ⟨⟨type, message, heq, hspace, htype, htrimmed, fun h0 => hline (hsub 0 h0)⟩, hsub⟩

/-! ## Lines -/

/-- The line of a record, without its end. -/
def dumpRecord (r : IPrange) : ByteString :=
  dumpRanges r ++ (text "  " ++ (r.text.take 1 ++ (text "  " ++ r.text.drop 1)))

theorem dumpIpline_eq (r : IPrange) : dumpIpline r = dumpRecord r ++ [newline] := by
  simp only [dumpIpline, dumpRecord, dumpRanges, dumpRange, List.append_assoc]
  rfl

theorem not_isSpace_dumpRanges (r : IPrange) : ∀ c ∈ dumpRanges r, isSpace c = false := by
  have hdecimal : ∀ (b : UInt8), ∀ c ∈ decimal b.toNat, isSpace c = false :=
    fun b c hc => isSpace_of_isDigit (isDigit_of_mem_decimal b c hc)
  have hrange : ∀ (lo hi : UInt8), ∀ c ∈ dumpRange lo hi, isSpace c = false := by
    intro lo hi c hc
    rcases List.mem_append.mp hc with hc | hc
    · rcases List.mem_append.mp hc with hc | hc
      · exact hdecimal lo c hc
      · obtain rfl := List.mem_singleton.mp hc
        rfl
    · exact hdecimal hi c hc
  have hdot : ∀ c ∈ text ".", isSpace c = false := by decide +kernel
  intro c hc
  simp only [dumpRanges, List.mem_append] at hc
  rcases hc with (((((hc | hc) | hc) | hc) | hc) | hc) | hc
  · exact hrange _ _ c hc
  · exact hdot c hc
  · exact hrange _ _ c hc
  · exact hdot c hc
  · exact hrange _ _ c hc
  · exact hdot c hc
  · exact hrange _ _ c hc

/-- A dumped line is read back as the record it was made of, whatever white space is behind it. -/
theorem parseIpline_dumpRecord_append (gethostbyname : ByteString → Option UInt32) {r : IPrange}
    (htext : KeptText r.text) {tail : ByteString} (htail : ∀ c ∈ tail, isSpace c = true) :
    parseIpline gethostbyname (dumpRecord r ++ tail) = some r := by
  obtain ⟨type, message, heq, hspace, htype, htrimmed⟩ := htext
  obtain ⟨c, digits, hdigits, hc⟩ := exists_digit_dumpRange (r.lo 3) (r.hi 3)
  obtain ⟨ranges, hranges⟩ : ∃ ranges, dumpRanges r = c :: ranges := by
    simp only [dumpRanges, hdigits, List.cons_append, List.cons.injEq, true_and, exists_eq']
  have hrecord : dumpRecord r ++ tail =
      c :: ranges ++ (text "  " ++ ([type] ++ (text "  " ++ (message ++ tail)))) := by
    rw [dumpRecord, hranges, heq]
    simp
  have hnospace : ∀ c ∈ dumpRanges r, (!isSpace c) = true := by
    intro c hc
    rw [not_isSpace_dumpRanges r c hc]
    rfl
  have hskip : skipWhitespace (dumpRecord r ++ tail) = dumpRecord r ++ tail := by
    rw [hrecord, List.cons_append, skipWhitespace, List.dropWhile_cons, isSpace_of_isDigit hc]
    rfl
  have hafter : skipWhitespace ((dumpRecord r ++ tail).dropWhile fun c => !isSpace c) =
      type :: (text "  " ++ (message ++ tail)) := by
    rw [hrecord, ← hranges, List.dropWhile_append_of_pos hnospace]
    show (type :: (text "  " ++ (message ++ tail))).dropWhile isSpace = _
    rw [List.dropWhile_cons, hspace]
    rfl
  have hmessage : ((skipWhitespace (text "  " ++ (message ++ tail))).reverse.dropWhile
      isSpace).reverse = message := skipWhitespace_trimmed_append htrimmed htail
  have hnumber : parseIpnumber (dumpRecord r ++ tail) = some (r.lo, r.hi) := by
    rw [hrecord, ← hranges]
    exact parseIpnumber_dumpRanges r rfl
  have hhash : c ≠ 0x23 := by
    rintro rfl
    exact absurd hc (by decide)
  unfold parseIpline
  simp only [hskip, hafter, hmessage]
  split
  · rename_i hnil
    rw [hrecord] at hnil
    cases hnil
  · rename_i c' rest hcons
    obtain rfl : c = c' := by
      rw [hrecord, List.cons_append] at hcons
      exact (List.cons.inj hcons).1
    rw [if_neg hhash, if_neg htype, if_pos (Or.inr hc), hnumber, ← heq]
    rfl

theorem parseIpline_dumpRecord (gethostbyname : ByteString → Option UInt32) {r : IPrange}
    (htext : HostText r.text) : parseIpline gethostbyname (dumpRecord r) = some r := by
  have hparse : parseIpline gethostbyname (dumpRecord r ++ []) = some r :=
    parseIpline_dumpRecord_append gethostbyname htext.kept fun c hc => absurd hc List.not_mem_nil
  rwa [List.append_nil] at hparse

/-- The line `dump_iptab` writes for a record that `parse_ipline` has made is read back as this
record. -/
theorem parseIpline_dumpIpline {gethostbyname : ByteString → Option UInt32} {line : ByteString}
    {r : IPrange} (h : parseIpline gethostbyname line = some r)
    (gethostbyname' : ByteString → Option UInt32) :
    parseIpline gethostbyname' (dumpIpline r) = some r := by
  rw [dumpIpline_eq]
  refine parseIpline_dumpRecord_append gethostbyname' (keptText_parseIpline h).1 fun c hc => ?_
  rw [List.mem_singleton.mp hc]
  rfl

/-- A line with a range that is upside down, a short mask and a message with spaces in it. -/
theorem parseIpline_dumpIpline_message :
    ∃ r, parseIpline (fun _ => none) (text "9-3.0.7  X  go  away # now ") = some r ∧
      parseIpline (fun _ => none) (dumpIpline r) = some r := by
  have haccepted : (parseIpline (fun _ => none) (text "9-3.0.7  X  go  away # now ")).isSome :=
    by decide +kernel
  obtain ⟨r, hr⟩ := Option.isSome_iff_exists.mp haccepted
  exact ⟨r, hr, parseIpline_dumpIpline hr _⟩

/-! ## Files -/

/-- A byte that ends a line. -/
def EndsLine (c : UInt8) : Prop := c = newline ∨ c = 0x0D

instance (c : UInt8) : Decidable (EndsLine c) := inferInstanceAs (Decidable (_ ∨ _))

/-- A record on a line of its own: nothing in its text ends a line. -/
def OneLine (r : IPrange) : Prop := ∀ c ∈ r.text, ¬ EndsLine c

theorem ownerLines_spec (n : ℕ) (content : ByteString) :
    ∀ line ∈ ownerLines n content, (0 : UInt8) ∉ line ∧ ∀ c ∈ line, ¬ EndsLine c := by
  induction n generalizing content with
  | zero => simp [ownerLines]
  | succ n ih =>
      intro line hline
      rw [ownerLines] at hline
      split at hline
      · cases hline
      · rcases List.mem_cons.mp hline with rfl | hline
        · refine ⟨zero_notMem_cstr _, fun c hc => ?_⟩
          have hkept := List.mem_takeWhile_imp ((List.takeWhile_sublist _).subset hc)
          simpa [EndsLine] using hkept
        · exact ih _ line hline

/-- What is left of the lines of an owner file: the records of those that are accepted, but one at
most. -/
theorem addIplines_eq_some {gethostbyname : ByteString → Option UInt32} {lines : List ByteString}
    {owner : List IPrange} : addIplines gethostbyname lines [] = some owner ↔
      owner = lines.filterMap (parseIpline gethostbyname) ∧ owner.length ≤ 1 := by
  have haccepted : accepted (lines.map fun line => ⟨gethostbyname, line⟩) =
      lines.filterMap (parseIpline gethostbyname) := by
    rw [accepted, List.filterMap_map]
    rfl
  rw [addIplines_eq_addCalls, addCalls_eq, haccepted]
  generalize lines.filterMap (parseIpline gethostbyname) = records
  cases records with
  | nil =>
      constructor
      · rintro ⟨⟩
        exact ⟨rfl, Nat.zero_le 1⟩
      · rintro ⟨rfl, -⟩
        rfl
  | cons r records =>
      simp only [List.cons_ne_nil, if_false, true_and, List.length_cons]
      split
      · rename_i hone
        constructor
        · rintro ⟨⟩
          exact ⟨rfl, hone.le⟩
        · rintro ⟨rfl, -⟩
          rfl
      · rename_i hmany
        constructor
        · rintro ⟨⟩
        · rintro ⟨rfl, hle⟩
          rw [List.length_cons] at hle
          omega

/-- The owner table `load_access_rights` makes of the content of the owner file. -/
def loadedOwner (gethostbyname : ByteString → Option UInt32) :
    Option ByteString → Option (List IPrange)
  | none => some []
  | some content => addIplines gethostbyname (ownerLines content.length content) []

/-- The table of an owner file. -/
theorem loadedOwner_spec {gethostbyname : ByteString → Option UInt32}
    {content : Option ByteString} {owner : List IPrange}
    (h : loadedOwner gethostbyname content = some owner) :
    owner.length ≤ 1 ∧ ∀ r ∈ owner, HostText r.text ∧ OneLine r := by
  cases content with
  | none =>
      obtain rfl := Option.some.inj h
      simp
  | some content =>
      obtain ⟨rfl, hlength⟩ := addIplines_eq_some.mp h
      refine ⟨hlength, fun r hr => ?_⟩
      obtain ⟨line, hline, hparse⟩ := List.mem_filterMap.mp hr
      obtain ⟨hzero, hends⟩ := ownerLines_spec _ _ line hline
      obtain ⟨htext, hsub⟩ := hostText_parseIpline hparse hzero
      exact ⟨htext, fun c hc => hends c (hsub c hc)⟩

theorem not_endsLine_dumpRecord {r : IPrange} (hline : OneLine r) :
    ∀ c ∈ dumpRecord r, ¬ EndsLine c := by
  have hspaces : ∀ c ∈ text "  ", ¬ EndsLine c := by decide +kernel
  intro c hc
  simp only [dumpRecord, List.mem_append] at hc
  rcases hc with hc | hc | hc | hc | hc
  · rintro (rfl | rfl) <;> exact absurd (not_isSpace_dumpRanges r _ hc) (by decide)
  · exact hspaces c hc
  · exact hline c (List.mem_of_mem_take hc)
  · exact hspaces c hc
  · exact hline c (List.mem_of_mem_drop hc)

theorem zero_notMem_dumpRecord {r : IPrange} (htext : HostText r.text) :
    (0 : UInt8) ∉ dumpRecord r := by
  obtain ⟨-, -, -, -, -, -, hzero⟩ := htext
  have hdigit : ∀ b : UInt8, (0 : UInt8) ∉ decimal b.toNat := fun b h0 =>
    absurd (isDigit_of_mem_decimal b 0 h0) (by decide)
  have hrange : ∀ lo hi, (0 : UInt8) ∉ dumpRange lo hi := by
    intro lo hi h0
    rcases List.mem_append.mp h0 with h0 | h0
    · rcases List.mem_append.mp h0 with h0 | h0
      · exact hdigit lo h0
      · exact absurd h0 (by decide)
    · exact hdigit hi h0
  have hdot : (0 : UInt8) ∉ text "." := by decide
  have hspaces : (0 : UInt8) ∉ text "  " := by decide
  simp only [dumpRecord, dumpRanges, List.mem_append, not_or]
  exact ⟨⟨⟨⟨⟨⟨⟨hrange _ _, hdot⟩, hrange _ _⟩, hdot⟩, hrange _ _⟩, hdot⟩, hrange _ _⟩, hspaces,
    fun h => hzero (List.mem_of_mem_take h), hspaces, fun h => hzero (List.mem_of_mem_drop h)⟩

/-- The reader takes the line of a single record, and stops before its end. -/
theorem ownerLines_dumpRecord {r : IPrange} (htext : HostText r.text) (hline : OneLine r)
    (hlength : (dumpRecord r).length ≤ 255) :
    ownerLines (dumpIptab [r]).length (dumpIptab [r]) = [dumpRecord r] := by
  have hdump : dumpIptab [r] = dumpRecord r ++ [newline] := by
    rw [← dumpIpline_eq]
    exact List.append_nil _
  have htake : ((dumpRecord r ++ [newline]).take 255).takeWhile
      (fun c => c != newline && c != 0x0D) = dumpRecord r := by
    rw [← List.take_takeWhile, List.takeWhile_append_of_pos]
    · show List.take 255 (dumpRecord r ++ []) = dumpRecord r
      rw [List.append_nil, List.take_of_length_le hlength]
    · intro c hc
      simpa [EndsLine] using not_endsLine_dumpRecord hline c hc
  have hne : dumpRecord r ≠ [] := by
    intro hnil
    simp [dumpRecord, text] at hnil
  rw [hdump, List.length_append, List.length_singleton, ownerLines]
  simp only [htake, if_neg hne, cstr_eq_self (zero_notMem_dumpRecord htext), List.drop_left]
  cases (dumpRecord r).length with
  | zero => rfl
  | succ n => rfl

/-- A table is loaded as it was saved exactly if it has one record at most, on one line. -/
theorem loadedOwner_dumpIptab_iff (gethostbyname : ByteString → Option UInt32)
    {owner : List IPrange} (htext : ∀ r ∈ owner, HostText r.text)
    (hlength : ∀ r ∈ owner, (dumpRecord r).length ≤ 255) :
    loadedOwner gethostbyname (if owner = [] then none else some (dumpIptab owner)) = some owner ↔
      owner.length ≤ 1 ∧ ∀ r ∈ owner, OneLine r := by
  constructor
  · intro h
    obtain ⟨hone, hspec⟩ := loadedOwner_spec h
    exact ⟨hone, fun r hr => (hspec r hr).2⟩
  · rintro ⟨hone, hline⟩
    match owner, hone with
    | [], _ => rfl
    | [r], _ =>
        have htext := htext r (List.mem_singleton_self r)
        have hline := hline r (List.mem_singleton_self r)
        rw [if_neg (List.cons_ne_nil r []), loadedOwner,
          ownerLines_dumpRecord htext hline (hlength r (List.mem_singleton_self r))]
        apply addIplines_eq_some.mpr
        simp [parseIpline_dumpRecord gethostbyname htext]

/-! ## What is in a file -/

/-- The entries of an owner file, whatever line they are on. -/
def storedOwners (gethostbyname : ByteString → Option UInt32) : Option ByteString → List IPrange
  | none => []
  | some content =>
      (content.splitOnP fun c => decide (EndsLine c)).filterMap fun line =>
        parseIpline gethostbyname (cstr line)

/-- A dumped table has all its entries in the file. -/
theorem storedOwners_dumpIptab (gethostbyname : ByteString → Option UInt32) {owner : List IPrange}
    (howner : ∀ r ∈ owner, HostText r.text ∧ OneLine r) :
    storedOwners gethostbyname (some (dumpIptab owner)) = owner := by
  show ((dumpIptab owner).splitOnP fun c => decide (EndsLine c)).filterMap _ = owner
  induction owner with
  | nil => rfl
  | cons r owner ih =>
      obtain ⟨htext, hline⟩ := howner r List.mem_cons_self
      have hdump : dumpIptab (r :: owner) = dumpRecord r ++ newline :: dumpIptab owner := by
        rw [dumpIptab, List.flatMap_cons, dumpIpline_eq, List.append_assoc]
        rfl
      have hkept : ∀ c ∈ dumpRecord r, decide (EndsLine c) = false := fun c hc =>
        decide_eq_false (not_endsLine_dumpRecord hline c hc)
      rw [hdump, List.splitOnP_append_cons_of_forall_mem hkept newline rfl, List.filterMap_cons,
        cstr_eq_self (zero_notMem_dumpRecord htext), parseIpline_dumpRecord gethostbyname htext,
        ih fun r hr => howner r (List.mem_cons_of_mem _ hr)]

/-- The text of an accepted line with a mask, a type and a message. -/
theorem text_parseIpline {gethostbyname : ByteString → Option UInt32} {mask message : ByteString}
    {type c : UInt8} {r : IPrange} (hmask : ∀ c ∈ mask, isSpace c = false)
    (hc : isSpace c = true) (htype : isSpace type = false)
    (h : parseIpline gethostbyname (mask ++ c :: type :: message) = some r) :
    mask = [] ∨ r.text = type :: (skipWhitespace (skipWhitespace message).reverse).reverse := by
  cases mask with
  | nil => exact Or.inl rfl
  | cons first mask =>
      refine Or.inr ?_
      have hfirst := hmask first List.mem_cons_self
      have hskip : skipWhitespace (first :: mask ++ c :: type :: message) =
          first :: mask ++ c :: type :: message := by
        rw [List.cons_append, skipWhitespace, List.dropWhile_cons, hfirst]
        rfl
      have hafter : skipWhitespace ((first :: mask ++ c :: type :: message).dropWhile
          fun c => !isSpace c) = type :: message := by
        rw [List.dropWhile_append_of_pos fun c hc => by rw [hmask c hc]; rfl, List.dropWhile_cons,
          hc]
        show skipWhitespace (c :: type :: message) = _
        rw [skipWhitespace, List.dropWhile_cons, hc, if_pos rfl, List.dropWhile_cons, htype]
        rfl
      unfold parseIpline at h
      simp only [hskip, hafter] at h
      rw [List.cons_append] at h
      dsimp only at h
      split at h
      · cases h
      · split at h
        · cases h
        · obtain ⟨b, -, rfl⟩ := Option.map_eq_some_iff.mp h
          rfl

end Fsp
