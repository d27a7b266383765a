import Fsp.Server.ConfSettings

/-!
# The layout of the configuration file

A line is a keyword and a value with blanks in between.  `read_configuration` takes one byte for the
blanks: the others become part of the value.  Numbers, host lines and the words of a `log` line do
not mind, but a word is copied with its blanks, `get_boolean` knows no value that starts with one,
and a `conf` line names another file.  And where the last line has no newline, its last byte is
stripped off instead.
-/

namespace Fsp

open Bytes

/-! ## Written lines -/

/-- A byte that separates, within a line. -/
def Whitespace (c : UInt8) : Prop := isSpace c = true ∧ c ≠ newline

/-- A line of the configuration file, but for the blanks before its value. -/
structure WrittenLine where
  lead : ByteString
  keyword : ByteString
  value : ByteString
  lead_blank : ∀ c ∈ lead, Whitespace c
  keyword_ne : keyword ≠ []
  keyword_word : ∀ c ∈ keyword, isSpace c = false ∧ c ≠ 0
  not_comment : (lead ++ keyword).head? ≠ some 0x23
  value_ne : value ≠ []
  value_head : ∀ c ∈ value.head?, isSpace c = false
  value_line : ∀ c ∈ value, c ≠ newline ∧ c ≠ 0

/-- A line with the blanks. -/
structure LaidOut where
  line : WrittenLine
  sep : ByteString
  sep_ne : sep ≠ []
  sep_blank : ∀ c ∈ sep, Whitespace c

namespace LaidOut

/-- The line in the file. -/
def text (l : LaidOut) : ByteString := l.line.lead ++ l.line.keyword ++ l.sep ++ l.line.value

/-- What `read_configuration` takes for the value, where `newline` says whether the line ends with
one. -/
def readValue (l : LaidOut) (newline : Bool) : ByteString :=
  l.sep.tail ++ if newline then l.line.value else l.line.value.dropLast

/-- What is read into `buf`. -/
def buf (l : LaidOut) (newline : Bool) : ByteString :=
  l.text ++ if newline then [Fsp.newline] else []

end LaidOut

/-- Only the last line may be without a newline. -/
def newlines {α : Type} (ends : Bool) : List α → List (α × Bool)
  | [] => []
  | [l] => [(l, ends)]
  | l :: ls => (l, true) :: newlines ends ls

/-- The content of the file. -/
def confContent (ends : Bool) (file : List LaidOut) : ByteString :=
  (newlines ends file).flatMap fun l => l.1.buf l.2

/-- Every line fits into `buf`. -/
def FitsBuf (ends : Bool) (file : List LaidOut) : Prop :=
  ∀ l ∈ newlines ends file, (l.1.buf l.2).length ≤ 1023

theorem isSpace_zero : isSpace 0 = false := by decide

theorem ne_zero_of_isSpace {c : UInt8} (hc : isSpace c = true) : c ≠ 0 := by
  rintro rfl
  rw [isSpace_zero] at hc
  cases hc

namespace LaidOut

variable (l : LaidOut)

/-- A line in the file is one line, and one string. -/
theorem mem_text {c : UInt8} (hc : c ∈ l.text) : c ≠ newline ∧ c ≠ 0 := by
  have hblank : ∀ {s : ByteString}, (∀ c ∈ s, Whitespace c) → c ∈ s → c ≠ newline ∧ c ≠ 0 :=
    fun hs hcs => ⟨(hs c hcs).2, ne_zero_of_isSpace (hs c hcs).1⟩
  simp only [text, List.mem_append] at hc
  rcases hc with ((hc | hc) | hc) | hc
  · exact hblank l.line.lead_blank hc
  · have hword := l.line.keyword_word c hc
    refine ⟨?_, hword.2⟩
    rintro rfl
    have hspace : isSpace newline = true := by decide
    rw [hspace] at hword
    cases hword.1
  · exact hblank l.sep_blank hc
  · exact l.line.value_line c hc

theorem text_ne : l.text ≠ [] := by
  intro h
  simp only [text, List.append_eq_nil_iff] at h
  exact l.line.value_ne h.2

/-- What `read_configuration` has left of the line when it looks for the keyword. -/
theorem dropLast_buf (newline : Bool) : (l.buf newline).dropLast =
    l.line.lead ++ (l.line.keyword ++
      (l.sep ++ if newline then l.line.value else l.line.value.dropLast)) := by
  cases newline with
  | true =>
      show (l.text ++ [Fsp.newline]).dropLast = _
      rw [List.dropLast_concat]
      simp [text]
  | false =>
      show (l.text ++ []).dropLast = _
      rw [List.append_nil, text, List.dropLast_append_of_ne_nil l.line.value_ne]
      simp

theorem head?_buf (newline : Bool) :
    (l.buf newline).head? = (l.line.lead ++ l.line.keyword).head? := by
  have hne : l.line.lead ++ l.line.keyword ≠ [] := by
    simp [l.line.keyword_ne]
  show (l.line.lead ++ l.line.keyword ++ l.sep ++ l.line.value ++ _).head? = _
  rw [List.append_assoc, List.append_assoc, List.head?_append_of_ne_nil _ hne]

theorem zero_notMem_buf (newline : Bool) : (0 : UInt8) ∉ l.buf newline := by
  intro hmem
  rcases List.mem_append.mp hmem with htext | hend
  · exact (l.mem_text htext).2 rfl
  · cases newline with
    | true => exact absurd (List.mem_singleton.mp hend) (by decide)
    | false => cases hend

/-- The line is read as it is meant, but for the blanks, and for the last byte if there is no
newline. -/
theorem parseConfLine_buf (newline : Bool) :
    parseConfLine (l.buf newline) = .command l.line.keyword (l.readValue newline) := by
  have hcstr : cstr (l.buf newline) = l.buf newline := cstr_eq_self (l.zero_notMem_buf newline)
  have hfirst : ¬ ((l.buf newline).head? = some Fsp.newline ∨
      (l.buf newline).head? = some 0x23) := by
    rw [head?_buf]
    intro h
    rcases h with h | h
    · have hmem := List.mem_of_head? h
      have htext : Fsp.newline ∈ l.text := by
        simp only [text, List.mem_append] at hmem ⊢
        rcases hmem with hmem | hmem
        · exact Or.inl (Or.inl (Or.inl hmem))
        · exact Or.inl (Or.inl (Or.inr hmem))
      exact (l.mem_text htext).1 rfl
    · exact l.line.not_comment h
  have hne : l.buf newline ≠ [] := by
    intro h
    exact l.text_ne (List.append_eq_nil_iff.mp h).1
  obtain ⟨b, sep, hsep⟩ := List.exists_cons_of_ne_nil l.sep_ne
  have hb : isSpace b = true := (l.sep_blank b (by rw [hsep]; exact List.mem_cons_self)).1
  obtain ⟨k, keyword, hkeyword⟩ := List.exists_cons_of_ne_nil l.line.keyword_ne
  have hk : isSpace k = false :=
    (l.line.keyword_word k (by rw [hkeyword]; exact List.mem_cons_self)).1
  have hword : ∀ c ∈ l.line.keyword, (!isSpace c) = true := by
    intro c hc
    rw [(l.line.keyword_word c hc).1]
    rfl
  have hp : skipWhitespace (l.buf newline).dropLast = l.line.keyword ++
      (l.sep ++ if newline then l.line.value else l.line.value.dropLast) := by
    rw [dropLast_buf, skipWhitespace,
      List.dropWhile_append_of_pos fun c hc => (l.line.lead_blank c hc).1, hkeyword]
    exact List.dropWhile_cons_of_neg (by simp [hk])
  unfold parseConfLine
  rw [if_neg hfirst, hcstr, if_neg hne, hp]
  simp only [List.dropWhile_append_of_pos hword, List.takeWhile_append_of_pos hword, hsep,
    List.cons_append, List.dropWhile_cons, List.takeWhile_cons, hb, Bool.not_true]
  simp [l.line.keyword_ne, readValue, hsep]

end LaidOut

/-! ## The lines of a file -/

/-- One `fgets` reads one line, with its newline or up to the end of the file. -/
theorem fgetsLength_line {line rest : ByteString} (hline : newline ∉ line)
    (hrest : rest = [] ∨ rest.head? = some newline)
    (hlen : line.length + min 1 rest.length ≤ 1023) :
    fgetsLength (line ++ rest) = line.length + min 1 rest.length := by
  have hall : ∀ c ∈ line, (c != newline) = true := by
    intro c hc
    refine bne_iff_ne.mpr ?_
    rintro rfl
    exact hline hc
  have htake : (line ++ rest).takeWhile (fun c => c != newline) = line := by
    rw [List.takeWhile_append_of_pos hall]
    rcases hrest with rfl | hhead
    · simp
    · obtain ⟨rest', rfl⟩ := List.head?_eq_some_iff.mp hhead
      simp
  unfold fgetsLength
  rw [← List.take_takeWhile, htake, List.take_of_length_le (by omega)]
  simp only [List.length_append]
  omega

theorem length_buf (l : LaidOut) (newline : Bool) :
    (l.buf newline).length = l.text.length + if newline then 1 else 0 := by
  cases newline <;> simp [LaidOut.buf]

theorem fgetsLines_buf (l : LaidOut) {newline : Bool} {more : ByteString}
    (hmore : newline = false → more = []) (hlen : (l.buf newline).length ≤ 1023) (n : ℕ) :
    fgetsLines (n + 1) (l.buf newline ++ more) = l.buf newline :: fgetsLines n more := by
  have hnot : Fsp.newline ∉ l.text := fun hmem => (l.mem_text hmem).1 rfl
  have hlength : fgetsLength (l.buf newline ++ more) = (l.buf newline).length := by
    rw [length_buf] at hlen ⊢
    cases newline with
    | true =>
        show fgetsLength (l.text ++ [Fsp.newline] ++ more) = _
        rw [List.append_assoc]
        have hone : min 1 ([Fsp.newline] ++ more).length = 1 := by simp
        have hstep : fgetsLength (l.text ++ ([Fsp.newline] ++ more)) =
            l.text.length + min 1 ([Fsp.newline] ++ more).length :=
          fgetsLength_line hnot (Or.inr rfl) (by rw [hone]; exact hlen)
        rw [hone] at hstep
        exact hstep
    | false =>
        rw [hmore rfl, List.append_nil]
        exact fgetsLength_line hnot (Or.inl rfl) hlen
  have hne : l.buf newline ++ more ≠ [] := by
    intro h
    exact l.text_ne (List.append_eq_nil_iff.mp (List.append_eq_nil_iff.mp h).1).1
  simp only [fgetsLines, if_neg hne, hlength, List.take_left', List.drop_left']

theorem newlines_cons {α : Type} (ends : Bool) (l : α) {ls : List α} (hls : ls ≠ []) :
    newlines ends (l :: ls) = (l, true) :: newlines ends ls := by
  obtain ⟨l', ls', rfl⟩ := List.exists_cons_of_ne_nil hls
  rfl

theorem newlines_concat {α : Type} (ends : Bool) (ls : List α) (l : α) :
    newlines ends (ls ++ [l]) = ls.map (fun l => (l, true)) ++ [(l, ends)] := by
  induction ls with
  | nil => rfl
  | cons l' ls ih =>
      rw [List.cons_append, newlines_cons ends l' (by simp), ih]
      rfl

theorem newlines_map {α β : Type} (f : α → β) (ends : Bool) (ls : List α) :
    newlines ends (ls.map f) = (newlines ends ls).map fun l => (f l.1, l.2) := by
  induction ls with
  | nil => rfl
  | cons l ls ih =>
      by_cases hls : ls = []
      · subst hls
        rfl
      · rw [List.map_cons, newlines_cons ends (f l) (by simp [hls]), newlines_cons ends l hls, ih]
        rfl

/-- `fgets` reads the lines that were written. -/
theorem fgetsLines_confContent {ends : Bool} {file : List LaidOut} (hfits : FitsBuf ends file)
    {n : ℕ} (hn : (confContent ends file).length ≤ n) :
    fgetsLines n (confContent ends file) = (newlines ends file).map fun l => l.1.buf l.2 := by
  induction file generalizing n with
  | nil => cases n <;> rfl
  | cons l ls ih =>
      have hpos : 0 < (l.text).length := List.length_pos_of_ne_nil l.text_ne
      by_cases hls : ls = []
      · subst hls
        have hcontent : confContent ends [l] = l.buf ends := by simp [confContent, newlines]
        rw [hcontent] at hn ⊢
        have hlen := hfits (l, ends) (List.mem_singleton_self _)
        have hbuf := length_buf l ends
        obtain ⟨n, rfl⟩ := Nat.exists_eq_add_of_le' (show 1 ≤ n by omega)
        have hread : fgetsLines (n + 1) (l.buf ends ++ []) = l.buf ends :: fgetsLines n [] :=
          fgetsLines_buf l (fun _ => rfl) hlen n
        rw [List.append_nil] at hread
        rw [hread]
        cases n <;> rfl
      · have hcontent : confContent ends (l :: ls) = l.buf true ++ confContent ends ls := by
          simp [confContent, newlines_cons ends l hls]
        rw [hcontent] at hn ⊢
        have hlen := hfits (l, true) (by rw [newlines_cons ends l hls]; exact List.mem_cons_self)
        have hbuf := length_buf l true
        rw [List.length_append] at hn
        obtain ⟨n, rfl⟩ := Nat.exists_eq_add_of_le' (show 1 ≤ n by omega)
        have hrest : FitsBuf ends ls := by
          intro l' hl'
          refine hfits l' ?_
          rw [newlines_cons ends l hls]
          exact List.mem_cons_of_mem _ hl'
        rw [fgetsLines_buf l (fun h => by cases h) hlen n, newlines_cons ends l hls,
          ih hrest (by omega), List.map_cons]

/-! ## Commands -/

/-- The commands in a file. -/
def confCommands (ends : Bool) (file : List LaidOut) : List (ConfCommand × ByteString) :=
  (newlines ends file).map fun l => (.ofKeyword l.1.line.keyword, l.1.readValue l.2)

/-- `readConfLines` for lines that are commands. -/
def readConfCommands (world : ConfWorld)
    (nested : ByteString → ConfState → Except Halt ConfState) :
    List (ConfCommand × ByteString) → ConfState → Except Halt ConfState
  | [], st => .ok st
  | (c, q) :: commands, st =>
      if c = .conf then
        if st.confRead then readConfCommands world nested commands st
        else nested q { st with confRead := true }
      else (st.carryOut world c q).bind (readConfCommands world nested commands)

theorem readConfLines_buf (world : ConfWorld)
    (nested : ByteString → ConfState → Except Halt ConfState) (ls : List (LaidOut × Bool))
    (st : ConfState) :
    readConfLines world nested (ls.map fun l => l.1.buf l.2) st =
      readConfCommands world nested
        (ls.map fun l => (.ofKeyword l.1.line.keyword, l.1.readValue l.2)) st := by
  induction ls generalizing st with
  | nil => rfl
  | cons l ls ih =>
      simp only [List.map_cons, readConfLines, readConfCommands, LaidOut.parseConfLine_buf, ih]
      congr 2
      funext st
      exact ih st

/-- The commands of a file without `conf` lines, one after the other. -/
def Settings.carryOutAll (gethostbyname : ByteString → Option UInt32) :
    List (ConfCommand × ByteString) → Settings → Except Halt Settings
  | [], s => .ok s
  | (c, q) :: commands, s =>
      (s.carryOut gethostbyname c q).bind (Settings.carryOutAll gethostbyname commands)

theorem Settings.carryOutAll_append (gethostbyname : ByteString → Option UInt32)
    (commands commands' : List (ConfCommand × ByteString)) (s : Settings) :
    s.carryOutAll gethostbyname (commands ++ commands') =
      (s.carryOutAll gethostbyname commands).bind
        (Settings.carryOutAll gethostbyname commands') := by
  induction commands generalizing s with
  | nil => rfl
  | cons command commands ih =>
      obtain ⟨c, q⟩ := command
      simp only [List.cons_append, Settings.carryOutAll]
      cases s.carryOut gethostbyname c q with
      | error e => rfl
      | ok s' => exact ih s'

/-- The commands before a `conf` line are carried out one after the other. -/
theorem readConfCommands_append (world : ConfWorld)
    (nested : ByteString → ConfState → Except Halt ConfState)
    {commands : List (ConfCommand × ByteString)} (hconf : ∀ command ∈ commands, command.1 ≠ .conf)
    (commands' : List (ConfCommand × ByteString)) (st : ConfState) :
    (∃ e, st.settings.carryOutAll world.gethostbyname commands = .error e ∧
      readConfCommands world nested (commands ++ commands') st = .error e) ∨
    ∃ st', st.settings.carryOutAll world.gethostbyname commands = .ok st'.settings ∧
      st'.confRead = st.confRead ∧
      readConfCommands world nested (commands ++ commands') st =
        readConfCommands world nested commands' st' := by
  induction commands generalizing st with
  | nil => exact Or.inr ⟨st, rfl, rfl, rfl⟩
  | cons command commands ih =>
      obtain ⟨c, q⟩ := command
      have hc : c ≠ .conf := hconf (c, q) List.mem_cons_self
      simp only [List.cons_append, readConfCommands, if_neg hc, Settings.carryOutAll,
        ConfState.carryOut]
      cases st.settings.carryOut world.gethostbyname c q with
      | error e => exact Or.inl ⟨e, rfl, rfl⟩
      | ok s =>
          exact ih (fun command hcommand => hconf command (List.mem_cons_of_mem _ hcommand))
            { st with settings := s, steps := st.steps ++ [⟨c, q, st.settings, s⟩] }

/-! ## Values that begin with blanks -/

/-- The commands to which blanks before the value make no difference. -/
def ConfCommand.IgnoresBlanks : ConfCommand → Prop
  | .host | .log | .number _ | .invalid => True
  | .conf | .word _ | .flag _ => False

section

variable {blanks v : ByteString} (hblanks : ∀ c ∈ blanks, Whitespace c)
include hblanks

theorem skipWhitespace_append : skipWhitespace (blanks ++ v) = skipWhitespace v :=
  List.dropWhile_append_of_pos fun c hc => (hblanks c hc).1

theorem strtol_append (base : ℕ) : strtol base (blanks ++ v) = strtol base v := by
  unfold strtol
  rw [skipWhitespace_append hblanks]

theorem atoi_append : atoi (blanks ++ v) = atoi v := by
  unfold atoi
  rw [strtol_append hblanks]

theorem addIpline_append (gethostbyname : ByteString → Option UInt32) (table : List IPrange) :
    addIpline gethostbyname (blanks ++ v) table = addIpline gethostbyname v table := by
  unfold addIpline parseIpline
  rw [skipWhitespace_append hblanks]

end

/-- A value that starts with a blank is not a word that starts with a letter or a digit. -/
theorem strcaseeq_blank {b : UInt8} (hb : Whitespace b) (v : ByteString) {t : ByteString}
    (ht : ∀ c ∈ t.head?, isSpace (toLower c) = false) : strcaseeq (b :: v) t = false := by
  have hlower : toLower b = b := by
    have hspace := hb.1
    revert hspace
    refine forall_byte (P := fun b => isSpace b = true → toLower b = b) ?_ b
    decide +kernel
  cases t with
  | nil => rfl
  | cons c t =>
      have hc := ht c rfl
      refine beq_eq_false_iff_ne.mpr ?_
      simp only [List.map_cons, ne_eq, List.cons.injEq, hlower]
      rintro ⟨rfl, -⟩
      rw [hb.1] at hc
      cases hc

/-- What is not a number is 0. -/
theorem atoi_of_head {v : ByteString} (hv : ∀ c ∈ v.head?, isSpace c = false ∧ isDigit c = false ∧
    c ≠ 0x2D ∧ c ≠ 0x2B) : atoi v = 0 := by
  cases v with
  | nil => rfl
  | cons c v =>
      obtain ⟨hspace, hdigit, hminus, hplus⟩ := hv c rfl
      have hskip : skipWhitespace (c :: v) = c :: v :=
        List.dropWhile_cons_of_neg (by simp [hspace])
      have hsign : ¬ ((c :: v).head? = some 0x2D ∨ (c :: v).head? = some 0x2B) := by
        simp [hminus, hplus]
      have hnone : (c :: v).takeWhile (fun c => isDigit c && c.toNat < 0x30 + 10) = [] := by
        simp [hdigit]
      have hzero : strtol 10 (c :: v) = 0 := by
        unfold strtol
        rw [hskip]
        simp only [if_neg hsign, hnone, List.foldl_nil, if_neg fun h => hsign (Or.inl h)]
        rfl
      unfold atoi
      rw [hzero]
      rfl

/-- "off" is no number. -/
theorem atoi_off {v : ByteString} (hv : strcaseeq v (text "off") = true) : atoi v = 0 := by
  refine atoi_of_head fun c hc => ?_
  obtain ⟨rest, rfl⟩ := List.head?_eq_some_iff.mp hc
  have heq : (c :: rest).map toLower = (text "off").map toLower := eq_of_beq hv
  have hc' : toLower c = 0x6F := List.head_eq_of_cons_eq heq
  revert hc'
  refine forall_byte (P := fun c => toLower c = 0x6F → isSpace c = false ∧ isDigit c = false ∧
    c ≠ 0x2D ∧ c ≠ 0x2B) ?_ c
  decide +kernel

/-- Where a value that is not "off" is a number, blanks before it make no difference: "off" with
blanks is read as 0. -/
theorem off_append {blanks v : ByteString} (hblanks : ∀ c ∈ blanks, Whitespace c) {f : ℤ → ℤ}
    (hf : f 0 = 0) :
    (if strcaseeq (blanks ++ v) (text "off") then 0 else f (atoi (blanks ++ v))) =
      if strcaseeq v (text "off") then 0 else f (atoi v) := by
  rw [atoi_append hblanks]
  cases blanks with
  | nil => rfl
  | cons b blanks =>
      have hno : strcaseeq (b :: blanks ++ v) (text "off") = false :=
        strcaseeq_blank (hblanks b List.mem_cons_self) _ (by decide +kernel)
      rw [hno, if_neg Bool.false_ne_true]
      split
      · rw [atoi_off ‹_›, hf]
      · rfl

theorem read_append {blanks v : ByteString} (hblanks : ∀ c ∈ blanks, Whitespace c) (n : NumberSetting) :
    n.read (blanks ++ v) = n.read v := by
  cases n with
  | maxthcallowed => exact off_append (f := id) hblanks rfl
  | runUid | runGid => exact off_append (f := fun n => n % 4294967296) hblanks rfl
  | uploadUmask | systemUmask => simp only [NumberSetting.read, strtol_append hblanks]
  | _ => simp only [NumberSetting.read, atoi_append hblanks]

/-! ### The words of a `log` line -/

/-- A round takes a byte at least. -/
theorem length_nextWord {q : ByteString} (hq : q ≠ []) :
    (skipWhitespace (q.dropWhile fun c => !isSpace c)).length < q.length := by
  obtain ⟨c, q, rfl⟩ := List.exists_cons_of_ne_nil hq
  by_cases hc : isSpace c = true
  · rw [List.dropWhile_cons_of_neg (by simp [hc]), skipWhitespace,
      List.dropWhile_cons_of_pos (by simp [hc])]
    exact Nat.lt_succ_of_le (List.dropWhile_suffix _).length_le
  · rw [List.dropWhile_cons_of_pos (by simp [hc])]
    refine Nat.lt_succ_of_le ?_
    exact (List.dropWhile_suffix _).length_le.trans (List.dropWhile_suffix _).length_le

/-- There is always enough fuel for the rest of the line. -/
theorem logWords_of_le {n m : ℕ} {q : ByteString} (hn : q.length < n) (hm : q.length < m)
    (logging : UInt32) : logWords n q logging = logWords m q logging := by
  induction n generalizing m q logging with
  | zero => omega
  | succ n ih =>
      obtain ⟨m, rfl⟩ := Nat.exists_eq_add_of_le' (show 1 ≤ m by omega)
      simp only [logWords]
      split
      · rfl
      · split
        · rfl
        · rename_i hr
          have hq : q ≠ [] := by
            rintro rfl
            exact hr rfl
          have hlt := length_nextWord hq
          exact ih (by omega) (by omega) _

/-- The empty word before blanks sets nothing. -/
theorem logWords_append {blanks v : ByteString} (hblanks : ∀ c ∈ blanks, Whitespace c)
    (hv : ∀ c ∈ v.head?, isSpace c = false) (logging : UInt32) :
    logWords ((blanks ++ v).length + 1) (blanks ++ v) logging =
      logWords (v.length + 1) v logging := by
  cases blanks with
  | nil => rfl
  | cons b blanks =>
      have hb : isSpace b = true := (hblanks b List.mem_cons_self).1
      have hskip : skipWhitespace v = v := by
        cases v with
        | nil => rfl
        | cons c v => exact List.dropWhile_cons_of_neg (by simp [hv c rfl])
      have hword : (b :: blanks ++ v).takeWhile (fun c => !isSpace c) = [] :=
        List.takeWhile_cons_of_neg (by simp [hb])
      have hrest : skipWhitespace ((b :: blanks ++ v).dropWhile fun c => !isSpace c) = v := by
        rw [List.cons_append, List.dropWhile_cons_of_neg (by simp [hb]), ← List.cons_append,
          skipWhitespace_append hblanks, hskip]
      have hempty : ∀ n r, (if strcaseeq [] (text "none") then 0x0000
          else if r = [] then (if strcaseeq [] (text "all") then 0xFFFF else logWord logging [])
          else logWords n r (if strcaseeq [] (text "all") then 0xFFFF else logWord logging [])) =
          if r = [] then logging else logWords n r logging := fun _ _ => rfl
      have hround : logWords ((b :: blanks ++ v).length + 1) (b :: blanks ++ v) logging =
          if v = [] then logging else logWords (b :: blanks ++ v).length v logging := by
        rw [logWords]
        simp only [hword, hrest]
        exact hempty _ v
      rw [hround]
      split
      · subst v
        exact (hempty 0 []).symm
      · have hlt : v.length < (b :: blanks ++ v).length := by
          rw [List.length_append, List.length_cons]
          omega
        exact logWords_of_le hlt (Nat.lt_succ_self _) logging

/-- Blanks before the value make no difference to the commands that ignore them. -/
theorem carryOut_append {blanks v : ByteString} (hblanks : ∀ c ∈ blanks, Whitespace c)
    (hv : ∀ c ∈ v.head?, isSpace c = false) {c : ConfCommand} (hc : c.IgnoresBlanks)
    (gethostbyname : ByteString → Option UInt32) (s : Settings) :
    s.carryOut gethostbyname c (blanks ++ v) = s.carryOut gethostbyname c v := by
  cases c with
  | conf | word | flag => exact absurd hc not_false
  | invalid => rfl
  | host => simp only [Settings.carryOut, addIpline_append hblanks]
  | log => simp only [Settings.carryOut, logWords_append hblanks hv]
  | number n =>
      have hread := read_append (v := v) hblanks n
      cases n <;> simp only [Settings.carryOut, Settings.readNumber, hread]

/-! ## Files -/

/-- The world in which the file has some content. -/
def ConfWorld.withFile (world : ConfWorld) (name content : ByteString) : ConfWorld :=
  { world with files := fun n => if n = name then some content else world.files n }

/-- What a file with the lines is read to. -/
def readsTo (world : ConfWorld) (name : ByteString) (settings : Settings) (confRead : Bool)
    (ends : Bool) (file : List LaidOut) : Except Halt Settings :=
  (readConfiguration (world.withFile name (confContent ends file)) name
    ⟨settings, confRead, []⟩).map ConfState.settings

/-- However the lines are laid out, they are read to the same settings. -/
def LayoutFree (lines : List WrittenLine) : Prop :=
  ∀ (file file' : List LaidOut) (ends ends' : Bool),
    file.map LaidOut.line = lines → file'.map LaidOut.line = lines →
    FitsBuf ends file → FitsBuf ends' file' →
      ∀ world name settings confRead,
        readsTo world name settings confRead ends file =
          readsTo world name settings confRead ends' file'

/-- What a line is meant to be, or what it is without the last byte. -/
def WrittenLine.command (l : WrittenLine) (newline : Bool) : ConfCommand × ByteString :=
  (.ofKeyword l.keyword, if newline then l.value else l.value.dropLast)

/-- The command does not need the last byte of its value: a number is the same without it, a host
line adds the same to the table, the words of a `log` line set and clear the same flags. -/
def Settings.SparesLast (s : Settings) (gethostbyname : ByteString → Option UInt32)
    (c : ConfCommand) (v : ByteString) : Prop :=
  match c with
  | .number n => n.read v = n.read v.dropLast
  | .host => addIpline gethostbyname v s.iptab = addIpline gethostbyname v.dropLast s.iptab
  | .log => logWords (v.length + 1) v s.logging =
      logWords (v.dropLast.length + 1) v.dropLast s.logging
  | .invalid => True
  | .conf | .word _ | .flag _ => False

/-- There is no line for a word, a flag or another file, and the last line does not need the last byte
of its value, whatever the table and the flags are that the lines before it have left. -/
structure LayoutSafe (lines : List WrittenLine) : Prop where
  ignores : ∀ l ∈ lines, (ConfCommand.ofKeyword l.keyword).IgnoresBlanks
  last : ∀ init l, lines = init ++ [l] → ∀ gethostbyname (s s' : Settings),
    s.carryOutAll gethostbyname (init.map fun l => l.command true) = .ok s' →
      s'.SparesLast gethostbyname (.ofKeyword l.keyword) l.value

/-- A number is assigned, one way or the other. -/
theorem readNumber_eq_iff (s : Settings) (n : NumberSetting) (v v' : ByteString) :
    s.readNumber n v = s.readNumber n v' ↔ n.read v = n.read v' := by
  constructor
  · intro h
    by_cases hn : n = .statCacheTimeout
    · subst n
      -- The value goes to the timeout of a session.
      have hnumber := congrArg (fun s : Settings => s.number .sessionTimeout) h
      unfold Settings.readNumber at hnumber
      simp only [apply_ite (fun s : Settings => s.number .sessionTimeout), Settings.number_setNumber,
        reduceCtorEq, if_false, if_true, ite_self] at hnumber
      exact hnumber
    · rw [Settings.readNumber_of_ne hn, Settings.readNumber_of_ne hn] at h
      have hnumber := congrArg (fun s : Settings => s.number n) h
      simpa only [Settings.number_setNumber, if_true] using hnumber
  · intro h
    by_cases hn : n = .statCacheTimeout
    · subst n
      unfold Settings.readNumber
      rw [h]
    · rw [Settings.readNumber_of_ne hn, Settings.readNumber_of_ne hn, h]

/-- Then it is carried out the same way. -/
theorem sparesLast_iff {gethostbyname : ByteString → Option UInt32} {s : Settings}
    {c : ConfCommand} (hc : c.IgnoresBlanks) (v : ByteString) :
    s.SparesLast gethostbyname c v ↔
      s.carryOut gethostbyname c v = s.carryOut gethostbyname c v.dropLast := by
  cases c with
  | conf | word | flag => exact absurd hc not_false
  | invalid => exact iff_of_true trivial rfl
  | number n => rw [Settings.carryOut, Settings.carryOut, Except.ok.injEq, readNumber_eq_iff]; rfl
  | host =>
      unfold Settings.SparesLast Settings.carryOut
      simp only
      cases addIpline gethostbyname v s.iptab with
      | none => cases addIpline gethostbyname v.dropLast s.iptab <;> simp
      | some iptab => cases addIpline gethostbyname v.dropLast s.iptab <;> simp
  | log =>
      unfold Settings.SparesLast Settings.carryOut
      simp

theorem readsTo_eq {world : ConfWorld} {name : ByteString} {settings : Settings} {confRead : Bool}
    {ends : Bool} {file : List LaidOut} (hfits : FitsBuf ends file) :
    readsTo world name settings confRead ends file =
      (readConfCommands (world.withFile name (confContent ends file))
        (readConfFiles (world.withFile name (confContent ends file)) 1) (confCommands ends file)
        ⟨settings, confRead, []⟩).map ConfState.settings := by
  have hfile : (world.withFile name (confContent ends file)).files name =
      some (confContent ends file) := if_pos rfl
  unfold readsTo readConfiguration
  rw [readConfFiles, hfile]
  simp only
  rw [fgetsLines_confContent hfits le_rfl, readConfLines_buf]
  rfl

/-- Without `conf` lines, a file is read command by command. -/
theorem readsTo_eq_carryOutAll {world : ConfWorld} {name : ByteString} {settings : Settings}
    {confRead : Bool} {ends : Bool} {file : List LaidOut} (hfits : FitsBuf ends file)
    (hconf : ∀ command ∈ confCommands ends file, command.1 ≠ .conf) :
    readsTo world name settings confRead ends file =
      settings.carryOutAll world.gethostbyname (confCommands ends file) := by
  rw [readsTo_eq hfits]
  have hread := readConfCommands_append (world.withFile name (confContent ends file))
    (readConfFiles (world.withFile name (confContent ends file)) 1) hconf []
    ⟨settings, confRead, []⟩
  rw [List.append_nil] at hread
  rcases hread with ⟨e, herror, hread⟩ | ⟨st, hok, -, hread⟩
  · rw [hread]
    exact herror.symm
  · rw [hread]
    exact hok.symm

/-! ### Files that are safe -/

/-- A value without its last byte still does not begin with a blank. -/
theorem head?_value (l : WrittenLine) (newline : Bool) :
    ∀ c ∈ (l.command newline).2.head?, isSpace c = false := by
  intro c hc
  refine l.value_head c ?_
  cases newline with
  | true => exact hc
  | false =>
      obtain ⟨c', value, hvalue⟩ := List.exists_cons_of_ne_nil l.value_ne
      have hc' : c ∈ l.value.dropLast.head? := hc
      rw [hvalue] at hc' ⊢
      cases value with
      | nil => cases hc'
      | cons => exact hc'

/-- Commands that ignore blanks do what they would do without. -/
theorem carryOutAll_readValue (gethostbyname : ByteString → Option UInt32)
    {ls : List (LaidOut × Bool)}
    (hignores : ∀ l ∈ ls, (ConfCommand.ofKeyword l.1.line.keyword).IgnoresBlanks) (s : Settings) :
    s.carryOutAll gethostbyname
        (ls.map fun l => (.ofKeyword l.1.line.keyword, l.1.readValue l.2)) =
      s.carryOutAll gethostbyname (ls.map fun l => l.1.line.command l.2) := by
  induction ls generalizing s with
  | nil => rfl
  | cons l ls ih =>
      have htail : ∀ c ∈ l.1.sep.tail, Whitespace c :=
        fun c hc => l.1.sep_blank c (List.mem_of_mem_tail hc)
      have hfirst : s.carryOut gethostbyname (.ofKeyword l.1.line.keyword) (l.1.readValue l.2) =
          s.carryOut gethostbyname (.ofKeyword l.1.line.keyword) (l.1.line.command l.2).2 :=
        carryOut_append htail (head?_value l.1.line l.2) (hignores l List.mem_cons_self)
          gethostbyname s
      have hrest := ih fun l hl => hignores l (List.mem_cons_of_mem _ hl)
      rw [List.map_cons, List.map_cons, Settings.carryOutAll, hfirst]
      show Except.bind _ _ = Except.bind _ _
      congr 1
      funext s
      exact hrest s

/-- The commands of the lines, without layout. -/
def plainCommands (ends : Bool) (lines : List WrittenLine) : List (ConfCommand × ByteString) :=
  (newlines ends lines).map fun l => l.1.command l.2

theorem mem_newlines {α : Type} {ends : Bool} {ls : List α} {l : α × Bool}
    (hl : l ∈ newlines ends ls) : l.1 ∈ ls := by
  induction ls with
  | nil => cases hl
  | cons l' ls ih =>
      by_cases hls : ls = []
      · subst hls
        rw [List.mem_singleton.mp hl]
        exact List.mem_cons_self
      · rw [newlines_cons ends l' hls] at hl
        rcases List.mem_cons.mp hl with rfl | hl
        · exact List.mem_cons_self
        · exact List.mem_cons_of_mem _ (ih hl)

theorem readsTo_of_ignores {lines : List WrittenLine}
    (hignores : ∀ l ∈ lines, (ConfCommand.ofKeyword l.keyword).IgnoresBlanks)
    {file : List LaidOut} (hfile : file.map LaidOut.line = lines) {ends : Bool}
    (hfits : FitsBuf ends file) (world : ConfWorld) (name : ByteString) (settings : Settings)
    (confRead : Bool) :
    readsTo world name settings confRead ends file =
      settings.carryOutAll world.gethostbyname (plainCommands ends lines) := by
  subst hfile
  have hignores' : ∀ l ∈ newlines ends file,
      (ConfCommand.ofKeyword l.1.line.keyword).IgnoresBlanks :=
    fun l hl => hignores _ (List.mem_map_of_mem (mem_newlines hl))
  have hconf : ∀ command ∈ confCommands ends file, command.1 ≠ .conf := by
    intro command hcommand heq
    obtain ⟨l, hl, rfl⟩ := List.mem_map.mp hcommand
    have hno := hignores' l hl
    rw [show ConfCommand.ofKeyword l.1.line.keyword = .conf from heq] at hno
    exact hno
  rw [readsTo_eq_carryOutAll hfits hconf, confCommands,
    carryOutAll_readValue world.gethostbyname hignores', plainCommands, newlines_map, List.map_map]
  rfl

theorem plainCommands_concat (ends : Bool) (init : List WrittenLine) (l : WrittenLine) :
    plainCommands ends (init ++ [l]) =
      (init.map fun l => l.command true) ++ [l.command ends] := by
  rw [plainCommands, newlines_concat, List.map_append, List.map_map]
  rfl

theorem LayoutSafe.layoutFree {lines : List WrittenLine} (h : LayoutSafe lines) :
    LayoutFree lines := by
  intro file file' ends ends' hfile hfile' hfits hfits' world name settings confRead
  rw [readsTo_of_ignores h.ignores hfile hfits, readsTo_of_ignores h.ignores hfile' hfits']
  rcases List.eq_nil_or_concat lines with rfl | ⟨init, l, rfl⟩
  · rfl
  · rw [List.concat_eq_append, plainCommands_concat, plainCommands_concat,
      Settings.carryOutAll_append, Settings.carryOutAll_append]
    cases hinit : settings.carryOutAll world.gethostbyname (init.map fun l => l.command true) with
    | error e => rfl
    | ok s =>
        have hlast := (sparesLast_iff (h.ignores l (by simp)) l.value).mp
          (h.last init l (List.concat_eq_append ..) world.gethostbyname settings s hinit)
        have hone : ∀ ends, s.carryOutAll world.gethostbyname [l.command ends] =
            (s.carryOut world.gethostbyname (.ofKeyword l.keyword) l.value).bind .ok := by
          intro ends
          cases ends with
          | true => rfl
          | false =>
              rw [hlast]
              rfl
        show s.carryOutAll world.gethostbyname _ = s.carryOutAll world.gethostbyname _
        rw [hone, hone]

/-! ### Files that are not -/

theorem blank_space : Whitespace 0x20 := ⟨by decide, by decide⟩

/-- A line with `n` spaces more than it needs. -/
def WrittenLine.spaced (n : ℕ) (l : WrittenLine) : LaidOut where
  line := l
  sep := List.replicate (n + 1) 0x20
  sep_ne := List.cons_ne_nil _ _
  sep_blank _ hc := (List.eq_of_mem_replicate hc).symm ▸ blank_space

theorem length_sep_spaced (n : ℕ) (l : WrittenLine) : (l.spaced n).sep.length = n + 1 :=
  List.length_replicate

/-- Every line leaves room for another blank. -/
def Roomy (lines : List WrittenLine) : Prop :=
  ∀ l ∈ lines, l.lead.length + l.keyword.length + 2 + l.value.length + 1 ≤ 1023

/-- In its plainest layout, the file is read to its end, in some world. -/
def AcceptedPlainly (lines : List WrittenLine) : Prop :=
  ∃ world name settings confRead s,
    readsTo world name settings confRead true (lines.map (WrittenLine.spaced 0)) = .ok s

theorem fitsBuf_of_roomy {lines : List WrittenLine} (hroom : Roomy lines) {file : List LaidOut}
    (hfile : ∀ l ∈ file, l.line ∈ lines ∧ l.sep.length ≤ 2) (ends : Bool) :
    FitsBuf ends file := by
  intro l hl
  obtain ⟨hline, hsep⟩ := hfile l.1 (mem_newlines hl)
  have hlen := hroom _ hline
  rw [length_buf, LaidOut.text, List.length_append, List.length_append, List.length_append]
  split <;> omega

theorem newlines_true {α : Type} (ls : List α) : newlines true ls = ls.map fun l => (l, true) := by
  rcases List.eq_nil_or_concat ls with rfl | ⟨init, l, rfl⟩
  · rfl
  · rw [List.concat_eq_append, newlines_concat, List.map_append]
    rfl

theorem confCommands_true (file : List LaidOut) :
    confCommands true file =
      file.map fun l => (.ofKeyword l.line.keyword, l.readValue true) := by
  rw [confCommands, newlines_true, List.map_map]
  rfl

theorem getBoolean_space (v : ByteString) : getBoolean (0x20 :: v) = .error (.exit 1) := by
  have hno : ∀ t : ByteString, (∀ c ∈ t.head?, isSpace (toLower c) = false) →
      strcaseeq (0x20 :: v) t = false := fun t => strcaseeq_blank blank_space v
  have hne : ∀ {t : ByteString}, t.head? ≠ some 0x20 → (0x20 :: v : ByteString) ≠ t := by
    rintro t ht rfl
    exact ht rfl
  unfold getBoolean
  rw [if_neg (hne (by decide)), hno (Bytes.text "no") (by decide +kernel),
    hno (Bytes.text "off") (by decide +kernel), hno (Bytes.text "on") (by decide +kernel),
    hno (Bytes.text "yes") (by decide +kernel), if_neg (hne (by decide))]
  rfl

/-- No command but the one for a word changes the word. -/
theorem word_carryOut {gethostbyname : ByteString → Option UInt32} {c : ConfCommand}
    {w : WordSetting} (hc : c ≠ .word w) {q : ByteString} {s s' : Settings}
    (hrun : s.carryOut gethostbyname c q = .ok s') : s'.word w = s.word w := by
  by_cases hstat : c = .number .statCacheTimeout
  · subst hstat
    cases hrun
    simp only [Settings.readNumber]
    split <;> rfl
  · refine (Settings.carryOut_spec hstat hrun).1 (.word w) ?_
    intro hnames
    cases c with
    | word w' =>
        simp only [ConfCommand.names, Option.some.injEq, Setting.word.injEq] at hnames
        exact hc (by rw [hnames])
    | _ => cases hnames

theorem word_carryOutAll {gethostbyname : ByteString → Option UInt32}
    {commands : List (ConfCommand × ByteString)} {w : WordSetting}
    (hcommands : ∀ command ∈ commands, command.1 ≠ .word w) {s s' : Settings}
    (hrun : s.carryOutAll gethostbyname commands = .ok s') : s'.word w = s.word w := by
  induction commands generalizing s with
  | nil =>
      cases hrun
      rfl
  | cons command commands ih =>
      obtain ⟨c, q⟩ := command
      simp only [Settings.carryOutAll] at hrun
      cases hfirst : s.carryOut gethostbyname c q with
      | error e =>
          rw [hfirst] at hrun
          cases hrun
      | ok s₁ =>
          rw [hfirst] at hrun
          rw [ih (fun command hcommand => hcommands command (List.mem_cons_of_mem _ hcommand)) hrun]
          exact word_carryOut (hcommands (c, q) List.mem_cons_self) hfirst

/-- The file in its plainest layout, but for a second space before the value of `l`. -/
def widened (pre : List WrittenLine) (l : WrittenLine) (post : List WrittenLine) : List LaidOut :=
  pre.map (WrittenLine.spaced 0) ++ l.spaced 1 :: post.map (WrittenLine.spaced 0)

section

variable {pre : List WrittenLine} {l : WrittenLine} {post : List WrittenLine}

theorem confCommands_plain (lines : List WrittenLine) :
    confCommands true (lines.map (WrittenLine.spaced 0)) =
      lines.map fun l => l.command true := by
  rw [confCommands_true, List.map_map]
  rfl

theorem confCommands_widened :
    confCommands true (widened pre l post) = (pre.map fun l => l.command true) ++
      (.ofKeyword l.keyword, 0x20 :: l.value) :: post.map fun l => l.command true := by
  rw [confCommands_true, widened, List.map_append, List.map_cons, List.map_map, List.map_map]
  rfl

theorem fitsBuf_widened (hroom : Roomy (pre ++ l :: post)) : FitsBuf true (widened pre l post) := by
  refine fitsBuf_of_roomy hroom ?_ true
  intro l' hl'
  have hplain : ∀ ls : List WrittenLine, l' ∈ ls.map (WrittenLine.spaced 0) →
      l'.line ∈ ls ∧ l'.sep.length ≤ 2 := by
    intro ls hmem
    obtain ⟨l'', hl'', rfl⟩ := List.mem_map.mp hmem
    exact ⟨hl'', by rw [length_sep_spaced]; omega⟩
  rcases List.mem_append.mp hl' with hpre | hrest
  · exact ⟨List.mem_append_left _ (hplain pre hpre).1, (hplain pre hpre).2⟩
  · rcases List.mem_cons.mp hrest with rfl | hpost
    · exact ⟨List.mem_append_right _ List.mem_cons_self, by rw [length_sep_spaced]⟩
    · exact ⟨List.mem_append_right _ (List.mem_cons_of_mem _ (hplain post hpost).1),
        (hplain post hpost).2⟩

theorem fitsBuf_plain {lines : List WrittenLine} (hroom : Roomy lines) (ends : Bool) :
    FitsBuf ends (lines.map (WrittenLine.spaced 0)) := by
  refine fitsBuf_of_roomy hroom ?_ ends
  intro l hl
  obtain ⟨l', hl', rfl⟩ := List.mem_map.mp hl
  exact ⟨hl', by rw [length_sep_spaced]; omega⟩

theorem line_plain (lines : List WrittenLine) :
    (lines.map (WrittenLine.spaced 0)).map LaidOut.line = lines := by
  rw [List.map_map]
  exact List.map_id lines

theorem line_widened : (widened pre l post).map LaidOut.line = pre ++ l :: post := by
  rw [widened, List.map_append, List.map_cons, line_plain, line_plain]
  rfl

/-- A second space makes no difference to a file whose layout makes none. -/
theorem LayoutFree.readsTo_widened (h : LayoutFree (pre ++ l :: post))
    (hroom : Roomy (pre ++ l :: post)) (world : ConfWorld) (name : ByteString)
    (settings : Settings) (confRead : Bool) :
    readsTo world name settings confRead true (widened pre l post) =
      readsTo world name settings confRead true
        ((pre ++ l :: post).map (WrittenLine.spaced 0)) :=
  h _ _ true true line_widened (line_plain _) (fitsBuf_widened hroom) (fitsBuf_plain hroom true)
    world name settings confRead

/-- Where a `conf` line is the next one, its file is read in place of the rest. -/
theorem readsTo_conf (world : ConfWorld) (name : ByteString) {settings s : Settings}
    {q : ByteString} {commands : List (ConfCommand × ByteString)} {file : List LaidOut}
    (hfits : FitsBuf true file) (hpre : ∀ l ∈ pre, ConfCommand.ofKeyword l.keyword ≠ .conf)
    (hfile : confCommands true file =
      (pre.map fun l => l.command true) ++ (.conf, q) :: commands)
    (hs : settings.carryOutAll world.gethostbyname (pre.map fun l => l.command true) = .ok s) :
    ∃ st : ConfState, st.settings = s ∧ readsTo world name settings false true file =
      (readConfFiles (world.withFile name (confContent true file)) 1 q st).map
        ConfState.settings := by
  have hconf : ∀ command ∈ pre.map (fun l => l.command true), command.1 ≠ .conf := by
    intro command hcommand
    obtain ⟨l', hl', rfl⟩ := List.mem_map.mp hcommand
    exact hpre l' hl'
  rw [readsTo_eq hfits, hfile]
  rcases readConfCommands_append (world.withFile name (confContent true file))
    (readConfFiles (world.withFile name (confContent true file)) 1) hconf
    ((.conf, q) :: commands) ⟨settings, false, []⟩ with ⟨e, herror, -⟩ | ⟨st, hok, hread, heq⟩
  · exact absurd (herror.symm.trans hs) (by simp)
  · refine ⟨{ st with confRead := true }, Except.ok.inj (hok.symm.trans hs), ?_⟩
    rw [heq, readConfCommands, if_pos rfl, hread]
    rfl

/-- The lines before a `conf` line of a file that is read to its end are carried out. -/
theorem carryOutAll_of_accepted (hroom : Roomy (pre ++ post))
    (haccepted : AcceptedPlainly (pre ++ post))
    (hpre : ∀ l' ∈ pre, ConfCommand.ofKeyword l'.keyword ≠ .conf) :
    ∃ (gethostbyname : ByteString → Option UInt32) (settings s : Settings),
      settings.carryOutAll gethostbyname (pre.map fun l => l.command true) = .ok s := by
  obtain ⟨world, name, settings, confRead, s, hread⟩ := haccepted
  have hcommands : confCommands true ((pre ++ post).map (WrittenLine.spaced 0)) =
      (pre.map fun l => l.command true) ++ post.map fun l => l.command true := by
    rw [confCommands_plain, List.map_append]
  rw [readsTo_eq (fitsBuf_plain hroom true), hcommands] at hread
  generalize world.withFile name _ = world at hread
  have hconf : ∀ command ∈ pre.map (fun l => l.command true), command.1 ≠ .conf := by
    intro command hcommand
    obtain ⟨l', hl', rfl⟩ := List.mem_map.mp hcommand
    exact hpre l' hl'
  rcases readConfCommands_append world (readConfFiles world 1) hconf
    (post.map fun l => l.command true) ⟨settings, confRead, []⟩ with
    ⟨e, -, herror⟩ | ⟨st, hok, -, -⟩
  · rw [herror] at hread
    cases hread
  · exact ⟨world.gethostbyname, settings, st.settings, hok⟩

/-- A file with a `conf` line can be laid out so that it names a file that is not there, or one that
is refused. -/
theorem not_layoutFree_of_conf (hroom : Roomy (pre ++ l :: post))
    (haccepted : AcceptedPlainly (pre ++ l :: post))
    (hpre : ∀ l' ∈ pre, ConfCommand.ofKeyword l'.keyword ≠ .conf)
    (hl : ConfCommand.ofKeyword l.keyword = .conf) : ¬ LayoutFree (pre ++ l :: post) := by
  intro h
  obtain ⟨gethostbyname, settings, s, hs⟩ := carryOutAll_of_accepted hroom haccepted hpre
  let world : ConfWorld :=
    ⟨fun n => if n = 0x20 :: l.value then some [0x78] else none, gethostbyname⟩
  have hplainCommands : confCommands true ((pre ++ l :: post).map (WrittenLine.spaced 0)) =
      (pre.map fun l => l.command true) ++
        (.conf, l.value) :: post.map fun l => l.command true := by
    rw [confCommands_plain, List.map_append, List.map_cons]
    rw [show l.command true = (.conf, l.value) by rw [WrittenLine.command, hl]; rfl]
  obtain ⟨st, hst, hplain⟩ :=
    readsTo_conf world [] (fitsBuf_plain hroom true) hpre hplainCommands hs
  obtain ⟨st', hst', hwide⟩ := readsTo_conf world [] (fitsBuf_widened hroom) hpre
    (confCommands_widened.trans (by rw [hl])) hs
  have hmissing : ∀ content, readConfFiles (world.withFile [] content) 1 l.value st = .ok st := by
    intro content
    have hnone : (world.withFile [] content).files l.value = none := by
      show (if l.value = [] then some content
        else if l.value = 0x20 :: l.value then _ else none) = none
      rw [if_neg l.value_ne, if_neg (List.cons_ne_self _ _).symm]
    rw [readConfFiles, hnone]
  have hrefused : ∀ content,
      readConfFiles (world.withFile [] content) 1 (0x20 :: l.value) st' = .error (.exit 1) := by
    intro content
    have hfound : (world.withFile [] content).files (0x20 :: l.value) = some [0x78] := by
      show (if (0x20 :: l.value : ByteString) = [] then some content
        else if (0x20 :: l.value : ByteString) = 0x20 :: l.value then some [0x78] else none) = _
      rw [if_neg (List.cons_ne_nil _ _), if_pos rfl]
    rw [readConfFiles, hfound]
    rfl
  have hsame := h.readsTo_widened hroom world [] settings false
  rw [hplain, hwide, hmissing, hrefused] at hsame
  cases hsame

/-- Without `conf` lines, a second space makes no difference to what the lines do either. -/
theorem LayoutFree.carryOutAll_widened (h : LayoutFree (pre ++ l :: post))
    (hroom : Roomy (pre ++ l :: post))
    (hconf : ∀ l' ∈ pre ++ l :: post, ConfCommand.ofKeyword l'.keyword ≠ .conf)
    (gethostbyname : ByteString → Option UInt32) (settings : Settings) :
    settings.carryOutAll gethostbyname ((pre.map fun l => l.command true) ++
        (.ofKeyword l.keyword, 0x20 :: l.value) :: post.map fun l => l.command true) =
      settings.carryOutAll gethostbyname ((pre ++ l :: post).map fun l => l.command true) := by
  have hsame := h.readsTo_widened hroom ⟨fun _ => none, gethostbyname⟩ [] settings false
  have hcommands : ∀ ls : List WrittenLine, (∀ l' ∈ ls, l' ∈ pre ++ l :: post) →
      ∀ command ∈ ls.map (fun l => l.command true), command.1 ≠ .conf := by
    intro ls hls command hcommand
    obtain ⟨l', hl', rfl⟩ := List.mem_map.mp hcommand
    exact hconf l' (hls l' hl')
  have hplain := hcommands (pre ++ l :: post) fun _ hmem => hmem
  have hwide : ∀ command ∈ confCommands true (widened pre l post), command.1 ≠ .conf := by
    intro command hcommand
    rw [confCommands_widened] at hcommand
    rcases List.mem_append.mp hcommand with hpre | hrest
    · exact hcommands pre (fun _ hmem => List.mem_append_left _ hmem) command hpre
    · rcases List.mem_cons.mp hrest with rfl | hpost
      · exact hconf l (List.mem_append_right _ List.mem_cons_self)
      · exact hcommands post
          (fun _ hmem => List.mem_append_right _ (List.mem_cons_of_mem _ hmem)) command hpost
  rw [readsTo_eq_carryOutAll (fitsBuf_widened hroom) hwide,
    readsTo_eq_carryOutAll (fitsBuf_plain hroom true) (by rw [confCommands_plain]; exact hplain),
    confCommands_widened, confCommands_plain] at hsame
  exact hsame

/-- A program of commands that ends well begins well. -/
theorem carryOutAll_append_eq_ok {gethostbyname : ByteString → Option UInt32}
    {commands commands' : List (ConfCommand × ByteString)} {s s' : Settings}
    (hrun : s.carryOutAll gethostbyname (commands ++ commands') = .ok s') :
    ∃ s₁, s.carryOutAll gethostbyname commands = .ok s₁ ∧
      s₁.carryOutAll gethostbyname commands' = .ok s' := by
  rw [Settings.carryOutAll_append] at hrun
  cases hfirst : s.carryOutAll gethostbyname commands with
  | error e =>
      rw [hfirst] at hrun
      cases hrun
  | ok s₁ =>
      rw [hfirst] at hrun
      exact ⟨s₁, rfl, hrun⟩

theorem carryOutAll_cons_eq_ok {gethostbyname : ByteString → Option UInt32} {c : ConfCommand}
    {q : ByteString} {commands : List (ConfCommand × ByteString)} {s s' : Settings}
    (hrun : s.carryOutAll gethostbyname ((c, q) :: commands) = .ok s') :
    ∃ s₁, s.carryOut gethostbyname c q = .ok s₁ ∧
      s₁.carryOutAll gethostbyname commands = .ok s' := by
  rw [Settings.carryOutAll] at hrun
  cases hfirst : s.carryOut gethostbyname c q with
  | error e =>
      rw [hfirst] at hrun
      cases hrun
  | ok s₁ =>
      rw [hfirst] at hrun
      exact ⟨s₁, rfl, hrun⟩

/-- A file that is read to its end, and whose layout makes no difference, is also read to its end
with a second space. -/
theorem LayoutFree.carryOutAll_both (h : LayoutFree (pre ++ l :: post))
    (hroom : Roomy (pre ++ l :: post)) (haccepted : AcceptedPlainly (pre ++ l :: post))
    (hconf : ∀ l' ∈ pre ++ l :: post, ConfCommand.ofKeyword l'.keyword ≠ .conf) :
    ∃ (gethostbyname : ByteString → Option UInt32) (s s₁ s₂ s' : Settings),
      (s.carryOut gethostbyname (.ofKeyword l.keyword) l.value = .ok s₁ ∧
        s₁.carryOutAll gethostbyname (post.map fun l => l.command true) = .ok s') ∧
      (s.carryOut gethostbyname (.ofKeyword l.keyword) (0x20 :: l.value) = .ok s₂ ∧
        s₂.carryOutAll gethostbyname (post.map fun l => l.command true) = .ok s') := by
  have hwide := h.carryOutAll_widened hroom hconf
  rw [← List.append_nil (pre ++ l :: post)] at hroom haccepted
  obtain ⟨gethostbyname, settings, s', hs'⟩ := carryOutAll_of_accepted hroom haccepted hconf
  have hs'' := (hwide gethostbyname settings).trans hs'
  rw [List.map_append] at hs'
  obtain ⟨s, hs, hrest⟩ := carryOutAll_append_eq_ok hs'
  obtain ⟨t, ht, hrest'⟩ := carryOutAll_append_eq_ok hs''
  have heq : t = s := Except.ok.inj (ht.symm.trans hs)
  subst heq
  obtain ⟨s₁, hs₁⟩ := carryOutAll_cons_eq_ok hrest
  obtain ⟨s₂, hs₂⟩ := carryOutAll_cons_eq_ok hrest'
  exact ⟨gethostbyname, t, s₁, s₂, s', hs₁, hs₂⟩

/-- A flag with a second space is refused. -/
theorem not_layoutFree_of_flag (hroom : Roomy (pre ++ l :: post))
    (haccepted : AcceptedPlainly (pre ++ l :: post))
    (hconf : ∀ l' ∈ pre ++ l :: post, ConfCommand.ofKeyword l'.keyword ≠ .conf)
    {f : FlagSetting} (hl : ConfCommand.ofKeyword l.keyword = .flag f) :
    ¬ LayoutFree (pre ++ l :: post) := by
  intro h
  obtain ⟨gethostbyname, s, s₁, s₂, s', -, hflag, -⟩ := h.carryOutAll_both hroom haccepted hconf
  rw [hl, Settings.carryOut, getBoolean_space] at hflag
  cases hflag

/-- A word with a second space is another word, and if it is the last line for the word, it
stays. -/
theorem not_layoutFree_of_word (hroom : Roomy (pre ++ l :: post))
    (haccepted : AcceptedPlainly (pre ++ l :: post))
    (hconf : ∀ l' ∈ pre ++ l :: post, ConfCommand.ofKeyword l'.keyword ≠ .conf)
    {w : WordSetting} (hl : ConfCommand.ofKeyword l.keyword = .word w)
    (hpost : ∀ l' ∈ post, ConfCommand.ofKeyword l'.keyword ≠ .word w) :
    ¬ LayoutFree (pre ++ l :: post) := by
  intro h
  obtain ⟨gethostbyname, s, s₁, s₂, s', ⟨hs₁, hrest₁⟩, hs₂, hrest₂⟩ :=
    h.carryOutAll_both hroom haccepted hconf
  have hcommands : ∀ command ∈ post.map (fun l => l.command true), command.1 ≠ .word w := by
    intro command hcommand
    obtain ⟨l', hl', rfl⟩ := List.mem_map.mp hcommand
    exact hpost l' hl'
  have hword₁ := word_carryOutAll hcommands hrest₁
  have hword₂ := word_carryOutAll hcommands hrest₂
  rw [hl] at hs₁ hs₂
  cases hs₁
  cases hs₂
  have hplain : (s.setWord w l.value).word w = some l.value := if_pos rfl
  have hspace : (s.setWord w (0x20 :: l.value)).word w = some (0x20 :: l.value) := if_pos rfl
  rw [hword₁, hplain, hspace] at hword₂
  exact List.cons_ne_self _ _ (Option.some.inj hword₂).symm

end

theorem exists_first {α : Type} {p : α → Prop} {ls : List α} (h : ∃ l ∈ ls, p l) :
    ∃ pre l post, ls = pre ++ l :: post ∧ p l ∧ ∀ l' ∈ pre, ¬ p l' := by
  induction ls with
  | nil => simp at h
  | cons l ls ih =>
      by_cases hl : p l
      · exact ⟨[], l, ls, rfl, hl, by simp⟩
      · have hrest : ∃ l ∈ ls, p l := by simpa [hl] using h
        obtain ⟨pre, l', post, rfl, hl', hpre⟩ := ih hrest
        refine ⟨l :: pre, l', post, rfl, hl', ?_⟩
        intro l'' hl''
        rcases List.mem_cons.mp hl'' with rfl | hmem
        · exact hl
        · exact hpre l'' hmem

theorem exists_last {α : Type} {p : α → Prop} {ls : List α} (h : ∃ l ∈ ls, p l) :
    ∃ pre l post, ls = pre ++ l :: post ∧ p l ∧ ∀ l' ∈ post, ¬ p l' := by
  have hreverse : ∃ l ∈ ls.reverse, p l := by simpa using h
  obtain ⟨pre, l, post, heq, hl, hpre⟩ := exists_first hreverse
  refine ⟨post.reverse, l, pre.reverse, ?_, hl, by simpa using hpre⟩
  rw [← List.reverse_reverse ls, heq]
  simp

/-- What a file needs to be safe, where its layout makes no difference. -/
theorem ignores_of_layoutFree {lines : List WrittenLine} (hroom : Roomy lines)
    (haccepted : AcceptedPlainly lines) (h : LayoutFree lines) :
    ∀ l ∈ lines, (ConfCommand.ofKeyword l.keyword).IgnoresBlanks := by
  have hconf : ∀ l ∈ lines, ConfCommand.ofKeyword l.keyword ≠ .conf := by
    by_contra hex
    obtain ⟨pre, l, post, rfl, hl, hpre⟩ :=
      exists_first (p := fun l : WrittenLine => ConfCommand.ofKeyword l.keyword = .conf)
        (by simpa using hex)
    exact not_layoutFree_of_conf hroom haccepted hpre hl h
  intro l hl
  generalize hkind : ConfCommand.ofKeyword l.keyword = kind
  cases kind with
  | conf => exact hconf l hl hkind
  | word w =>
      obtain ⟨pre, l', post, rfl, hl', hpost⟩ :=
        exists_last (p := fun l : WrittenLine => ConfCommand.ofKeyword l.keyword = .word w)
          ⟨l, hl, hkind⟩
      exact not_layoutFree_of_word hroom haccepted hconf hl' hpost h
  | flag f =>
      obtain ⟨pre, post, rfl⟩ := List.append_of_mem hl
      exact not_layoutFree_of_flag hroom haccepted hconf hkind h
  | host => trivial
  | log => trivial
  | number n => trivial
  | invalid => trivial

/-- The last line of a file whose layout makes no difference can do without its last byte. -/
theorem last_of_layoutFree {init : List WrittenLine} {l : WrittenLine}
    (hroom : Roomy (init ++ [l])) (h : LayoutFree (init ++ [l]))
    (hignores : ∀ l' ∈ init ++ [l], (ConfCommand.ofKeyword l'.keyword).IgnoresBlanks)
    {gethostbyname : ByteString → Option UInt32} {s s' : Settings}
    (hs : s.carryOutAll gethostbyname (init.map fun l => l.command true) = .ok s') :
    s'.carryOut gethostbyname (.ofKeyword l.keyword) l.value =
      s'.carryOut gethostbyname (.ofKeyword l.keyword) l.value.dropLast := by
  have hsame := h _ _ true false (line_plain _) (line_plain _) (fitsBuf_plain hroom true)
    (fitsBuf_plain hroom false) ⟨fun _ => none, gethostbyname⟩ [] s false
  rw [readsTo_of_ignores hignores (line_plain _) (fitsBuf_plain hroom true),
    readsTo_of_ignores hignores (line_plain _) (fitsBuf_plain hroom false),
    plainCommands_concat, plainCommands_concat, Settings.carryOutAll_append,
    Settings.carryOutAll_append] at hsame
  have hone : ∀ ends, s'.carryOutAll gethostbyname [l.command ends] =
      s'.carryOut gethostbyname (.ofKeyword l.keyword) (l.command ends).2 := by
    intro ends
    show (s'.carryOut gethostbyname (.ofKeyword l.keyword) (l.command ends).2).bind .ok = _
    cases s'.carryOut gethostbyname (.ofKeyword l.keyword) (l.command ends).2 <;> rfl
  rw [hs] at hsame
  have hlast : s'.carryOutAll gethostbyname [l.command true] =
      s'.carryOutAll gethostbyname [l.command false] := hsame
  rw [hone, hone] at hlast
  exact hlast

/-- The layout of a file makes no difference if the file is safe from it.  The other way round this
holds of every file that is read to its end and leaves room for a second layout. -/
theorem layoutFree_iff (lines : List WrittenLine) :
    (LayoutSafe lines → LayoutFree lines) ∧
    (Roomy lines → AcceptedPlainly lines → LayoutFree lines → LayoutSafe lines) := by
  refine ⟨LayoutSafe.layoutFree, ?_⟩
  intro hroom haccepted h
  have hignores := ignores_of_layoutFree hroom haccepted h
  refine ⟨hignores, ?_⟩
  intro init l heq gethostbyname s s' hs
  subst heq
  rw [sparesLast_iff (hignores l (by simp))]
  exact last_of_layoutFree hroom h hignores hs

theorem filecache_fields :
    (∀ c ∈ text "filecache", isSpace c = false ∧ c ≠ 0) ∧
      ([] ++ text "filecache").head? ≠ some 0x23 ∧
      (∀ c ∈ (text "5").head?, isSpace c = false) ∧ ∀ c ∈ text "5", c ≠ newline ∧ c ≠ 0 := by
  decide +kernel

/-- The line `filecache 5`; for less than ten entries, ten are taken. -/
def filecacheLine : WrittenLine where
  lead := []
  keyword := text "filecache"
  value := text "5"
  lead_blank := List.forall_mem_nil _
  keyword_ne := List.cons_ne_nil _ _
  keyword_word := filecache_fields.1
  not_comment := filecache_fields.2.1
  value_ne := List.cons_ne_nil _ _
  value_head := filecache_fields.2.2.1
  value_line := filecache_fields.2.2.2

/-- Its layout makes no difference. -/
theorem layoutFree_iff_filecache :
    Roomy [filecacheLine] ∧ AcceptedPlainly [filecacheLine] ∧ LayoutSafe [filecacheLine] ∧
      LayoutFree [filecacheLine] := by
  obtain ⟨hkeyword, hten, hfits, hread⟩ :
      ConfCommand.ofKeyword filecacheLine.keyword = .number .fpCacheLimit ∧
        NumberSetting.read .fpCacheLimit filecacheLine.value =
          NumberSetting.read .fpCacheLimit filecacheLine.value.dropLast ∧
        filecacheLine.lead.length + filecacheLine.keyword.length + 2 +
          filecacheLine.value.length + 1 ≤ 1023 ∧
        (readsTo (singleFile "") (text "fspd.conf") initialSettings false true
          ([filecacheLine].map (WrittenLine.spaced 0))).toOption.isSome = true := by
    decide +kernel
  have hsafe : LayoutSafe [filecacheLine] := by
    refine ⟨?_, ?_⟩
    · intro l hl
      rw [List.mem_singleton.mp hl, hkeyword]
      trivial
    · intro init l heq gethostbyname s s' _
      have hlast : some filecacheLine = some l :=
        (congrArg List.getLast? heq).trans List.getLast?_concat
      rw [← Option.some.inj hlast, hkeyword]
      exact hten
  have hroom : Roomy [filecacheLine] := by
    intro l hl
    rw [List.mem_singleton.mp hl]
    exact hfits
  have haccepted : AcceptedPlainly [filecacheLine] := by
    refine ⟨singleFile "", text "fspd.conf", initialSettings, false, ?_⟩
    cases hres : readsTo (singleFile "") (text "fspd.conf") initialSettings false true
        ([filecacheLine].map (WrittenLine.spaced 0)) with
    | error e =>
        rw [hres] at hread
        cases hread
    | ok s => exact ⟨s, rfl⟩
  exact ⟨hroom, haccepted, hsafe, (layoutFree_iff [filecacheLine]).1 hsafe⟩

/-! ### A second space -/

theorem readme_fields :
    (∀ c ∈ text "readme", isSpace c = false ∧ c ≠ 0) ∧
      ([] ++ text "readme").head? ≠ some 0x23 ∧
      (∀ c ∈ (text ".README").head?, isSpace c = false) ∧
      ∀ c ∈ text ".README", c ≠ newline ∧ c ≠ 0 := by
  decide +kernel

/-- The line that names the readme files. -/
def readmeLine : WrittenLine where
  lead := []
  keyword := text "readme"
  value := text ".README"
  lead_blank := List.forall_mem_nil _
  keyword_ne := List.cons_ne_nil _ _
  keyword_word := readme_fields.1
  not_comment := readme_fields.2.1
  value_ne := List.cons_ne_nil _ _
  value_head := readme_fields.2.2.1
  value_line := readme_fields.2.2.2

/-- With a second space the readme files are not found any more. -/
theorem readmeLine_not_layoutFree : ¬ ∀ lines, LayoutFree lines := by
  intro h
  have hroom : Roomy ([] ++ readmeLine :: []) := by
    intro l hl
    rw [List.mem_singleton.mp hl]
    decide
  have hsame := h _ _ _ true true (line_plain _) line_widened (fitsBuf_plain hroom true)
    (fitsBuf_widened hroom) (singleFile "") (text "fspd.conf") initialSettings false
  have hword := congrArg (fun r => r.toOption.map fun s : Settings => s.word .readmeFile) hsame
  revert hword
  decide +kernel

end Fsp
