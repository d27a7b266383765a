import Fsp.Wire

/-!
# Host tables

`server/iprange.c`: a host table is a list of address ranges, each with a text whose first letter
is the type of the host.  The C array ends with an entry whose text is null; here it is a list.
Addresses are as in `sin_addr.s_addr`, so what their bytes mean depends on the machine's byte
order.
-/

namespace Fsp

open Bytes

instance neZero_four : NeZero 4 := ⟨by decide⟩

/-- A range of addresses, octet 3 being the most significant one. -/
structure IPrange where
  lo : Fin 4 → UInt8
  hi : Fin 4 → UInt8
  text : ByteString

/-- `ntohl` on a machine of the given byte order. -/
def ntohl (bigEndian : Bool) (x : UInt32) : UInt32 :=
  if bigEndian then x
  else
    let n := x.toNat
    UInt32.ofNat (n % 256 * 16777216 + n / 256 % 256 * 65536 + n / 65536 % 256 * 256 + n / 16777216)

/-- Octet `j` of an address, octet 3 being the most significant one. -/
def octet (x : UInt32) (j : Fin 4) : UInt8 := UInt8.ofNat (x.toNat / 256 ^ j.val)

/-- `check_ip` -/
def checkIp (bigEndian : Bool) (inetNum : UInt32) (r : IPrange) : Option ByteString :=
  let val := octet (ntohl bigEndian inetNum)
  if ∀ j, r.lo j ≤ val j ∧ val j ≤ r.hi j then some r.text else none

/-- `check_ip_table` -/
def checkIpTable (bigEndian : Bool) (inetNum : UInt32) (table : List IPrange) :
    Option ByteString :=
  table.findSome? (checkIp bigEndian inetNum)

/-! ## Parsing host lines -/

def isSpace (c : UInt8) : Bool := c == 0x20 || (0x09 ≤ c && c ≤ 0x0D)

def isDigit (c : UInt8) : Bool := 0x30 ≤ c && c ≤ 0x39

def skipWhitespace (t : ByteString) : ByteString := t.dropWhile isSpace

/-- The `unsigned long` the digits add up to. -/
def digitsValue (digits : ByteString) : UInt64 :=
  digits.foldl (fun val c => 10 * val + UInt64.ofNat (c.toNat - 0x30)) 0

/-- `parse_ipcomponentnum`: the number and what follows it, or failure. -/
def parseIpcomponentnum (t : ByteString) : Option (UInt8 × ByteString) :=
  let digits := t.takeWhile isDigit
  if digits = [] then none
  else if 0xff < digitsValue digits then none
  else some ((digitsValue digits).toUInt8, t.dropWhile isDigit)

/-- `parse_ipcomponent`: the bounds and what follows them, or failure. -/
def parseIpcomponent (t : ByteString) : Option ((UInt8 × UInt8) × ByteString) :=
  match t with
  | 0x2A :: rest => some ((0x00, 0xff), rest)
  | t =>
      match parseIpcomponentnum t with
      | none => none
      | some (lo, 0x2D :: rest) => (parseIpcomponentnum rest).map fun r => ((lo, r.1), r.2)
      | some (lo, rest) => some ((lo, lo), rest)

/-- The loop of `parse_ipnumber` for the `n` octets still to read, most significant first. -/
def parseIpfields : ℕ → Bool → ByteString → Option (List (UInt8 × UInt8))
  | 0, _, _ => some []
  | n + 1, first, t =>
      if t.head?.any isSpace then some (List.replicate (n + 1) (0x00, 0xff))
      else
        match (if first then some t else if t.head? = some dot then some t.tail else none) with
        | none => none
        | some t =>
            match parseIpcomponent t with
            | none => none
            | some (bounds, rest) => (parseIpfields n false rest).map (bounds :: ·)
where
  dot : UInt8 := 0x2E

/-- `parse_ipnumber`: the lower and upper bounds of a numeric mask. -/
def parseIpnumber (t : ByteString) : Option ((Fin 4 → UInt8) × (Fin 4 → UInt8)) :=
  (parseIpfields 4 true t).map fun fields =>
    (fun j => (fields.getD (3 - j.val) (0, 0)).1, fun j => (fields.getD (3 - j.val) (0, 0)).2)

/-- `parse_hostname`, with `gethostbyname` given. -/
def parseHostname (gethostbyname : ByteString → Option UInt32) (name : ByteString) :
    Option ((Fin 4 → UInt8) × (Fin 4 → UInt8)) :=
  (gethostbyname name).map fun inetNum => (octet inetNum, octet inetNum)

/-- `parse_ipline` -/
def parseIpline (gethostbyname : ByteString → Option UInt32) (line : ByteString) :
    Option IPrange :=
  let t := skipWhitespace line
  match t with
  | [] => none
  | c :: _ =>
      if c = 0x23 then none
      else
        let address := t.takeWhile fun c => !isSpace c
        match skipWhitespace (t.dropWhile fun c => !isSpace c) with
        | [] => none
        | type :: message =>
            if type = 0x23 then none
            else
              let message := ((skipWhitespace message).reverse.dropWhile isSpace).reverse
              let bounds :=
                if c = 0x2A ∨ isDigit c then parseIpnumber t
                else parseHostname gethostbyname address
              bounds.map fun b => ⟨b.1, b.2, type :: message⟩

/-- `add_ipline`.  A table that already has an entry is grown by `realloc (table, ..)`, that is
with the address of the variable that points to the table; that call is the `none` of this
function. -/
def addIpline (gethostbyname : ByteString → Option UInt32) (line : ByteString)
    (table : List IPrange) : Option (List IPrange) :=
  match parseIpline gethostbyname line with
  | none => some table
  | some nl => if table = [] then some [nl] else none

/-- A number in decimal. -/
def decimal (n : ℕ) : ByteString := text (toString n)

/-- One line of `dump_iptab`: `"%d-%d.%d-%d.%d-%d.%d-%d  %c  %s\n"`. -/
def dumpIpline (r : IPrange) : ByteString :=
  let range (j : Fin 4) := decimal (r.lo j).toNat ++ text "-" ++ decimal (r.hi j).toNat
  range 3 ++ text "." ++ range 2 ++ text "." ++ range 1 ++ text "." ++ range 0 ++
    text "  " ++ r.text.take 1 ++ text "  " ++ r.text.drop 1 ++ text "\n"

/-- `dump_iptab` -/
def dumpIptab (table : List IPrange) : ByteString := table.flatMap dumpIpline

/-- The text of an accepted line is no longer than the line. -/
theorem length_text_parseIpline {gethostbyname : ByteString → Option UInt32} {line : ByteString}
    {r : IPrange} (h : parseIpline gethostbyname line = some r) :
    r.text.length ≤ line.length := by
  unfold parseIpline at h
  simp only at h
  split at h
  · cases h
  · rename_i c rest hline
    split at h
    · cases h
    · split at h
      · cases h
      · rename_i type message hmessage
        split at h
        · cases h
        · obtain ⟨b, _, rfl⟩ := Option.map_eq_some_iff.mp h
          have hskip : ∀ (p : UInt8 → Bool) (l : ByteString), (l.dropWhile p).length ≤ l.length :=
            fun p l => (List.dropWhile_sublist p).length_le
          have h₁ := hskip isSpace line
          have h₂ := hskip (fun c => !isSpace c) (skipWhitespace line)
          have h₃ := hskip isSpace ((skipWhitespace line).dropWhile fun c => !isSpace c)
          have h₄ := hskip isSpace message
          have h₅ := hskip isSpace (message.dropWhile isSpace).reverse
          simp only [skipWhitespace, List.length_reverse, List.length_cons] at *
          rw [hmessage, List.length_cons] at h₃
          omega

end Fsp
