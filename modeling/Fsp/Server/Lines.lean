import Fsp.Server.Acl

/-!
# Host tables, line by line

A host table is filled by one `add_ipline` for each line, and `check_ip_table` should then answer
with the first accepted line that matches.  It does as long as a table never gets a second record.
-/

namespace Fsp

open Bytes

/-- One call of `add_ipline`: what `gethostbyname` answers meanwhile, and the line. -/
structure IplineCall where
  gethostbyname : ByteString → Option UInt32
  line : ByteString

/-- The record `parse_ipline` makes of a line, if it accepts it. -/
def IplineCall.parsed (call : IplineCall) : Option IPrange :=
  parseIpline call.gethostbyname call.line

/-- The calls in turn, on one table. -/
def addCalls : List IplineCall → List IPrange → Option (List IPrange)
  | [], table => some table
  | call :: calls, table =>
      match addIpline call.gethostbyname call.line table with
      | none => none
      | some table => addCalls calls table

/-- The text of the first line that is accepted and whose range has the address. -/
def firstMatch (bigEndian : Bool) (inetNum : UInt32) (calls : List IplineCall) :
    Option ByteString :=
  calls.findSome? fun call => call.parsed.bind (checkIp bigEndian inetNum)

/-- The records of the accepted lines. -/
def accepted (calls : List IplineCall) : List IPrange := calls.filterMap IplineCall.parsed

/-- A table made by the calls answers with the first match, and each later line left the answers
that were there as they were. -/
structure FirstMatches (calls : List IplineCall) (table : List IPrange) : Prop where
  answer : ∀ bigEndian inetNum,
    checkIpTable bigEndian inetNum table = firstMatch bigEndian inetNum calls
  stable : ∀ before after, calls = before ++ after → ∃ table', addCalls before [] = some table' ∧
    ∀ bigEndian inetNum text, checkIpTable bigEndian inetNum table' = some text →
      checkIpTable bigEndian inetNum table = some text

/-! ## Tables of one record -/

/-- The first match is the answer of the table of all accepted records. -/
theorem firstMatch_eq_findSome? (bigEndian : Bool) (inetNum : UInt32) (calls : List IplineCall) :
    firstMatch bigEndian inetNum calls = checkIpTable bigEndian inetNum (accepted calls) := by
  unfold firstMatch checkIpTable accepted
  induction calls with
  | nil => rfl
  | cons call calls ih =>
      rw [List.findSome?_cons, List.filterMap_cons]
      cases call.parsed with
      | none => exact ih
      | some r =>
          rw [List.findSome?_cons, ih]
          rfl

theorem addIpline_of_parsed_none {call : IplineCall} (h : call.parsed = none)
    (table : List IPrange) : addIpline call.gethostbyname call.line table = some table := by
  unfold IplineCall.parsed at h
  unfold addIpline
  rw [h]

theorem addIpline_of_parsed {call : IplineCall} {r : IPrange} (h : call.parsed = some r)
    (table : List IPrange) :
    addIpline call.gethostbyname call.line table = if table = [] then some [r] else none := by
  unfold IplineCall.parsed at h
  unfold addIpline
  rw [h]

/-- The calls add one record at most to an empty table, and none to another. -/
theorem addCalls_eq (calls : List IplineCall) (table : List IPrange) :
    addCalls calls table =
      if accepted calls = [] then some table
      else if table = [] ∧ (accepted calls).length = 1 then some (accepted calls) else none := by
  induction calls generalizing table with
  | nil => rfl
  | cons call calls ih =>
      rw [addCalls]
      cases hr : call.parsed with
      | none =>
          have haccepted : accepted (call :: calls) = accepted calls := by
            rw [accepted, List.filterMap_cons, hr]
            rfl
          rw [addIpline_of_parsed_none hr, haccepted]
          exact ih table
      | some r =>
          have haccepted : accepted (call :: calls) = r :: accepted calls := by
            rw [accepted, List.filterMap_cons, hr]
            rfl
          rw [addIpline_of_parsed hr, haccepted, if_neg (List.cons_ne_nil _ _)]
          by_cases htable : table = []
          · rw [if_pos htable]
            simp only [ih, htable, true_and, List.length_cons, List.cons_ne_nil, false_and]
            by_cases hnil : accepted calls = []
            · simp [hnil]
            · have hlength : (accepted calls).length ≠ 0 := by simpa using hnil
              rw [if_neg hnil, if_neg (by simp), if_neg (by omega)]
          · simp [htable]

theorem length_accepted_le (before after : List IplineCall) :
    (accepted before).length ≤ (accepted (before ++ after)).length := by
  unfold accepted
  rw [List.filterMap_append, List.length_append]
  omega

/-- With one accepted line at most, the table is the list of the accepted lines. -/
theorem addCalls_of_length_le {calls : List IplineCall} (h : (accepted calls).length ≤ 1) :
    addCalls calls [] = some (accepted calls) := by
  rw [addCalls_eq]
  by_cases hnil : accepted calls = []
  · rw [if_pos hnil, hnil]
  · have hlength : (accepted calls).length ≠ 0 := by simpa using hnil
    rw [if_neg hnil, if_pos ⟨rfl, by omega⟩]

/-- The calls leave a table that answers with the first match exactly when one line at most is
accepted. -/
theorem addCalls_firstMatches_iff (calls : List IplineCall) :
    (∃ table, addCalls calls [] = some table ∧ FirstMatches calls table) ↔
      (accepted calls).length ≤ 1 := by
  constructor
  · rintro ⟨table, htable, -⟩
    by_contra hlength
    rw [addCalls_eq, if_neg, if_neg] at htable
    · cases htable
    · omega
    · intro hnil
      rw [hnil] at hlength
      simp at hlength
  · intro hlength
    refine ⟨accepted calls, addCalls_of_length_le hlength, ?_, ?_⟩
    · intro bigEndian inetNum
      exact (firstMatch_eq_findSome? bigEndian inetNum calls).symm
    · intro before after heq
      have hle := length_accepted_le before after
      rw [← heq] at hle
      refine ⟨accepted before, addCalls_of_length_le (by omega), ?_⟩
      intro bigEndian inetNum text htext
      rw [heq, accepted, List.filterMap_append]
      unfold checkIpTable at htext ⊢
      rw [List.findSome?_append]
      exact congrArg (Option.or · _) htext

/-- Two lines for single hosts. -/
def twoLines : List IplineCall :=
  [⟨fun _ => none, text "10.0.0.1 N"⟩, ⟨fun _ => none, text "10.0.0.2 D go away"⟩]

/-- The second line already has no place to go. -/
theorem twoLines_not_firstMatches :
    (accepted twoLines).length = 2 ∧
    ¬ ∃ table, addCalls twoLines [] = some table ∧ FirstMatches twoLines table := by
  have hnone : (addCalls twoLines []).isNone = true := by decide +kernel
  refine ⟨by decide +kernel, ?_⟩
  rintro ⟨table, htable, -⟩
  rw [htable] at hnone
  cases hnone

/-- `load_access_rights` passes the lines of an owner file to `add_ipline` in this way. -/
theorem addIplines_eq_addCalls (gethostbyname : ByteString → Option UInt32)
    (lines : List ByteString) (table : List IPrange) :
    addIplines gethostbyname lines table =
      addCalls (lines.map fun line => ⟨gethostbyname, line⟩) table := by
  induction lines generalizing table with
  | nil => rfl
  | cons line lines ih =>
      rw [addIplines, List.map_cons, addCalls]
      cases addIpline gethostbyname line table with
      | none => rfl
      | some table => exact ih table

end Fsp
