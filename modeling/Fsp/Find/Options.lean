import Fsp.Client.Transfer
import Fsp.Find.Squish
import Fsp.Server.Conf

/-!
# The command line of ffind

`bsd_src/option.c` and `bsd_src/find.c`, with the primaries of `bsd_src/function.c`.  `find_create`
makes the node of a word, and `find_formplan` strings the nodes together.  Two globals are set on
the way: `isoutput`, when a primary is made that produces output, and `divsize`, which is 1 until
some `-size` has its number in bytes.

What the primaries ask of their surroundings is a `FindEnv`: `fnmatch`, the clock, the times of local
files, and what the user answers and how a program ends, after everything that was done before.
`find_name` returns what `fnmatch` returns, which is zero for a match, so `-name` holds for the names
that do not match.

The arrays that `brace_subst` builds its words in have no size here.
-/

namespace Fsp

open Bytes ShortCircuit

/-! ## Primaries -/

inductive Comparison where
  | equal | lessThan | greater
  deriving DecidableEq, Repr

/-- `COMPARE` -/
def Comparison.compare : Comparison → ℤ → ℤ → Bool
  | equal, a, b => a = b
  | lessThan, a, b => a < b
  | greater, a, b => b < a

/-- The nodes with an `eval` of their own, and their data. -/
inductive Primary where
  | time (flags : Comparison) (tData : ℤ)
  | exec (isok : Bool) (argv : List ByteString)
  | ls
  | name (pattern : ByteString)
  | newer (tData : ℤ)
  | print
  | prune
  | size (flags : Comparison) (oData : ℤ)
  | type (dir : Bool)
  deriving DecidableEq, Repr

/-- What is seen from outside. -/
inductive FindEvent where
  | printed (path : ByteString)
  | listed (path : ByteString) (sb : StatBuf)
  | asked (argv : List ByteString)
  | ran (argv : List ByteString)
  deriving DecidableEq

/-- The surroundings of the command. -/
structure FindEnv where
  fnmatch : ByteString → ByteString → ℤ
  now : ℤ
  localTime : ByteString → Option ℤ
  saysYes : List FindEvent → Bool
  succeeds : List FindEvent → Bool

/-- What has been done, and `process`. -/
structure FindState where
  log : List FindEvent
  process : ℤ

/-- The state after one more event. -/
def FindState.add (s : FindState) (e : FindEvent) : FindState := { s with log := s.log ++ [e] }

/-- `brace_subst` -/
def braceSubst (path : ByteString) : ByteString → ByteString
  | 0x7B :: 0x7D :: orig => path ++ braceSubst path orig
  | c :: orig => c :: braceSubst path orig
  | [] => []

/-- The name behind the last slash, as `find_name` extracts it. -/
def baseName (path : ByteString) : ByteString := (path.reverse.takeWhile (· != slash)).reverse

/-- The `eval` of a primary, for the object at `path`. -/
def Primary.eval (env : FindEnv) (divsize : Bool) (path : ByteString) (sb : StatBuf) :
    Primary → Test FindState
  | time flags tData, s =>
      -- `SECSPERDAY` is `(long)60*60*24`, without parentheses: the division is by 60 only
      let periods := (env.now - sb.mtime.toNat + 60 * 60 * 24 - 1).tdiv 60 * 60 * 24
      (flags.compare periods tData, s)
  | exec isok argv, s =>
      let argv := argv.map (braceSubst path)
      let asked := if isok then s.add (.asked argv) else s
      if isok && !env.saysYes asked.log then (false, asked)
      else
        let ran := asked.add (.ran argv)
        (env.succeeds ran.log, ran)
  | ls, s => (true, s.add (.listed path sb))
  | name pattern, s => (env.fnmatch pattern (baseName path) ≠ 0, s)
  | newer tData, s => (tData < sb.mtime.toNat, s)
  | print, s => (true, s.add (.printed path))
  | prune, s => (true, { s with process := -1 })
  | size flags oData, s =>
      let size : ℕ := if divsize then (sb.size.toNat + 511) / 512 else sb.size.toNat
      (flags.compare size oData, s)
  | type dir, s => (sb.dir = dir, s)

/-! ## Options -/

/-- The tokens of the options. -/
inductive FindToken where
  | not | openParen | closeParen | and | exec | ls | name | newer | or | ok | print | prune
  | size | time | type
  deriving DecidableEq, Repr

/-- `options` -/
def options : List (ByteString × FindToken) :=
  [(text "!", .not), (text "(", .openParen), (text ")", .closeParen), (text "-a", .and),
    (text "-and", .and), (text "-exec", .exec), (text "-ls", .ls), (text "-name", .name),
    (text "-newer", .newer), (text "-o", .or), (text "-ok", .ok), (text "-or", .or),
    (text "-print", .print), (text "-prune", .prune), (text "-size", .size),
    (text "-time", .time), (text "-type", .type)]

/-- `option`; the table is sorted, as `bsearch` needs it, and has every name once. -/
def option (name : ByteString) : Option FindToken := options.lookup name

/-- The globals that are set while the plan is made. -/
structure FindGlobals where
  isoutput : Bool
  divsize : Bool
  deriving DecidableEq, Repr

/-- Where `strtol` for base 10 stops; at the beginning, if it finds no number. -/
def strtolEnd (s : ByteString) : ByteString :=
  let t := skipWhitespace s
  let digits := if t.head? = some 0x2D ∨ t.head? = some 0x2B then t.tail else t
  if (digits.takeWhile isDigit).isEmpty then s else digits.dropWhile isDigit

/-- `find_parsenum`, which also tells the character behind the number. -/
def parsenum (option str : ByteString) (endch : Option UInt8) :
    Except PlanFault (Comparison × ℤ × UInt8) :=
  -- determine comparison from leading + or -
  let (flags, str) :=
    if str.head? = some 0x2B then (Comparison.greater, str.tail)
    else if str.head? = some 0x2D then (.lessThan, str.tail)
    else (.equal, str)
  let value := strtol 10 str
  let endchar := strtolEnd str
  let c := endchar.headD 0
  if (value = 0 ∧ endchar = str) ∨ (c ≠ 0 ∧ endch ≠ some c) then
    .error (.usage (option ++ text ": illegal numeric value"))
  else .ok (flags, value, c)

/-- The words of a program up to the one that begins with a semicolon, and what stands behind it. -/
def upToSemicolon (argv : List ByteString) : Option (List ByteString × List ByteString) :=
  match argv.dropWhile fun word => word.head? ≠ some 0x3B with
  | [] => none
  | _ :: rest => some (argv.takeWhile fun word => word.head? ≠ some 0x3B, rest)

/-- A node, what stands behind its words, and the globals. -/
abbrev Created := Plan Primary × List ByteString × FindGlobals

/-- `c_exec` -/
def cExec (g : FindGlobals) (isok : Bool) (argv : List ByteString) : Except PlanFault Created :=
  match upToSemicolon argv with
  | none => .error (.usage ((if isok then text "-ok" else text "-exec") ++ text ": no terminating"))
  | some (words, rest) =>
      .ok (.primary (.exec isok words) .null, rest, { g with isoutput := true })

/-- `c_newer` -/
def cNewer (env : FindEnv) (g : FindGlobals) (filename : ByteString) :
    Except PlanFault (Primary × FindGlobals) :=
  match env.localTime filename with
  | none => .error .noInput
  | some t => .ok (.newer t, g)

/-- `c_size` -/
def cSize (g : FindGlobals) (arg : ByteString) : Except PlanFault (Primary × FindGlobals) := do
  let (flags, value, endch) ← parsenum (text "-size") arg (some 0x63)
  return (.size flags value, if endch = 0x63 then { g with divsize := false } else g)

/-- `c_time` -/
def cTime (g : FindGlobals) (arg : ByteString) : Except PlanFault (Primary × FindGlobals) := do
  let (flags, value, _) ← parsenum (text "-time") arg none
  return (.time flags value, g)

/-- `c_type` -/
def cType (g : FindGlobals) (typestring : ByteString) : Except PlanFault (Primary × FindGlobals) :=
  if typestring.head? = some 0x64 then .ok (.type true, g)
  else if typestring.head? = some 0x66 then .ok (.type false, g)
  else .error (.usage (text "-type: unknown type"))

/-- What `find_create` says of an option that is the last word. -/
def requiresMore (word : ByteString) : PlanFault :=
  .usage (text "find: " ++ word ++ text " requires additional arguments.\n")

/-- The node of an option that takes the next word. -/
def createArgv (word : ByteString) (argv : List ByteString)
    (create : ByteString → Except PlanFault (Primary × FindGlobals)) : Except PlanFault Created :=
  match argv with
  | [] => .error (requiresMore word)
  | arg :: argv => do
      let (a, g) ← create arg
      return (.primary a .null, argv, g)

/-- `find_create`, for the word and what stands behind it. -/
def findCreate (env : FindEnv) (g : FindGlobals) (word : ByteString) (argv : List ByteString) :
    Except PlanFault Created :=
  match option word with
  | none => .error (.usage (text "find: unknown option " ++ word ++ text ".\n"))
  | some .not => .ok (.not .null, argv, g)
  | some .openParen => .ok (.openParen .null, argv, g)
  | some .closeParen => .ok (.closeParen .null, argv, g)
  -- there is no node for -a
  | some .and => .ok (.null, argv, g)
  | some .exec => if argv = [] then .error (requiresMore word) else cExec g false argv
  | some .ls => .ok (.primary .ls .null, argv, { g with isoutput := true })
  | some .name => createArgv word argv fun pattern => .ok (.name pattern, g)
  | some .newer => createArgv word argv (cNewer env g)
  | some .or => .ok (.or .null, argv, g)
  | some .ok => if argv = [] then .error (requiresMore word) else cExec g true argv
  | some .print => .ok (.primary .print .null, argv, { g with isoutput := true })
  | some .prune => .ok (.primary .prune .null, argv, g)
  | some .size => createArgv word argv (cSize g)
  | some .time => createArgv word argv (cTime g)
  | some .type => createArgv word argv (cType g)

/-- The loop of `find_formplan`.  Every round takes a word at least. -/
def gather (env : FindEnv) : ℕ → FindGlobals → Plan Primary → List ByteString →
    Except PlanFault (Plan Primary × FindGlobals)
  | _, g, plan, [] => .ok (plan, g)
  | 0, _, _, _ :: _ => .error .fuel
  | fuel + 1, g, plan, word :: argv => do
      let (new, argv, g) ← findCreate env g word argv
      gather env fuel g (plan ++ new) argv

/-- The nodes of the words. -/
def nodes (env : FindEnv) (argv : List ByteString) : Except PlanFault (Plan Primary × FindGlobals) :=
  gather env argv.length ⟨false, true⟩ .null argv

/-- `find_formplan` -/
def findFormplan (env : FindEnv) (argv : List ByteString) :
    Except PlanFault (Plan Primary × FindGlobals) := do
  let (plan, g) ← nodes env argv
  let plan ← (if g.isoutput then plan else plan ++ .primary .print .null).squish
  return (plan, g)

/-- The loop of `eval_file` and `eval_dir`, which asks for no answer. -/
def evalPlan (env : FindEnv) (g : FindGlobals) (plan : Plan Primary) (path : ByteString)
    (sb : StatBuf) (s : FindState) : Option FindState :=
  if plan.isNull then some s
  else (plan.loop (Primary.eval env g.divsize path sb) none s).map Prod.snd

end Fsp
