import Fsp.Lib.ShortCircuit
import Fsp.Wire

/-!
# The plan of a find command

`bsd_src/operator.c` and the operators of `bsd_src/function.c`.  `find_formplan` strings one node for
each word of the command line together; three passes over that list turn it into the tree that is
evaluated for each file: `paren_squish` collects what stands between parentheses, `not_squish` hangs
the operand of a `!` under it, and `or_squish` does so with the two sides of an `-o`.

`Plan` is a `PLAN *`: a list linked by `next`, whose nodes carry further lists in `p_data`.  A node of
type `N_NOT` or `N_OR` comes from `malloc` with `p_data` not set; such a node is `not` or `or`, and
`notOf` and `orOf` are the nodes whose `p_data` has been set.  The primaries are a parameter.
-/

namespace Fsp

open ShortCircuit Bytes

/-- A list of plan nodes, linked by `next`. -/
inductive Plan (α : Type) where
  | null
  | primary (a : α) (next : Plan α)
  | openParen (next : Plan α)
  | closeParen (next : Plan α)
  | expr (p0 : Plan α) (next : Plan α)
  | not (next : Plan α)
  | notOf (p0 : Plan α) (next : Plan α)
  | or (next : Plan α)
  | orOf (p0 p1 : Plan α) (next : Plan α)
  deriving DecidableEq, Repr

/-- How a command line is refused. -/
inductive PlanFault where
  /-- The message is printed and the program exits with `EX_USAGE`. -/
  | usage (message : ByteString)
  /-- The program exits with `EX_NOINPUT`. -/
  | noInput
  /-- After the message a null pointer is dereferenced. -/
  | crash (message : ByteString)
  /-- The `p_data` of a node is followed that nobody has set. -/
  | unset
  /-- The fuel of the model is used up. -/
  | fuel
  deriving DecidableEq, Repr

namespace Plan

variable {α σ : Type}

/-- The nodes of the second list behind those of the first, by `tail->next`. -/
def append : Plan α → Plan α → Plan α
  | null, q => q
  | primary a next, q => primary a (next.append q)
  | openParen next, q => openParen (next.append q)
  | closeParen next, q => closeParen (next.append q)
  | expr p0 next, q => expr p0 (next.append q)
  | not next, q => not (next.append q)
  | notOf p0 next, q => notOf p0 (next.append q)
  | or next, q => or (next.append q)
  | orOf p0 p1 next, q => orOf p0 p1 (next.append q)

instance : Append (Plan α) := ⟨append⟩

/-- The comparison of a plan with `NULL`. -/
def isNull : Plan α → Bool
  | null => true
  | _ => false

/-- How many nodes are linked. -/
def length : Plan α → ℕ
  | null => 0
  | primary _ next => next.length + 1
  | openParen next => next.length + 1
  | closeParen next => next.length + 1
  | expr _ next => next.length + 1
  | not next => next.length + 1
  | notOf _ next => next.length + 1
  | or next => next.length + 1
  | orOf _ _ next => next.length + 1

/-- `yanknode`: the first node on its own, and the nodes behind it. -/
def yankNode : Plan α → Plan α × Plan α
  | null => (null, null)
  | primary a next => (primary a null, next)
  | openParen next => (openParen null, next)
  | closeParen next => (closeParen null, next)
  | expr p0 next => (expr p0 null, next)
  | not next => (not null, next)
  | notOf p0 next => (notOf p0 null, next)
  | or next => (or null, next)
  | orOf p0 p1 next => (orOf p0 p1 null, next)

/-! ## The passes -/

mutual

/-- `yankexpr`: the first expression of the plan, and what stands behind it.  The result is `null`
at the end of the plan. -/
def yankExpr : ℕ → Plan α → Except PlanFault (Plan α × Plan α)
  | 0, _ => .error .fuel
  | fuel + 1, plan =>
      let (node, rest) := plan.yankNode
      match node with
      | openParen _ => slurp fuel null rest
      | node => .ok (node, rest)

/-- The loop of `yankexpr`: the subplan grows until its closing parenthesis is found. -/
def slurp : ℕ → Plan α → Plan α → Except PlanFault (Plan α × Plan α)
  | 0, _, _ => .error .fuel
  | fuel + 1, subplan, plan => do
      let (next, plan) ← yankExpr fuel plan
      match next with
      -- the message is printed, and `next->type` is read all the same
      | null => .error (.crash (text "(: missing closing ')'"))
      | closeParen _ =>
          if subplan.isNull then .error (.usage (text "(): empty inner expression"))
          else .ok (expr subplan null, plan)
      | next => slurp fuel (subplan ++ next) plan

end

/-- The loop of `paren_squish`, with what it has collected. -/
def parenLoop : ℕ → Plan α → Plan α → Except PlanFault (Plan α)
  | 0, _, _ => .error .fuel
  | fuel + 1, result, plan => do
      let (next, plan) ← yankExpr fuel plan
      match next with
      | null => .ok result
      | closeParen _ => .error (.usage (text "): no beginning '('"))
      | next => parenLoop fuel (result ++ next) plan

/-- `paren_squish`. -/
def parenSquish (plan : Plan α) : Except PlanFault (Plan α) :=
  parenLoop (2 * plan.length + 2) null plan

/-- The end of `notlevel` negations: the node itself, or the node under a single `N_NOT`. -/
def underNot (notlevel : ℕ) (node : Plan α) : Plan α :=
  if notlevel % 2 = 1 then notOf node null else node

/-- `not_squish`, with the level of negation that its inner loop has counted up to here. -/
def notSquish : ℕ → Plan α → Except PlanFault (Plan α)
  | notlevel, null => if notlevel = 0 then .ok null else .error (.crash [])
  | notlevel, not next => notSquish (notlevel + 1) next
  | notlevel, notOf _ next => notSquish (notlevel + 1) next
  | notlevel, or next =>
      if notlevel = 0 then do return or null ++ (← notSquish 0 next)
      else .error (.usage (text "!: nothing between ! and -o"))
  | notlevel, orOf p0 p1 next =>
      if notlevel = 0 then do return orOf p0 p1 null ++ (← notSquish 0 next)
      else .error (.usage (text "!: nothing between ! and -o"))
  | notlevel, expr p0 next => do
      -- the node behind a `!` is yanked in the inner loop, which does not look into it
      let p0 ← if notlevel = 0 then notSquish 0 p0 else pure p0
      return underNot notlevel (expr p0 null) ++ (← notSquish 0 next)
  | notlevel, primary a next => do
      return underNot notlevel (primary a null) ++ (← notSquish 0 next)
  | notlevel, openParen next => do
      return underNot notlevel (openParen null) ++ (← notSquish 0 next)
  | notlevel, closeParen next => do
      return underNot notlevel (closeParen null) ++ (← notSquish 0 next)

/-- `or_squish`, with what it has collected. -/
def orSquish : Plan α → Plan α → Except PlanFault (Plan α)
  | result, null => .ok result
  | result, expr p0 next => do
      let p0 ← orSquish null p0
      orSquish (result ++ expr p0 null) next
  | result, notOf p0 next => do
      let p0 ← orSquish null p0
      orSquish (result ++ notOf p0 null) next
  | _, not _ => .error .unset
  | result, or next =>
      if result.isNull then .error (.usage (text "-o: no expression before -o"))
      else do
        let p1 ← orSquish null next
        if p1.isNull then .error (.usage (text "-o: no expression after -o"))
        else return orOf result p1 null
  | result, orOf _ _ next =>
      if result.isNull then .error (.usage (text "-o: no expression before -o"))
      else do
        let p1 ← orSquish null next
        if p1.isNull then .error (.usage (text "-o: no expression after -o"))
        else return orOf result p1 null
  | result, primary a next => orSquish (result ++ primary a null) next
  | result, openParen next => orSquish (result ++ openParen null) next
  | result, closeParen next => orSquish (result ++ closeParen null) next

/-- The three passes of `find_formplan`. -/
def squish (plan : Plan α) : Except PlanFault (Plan α) := do
  orSquish null (← notSquish 0 (← parenSquish plan))

/-! ## Evaluation -/

/-- The loop `for (p = plan; p && (state = (p->eval)(p, ..)); p = p->next)` with the answer of the
last node.  There is none where the loop leaves `state` unset, where `p_data` is unset, and for a
parenthesis, whose `eval` is no function. -/
def loop (test : α → Test σ) : Option Bool → Plan α → σ → Option (Bool × σ)
  | state, null, s => state.map fun b => (b, s)
  | _, primary a next, s =>
      if (test a s).1 then next.loop test (some true) (test a s).2 else some (test a s)
  | _, expr p0 next, s => do
      let r ← p0.loop test none s
      if r.1 then next.loop test (some true) r.2 else some r
  | _, notOf p0 next, s => do
      let r ← p0.loop test none s
      if r.1 then some (false, r.2) else next.loop test (some true) r.2
  | _, orOf p0 p1 next, s => do
      let q ← p0.loop test none s
      let r ← if q.1 then some q else p1.loop test none q.2
      if r.1 then next.loop test (some true) r.2 else some r
  | _, openParen _, _ => none
  | _, closeParen _, _ => none
  | _, not _, _ => none
  | _, or _, _ => none

end Plan

end Fsp
