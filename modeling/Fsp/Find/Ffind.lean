import Fsp.Find.Meaning
import Fsp.Protocol.ShownTree

/-!
# The ffind command

`clients/fspcmd_find.c`: `eval_file` and `eval_dir` run the plan on every object that
`util_process_file` comes to.  `eval_dir` returns `process`, which a `-prune` sets to -1, and then
the directory is not gone into.

The paths that `bsdglob` makes of the words before the expression are given.
-/

namespace Fsp

open Bytes ShortCircuit Plan

/-- The functions that `ffind` gives to `util_process_file`.  A plan that cannot be evaluated leaves
nothing to say about the run. -/
def findVisitor (env : FindEnv) (g : FindGlobals) (plan : Plan Primary) : Visitor FindState where
  mode := 0
  file path sb _ s :=
    match evalPlan env g plan path sb s with
    | some s => pure s
    | none => throw .undefined
  startDir path sb sum s :=
    match evalPlan env g plan path sb { s with process := 0 } with
    | some s => pure (s.process, sum, s)
    | none => throw .undefined
  endDir _ _ _ s := pure s

/-- The loop of `ffindcmd_main` over the paths. -/
def ffind (net : Net) (client : ClientEnv) (fuel : ℕ) (env : FindEnv) (g : FindGlobals)
    (plan : Plan Primary) : List ByteString → FindState → Client FindState
  | [], s => pure s
  | path :: files, s => do
      let s ← processFile net client (findVisitor env g plan) fuel path 0 s
      ffind net client fuel env g plan files s

/-- What the plan of an expression does to the objects. -/
def findActions (env : FindEnv) (g : FindGlobals) (e : Expression Primary .alternation) :
    Actions FindState where
  mode := 0
  file path sb _ s := (e.denote (Primary.eval env g.divsize path sb) s).2
  startDir path sb sum s :=
    let s := (e.denote (Primary.eval env g.divsize path sb) { s with process := 0 }).2
    (s.process, sum, s)
  endDir _ _ _ s := s

theorem findVisitor_acts (env : FindEnv) (g : FindGlobals) (e : Expression Primary .alternation)
    (ok : ClientState → Prop) :
    (findVisitor env g (compiled 0 e)).Acts (findActions env g e) ok where
  mode := rfl
  file path sb level s := by
    simp only [findVisitor, evalPlan_compiled]
    exact gives_pure _
  startDir path sb sum s := by
    simp only [findVisitor, evalPlan_compiled]
    exact gives_pure _
  endDir path sum level s := gives_pure s

/-! ## The objects that are come to -/

mutual

/-- The objects of a tree in the order in which they are come to, where it is not gone into the
directories that `stop` marks. -/
def Remote.reached (stop : ByteString → StatBuf → Bool) (path : ByteString) :
    Remote → List (ByteString × StatBuf)
  | .missing => []
  | .file sb => [(path, sb)]
  | .locked sb => [(path, sb)]
  | .dir sb entries =>
      (path, sb) :: if stop path sb then [] else entries.reached stop path

def Entries.reached (stop : ByteString → StatBuf → Bool) (path : ByteString) :
    Entries → List (ByteString × StatBuf)
  | .nil => []
  | .cons rde object rest =>
      if skipped rde.name then rest.reached stop path
      else object.reached stop (childPath path rde.name) ++ rest.reached stop path

end

/-- The primary is a `-prune`. -/
def Primary.isPrune (a : Primary) : Bool := a = .prune

/-- A `-prune` of the expression is reached for the object. -/
def pruned (env : FindEnv) (g : FindGlobals) (e : Expression Primary .alternation)
    (path : ByteString) (sb : StatBuf) : Bool :=
  e.reaches (Primary.answer env g.divsize path sb) Primary.isPrune

/-- The object is printed by a command without output. -/
def kept (env : FindEnv) (g : FindGlobals) (e : Expression Primary .alternation)
    (o : ByteString × StatBuf) : Bool :=
  lastHolds (Primary.answer env g.divsize o.1 o.2) e

/-- The lines that such a command prints for some objects. -/
def printedLines (env : FindEnv) (g : FindGlobals) (e : Expression Primary .alternation)
    (os : List (ByteString × StatBuf)) : List FindEvent :=
  (os.filter (kept env g e)).map fun o => .printed o.1

variable {env : FindEnv} {g : FindGlobals} {e : Expression Primary .alternation}

@[simp] theorem printedLines_nil : printedLines env g e [] = [] := rfl

@[simp] theorem printedLines_append (os os' : List (ByteString × StatBuf)) :
    printedLines env g e (os ++ os') = printedLines env g e os ++ printedLines env g e os' := by
  simp [printedLines]

theorem printedLines_cons (path : ByteString) (sb : StatBuf) (os : List (ByteString × StatBuf)) :
    printedLines env g e ((path, sb) :: os) =
      (if lastHolds (Primary.answer env g.divsize path sb) e then [.printed path] else []) ++
        printedLines env g e os := by
  cases h : lastHolds (Primary.answer env g.divsize path sb) e with
  | true => simp [printedLines, kept, h]
  | false => simp [printedLines, kept, h]

/-- The flag for `process`. -/
def stops (s : FindState) : Bool := s.process < 0

/-- `process` is negative behind an expression without output where it was before, and where a
`-prune` was reached. -/
theorem stops_andLast (env : FindEnv) (g : FindGlobals)
    (h : ∀ a ∈ e.primaries, a.output = false) (path : ByteString) (sb : StatBuf)
    (s : FindState) :
    stops ((e.andLast .print).denote (Primary.eval env g.divsize path sb) s).2 =
      (stops s || pruned env g e path sb) := by
  have hprimary : ∀ a ∈ (e.andLast .print).primaries, ∀ s : FindState,
      (a.eval env g.divsize path sb s).1 = a.answer env g.divsize path sb ∧
        stops (a.eval env g.divsize path sb s).2 = (stops s || a.isPrune) := by
    intro a ha s
    rcases Expression.mem_primaries_andLast e ha with rfl | ha
    · exact ⟨rfl, (Bool.or_false _).symm⟩
    · refine ⟨(Primary.eval_quiet env g.divsize path sb (h a ha) s).1, ?_⟩
      cases a with
      | exec isok argv => cases h _ ha
      | prune => exact (Bool.or_true _).symm
      | _ => exact (Bool.or_false _).symm
  rw [(e.andLast .print).flag_denote hprimary, Expression.reaches_andLast (by rfl)]
  rfl

/-! ## A command without prunes -/

/-- `process` is as it was. -/
def SameProcess (s s' : FindState) : Prop := s'.process = s.process

instance isTrans_sameProcess : IsTrans FindState SameProcess := ⟨fun _ _ _ h h' => h'.trans h⟩

theorem process_denote {r : Rank} {e : Expression Primary r} (env : FindEnv) (divsize : Bool)
    (h : ∀ a ∈ e.primaries, a ≠ .prune) (path : ByteString) (sb : StatBuf) (s : FindState) :
    (e.denote (Primary.eval env divsize path sb) s).2.process = s.process := by
  refine e.keeps_denote (R := SameProcess) (fun a ha s => ?_) s
  cases a with
  | prune => exact absurd rfl (h _ ha)
  | exec isok argv =>
      cases isok with
      | false => rfl
      | true =>
          simp only [Primary.eval, if_true, Bool.true_and]
          split <;> rfl
  | _ => rfl

/-- The expression is run on an object. -/
def runOn (env : FindEnv) (g : FindGlobals) (e : Expression Primary .alternation) (s : FindState)
    (o : ByteString × StatBuf) : FindState :=
  (e.denote (Primary.eval env g.divsize o.1 o.2) s).2

/-- All objects of a tree. -/
def Remote.objects (path : ByteString) (tree : Remote) : List (ByteString × StatBuf) :=
  tree.reached (fun _ _ => false) path

def Entries.objects (path : ByteString) (entries : Entries) : List (ByteString × StatBuf) :=
  entries.reached (fun _ _ => false) path

theorem reset_eq {s : FindState} (h : s.process = 0) : { s with process := 0 } = s := by
  rw [← h]

theorem process_foldl (h : ∀ a ∈ e.primaries, a ≠ .prune) (os : List (ByteString × StatBuf))
    (s : FindState) : (os.foldl (runOn env g e) s).process = s.process := by
  induction os generalizing s with
  | nil => rfl
  | cons o os ih => rw [List.foldl_cons, ih, runOn, process_denote env g.divsize h]

mutual

/-- Without prunes the expression is run on every object in turn. -/
theorem Remote.visit_eq_foldl (env : FindEnv) (g : FindGlobals)
    (h : ∀ a ∈ e.primaries, a ≠ .prune) (tree : Remote)
    (path : ByteString) (level : ℕ) {s : FindState} (hs : s.process = 0) :
    tree.visit (findActions env g e) path level s =
      (tree.objects path).foldl (runOn env g e) s := by
  cases tree with
  | missing => rfl
  | file sb => rfl
  | locked sb =>
      rw [Remote.visit]
      refine (ite_self _).trans ?_
      simp only [findActions, reset_eq hs]
      rfl
  | dir sb entries =>
      -- without a prune the status stays 0, so that the entries are gone through
      have hprocess : (runOn env g e s (path, sb)).process = 0 :=
        (process_denote env g.divsize h path sb s).trans hs
      rw [Remote.visit]
      simp only [findActions, reset_eq hs]
      refine (if_neg ?_).trans
        (Entries.visit_eq_foldl env g h entries path (level + 1) hprocess)
      exact fun hneg => absurd hprocess (Int.ne_of_lt hneg)

theorem Entries.visit_eq_foldl (env : FindEnv) (g : FindGlobals)
    (h : ∀ a ∈ e.primaries, a ≠ .prune) (entries : Entries)
    (path : ByteString) (level : ℕ) {s : FindState} (hs : s.process = 0) :
    entries.visit (findActions env g e) path level s =
      (entries.objects path).foldl (runOn env g e) s := by
  cases entries with
  | nil => rfl
  | cons rde object rest =>
      rw [Entries.visit, Entries.objects, Entries.reached]
      split
      · exact Entries.visit_eq_foldl env g h rest path level hs
      · have hobject := Remote.visit_eq_foldl env g h object (childPath path rde.name) level hs
        have hprocess : ((object.objects (childPath path rde.name)).foldl (runOn env g e)
            s).process = 0 := (process_foldl h _ s).trans hs
        rw [hobject, List.foldl_append]
        exact Entries.visit_eq_foldl env g h rest path level hprocess

end

/-! ## A command without output -/

theorem log_actions (env : FindEnv) (g : FindGlobals)
    (h : ∀ a ∈ e.primaries, a.output = false) (path : ByteString) (sb : StatBuf) (s : FindState) :
    ((e.andLast .print).denote (Primary.eval env g.divsize path sb) s).2.log =
      s.log ++ if lastHolds (Primary.answer env g.divsize path sb) e then [.printed path] else [] := by
  rw [log_andLast env g.divsize path sb e h]
  split
  · rfl
  · rw [List.append_nil]

mutual

/-- What a command without output prints for a tree. -/
theorem Remote.log_visit (env : FindEnv) (g : FindGlobals)
    (h : ∀ a ∈ e.primaries, a.output = false) (tree : Remote) (path : ByteString) (level : ℕ)
    (s : FindState) :
    (tree.visit (findActions env g (e.andLast .print)) path level s).log =
      s.log ++ printedLines env g e (tree.reached (pruned env g e) path) := by
  cases tree with
  | missing => simp [Remote.visit, Remote.reached]
  | file sb =>
      simp only [Remote.visit, findActions, Remote.reached, printedLines_cons, printedLines_nil,
        List.append_nil, log_actions env g h]
  | locked sb =>
      have hvisit : (Remote.locked sb).visit (findActions env g (e.andLast .print)) path level s =
          ((e.andLast .print).denote (Primary.eval env g.divsize path sb)
            { s with process := 0 }).2 := by
        rw [Remote.visit]
        exact ite_self _
      simp only [hvisit, log_actions env g h, Remote.reached, printedLines_cons, printedLines_nil,
        List.append_nil]
  | dir sb entries =>
      have hlog := log_actions env g h path sb { s with process := 0 }
      have hstop := stops_andLast env g h path sb { s with process := 0 }
      simp only [stops] at hstop
      simp only [Remote.visit, findActions, Remote.reached, printedLines_cons]
      cases hpruned : pruned env g e path sb with
      | true =>
          -- the entries are left out
          rw [hpruned] at hstop
          simp only [Bool.or_true, decide_eq_true_eq] at hstop
          simp only [hstop, if_true, hlog, printedLines_nil, List.append_nil]
      | false =>
          rw [hpruned] at hstop
          simp only [Int.lt_irrefl, decide_false, Bool.or_false, decide_eq_false_iff_not] at hstop
          simp only [hstop, if_false, Bool.false_eq_true]
          have hentries := Entries.log_visit env g h entries path (level + 1)
            ((e.andLast .print).denote (Primary.eval env g.divsize path sb)
              { s with process := 0 }).2
          rw [hlog, List.append_assoc] at hentries
          exact hentries

theorem Entries.log_visit (env : FindEnv) (g : FindGlobals)
    (h : ∀ a ∈ e.primaries, a.output = false) (entries : Entries) (path : ByteString) (level : ℕ)
    (s : FindState) :
    (entries.visit (findActions env g (e.andLast .print)) path level s).log =
      s.log ++ printedLines env g e (entries.reached (pruned env g e) path) := by
  cases entries with
  | nil => simp [Entries.visit, Entries.reached]
  | cons rde object rest =>
      rw [Entries.visit, Entries.reached]
      split
      · exact Entries.log_visit env g h rest path level s
      · rw [Entries.log_visit env g h rest path level, Remote.log_visit env g h object _ level s,
          printedLines_append, List.append_assoc]

end

/-! ## The whole command -/

section

variable {net : Net} {client : ClientEnv} {ok : ClientState → Prop} {fuel : ℕ}
  {argv : List ByteString} {plan : Plan Primary} {files : List (ByteString × Remote)}

/-- The paths are gone through one after the other, as their trees are. -/
theorem ffind_gives (env : FindEnv) (g : FindGlobals) (e : Expression Primary .alternation)
    (hshown : ∀ f ∈ files, f.2.Shown net client ok f.1 ∧ f.2.Joins f.1 ∧ f.2.depth ≤ fuel) (s : FindState) :
    Gives ok (ffind net client fuel env g (compiled 0 e) (files.map Prod.fst) s)
      (files.foldl (fun s f => f.2.visit (findActions env g e) f.1 0 s) s) := by
  induction files generalizing s with
  | nil => exact gives_pure s
  | cons f files ih =>
      have hf := hshown f List.mem_cons_self
      exact Gives.bind
        (Remote.processFile_gives (findVisitor_acts env g e ok) f.2 f.1 0 fuel s hf.1 hf.2.1 hf.2.2)
        (ih (fun f hf => hshown f (List.mem_cons_of_mem _ hf)) _)

theorem foldl_visit (h : ∀ a ∈ e.primaries, a ≠ .prune) {s : FindState} (hs : s.process = 0) :
    files.foldl (fun s f => f.2.visit (findActions env g e) f.1 0 s) s =
      (files.flatMap fun f => f.2.objects f.1).foldl (runOn env g e) s := by
  induction files generalizing s with
  | nil => rfl
  | cons f files ih =>
      have hf := Remote.visit_eq_foldl env g h f.2 f.1 0 hs
      rw [List.foldl_cons, List.flatMap_cons, List.foldl_append, ← hf]
      refine ih ?_
      rw [hf, process_foldl h]
      exact hs

theorem log_foldl_visit (h : ∀ a ∈ e.primaries, a.output = false) (s : FindState) :
    (files.foldl (fun s f => f.2.visit (findActions env g (e.andLast .print)) f.1 0 s) s).log =
      s.log ++ printedLines env g e (files.flatMap fun f => f.2.reached (pruned env g e) f.1) := by
  induction files generalizing s with
  | nil => simp
  | cons f files ih =>
      let next := f.2.visit (findActions env g (e.andLast .print)) f.1 0 s
      let lines := printedLines env g e (files.flatMap fun f => f.2.reached (pruned env g e) f.1)
      calc _ = next.log ++ lines := ih next
        _ = s.log ++ printedLines env g e (f.2.reached (pruned env g e) f.1) ++ lines := by
            rw [Remote.log_visit env g h]
        _ = _ := by rw [List.flatMap_cons, printedLines_append, List.append_assoc]

/-- A command without prunes runs its expression once on every object below its paths, in the order
of the trees. -/
theorem ffind_runs_once {p : Plan Primary} (h : findFormplan env argv = .ok (plan, g))
    (hnodes : nodes env argv = .ok (p, g)) (hwords : planned p g = words e)
    (hprune : ∀ a ∈ e.primaries, a ≠ .prune)
    (hshown : ∀ f ∈ files, f.2.Shown net client ok f.1 ∧ f.2.Joins f.1 ∧ f.2.depth ≤ fuel)
    {s : FindState} (hs : s.process = 0) {c : ClientState} (hc : ok c) :
    ∃ c', ffind net client fuel env g plan (files.map Prod.fst) s c =
      .ok ((files.flatMap fun f => f.2.objects f.1).foldl (runOn env g e) s) c' := by
  obtain ⟨p', e', hp, he', -, rfl⟩ := compiled_of_findFormplan h
  rw [hnodes] at hp
  cases hp
  obtain rfl := words_injective (hwords.symm.trans he')
  obtain ⟨c', hrun, -⟩ := ffind_gives env g e hshown s c hc
  rw [foldl_visit hprune hs] at hrun
  exact ⟨c', hrun⟩

/-- `-exec rm {} ;` -/
def removeWords : List ByteString := [text "-exec", text "rm", text "\x7b\x7d", text ";"]

/-- The expression of these words. -/
def removal : Expression Primary .alternation :=
  .only (.single (.primary (.exec false [text "rm", text "\x7b\x7d"])))

theorem nodes_removeWords : nodes plainFind removeWords = .ok (words removal, ⟨true, true⟩) := by
  decide +kernel

theorem findFormplan_removeWords :
    findFormplan plainFind removeWords = .ok (compiled 0 removal, ⟨true, true⟩) := by
  decide +kernel

theorem shown_files : ∀ f ∈ [([dot], homeTree)],
    f.2.Shown homeSite.net (plainEnv 1024) (homeSite.Heard (plainEnv 1024)) f.1 ∧
      f.2.Joins f.1 ∧ f.2.depth ≤ 2 := by
  intro f hf
  obtain rfl := List.mem_singleton.mp hf
  exact ⟨shown_homeTree, joins_homeTree, Nat.le_refl 2⟩

/-- The directory comes before its file. -/
theorem ffind_removes_homeTree : ∃ c', ffind homeSite.net (plainEnv 1024) 2 plainFind ⟨true, true⟩
    (compiled 0 removal) [[dot]] ⟨[], 0⟩ newClient =
      .ok ⟨[.ran [text "rm", [dot]], .ran [text "rm", text "./f"]], 0⟩ c' := by
  have hprune : ∀ a ∈ removal.primaries, a ≠ .prune := by decide +kernel
  obtain ⟨c', hrun⟩ := ffind_runs_once findFormplan_removeWords nodes_removeWords rfl hprune
    shown_files (rfl : (⟨[], 0⟩ : FindState).process = 0)
    (ListedSite.heard_newClient homeSite (plainEnv 1024))
  exact ⟨c', hrun⟩

/-- A command without output prints the objects for which the last alternative holds and the others
fail, in the order of the trees, and none from below a directory for which a `-prune` is reached. -/
theorem ffind_prints (h : findFormplan env argv = .ok (plan, g))
    (hnodes : nodes env argv = .ok (words e, g)) (hout : g.isoutput = false)
    (hshown : ∀ f ∈ files, f.2.Shown net client ok f.1 ∧ f.2.Joins f.1 ∧ f.2.depth ≤ fuel)
    (s : FindState) {c : ClientState} (hc : ok c) :
    ∃ s' c', ffind net client fuel env g plan (files.map Prod.fst) s c = .ok s' c' ∧
      s'.log = s.log ++
        printedLines env g e (files.flatMap fun f => f.2.reached (pruned env g e) f.1) := by
  have hquiet := (has_words e).mp ((nodes_gathered hnodes).quiet.mp hout)
  obtain rfl := plan_of_quiet h hnodes hout
  obtain ⟨c', hrun, -⟩ := ffind_gives env g (e.andLast .print) hshown s c hc
  exact ⟨_, c', hrun, log_foldl_visit hquiet s⟩

/-- The file is larger than two bytes, and the directory is not. -/
theorem ffind_prints_homeTree : ∃ s' c', ffind homeSite.net (plainEnv 1024) 2 plainFind
    ⟨false, false⟩ (.primary (.size .greater 2) (.primary .print .null)) [[dot]] ⟨[], 0⟩
      newClient = .ok s' c' ∧ s'.log = [.printed (text "./f")] := by
  obtain ⟨s', c', hrun, hlog⟩ := ffind_prints findFormplan_largeWords nodes_largeWords rfl
    shown_files ⟨[], 0⟩ (ListedSite.heard_newClient homeSite (plainEnv 1024))
  have hreached : homeTree.reached (pruned plainFind ⟨false, false⟩ large) [dot] =
      [([dot], statTold homeStat), (text "./f", statTold fileStat)] := by
    decide +kernel
  have hdir : lastHolds (Primary.answer plainFind false [dot] (statTold homeStat)) large = false :=
    (lastHolds_only _ _).trans rfl
  have hfile : lastHolds (Primary.answer plainFind false (text "./f") (statTold fileStat)) large =
      true :=
    (lastHolds_only _ _).trans rfl
  refine ⟨s', c', hrun, hlog.trans ?_⟩
  rw [List.flatMap_singleton, hreached, printedLines_cons, printedLines_cons, hdir, hfile]
  rfl

end

end Fsp
