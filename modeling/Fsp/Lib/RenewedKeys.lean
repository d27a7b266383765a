import Mathlib.Data.List.Nodup
import Mathlib.Data.List.Range
import Mathlib.Logic.Relation

/-!
# Calls with renewed keys

A client makes one call after the other to a server, over a network that loses, repeats, delays and
reorders what is sent.  A call carries a key and a tag.  The server executes a call with the key it
waits for, and then waits for a fresh key, which it puts into its replies to the call executed last.
The client takes a reply with the tag of its call, and the key in it for the next call.

The network is all that was ever sent: nothing is taken out of it, so that everything in it can come
again at any time, or not at all.

`Sound` is what holds in between: the calls are executed in their order, each once, and a reply that
is taken is a reply to the very call that waits for it.
-/

namespace RenewedKeys

variable {K T : Type*}

/-- A reply, with the number of the call it replies to, which the client cannot see. -/
structure Reply (K T : Type*) where
  call : ℕ
  tag : T
  key : K

/-- The two ends, and what was sent. -/
structure State (K T : Type*) where
  /-- The key of the client. -/
  key : K
  calls : List (K × T)
  /-- The client waits for a reply to its last call. -/
  waiting : Bool
  /-- The client's first key, and those the server has handed out. -/
  keys : List K
  /-- The numbers of the calls executed. -/
  executed : List ℕ
  /-- The key the server waits for, and that of the call executed last. -/
  session : Option (K × K)
  replies : List (Reply K T)
  /-- The calls that have returned, each with the number of the call whose reply was taken. -/
  taken : List (ℕ × ℕ)

def start (key : K) : State K T := ⟨key, [], false, [key], [], none, [], []⟩

inductive Step : State K T → State K T → Prop
  /-- A new call, with a new tag. -/
  | call {s : State K T} {tag : T} : s.waiting = false → tag ∉ s.calls.map Prod.snd →
      Step s { s with calls := s.calls ++ [(s.key, tag)], waiting := true }
  /-- A call comes with the key the server waits for, or as the first of all. -/
  | execute {s : State K T} {i : ℕ} {key fresh : K} {tag : T} : s.calls[i]? = some (key, tag) →
      (∀ p ∈ s.session, p.1 = key) → fresh ∉ s.keys →
      Step s { s with
        executed := s.executed ++ [i], keys := s.keys ++ [fresh], session := some (fresh, key) }
  /-- The server replies to a call with the key of the call executed last. -/
  | reply {s : State K T} {i : ℕ} {key next : K} {tag : T} : s.calls[i]? = some (key, tag) →
      s.session = some (next, key) →
      Step s { s with replies := s.replies ++ [⟨i, tag, next⟩] }
  /-- The client gets a reply with the tag of its call. -/
  | take {s : State K T} {c : K × T} {r : Reply K T} : s.waiting = true →
      s.calls.getLast? = some c → r ∈ s.replies → r.tag = c.2 →
      Step s { s with
        key := r.key, waiting := false, taken := s.taken ++ [(s.calls.length - 1, r.call)] }

/-- The server has executed all calls, or all but the last one, for which the client then waits. -/
inductive Phase (s : State K T) : Prop
  | idle : s.waiting = false → s.calls.length = s.executed.length →
      s.keys[s.executed.length]? = some s.key → Phase s
  | called : s.waiting = true → s.calls.length = s.executed.length + 1 →
      s.keys[s.executed.length]? = some s.key → Phase s
  | served {n : ℕ} : s.waiting = true → s.calls.length = n + 1 → s.executed.length = n + 1 →
      s.keys[n]? = some s.key → Phase s

structure Sound (s : State K T) : Prop where
  nodup : s.keys.Nodup
  length_keys : s.keys.length = s.executed.length + 1
  executed : s.executed = List.range s.executed.length
  key_call : ∀ (i : ℕ) (c : K × T), s.calls[i]? = some c → s.keys[i]? = some c.1
  tags : (s.calls.map Prod.snd).Nodup
  unopened : s.session = none → s.executed = []
  session : ∀ next last, s.session = some (next, last) →
    ∃ n, s.executed.length = n + 1 ∧ s.keys[n + 1]? = some next ∧ s.keys[n]? = some last
  reply : ∀ r ∈ s.replies, r.call < s.executed.length ∧
    (∃ c, s.calls[r.call]? = some c ∧ c.2 = r.tag) ∧
    (r.call + 1 = s.executed.length → s.keys[r.call + 1]? = some r.key)
  phase : Phase s
  taken : ∀ p ∈ s.taken, p.1 = p.2 ∧ p.1 < s.executed.length

/-! ## Steps -/

section

variable {s s' : State K T}

theorem sound_start (key : K) : Sound (start key : State K T) where
  nodup := List.nodup_singleton key
  length_keys := rfl
  executed := rfl
  key_call _ _ h := by simp [start] at h
  tags := List.nodup_nil
  unopened _ := rfl
  session _ _ h := by cases h
  reply _ h := by cases h
  phase := .idle rfl rfl rfl
  taken _ h := by cases h

/-- Keys differ, so that a call is known by its key. -/
theorem Sound.call_unique (h : Sound s) {i j : ℕ} {key : K} {tag : T}
    (hcall : s.calls[i]? = some (key, tag)) (hkey : s.keys[j]? = some key) : i = j := by
  have hi : s.keys[i]? = some key := h.key_call i _ hcall
  have hlt : i < s.keys.length := (List.getElem?_eq_some_iff.mp hi).1
  exact (List.getElem?_inj hlt h.nodup).mp (hi.trans hkey.symm)

theorem Sound.length_calls_le (h : Sound s) : s.calls.length ≤ s.executed.length + 1 := by
  cases h.phase with
  | idle _ hlen _ => omega
  | called _ hlen _ => omega
  | served _ hlen hexec _ => omega

theorem Sound.length_executed_le (h : Sound s) : s.executed.length ≤ s.calls.length := by
  cases h.phase with
  | idle _ hlen _ => omega
  | called _ hlen _ => omega
  | served _ hlen hexec _ => omega

/-- Only a call that waits for its reply may not have been executed. -/
theorem Sound.waits_of_lt (h : Sound s) (hlt : s.executed.length < s.calls.length) :
    s.waiting = true ∧ s.calls.length = s.executed.length + 1 := by
  cases h.phase with
  | idle _ hlen _ => omega
  | called hwaiting hlen _ => exact ⟨hwaiting, hlen⟩
  | served _ hlen hexec _ => omega

/-- The first call is executed, and then whichever comes with the key that was handed out last. -/
theorem Sound.next_call (h : Sound s) {i : ℕ} {key : K} {tag : T}
    (hcall : s.calls[i]? = some (key, tag)) (hsession : ∀ p ∈ s.session, p.1 = key) :
    i = s.executed.length := by
  cases hopen : s.session with
  | none =>
      have hlen := h.length_calls_le
      have hlt : i < s.calls.length := (List.getElem?_eq_some_iff.mp hcall).1
      rw [h.unopened hopen, List.length_nil] at hlen ⊢
      omega
  | some p =>
      obtain ⟨next, last⟩ := p
      obtain ⟨n, hlen, hnext, -⟩ := h.session next last hopen
      obtain rfl : next = key := hsession _ hopen
      rw [h.call_unique hcall hnext, hlen]

theorem getElem?_concat_of_some {α : Type*} {l : List α} {i : ℕ} {a : α} (b : α)
    (h : l[i]? = some a) : (l ++ [b])[i]? = some a := by
  rw [List.getElem?_append_left (List.getElem?_eq_some_iff.mp h).1, h]

theorem Sound.call (h : Sound s) {tag : T} (hidle : s.waiting = false)
    (htag : tag ∉ s.calls.map Prod.snd) :
    Sound { s with calls := s.calls ++ [(s.key, tag)], waiting := true } := by
  have hphase : s.calls.length = s.executed.length ∧
      s.keys[s.executed.length]? = some s.key := by
    cases h.phase with
    | idle _ hlen hkey => exact ⟨hlen, hkey⟩
    | called hwaiting => exact absurd (hidle.symm.trans hwaiting) Bool.false_ne_true
    | served hwaiting => exact absurd (hidle.symm.trans hwaiting) Bool.false_ne_true
  obtain ⟨hlen, hkey⟩ := hphase
  refine { h with key_call := ?_, tags := ?_, reply := ?_, phase := ?_ }
  · intro i c hcall
    rcases Nat.lt_or_ge i s.calls.length with hlt | hge
    · rw [List.getElem?_append_left hlt] at hcall
      exact h.key_call i c hcall
    · have hi : i < (s.calls ++ [(s.key, tag)]).length := (List.getElem?_eq_some_iff.mp hcall).1
      rw [List.length_append, List.length_singleton] at hi
      obtain rfl : i = s.calls.length := by omega
      rw [List.getElem?_concat_length] at hcall
      rw [hlen, hkey, ← Option.some.inj hcall]
  · rw [List.map_append, List.map_singleton, ← List.concat_eq_append]
    exact h.tags.concat htag
  · intro r hr
    obtain ⟨hlt, ⟨c, hcall, htag⟩, hlast⟩ := h.reply r hr
    exact ⟨hlt, ⟨c, getElem?_concat_of_some _ hcall, htag⟩, hlast⟩
  · refine .called rfl ?_ hkey
    rw [List.length_append, List.length_singleton, hlen]

theorem Sound.execute (h : Sound s) {i : ℕ} {key fresh : K} {tag : T}
    (hcall : s.calls[i]? = some (key, tag)) (hsession : ∀ p ∈ s.session, p.1 = key)
    (hfresh : fresh ∉ s.keys) :
    Sound { s with
      executed := s.executed ++ [i], keys := s.keys ++ [fresh], session := some (fresh, key) } := by
  obtain rfl : i = s.executed.length := h.next_call hcall hsession
  have hkey : s.keys[s.executed.length]? = some key := h.key_call _ _ hcall
  have hlt : s.executed.length < s.calls.length := (List.getElem?_eq_some_iff.mp hcall).1
  have hlength : (s.executed ++ [s.executed.length]).length = s.executed.length + 1 := by
    rw [List.length_append, List.length_singleton]
  refine
    { h with
      nodup := ?_, length_keys := ?_, executed := ?_, key_call := ?_, unopened := ?_
      session := ?_, reply := ?_, phase := ?_, taken := ?_ }
  · rw [← List.concat_eq_append]
    exact h.nodup.concat hfresh
  · rw [List.length_append, List.length_singleton, hlength, h.length_keys]
  · rw [hlength, List.range_succ, ← h.executed]
  · exact fun j c hc => getElem?_concat_of_some _ (h.key_call j c hc)
  · intro hnone
    cases hnone
  · intro next last hsome
    injection hsome with hsome
    injection hsome with hnext hlast
    subst hnext hlast
    refine ⟨s.executed.length, hlength, ?_, getElem?_concat_of_some _ hkey⟩
    rw [← h.length_keys, List.getElem?_concat_length]
  · intro r hr
    obtain ⟨hr, hof, -⟩ := h.reply r hr
    refine ⟨by rw [hlength]; omega, hof, ?_⟩
    -- the replies so far are to calls before this one
    intro hlast
    rw [hlength] at hlast
    omega
  · -- only the call that waits was not executed
    cases h.phase with
    | idle _ hlen _ => omega
    | served _ hlen hexec _ => omega
    | called hwaiting hlen hkey' =>
        exact .served hwaiting hlen hlength (getElem?_concat_of_some _ hkey')
  · intro p hp
    obtain ⟨heq, hp⟩ := h.taken p hp
    exact ⟨heq, by rw [hlength]; omega⟩

theorem Sound.reply_last (h : Sound s) {i : ℕ} {key next : K} {tag : T}
    (hcall : s.calls[i]? = some (key, tag)) (hsession : s.session = some (next, key)) :
    Sound { s with replies := s.replies ++ [⟨i, tag, next⟩] } := by
  obtain ⟨n, hlen, hnext, hkey⟩ := h.session next key hsession
  obtain rfl : i = n := h.call_unique hcall hkey
  have hlt : i < s.executed.length := by omega
  refine { h with reply := ?_, phase := ?_ }
  · intro r hr
    rcases List.mem_append.mp hr with hr | hr
    · exact h.reply r hr
    · rw [List.mem_singleton.mp hr]
      exact ⟨hlt, ⟨_, hcall, rfl⟩, fun _ => hnext⟩
  · cases h.phase with
    | idle hwaiting hlen hkey => exact .idle hwaiting hlen hkey
    | called hwaiting hlen hkey => exact .called hwaiting hlen hkey
    | served hwaiting hlen hexec hkey => exact .served hwaiting hlen hexec hkey

/-- A reply with the tag of the last call is a reply to that call, and the server has executed it. -/
theorem Sound.call_of_tag (h : Sound s) {c : K × T} {r : Reply K T}
    (hlast : s.calls.getLast? = some c) (hr : r ∈ s.replies) (htag : r.tag = c.2) :
    r.call = s.calls.length - 1 ∧ s.calls.length = s.executed.length := by
  obtain ⟨hlt, ⟨c', hcall, htag'⟩, -⟩ := h.reply r hr
  have hlast' : s.calls[s.calls.length - 1]? = some c := by
    rw [← List.getLast?_eq_getElem?, hlast]
  have hmap : (s.calls.map Prod.snd)[r.call]? = (s.calls.map Prod.snd)[s.calls.length - 1]? := by
    rw [List.getElem?_map, List.getElem?_map, hcall, hlast', Option.map_some, Option.map_some, htag',
      htag]
  have hin : r.call < s.calls.length := (List.getElem?_eq_some_iff.mp hcall).1
  have heq : r.call = s.calls.length - 1 :=
    (List.getElem?_inj (by rw [List.length_map]; exact hin) h.tags).mp hmap
  refine ⟨heq, ?_⟩
  -- a call that was not executed has no replies
  cases h.phase with
  | idle _ hlen _ => exact hlen
  | called _ hlen _ => omega
  | served _ hlen hexec _ => omega

theorem Sound.take (h : Sound s) {c : K × T} {r : Reply K T} (hlast : s.calls.getLast? = some c)
    (hr : r ∈ s.replies) (htag : r.tag = c.2) :
    Sound { s with
      key := r.key, waiting := false, taken := s.taken ++ [(s.calls.length - 1, r.call)] } := by
  obtain ⟨hcall, hlen⟩ := h.call_of_tag hlast hr htag
  obtain ⟨hlt, -, hkey⟩ := h.reply r hr
  refine { h with phase := ?_, taken := ?_ }
  · have hnext : r.call + 1 = s.executed.length := by omega
    have hlast := hkey hnext
    rw [hnext] at hlast
    exact .idle rfl hlen hlast
  · intro p hp
    rcases List.mem_append.mp hp with hp | hp
    · exact h.taken p hp
    · rw [List.mem_singleton.mp hp]
      exact ⟨hcall.symm, by simp only; omega⟩

theorem Step.sound (h : Sound s) (hstep : Step s s') : Sound s' := by
  cases hstep with
  | call hidle htag => exact h.call hidle htag
  | execute hcall hsession hfresh => exact h.execute hcall hsession hfresh
  | reply hcall hsession => exact h.reply_last hcall hsession
  | take _ hlast hr htag => exact h.take hlast hr htag

/-! ## Runs -/

abbrev Steps : State K T → State K T → Prop := Relation.ReflTransGen Step

/-- Any number of replies to the call executed last. -/
theorem steps_replies {i : ℕ} {key next : K} {tag : T} (hcall : s.calls[i]? = some (key, tag))
    (hsession : s.session = some (next, key)) (n : ℕ) :
    Steps s { s with replies := s.replies ++ List.replicate n ⟨i, tag, next⟩ } := by
  induction n with
  | zero =>
      rw [List.replicate_zero, List.append_nil]
  | succ n ih =>
      rw [List.replicate_succ', ← List.append_assoc]
      exact ih.tail (.reply hcall hsession)

theorem Steps.sound (h : Sound s) (hsteps : Steps s s') : Sound s' := by
  induction hsteps with
  | refl => exact h
  | tail _ hstep ih => exact hstep.sound ih

end

end RenewedKeys
