import Fsp.Server.Conf

/-!
# What a line of the configuration sets

Every keyword names one setting.  A line changes no other, except that the line for the age of
directory information sets the length of a session, and so escapes the check that the line for the
length of a session makes.
-/

namespace Fsp

open Bytes

/-! ## One line -/

/-- The setting that a command names. -/
def ConfCommand.names : ConfCommand → Option Setting
  | .conf | .invalid => none
  | .word w => some (.word w)
  | .host => some .iptab
  | .log => some .logging
  | .number n => some (.number n)
  | .flag f => some (.flag f)

/-- Two states of the settings agree on one of them. -/
def Settings.AgreeOn (s s' : Settings) : Setting → Prop
  | .word w => s'.word w = s.word w
  | .flag f => s'.flag f = s.flag f
  | .number n => s'.number n = s.number n
  | .logging => s'.logging = s.logging
  | .iptab => s'.iptab = s.iptab

/-- The line has changed no setting but the one it names. -/
def ConfStep.Framed (step : ConfStep) : Prop :=
  ∀ x, step.command.names ≠ some x → step.before.AgreeOn step.after x

/-- The least value that the server can do with. -/
def NumberSetting.least : NumberSetting → Option ℤ
  | .retryTimeout => some 1
  | .sessionTimeout => some 7
  | .statCacheTimeout => some 1
  | .fpCacheLimit => some 10
  | .dirCacheLimit => some 16
  | .statCacheLimit => some 10
  | _ => none

/-- All limits hold. -/
def Settings.Limits (s : Settings) : Prop := ∀ n bound, n.least = some bound → bound ≤ s.number n

theorem limits_initialSettings : initialSettings.Limits := by
  intro n bound hbound
  cases n <;> cases hbound <;> decide

/-- What is read for a number is within the limits of that number, but for the one that is not
checked. -/
theorem NumberSetting.least_le_read {n : NumberSetting} (hn : n ≠ .statCacheTimeout) {bound : ℤ}
    (hbound : n.least = some bound) (q : ByteString) : bound ≤ n.read q := by
  cases n with
  | statCacheTimeout => exact absurd rfl hn
  | fpCacheLimit | dirCacheLimit | statCacheLimit | retryTimeout | sessionTimeout =>
      cases hbound
      simp only [NumberSetting.read]
      split
      · decide
      · omega
  | udpPort | packetsize | maxthcallowed | runUid | runGid | uploadUmask | systemUmask =>
      cases hbound

namespace Settings

variable {s s' : Settings}

theorem AgreeOn.refl (s : Settings) (x : Setting) : s.AgreeOn s x := by
  cases x <;> rfl

theorem AgreeOn.trans {s'' : Settings} {x : Setting} (h : s.AgreeOn s' x)
    (h' : s'.AgreeOn s'' x) : s.AgreeOn s'' x := by
  cases x <;> exact Eq.trans h' h

/-- A setting that is assigned to is the only one that changes. -/
theorem agreeOn_setWord {w : WordSetting} {value : ByteString} {x : Setting}
    (hx : some (Setting.word w) ≠ some x) : s.AgreeOn (s.setWord w value) x := by
  cases x with
  | word w' => exact if_neg fun h => hx (by rw [h])
  | _ => rfl

theorem agreeOn_setFlag {f : FlagSetting} {value : Bool} {x : Setting}
    (hx : some (Setting.flag f) ≠ some x) : s.AgreeOn (s.setFlag f value) x := by
  cases x with
  | flag f' => exact if_neg fun h => hx (by rw [h])
  | _ => rfl

theorem agreeOn_setNumber {n : NumberSetting} {value : ℤ} {x : Setting}
    (hx : some (Setting.number n) ≠ some x) : s.AgreeOn (s.setNumber n value) x := by
  cases x with
  | number n' => exact if_neg fun h => hx (by rw [h])
  | _ => rfl

@[simp] theorem number_setNumber (s : Settings) (n n' : NumberSetting) (value : ℤ) :
    (s.setNumber n value).number n' = if n' = n then value else s.number n' := rfl

theorem Limits.setNumber (h : s.Limits) {n : NumberSetting} {value : ℤ}
    (hvalue : ∀ bound, n.least = some bound → bound ≤ value) : (s.setNumber n value).Limits := by
  intro n' bound hbound
  rw [number_setNumber]
  split
  · subst n'
    exact hvalue bound hbound
  · exact h n' bound hbound

/-- The line for `stat_cache_timeout`, where that is positive. -/
theorem readNumber_statCacheTimeout (h : s.Limits) (q : ByteString) :
    s.readNumber .statCacheTimeout q = s.setNumber .sessionTimeout (atoi q) := by
  have hpos := h .statCacheTimeout 1 rfl
  refine if_neg ?_
  simp only [number_setNumber, reduceCtorEq, if_false]
  omega

theorem readNumber_of_ne {n : NumberSetting} (hn : n ≠ .statCacheTimeout) (q : ByteString) :
    s.readNumber n q = s.setNumber n (n.read q) := by
  cases n with
  | statCacheTimeout => exact absurd rfl hn
  | _ => rfl

variable {gethostbyname : ByteString → Option UInt32} {c : ConfCommand} {q : ByteString}

/-- A line changes only the setting it names and keeps the limits, unless it is the line for
`stat_cache_timeout`. -/
theorem carryOut_spec (hc : c ≠ .number .statCacheTimeout)
    (hrun : s.carryOut gethostbyname c q = .ok s') :
    (∀ x, c.names ≠ some x → s.AgreeOn s' x) ∧ (s.Limits → s'.Limits) := by
  cases c with
  | conf =>
      cases hrun
      exact ⟨fun x _ => AgreeOn.refl s x, id⟩
  | invalid =>
      cases hrun
      exact ⟨fun x _ => AgreeOn.refl s x, id⟩
  | word w =>
      cases hrun
      exact ⟨fun x hx => agreeOn_setWord hx, id⟩
  | host =>
      simp only [carryOut] at hrun
      split at hrun
      · cases hrun
      · cases hrun
        refine ⟨fun x hx => ?_, id⟩
        cases x with
        | iptab => exact absurd rfl hx
        | _ => rfl
  | log =>
      cases hrun
      refine ⟨fun x hx => ?_, id⟩
      cases x with
      | logging => exact absurd rfl hx
      | _ => rfl
  | number n =>
      cases hrun
      have hn : n ≠ .statCacheTimeout := fun h => hc (by rw [h])
      rw [readNumber_of_ne hn]
      exact ⟨fun x hx => agreeOn_setNumber hx,
        fun h => h.setNumber fun _ hbound => NumberSetting.least_le_read hn hbound q⟩
  | flag f =>
      simp only [carryOut] at hrun
      cases hq : getBoolean q with
      | error e =>
          rw [hq] at hrun
          cases hrun
      | ok value =>
          rw [hq] at hrun
          cases hrun
          exact ⟨fun x hx => agreeOn_setFlag hx, id⟩

/-- The line for `stat_cache_timeout` changes the length of a session. -/
theorem carryOut_statCacheTimeout_iff
    (hrun : s.carryOut gethostbyname (.number .statCacheTimeout) q = .ok s') :
    (∀ x, (ConfCommand.number .statCacheTimeout).names ≠ some x → s.AgreeOn s' x) ↔
      atoi q = s.number .sessionTimeout := by
  cases hrun
  have hsession : (s.readNumber .statCacheTimeout q).number .sessionTimeout = atoi q := by
    simp only [readNumber]
    split <;> rfl
  have hother : ∀ x, (ConfCommand.number .statCacheTimeout).names ≠ some x →
      x ≠ .number .sessionTimeout → s.AgreeOn (s.readNumber .statCacheTimeout q) x := by
    intro x hx hne
    have hset : s.AgreeOn (s.setNumber .sessionTimeout (atoi q)) x :=
      agreeOn_setNumber fun h => hne (Option.some.inj h).symm
    simp only [readNumber]
    split
    · exact AgreeOn.trans hset (agreeOn_setNumber hx)
    · exact hset
  constructor
  · intro hframed
    rw [← hsession]
    exact hframed (.number .sessionTimeout) (by simp [ConfCommand.names])
  · intro hsame x hx
    by_cases hne : x = .number .sessionTimeout
    · subst hne
      exact hsession.trans hsame
    · exact hother x hx hne

theorem limits_statCacheTimeout (h : s.Limits) (hsame : atoi q = s.number .sessionTimeout)
    (hrun : s.carryOut gethostbyname (.number .statCacheTimeout) q = .ok s') : s'.Limits := by
  cases hrun
  rw [readNumber_statCacheTimeout h, hsame]
  exact h.setNumber fun bound hbound => h .sessionTimeout bound hbound

end Settings

/-! ## A whole file -/

/-- A line for `stat_cache_timeout` gives the length a session has anyway. -/
def ConfStep.KeepsSession (step : ConfStep) : Prop :=
  step.command = .number .statCacheTimeout → atoi step.value = step.before.number .sessionTimeout

/-- What `read_configuration` has recorded is what it did, and it keeps the limits as long as no
line for `stat_cache_timeout` changes the length of a session. -/
structure ConfState.Recorded (world : ConfWorld) (st : ConfState) : Prop where
  carried : ∀ step ∈ st.steps,
    step.before.carryOut world.gethostbyname step.command step.value = .ok step.after
  limits : (∀ step ∈ st.steps, step.KeepsSession) → st.settings.Limits

theorem ConfState.Recorded.carryOut {world : ConfWorld} {st st' : ConfState} {c : ConfCommand}
    {q : ByteString} (h : st.Recorded world) (hrun : st.carryOut world c q = .ok st') :
    st'.Recorded world := by
  obtain ⟨settings, hsettings, rfl⟩ := ConfState.carryOut_eq_ok.mp hrun
  constructor
  · intro step hstep
    rcases List.mem_append.mp hstep with hold | hnew
    · exact h.carried step hold
    · rw [List.mem_singleton.mp hnew]
      exact hsettings
  · intro hkeeps
    have hlimits := h.limits fun step hstep => hkeeps step (List.mem_append_left _ hstep)
    by_cases hc : c = .number .statCacheTimeout
    · subst hc
      have hkept := hkeeps ⟨.number .statCacheTimeout, q, st.settings, settings⟩
        (List.mem_append_right _ (List.mem_singleton_self _)) rfl
      exact Settings.limits_statCacheTimeout hlimits hkept hsettings
    · exact (Settings.carryOut_spec hc hsettings).2 hlimits

theorem ConfStep.framed_iff {world : ConfWorld} {step : ConfStep}
    (h : step.before.carryOut world.gethostbyname step.command step.value = .ok step.after) :
    step.Framed ↔ step.KeepsSession := by
  obtain ⟨command, value, before, after⟩ := step
  by_cases hc : command = .number .statCacheTimeout
  · subst hc
    exact (Settings.carryOut_statCacheTimeout_iff h).trans ⟨fun heq _ => heq, fun heq => heq rfl⟩
  · exact ⟨fun _ hc' => absurd hc' hc, fun _ => (Settings.carryOut_spec hc h).1⟩

/-- In every file that is read to its end, every line changes only the setting it names and all
limits hold afterwards, exactly if every line for `stat_cache_timeout` gives the length a session
has anyway. -/
theorem readConfiguration_framed_iff (world : ConfWorld) (name : ByteString) (confRead : Bool)
    {settings : Settings} (hlimits : settings.Limits) {st : ConfState}
    (hrun : readConfiguration world name ⟨settings, confRead, []⟩ = .ok st) :
    ((∀ step ∈ st.steps, step.Framed) ∧ st.settings.Limits) ↔
      ∀ step ∈ st.steps, step.command = .number .statCacheTimeout →
        atoi step.value = step.before.number .sessionTimeout := by
  have hrecorded : st.Recorded world := by
    refine readConfFiles_induction (I := fun st => st.Recorded world) ?_ ?_ ?_ hrun
    · exact fun st h => ⟨h.carried, h.limits⟩
    · exact fun st c q st' _ h hdone => h.carryOut hdone
    · exact ⟨fun step hstep => absurd hstep List.not_mem_nil, fun _ => hlimits⟩
  constructor
  · intro ⟨hframed, _⟩ step hstep
    exact (ConfStep.framed_iff (hrecorded.carried step hstep)).mp (hframed step hstep)
  · intro hkeeps
    exact ⟨fun step hstep => (ConfStep.framed_iff (hrecorded.carried step hstep)).mpr
      (hkeeps step hstep), hrecorded.limits hkeeps⟩

/-- A world with a single file. -/
def singleFile (content : String) : ConfWorld where
  files name := if name = text "fspd.conf" then some (text content) else none
  gethostbyname _ := none

/-- What a file is read to, from the settings at the start of the server. -/
def readAtStart (content : String) : Except Halt ConfState :=
  readConfiguration (singleFile content) (text "fspd.conf") ⟨initialSettings, false, []⟩

theorem readConfiguration_framed_iff_retry :
    ∃ st, readAtStart "retry 5\nstatcache_timeout 60\n" = .ok st ∧ st.steps.length = 2 ∧
      (((∀ step ∈ st.steps, step.Framed) ∧ st.settings.Limits) ↔
        ∀ step ∈ st.steps, step.command = .number .statCacheTimeout →
          atoi step.value = step.before.number .sessionTimeout) := by
  have hlength : (readAtStart "retry 5\nstatcache_timeout 60\n").toOption.map
      (fun st => st.steps.length) = some 2 := by decide +kernel
  cases hrun : readAtStart "retry 5\nstatcache_timeout 60\n" with
  | error e =>
      rw [hrun] at hlength
      cases hlength
  | ok st =>
      rw [hrun] at hlength
      exact ⟨st, rfl, Option.some.inj hlength,
        readConfiguration_framed_iff _ _ _ limits_initialSettings hrun⟩

/-- A line that should make the server look at its directories more often makes its sessions too
short. -/
theorem statcacheTimeout_shortens_sessions :
    ¬ ∀ (world : ConfWorld) (name : ByteString) (confRead : Bool) (settings : Settings)
      (st : ConfState), settings.Limits →
        readConfiguration world name ⟨settings, confRead, []⟩ = .ok st →
          (∀ step ∈ st.steps, step.Framed) ∧ st.settings.Limits := by
  intro h
  have hsession : (readAtStart "statcache_timeout 5\n").toOption.map
      (fun st => st.settings.number .sessionTimeout) = some 5 := by decide +kernel
  cases hrun : readAtStart "statcache_timeout 5\n" with
  | error e =>
      rw [hrun] at hsession
      cases hsession
  | ok st =>
      rw [hrun] at hsession
      have hfive : st.settings.number .sessionTimeout = 5 := Option.some.inj hsession
      have hlimit := (h _ _ _ _ st limits_initialSettings hrun).2 .sessionTimeout 7 rfl
      omega

/-! ## The server -/

/-- `packetsize` after `check_required_vars`. -/
def requiredPacketsize (packetsize : ℤ) : UInt16 :=
  UInt16.ofNat (if packetsize > ubufMaxspace then ubufMaxspace
    else if packetsize = 0 then defaultSpace.toNat
    else if packetsize < 64 then 64
    else packetsize.toNat)

theorem requiredPacketsize_bounds (packetsize : ℤ) :
    64 ≤ (requiredPacketsize packetsize).toNat ∧
      (requiredPacketsize packetsize).toNat ≤ ubufMaxspace := by
  have hmax : ubufMaxspace = 4380 := rfl
  have hspace : defaultSpace.toNat = 1452 := rfl
  have hlt : (if packetsize > ubufMaxspace then ubufMaxspace
      else if packetsize = 0 then defaultSpace.toNat
      else if packetsize < 64 then 64 else packetsize.toNat) < 2 ^ 16 := by
    split_ifs <;> omega
  unfold requiredPacketsize
  rw [UInt16.toNat_ofNat_of_lt' hlt]
  split_ifs <;> omega

namespace Settings.Limits

variable {s : Settings} (h : s.Limits)
include h

theorem retryTimeout_pos : 0 < s.number .retryTimeout := h .retryTimeout 1 rfl

theorem statCacheTimeout_pos : 0 < s.number .statCacheTimeout := h .statCacheTimeout 1 rfl

theorem dirCacheLimit_ge : 16 ≤ (s.number .dirCacheLimit).toNat := by
  have := h .dirCacheLimit 16 rfl
  omega

theorem statCacheLimit_ge : 10 ≤ (s.number .statCacheLimit).toNat := by
  have := h .statCacheLimit 10 rfl
  omega

theorem fpCacheLimit_ge : 10 ≤ (s.number .fpCacheLimit).toNat := by
  have := h .fpCacheLimit 10 rfl
  omega

end Settings.Limits

/-- What the server makes of settings within the limits: `check_required_vars` has found the other
ones it needs, and `init_home_dir` has gone to `homeDir`. -/
def Settings.config (s : Settings) (h : s.Limits) (homeDir : ByteString) (bigEndian : Bool) :
    Config where
  iptab := s.iptab
  privMode := s.flag .privMode
  noUnnamed := s.flag .noUnnamed
  readOnly := s.flag .readOnly || (s.word .tmpDir).isNone
  grabEnabled := s.flag .grabEnabled
  verEnabled := s.flag .verEnabled
  logging := s.logging != 0 && (s.word .logname).isSome
  usePrebuildDirlists := s.flag .usePrebuildDirlists
  useAccessFiles := s.flag .useAccessFiles
  useDirectoryMtime := s.flag .useDirectoryMtime
  homedirRestricted := s.flag .homedirRestricted
  permitPasswordlessOwners := s.flag .permitPasswordlessOwners
  maxthcallowed := UInt32.ofInt (s.number .maxthcallowed)
  packetsize := requiredPacketsize (s.number .packetsize)
  retryTimeout := s.number .retryTimeout
  sessionTimeout := s.number .sessionTimeout
  statCacheTimeout := s.number .statCacheTimeout
  homeDir := homeDir
  tmpDir := (s.word .tmpDir).getD []
  readmeFile := (s.word .readmeFile).getD (text ".README")
  dirCacheLimit := (s.number .dirCacheLimit).toNat
  statCacheLimit := (s.number .statCacheLimit).toNat
  fpCacheLimit := (s.number .fpCacheLimit).toNat
  bigEndian := bigEndian
  packetsize_ge := (requiredPacketsize_bounds _).1
  packetsize_le := (requiredPacketsize_bounds _).2
  retryTimeout_pos := h.retryTimeout_pos
  statCacheTimeout_pos := h.statCacheTimeout_pos
  dirCacheLimit_ge := h.dirCacheLimit_ge
  statCacheLimit_ge := h.statCacheLimit_ge
  fpCacheLimit_ge := h.fpCacheLimit_ge

end Fsp
