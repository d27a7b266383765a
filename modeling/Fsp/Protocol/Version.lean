import Fsp.Server.Throughput
import Mathlib.Data.Nat.Bitwise

/-!
# Version information

`server_show_version` puts a byte of flags, the throughput limit if there is one, and the packet size
behind the version text; `fver_main` of `clients/fspcmd_ver.c` takes them apart again with a pointer
that it moves on as it goes.
-/

namespace Fsp

open Bytes Effect

/-! ## The client -/

/-- What `fver_main` reports about a server that sends extended information. -/
structure ExtendedInfo where
  logging : Bool
  readonly : Bool
  revname : Bool
  privmode : Bool
  /-- The limit, if throughput control is enabled. -/
  thruput : Option UInt32
  xtradata : Bool
  /-- The payload size, if there is one in the reply. -/
  payload : Option UInt16
  deriving DecidableEq

/-- What `fver_main` reports about a server. -/
structure VersionInfo where
  version : ByteString
  extended : Option ExtendedInfo
  deriving DecidableEq

/-- `fver_main` without arguments, on the reply to `CC_VERSION`. -/
def fverMain (ub : Ubuf) : VersionInfo :=
  let len := ub.bbLen.toNat
  let len2 := ub.bbPos.toNat
  let byte (i : ℕ) : UInt8 := ub.buf.getD i 0
  let flag (v2 : ℕ) (bit : UInt8) : Bool := byte v2 &&& bit != 0
  { version := cstr ub.buf
    extended :=
      if len2 = 0 then none
      else
        let v2 := len
        let tput :=
          if flag v2 verThruput then
            some (ofBe32 (byte (v2 + 1)) (byte (v2 + 2)) (byte (v2 + 3)) (byte (v2 + 4)))
          else none
        -- the pointer is now behind the limit, if there is one
        let v2' := if flag v2 verThruput then v2 + 4 else v2
        some
          { logging := flag v2 verLog
            readonly := flag v2 verReadonly
            revname := flag v2 verRevname
            privmode := flag v2 verPrivmode
            thruput := tput
            xtradata := flag v2' verXtradata
            payload :=
              if v2' + 1 < len + len2 then some (ofBe16 (byte (v2' + 1)) (byte (v2' + 2)))
              else none } }

/-! ## What the server says -/

variable {cfg : Config}

/-- The extra data of a version reply. -/
def versionXtra (cfg : Config) : ByteString :=
  [verflags cfg] ++ (if cfg.maxthcallowed ≠ 0 then be32 cfg.maxthcallowed else []) ++
    be16 cfg.packetsize

/-- The message `server_show_version` sends. -/
def versionReply (cfg : Config) (r : Request) : Ubuf :=
  replyTo { r.ub with bbPos := UInt32.ofNat (versionXtra cfg).length } (versionText ++ [0])
    (versionXtra cfg)

/-- The settings of a server as `fver_main` would report them. -/
def settingsOf (cfg : Config) : VersionInfo where
  version := versionText
  extended := some
    { logging := cfg.logging
      readonly := cfg.readOnly
      revname := cfg.noUnnamed
      privmode := cfg.privMode
      thruput := if cfg.maxthcallowed = 0 then none else some cfg.maxthcallowed
      xtradata := true
      payload := some cfg.packetsize }

/-- Every flag has its own bit. -/
theorem verflags_spec (cfg : Config) :
    (verflags cfg &&& verLog != 0) = cfg.logging ∧
    (verflags cfg &&& verReadonly != 0) = cfg.readOnly ∧
    (verflags cfg &&& verRevname != 0) = cfg.noUnnamed ∧
    (verflags cfg &&& verPrivmode != 0) = cfg.privMode ∧
    (verflags cfg &&& verThruput != 0) = decide (cfg.maxthcallowed ≠ 0) ∧
    (verflags cfg &&& verXtradata != 0) = true := by
  have hbits : ∀ log readonly revname privmode thruput : Bool,
      let flags : UInt8 := (if log then verLog else 0) ||| (if readonly then verReadonly else 0) |||
        (if revname then verRevname else 0) ||| (if privmode then verPrivmode else 0) |||
        (if thruput then verThruput else 0) ||| verXtradata
      (flags &&& verLog != 0) = log ∧ (flags &&& verReadonly != 0) = readonly ∧
        (flags &&& verRevname != 0) = revname ∧ (flags &&& verPrivmode != 0) = privmode ∧
        (flags &&& verThruput != 0) = thruput ∧ (flags &&& verXtradata != 0) = true := by
    decide
  have hthis := hbits cfg.logging cfg.readOnly cfg.noUnnamed cfg.privMode
    (decide (cfg.maxthcallowed ≠ 0))
  simpa only [verflags, decide_eq_true_eq] using hthis

/-- What the client reads behind the version text. -/
theorem getD_versionReply (r : Request) (i : ℕ) :
    (versionReply cfg r).buf.getD ((versionReply cfg r).bbLen.toNat + i) 0 =
      (versionXtra cfg).getD i 0 := by
  have hlen : (versionReply cfg r).bbLen.toNat = (versionText ++ [0]).length := rfl
  have hbuf : (versionReply cfg r).buf = (versionText ++ [0]) ++ versionXtra cfg := rfl
  rw [hlen, hbuf, List.getD_eq_getElem?_getD, List.getD_eq_getElem?_getD,
    List.getElem?_append_right (Nat.le_add_right _ _), Nat.add_sub_cancel_left]

/-- The bit of the limit that is taken for the flag. -/
theorem thruput_xtradata (maxthcallowed : UInt32) :
    (UInt8.ofNat maxthcallowed.toNat &&& verXtradata != 0) = maxthcallowed.toNat.testBit 5 := by
  have hand : (UInt8.ofNat maxthcallowed.toNat &&& verXtradata).toNat =
      (maxthcallowed.toNat.testBit 5).toNat * 32 := by
    show (UInt8.ofNat maxthcallowed.toNat &&& 0x20).toNat = _
    rw [UInt8.toNat_and, UInt8.toNat_ofNat']
    show maxthcallowed.toNat % 2 ^ 8 &&& 2 ^ 5 = _
    rw [Nat.and_two_pow, Nat.testBit_mod_two_pow]
    simp
  rw [Bool.eq_iff_iff, bne_iff_ne, ne_eq, ← UInt8.toNat_inj, hand]
  cases maxthcallowed.toNat.testBit 5 <;> simp

/-- The client reads all settings, but it looks for the flag for extra data where the pointer is
then: at the last byte of the limit, if there is one. -/
theorem fverMain_versionReply (cfg : Config) (r : Request) :
    fverMain (versionReply cfg r) =
      { settingsOf cfg with
        extended := (settingsOf cfg).extended.map fun e =>
          { e with
            xtradata := decide (cfg.maxthcallowed = 0) || cfg.maxthcallowed.toNat.testBit 5 } } := by
  obtain ⟨hlog, hreadonly, hrevname, hprivmode, hthruput, hxtradata⟩ := verflags_spec cfg
  have hversion : cstr (versionReply cfg r).buf = versionText := by
    show cstr ((versionText ++ [0]) ++ versionXtra cfg) = versionText
    rw [List.append_assoc]
    exact cstr_append_zero (by decide) _
  have hbyte : ∀ i, (versionReply cfg r).buf.getD ((versionReply cfg r).bbLen.toNat + i) 0 =
      (versionXtra cfg).getD i 0 := getD_versionReply r
  have hflags := hbyte 0
  have hpos : (versionReply cfg r).bbPos.toNat = (versionXtra cfg).length := by
    show (UInt32.ofNat (versionXtra cfg).length).toNat = _
    apply UInt32.toNat_ofNat_of_lt'
    unfold versionXtra
    split <;> simp [UInt32.size]
  have hone : versionXtra cfg = verflags cfg ::
      ((if cfg.maxthcallowed ≠ 0 then be32 cfg.maxthcallowed else []) ++ be16 cfg.packetsize) :=
    rfl
  rw [Nat.add_zero, hone, List.getD_cons_zero] at hflags
  unfold fverMain settingsOf
  by_cases hmax : cfg.maxthcallowed = 0
  · have hxtra : versionXtra cfg = verflags cfg :: be16 cfg.packetsize := by
      rw [hone, if_neg (not_not.mpr hmax), List.nil_append]
    simp only [hxtra] at hbyte hpos
    rw [decide_eq_false (not_not.mpr hmax)] at hthruput
    simp only [hversion, hpos, hflags, hthruput, Bool.false_eq_true, if_false, hlog, hreadonly,
      hrevname, hprivmode, hxtradata, hbyte, be16, List.getD_cons_succ, List.getD_cons_zero,
      ofBe16_be16]
    simp [hmax]
  · have hxtra : versionXtra cfg =
        verflags cfg :: (be32 cfg.maxthcallowed ++ be16 cfg.packetsize) := by
      rw [hone, if_pos hmax]
    simp only [hxtra] at hbyte hpos
    rw [decide_eq_true hmax] at hthruput
    simp only [hversion, hpos, hflags, hthruput, if_true, Nat.add_assoc, hlog, hreadonly, hrevname,
      hprivmode, hbyte, be16, be32, List.cons_append, List.nil_append, List.getD_cons_succ,
      List.getD_cons_zero, thruput_xtradata, ofBe16_be16, ofBe32_be32]
    simp [hmax]

/-! ## The reply -/

section

variable {Fs Cwd : Type} [Posix Fs Cwd] {s s' : Server Fs Cwd}

/-- The datagram sent for `CC_VERSION` holds a message in which `fver_main` finds the settings of the
server exactly if there is no throughput limit, or a limit with bit 5. -/
theorem fverMain_showVersion_iff {r : Request} (hreply : serverShowVersion cfg r s = .ok () s') :
    ∃ datagram ub, s'.trace = s.trace ++ [.sent r.client datagram] ∧
      Ubuf.decode datagram = some ub ∧
      (fverMain ub = settingsOf cfg ↔
        cfg.maxthcallowed = 0 ∨ cfg.maxthcallowed.toNat.testBit 5 = true) := by
  refine ⟨(versionReply cfg r).encode, versionReply cfg r, ?_, Ubuf.decode_encode _, ?_⟩
  · have hsends : wp (serverShowVersion cfg r)
        (fun _ s' => s'.trace = s.trace ++ [.sent r.client (versionReply cfg r).encode])
        (fun _ => True) s := sends_serverReply _ _ _ _ s
    have hsent := wp_of_ok hsends hreply
    exact hsent
  · rw [fverMain_versionReply]
    constructor
    · intro heq
      have hxtradata := congrArg (fun v => v.extended.map ExtendedInfo.xtradata) heq
      simpa [settingsOf] using hxtradata
    · rintro (hmax | hbit)
      · simp [settingsOf, hmax]
      · simp [settingsOf, hbit]

end

/-! ### Two servers -/

/-- A request for the version. -/
def askVersion : Request where
  client := Scenario.client
  ub := ⟨Command.version.code, 0, 7, 0, 8, 0, 0, []⟩
  old := false
  inetNum := 0
  behind := []
  junk := 0

/-- A server that sends no more than a number of bytes a second. -/
def limitedConfig (maxthcallowed : UInt32) : Config := { Scenario.config with maxthcallowed }

/-- A limit of 1000 is read together with the flag. -/
theorem fverMain_showVersion_iff_limited :
    ∃ s' datagram ub, serverShowVersion (limitedConfig 1000) askVersion
        (Scenario.start (limitedConfig 1000) []) = .ok () s' ∧
      s'.trace = [.sent Scenario.client datagram] ∧ Ubuf.decode datagram = some ub ∧
      fverMain ub = settingsOf (limitedConfig 1000) := by
  have hreply : serverShowVersion (limitedConfig 1000) askVersion
      (Scenario.start (limitedConfig 1000) []) = .ok () _ := rfl
  obtain ⟨datagram, ub, hsent, hdecode, hiff⟩ := fverMain_showVersion_iff hreply
  exact ⟨_, datagram, ub, rfl, hsent, hdecode, hiff.mpr (Or.inr (by decide))⟩

/-- With a limit of 1024 the client does not report that the server accepts extra data. -/
theorem fverMain_limited_ne :
    ∃ s' datagram ub, serverShowVersion (limitedConfig 1024) askVersion
        (Scenario.start (limitedConfig 1024) []) = .ok () s' ∧
      s'.trace = [.sent Scenario.client datagram] ∧ Ubuf.decode datagram = some ub ∧
      fverMain ub ≠ settingsOf (limitedConfig 1024) := by
  refine ⟨_, (versionReply (limitedConfig 1024) askVersion).encode,
    versionReply (limitedConfig 1024) askVersion, rfl, ?_, Ubuf.decode_encode _, ?_⟩
  · decide +kernel
  · decide +kernel

end Fsp
