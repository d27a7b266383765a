import Fsp.Server.Steps

/-!
# Looking up a directory

`validate_path` looks at files, and changes into directories and back, but it changes none.
-/

namespace Fsp

open Bytes Effect

variable {Fs Cwd : Type} [Posix Fs Cwd] {cfg : Config} {s s' : Server Fs Cwd} {work : ByteString}

/-! ## Files are left alone -/

/-- An entry for something that changes neither files nor streams. -/
def Looking : Event → Prop
  | .dispatched _ | .lookup _ | .validated _ _ _ | .access _ _ _ _ _ | .stat _ _ | .chdir _ _
  | .copied _ _ | .protect _ _ _ | .listed _ | .sent _ _ => True
  | _ => False

/-- Only entries of that kind were added, and the files are the same. -/
def Looks (s s' : Server Fs Cwd) : Prop := Acts Looking s s' ∧ Same (fun s => s.fs) s s'

instance : IsPreorder (Server Fs Cwd) Looks :=
  inferInstanceAs (IsPreorder (Server Fs Cwd) fun s s' =>
    Acts Looking s s' ∧ Same (fun s => s.fs) s s')

theorem primitives_looks : Primitives (Looks : Server Fs Cwd → Server Fs Cwd → Prop) Looking
    fun _ => True := by
  have hacts := @primitives_acts Fs Cwd _ Looking
  refine ⟨?_, fun f => (hacts.setListCache f).and fun _ => rfl⟩
  constructor
  · exact fun e he => (hacts.emit e he).and fun _ => rfl
  · exact fun path hP => (hacts.stat path hP).and fun _ => rfl
  · exact fun path hP => (hacts.lstat path hP).and fun _ => rfl
  · refine fun path hP => (hacts.chdir path hP).and fun s => ?_
    unfold chdir
    split <;> rfl
  · exact fun _ hP => absurd (hP true) not_false
  · exact fun _ hP => absurd (hP true) not_false
  · exact fun _ hP => absurd (hP true) not_false
  · exact fun _ hP => absurd (hP true) not_false
  · exact fun _ _ hP => absurd (hP none true) not_false
  · exact fun _ hP => absurd hP not_false
  · exact fun _ _ hP => absurd hP not_false
  · exact fun _ hP => absurd hP not_false
  · exact fun _ _ _ hP => absurd hP not_false
  · exact fun _ _ hP => absurd (hP none) not_false
  · exact fun _ hP => absurd hP not_false
  · exact fun _ _ hP => absurd (hP true) not_false
  · exact fun _ _ hP => absurd (hP []) not_false
  · exact fun _ _ hP => absurd (hP 0) not_false
  · exact fun hP => absurd (hP 0) not_false
  · exact fun f g => (hacts.setThc f g).and fun _ => rfl
  · exact fun di f hf => (hacts.setDirInfo di f hf).and fun _ => rfl
  · exact fun di => (hacts.deleteDirInfo di).and fun _ => rfl
  · exact fun key d hd => (hacts.putDirInfo key d hd).and fun _ => rfl
  · exact hacts.good_update

/-- `validate_path` changes no file. -/
theorem looks_validatePath (fullp : ByteString) (wantDirectory : Bool) :
    Does Looks (validatePath cfg fullp wantDirectory :
      Srv Fs Cwd (Except ByteString (PPath × ℕ))) :=
  does_validatePath primitives_looks.toSteps (fun _ _ => ⟨trivial, fun _ => trivial,
    fun _ _ _ => trivial, fun _ => trivial, fun _ => trivial⟩) (fun _ _ _ => trivial)
    returns_loadAccessRights

end Fsp
