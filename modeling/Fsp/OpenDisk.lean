import Fsp.Disk

/-!
# A disk with open files

The disk of `Fsp.Disk`, on which a file that loses its name lives on for the streams that have it open,
and a file that gets another name takes its streams along.
-/

namespace Fsp

structure OpenDisk where
  disk : Disk
  /-- How many files have lost their names. -/
  lost : ℕ

namespace OpenDisk

/-- A place that no path leads to. -/
def limbo (n : ℕ) : Path := [[], List.replicate n 0x2B]

/-- The streams of a file follow it. -/
def redirect (d : Disk) (f : Path → Path) : Disk :=
  { d with streams := d.streams.map (Option.map fun st => { st with path := f st.path }) }

/-- The file at `p` loses its name. -/
def lose (d : OpenDisk) (p : Path) : OpenDisk :=
  if (d.disk.node p).isSome then
    { disk := redirect (d.disk.move p (limbo (d.lost + 1))) fun q => if q = p then limbo (d.lost + 1) else q
      lost := d.lost + 1 }
  else d

/-- What a call does to the disk. -/
def lift {α : Type} (d : OpenDisk) (res : α × Disk) : α × OpenDisk :=
  (res.1, { d with disk := res.2 })

def unlink (d : OpenDisk) (cwd : Path) (path : ByteString) : Bool × OpenDisk :=
  if (Posix.unlink d.disk cwd path).1 then (true, d.lose (Disk.resolve cwd path)) else (false, d)

def rename (d : OpenDisk) (cwd : Path) (src dst : ByteString) : Bool × OpenDisk :=
  let p := Disk.resolve cwd src
  let q := Disk.resolve cwd dst
  if (Posix.rename d.disk cwd src dst).1 then
    let d := d.lose q
    (true, { d with disk := redirect (Posix.rename d.disk cwd src dst).2 fun r =>
      if p <+: r then q ++ r.drop p.length else r })
  else (false, d)

instance : Posix OpenDisk Path where
  stat d cwd path := Posix.stat d.disk cwd path
  lstat d cwd path := Posix.lstat d.disk cwd path
  access d cwd path := Posix.access d.disk cwd path
  chdir d cwd path := Posix.chdir d.disk cwd path
  getcwd d cwd := Posix.getcwd d.disk cwd
  readFile d cwd path := Posix.readFile d.disk cwd path
  readdir d cwd path := Posix.readdir d.disk cwd path
  gethostbyname _ _ := none
  unlink := unlink
  remove := unlink
  rmdir d cwd path := d.lift (Posix.rmdir d.disk cwd path)
  mkdir d cwd path := d.lift (Posix.mkdir d.disk cwd path)
  rename := rename
  creat d cwd path := { d with disk := Posix.creat d.disk cwd path }
  writeFile d cwd path data := { d with disk := Posix.writeFile d.disk cwd path data }
  chmod d cwd path := { d with disk := Posix.chmod d.disk cwd path }
  utime d cwd path a m := { d with disk := Posix.utime d.disk cwd path a m }
  fopen d cwd path mode := d.lift (Posix.fopen d.disk cwd path mode)
  fclose d h := { d with disk := Posix.fclose d.disk h }
  fseeko d h pos := d.lift (Posix.fseeko d.disk h pos)
  ftello d h := Posix.ftello d.disk h
  fread d h n := d.lift (Posix.fread d.disk h n)
  fwrite d h data := d.lift (Posix.fwrite d.disk h data)
  ferror d h := Posix.ferror d.disk h
  sendto d addr port datagram := Posix.sendto d.disk addr port datagram
  remaining d h := Posix.remaining d.disk h
  length_fread d h n := Posix.length_fread d.disk h n
  fwrite_le d h data := Posix.fwrite_le d.disk h data

end OpenDisk

end Fsp
