import Fsp.Disk

/-!
# A disk with links

The disk of `Fsp.Disk` with symbolic links between directories.  A link is followed wherever it is met
on a path, and no call makes or removes one.
-/

namespace Fsp

structure LinkedDisk where
  disk : Disk
  /-- The place of each link, and the directory it leads to, which has no links in its own path. -/
  links : List (Path × Path)

namespace LinkedDisk

/-- The way along `rest`, from `here`. -/
def follow (links : List (Path × Path)) : Path → Path → Path
  | here, [] => here
  | here, name :: rest =>
      match links.lookup (here ++ [name]) with
      | some target => follow links target rest
      | none => follow links (here ++ [name]) rest

/-- The name of a place from the root. -/
def absolute (p : Path) : ByteString := 0x2F :: (p.intersperse [0x2F]).flatten

/-- The object a path stands for, under a name without links. -/
def locate (d : LinkedDisk) (cwd : Path) (path : ByteString) : ByteString :=
  absolute (follow d.links [] (Disk.resolve cwd path))

/-- What a call does to the disk. -/
def lift {α : Type} (d : LinkedDisk) (res : α × Disk) : α × LinkedDisk :=
  (res.1, { d with disk := res.2 })

instance : Posix LinkedDisk Path where
  stat d cwd path := Posix.stat d.disk [] (d.locate cwd path)
  lstat d cwd path := Posix.lstat d.disk [] (d.locate cwd path)
  access d cwd path := Posix.access d.disk [] (d.locate cwd path)
  chdir d cwd path := Posix.chdir d.disk [] (d.locate cwd path)
  getcwd _ cwd := some (absolute cwd)
  readFile d cwd path := Posix.readFile d.disk [] (d.locate cwd path)
  readdir d cwd path := Posix.readdir d.disk [] (d.locate cwd path)
  gethostbyname _ _ := none
  unlink d cwd path := d.lift (Posix.unlink d.disk [] (d.locate cwd path))
  remove d cwd path := d.lift (Posix.remove d.disk [] (d.locate cwd path))
  rmdir d cwd path := d.lift (Posix.rmdir d.disk [] (d.locate cwd path))
  mkdir d cwd path := d.lift (Posix.mkdir d.disk [] (d.locate cwd path))
  rename d cwd src dst := d.lift (Posix.rename d.disk [] (d.locate cwd src) (d.locate cwd dst))
  creat d cwd path := { d with disk := Posix.creat d.disk [] (d.locate cwd path) }
  writeFile d cwd path data :=
    { d with disk := Posix.writeFile d.disk [] (d.locate cwd path) data }
  chmod d cwd path := { d with disk := Posix.chmod d.disk [] (d.locate cwd path) }
  utime d cwd path a m := { d with disk := Posix.utime d.disk [] (d.locate cwd path) a m }
  fopen d cwd path mode := d.lift (Posix.fopen d.disk [] (d.locate cwd path) mode)
  fclose d h := { d with disk := Posix.fclose d.disk h }
  fseeko d h pos := d.lift (Posix.fseeko d.disk h pos)
  ftello d h := Posix.ftello d.disk h
  fread d h n := d.lift (Posix.fread d.disk h n)
  fwrite d h data := d.lift (Posix.fwrite d.disk h data)
  ferror d h := Posix.ferror d.disk h
  sendto d addr port datagram := Posix.sendto d.disk addr port datagram
  remaining d h := Posix.remaining d.disk h
  length_fread d h n := Posix.length_fread d.disk h n
  fwrite_le d h data := Posix.fwrite_le d.disk h data

end LinkedDisk

end Fsp
