import Fsp.Wire

/-!
# The system calls the server relies on

The server is a client of the operating system and of stdio.  Neither is part of the repository,
so the model takes them as the operations of a class `Posix Fs Cwd`: `Fs` is everything the calls
can change outside the process's own variables (files, directories, open streams), and `Cwd` is a
current directory.  Nothing is assumed about what the calls do, so that every failure and every
change made by other processes is covered; the fields with proofs only say that a read or a write
never reports more bytes than it was asked for.

`readFile` is `fopen` for reading, reading to the end of the file and `fclose`, as the loaders of
access files do.  A `FILE *` is a number; after `fclose` the same number can be handed out again.
-/

namespace Fsp

inductive FileKind where
  | reg | dir | other
  deriving DecidableEq, Repr

/-- What `stat` reports. -/
structure Stat where
  kind : FileKind
  size : ℕ
  mtime : ℤ
  deriving DecidableEq, Repr

/-- `"rb"`, `"r+b"` and `"wb"`. -/
inductive OpenMode where
  | r | rPlus | w
  deriving DecidableEq, Repr

/-- One result of `readdir`. -/
structure Dirent where
  ino : ℕ
  name : ByteString
  deriving DecidableEq, Repr

abbrev Handle := ℕ

class Posix (Fs : Type) (Cwd : outParam Type) where
  stat : Fs → Cwd → ByteString → Option Stat
  lstat : Fs → Cwd → ByteString → Option Stat
  access : Fs → Cwd → ByteString → Bool
  chdir : Fs → Cwd → ByteString → Option Cwd
  getcwd : Fs → Cwd → Option ByteString
  readFile : Fs → Cwd → ByteString → Option ByteString
  readdir : Fs → Cwd → ByteString → Option (List Dirent)
  gethostbyname : Fs → ByteString → Option UInt32
  unlink : Fs → Cwd → ByteString → Bool × Fs
  remove : Fs → Cwd → ByteString → Bool × Fs
  rmdir : Fs → Cwd → ByteString → Bool × Fs
  mkdir : Fs → Cwd → ByteString → Bool × Fs
  rename : Fs → Cwd → ByteString → ByteString → Bool × Fs
  /-- `touch`: create the file if it does not exist. -/
  creat : Fs → Cwd → ByteString → Fs
  /-- `fopen` for writing, one `fprintf`, `fclose`. -/
  writeFile : Fs → Cwd → ByteString → ByteString → Fs
  chmod : Fs → Cwd → ByteString → Fs
  utime : Fs → Cwd → ByteString → ℤ → ℤ → Fs
  fopen : Fs → Cwd → ByteString → OpenMode → Option Handle × Fs
  fclose : Fs → Handle → Fs
  fseeko : Fs → Handle → ℕ → Bool × Fs
  ftello : Fs → Handle → ℤ
  fread : Fs → Handle → ℕ → ByteString × Fs
  fwrite : Fs → Handle → ByteString → ℕ × Fs
  ferror : Fs → Handle → Bool
  /-- Whether the datagram could be handed to the network. -/
  sendto : Fs → UInt32 → UInt16 → ByteString → Bool
  /-- How many bytes a stream still has to deliver. -/
  remaining : Fs → Handle → ℕ
  length_fread : ∀ fs h n, (fread fs h n).1.length ≤ n
  fwrite_le : ∀ fs h data, (fwrite fs h data).1 ≤ data.length

end Fsp
