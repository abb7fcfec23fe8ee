import SbOS.Vfs.Resolve

/-! Whether a process with a changed root can name files outside it. The text a
mounted file system is handed is read the way a file system reads it: empty
components and `.` stand for the directory itself and `..` for its parent. -/
namespace SbOS.Vfs
open Kernel List

variable {φ : Type} {mounts : List (Mount φ)} {p : Process}
  {path root rest : List Char}

/-- The system calls that take a path. -/
inductive Entry where
  | open
  | unlink
  | chdir
  | mkdir
  deriving DecidableEq, Repr

/-- The path each call looks a mount up for. `chdir` resolves its argument and
passes the result to `vfs_open`, which resolves it once more; `mkdir` resolves
nothing. -/
def lookedUp (p : Process) (path : List Char) : Entry → Except Stop (List Char)
  | .open | .unlink => vfsResolvePath p path
  | .chdir => do
    let resolved ← vfsResolvePath p path
    vfsResolvePath p resolved
  | .mkdir => .ok path

end SbOS.Vfs
