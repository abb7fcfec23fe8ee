import SbOS.Kernel.Stop
import SbOS.Vfs.Paths

/-! From the path a process passes to the path a mounted file system is handed:
`vfs_resolve_path` joins the process's root, its working directory and the path in
a buffer of 256 bytes, cleans the result and compares it with the root;
`vfs_get_mount` picks the mount with the longest path that begins the text. -/
namespace SbOS.Vfs
open Kernel

/-- The two paths of `process_t` that path resolution reads. -/
structure Process where
  rootPath : List Char
  cwd : List Char
  deriving DecidableEq, Repr

/-- The text that `strlcpy` leaves in a buffer of `size` bytes. When the source
does not fit, the terminator is written one past the buffer. -/
def strlcpy (src : List Char) (size : Nat) : Except Stop (List Char) :=
  if src.length < size then .ok src else .error .overrun

def strlcat (dst src : List Char) (size : Nat) : List Char :=
  dst ++ src.take (size - 1 - dst.length)

def vfsResolvePath (p : Process) (file : List Char) : Except Stop (List Char) := do
  check (p.rootPath.getLast? = some '/')
  check (p.cwd.getLast? = some '/')
  let r ← strlcpy p.rootPath 256
  let r := if file.head? = some '/' then r else strlcat r p.cwd 256
  let r := strlcat r file 256
  match vfsCleanPath r with
  | none => .error .assertion
  | some resolved => .ok (if p.rootPath <+: resolved then resolved else p.rootPath)

/-- A mounted file system and where it is mounted. -/
structure Mount (φ : Type) where
  path : List Char
  localRoot : φ

variable {φ : Type} {mount : Mount φ} {mounts : List (Mount φ)} {best : Nat × Option (Mount φ)}

/-- One step of the search in `vfs_get_mount`: the length of the best path so far
and the mount it belongs to. -/
def betterMount (path : List Char) (best : Nat × Option (Mount φ)) (mount : Mount φ) :
    Nat × Option (Mount φ) :=
  if mount.path.length ≤ best.1 then best
  else if mount.path <+: path then (mount.path.length, some mount)
  else best

/-- The length found is the length of the mount found. -/
def Matched (path : List Char) (best : Nat × Option (Mount φ)) : Prop :=
  ∀ mount, best.2 = some mount → mount.path <+: path ∧ best.1 = mount.path.length

theorem Matched.step (matched : Matched path best) : Matched path (betterMount path best mount) := by
  unfold betterMount
  split
  · exact matched
  split
  · rename_i begins
    rintro found ⟨⟩
    exact ⟨begins, rfl⟩
  · exact matched

theorem Matched.run (matched : Matched path best) :
    Matched path (mounts.foldl (betterMount path) best) := by
  induction mounts generalizing best with
  | nil => exact matched
  | cons mount mounts ih => exact ih matched.step

/-- The place of a file inside the whole tree: a mount path of one character is
not cut off the paths handed on. -/
def Mount.place (mount : Mount φ) (file : List Char) : List Char :=
  if mount.path.length = 1 then file else mount.path ++ file

/-- Some mount applies to the path. -/
def Covered (mounts : List (Mount φ)) (path : List Char) : Prop :=
  ∃ mount ∈ mounts, mount.path ≠ [] ∧ mount.path <+: path

end SbOS.Vfs
