import SbOS.Lib.ByteFile
import SbOS.Lib.Program

/-! `fxp_write` and `fxp_read` of the SFTP server, on the handle of an open file. A READ is
carried out with `pread` at the offset that the client names, cut to 32 bits, but a WRITE with
`write`, where the descriptor happens to stand. -/
namespace SbOS.Sftp

/-- The codes of a status reply; `errno` stands for what `send_error_from_errno` makes of it. -/
inductive Status where
  | ok | eof | noSuchFile | failure | badMessage
  | errno (error : Nat)

inductive Reply where
  | status (id : Nat) (code : Status)
  | data (id : Nat) (bytes : Bytes) (rc : Nat)

/-- A descriptor of the file; `fileSize` is what its inode had for a size when it was opened. -/
structure Descriptor where
  file : ByteFile
  offset : Nat
  append : Bool
  fileSize : Nat

/-- Where `write` puts the next bytes; with `O_APPEND` it asks the inode first. -/
def Descriptor.target (fd : Descriptor) : Nat :=
  if fd.append then fd.fileSize % 2 ^ 32 else fd.offset

def Descriptor.write (fd : Descriptor) (data : Bytes) (rc : Nat) : Descriptor :=
  { fd with file := fd.file.write data rc fd.target, offset := (fd.target + rc) % 2 ^ 32 }

/-- The server, with the key of the handle of one open file. -/
structure Server where
  key : String
  fd : Descriptor

/-- The fields of a request, and how the calls of the server turn out. After the fields of a
WRITE `length` bytes are left in the packet; `write` takes at most `taken` of them or fails
with an error. For a READ, `memory` is whether `malloc` finds some. -/
inductive Request where
  | write (id : Nat) (key : String) (offset len : Nat) (data : Bytes) (length : Nat)
    (taken : Except Nat Nat)
  | read (id : Nat) (key : String) (offset len : Nat) (memory : Bool) (error : Option Nat)

def Request.key : Request → String
  | write _ key .. => key
  | read _ key .. => key

/-- A file that has just been created, under the handle `0`. -/
def created : Server := ⟨"0", ⟨.empty, 0, false, 0⟩⟩

end SbOS.Sftp
