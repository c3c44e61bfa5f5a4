import Mathlib.Data.Fintype.Basic
/-!
# What the kernel answers

The results of the system calls that the program makes, as far as it looks at them. A run takes them as inputs.
-/

namespace Upkeeper

/-- The values of `errno` that the code tells apart -/
inductive Errno
  | zero
  | eagain
  | ewouldblock
  | eintr
  | other
  deriving DecidableEq, Repr

/-- `errno == EAGAIN || errno == EWOULDBLOCK || errno == EINTR` -/
def Errno.retry (e : Errno) : Bool := e == .eagain || e == .ewouldblock || e == .eintr

/-- What a `select` returns: zero, a positive number, or `-1`, which leaves the descriptor sets as they were -/
inductive SelectResult
  | timeout
  | ready
  | fail
  deriving DecidableEq, Repr

/-- What a `read` returns: bytes, none of them at the end of the file, or `-1` -/
inductive ReadResult
  | data (bs : List UInt8)
  | fail (errno : Errno)
  deriving DecidableEq, Repr

/-- What a `write` returns: the number of bytes it took, or `-1` -/
inductive WriteResult
  | taken (n : Nat)
  | fail (errno : Errno)
  deriving DecidableEq, Repr

/-- `(size_t) -1` -/
def sizeMax : UInt64 := 0xffffffffffffffff

/-- What a `write` of `size` bytes makes of a count of type `size_t` -/
def WriteResult.count (size : Nat) : WriteResult → UInt64
  | .taken n => UInt64.ofNat (min n size)
  | .fail _ => sizeMax

/-- What a `read` of `size` bytes makes of a count of type `size_t` -/
def ReadResult.count (size : Nat) : ReadResult → UInt64
  | .data bs => UInt64.ofNat (min bs.length size)
  | .fail _ => sizeMax

/-- `errno` after a `write` that was preceded by `errno = 0` -/
def WriteResult.errno : WriteResult → Errno
  | .taken _ => .zero
  | .fail e => e

/-- `errno` after a `read` that was preceded by `errno = 0` -/
def ReadResult.errno : ReadResult → Errno
  | .data _ => .zero
  | .fail e => e

/-! ### Signals -/

/-- The number of a signal -/
abbrev Signo := Fin 65

def sighup : Signo := 1

def sigint : Signo := 2

def sigkill : Signo := 9

def sigterm : Signo := 15

def sigchld : Signo := 17

/-- `sigset_t` -/
abbrev SigSet := Finset Signo

end Upkeeper
