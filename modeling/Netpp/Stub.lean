import Mathlib.Tactic.Common

/-!
# System calls and their errors

The functions of `src/internal/stub` call the system and sort the error numbers:
some are thrown as an exception, the others are returned as `-1`. A call that is
interrupted is made again, so its answer is that of the first call that is not.
`getError` is the error code that a user sees.
-/

namespace Netpp

/-- The error numbers that the program tells apart, less `EINTR`. -/
inductive Errno where
  | EACCES | EAGAIN | EALREADY | EBADF | EFAULT | ENOTSOCK | EDESTADDRREQ | EMSGSIZE | EISCONN
  | EOPNOTSUPP | ECONNRESET | ENOTCONN | EPIPE | EINVAL | ENOBUFS | ENOMEM | ECONNREFUSED
  | EEXIST | ELOOP | ENOENT | ENOSPC | EPERM
  | ECONNABORTED | EADDRINUSE | EADDRNOTAVAIL | EINPROGRESS | ENETUNREACH | ETIMEDOUT
  | EAFNOSUPPORT | EMFILE | ENFILE
  | other (code : Int)
  deriving DecidableEq

/-- `error::SocketError`. -/
inductive SocketError where
  | CONNABORTED | ADDRINUSE | ADDRNOTAVAIL | CONNREFUSED | INPROGRESS | NETUNREACH | TIMEDOUT
  | NOERROR | POLLERR | UNKOWN | BADF
  deriving DecidableEq

/-- `error::getError`. -/
def getError : Errno → SocketError
  | .ECONNABORTED => .CONNABORTED
  | .EADDRINUSE => .ADDRINUSE
  | .EADDRNOTAVAIL => .ADDRNOTAVAIL
  | .ECONNREFUSED => .CONNREFUSED
  | .EINPROGRESS => .INPROGRESS
  | .ENETUNREACH => .NETUNREACH
  | .ETIMEDOUT => .TIMEDOUT
  | .EBADF => .BADF
  | _ => .UNKOWN

/-- The exceptions that the stubs throw. -/
inductive Exception where
  | socketException (errCode : Errno)
  | resourceLimitException (errCode : Errno)
  deriving DecidableEq

/-- What a system call answers: a value, or an error number. -/
inductive Answer (α : Type) where
  | done (a : α)
  | failed (e : Errno)
  deriving DecidableEq

namespace Stub

/-- `none` is the return value `-1`. -/
def sendmsg {α : Type} : Answer α → Except Exception (Option α)
  | .done sent => .ok (some sent)
  | .failed .ECONNRESET => .error (.socketException .ECONNRESET)
  | .failed .ENOTCONN => .error (.socketException .ENOTCONN)
  | .failed .EPIPE => .error (.socketException .EPIPE)
  | .failed .ENOMEM => .error (.resourceLimitException .ENOMEM)
  | .failed _ => .ok none

def recvmsg {α : Type} : Answer α → Except Exception (Option α)
  | .done received => .ok (some received)
  | .failed .ENOMEM => .error (.resourceLimitException .ENOMEM)
  | .failed .ECONNREFUSED => .error (.socketException .ECONNREFUSED)
  | .failed .ENOTCONN => .error (.socketException .ENOTCONN)
  | .failed _ => .ok none

def epollCtl {α : Type} : Answer α → Except Exception (Option α)
  | .done a => .ok (some a)
  | .failed .ENOMEM => .error (.resourceLimitException .ENOMEM)
  | .failed .ENOSPC => .error (.resourceLimitException .ENOSPC)
  | .failed _ => .ok none

def socket {α : Type} : Answer α → Except Exception (Option α)
  | .done fd => .ok (some fd)
  | .failed .EACCES => .error (.socketException .EACCES)
  | .failed .EAFNOSUPPORT => .error (.socketException .EAFNOSUPPORT)
  | .failed .EMFILE => .error (.resourceLimitException .EMFILE)
  | .failed .ENFILE => .error (.resourceLimitException .ENFILE)
  | .failed .ENOBUFS => .error (.resourceLimitException .ENOBUFS)
  | .failed .ENOMEM => .error (.resourceLimitException .ENOMEM)
  | .failed _ => .ok none

def bind {α : Type} : Answer α → Except Exception (Option α)
  | .done a => .ok (some a)
  | .failed .EADDRINUSE => .error (.socketException .EADDRINUSE)
  | .failed .ENOMEM => .error (.resourceLimitException .ENOMEM)
  | .failed _ => .ok none

def listen {α : Type} : Answer α → Except Exception (Option α)
  | .done a => .ok (some a)
  | .failed .EBADF => .error (.socketException .EBADF)
  | .failed .EDESTADDRREQ => .error (.socketException .EDESTADDRREQ)
  | .failed .ENOTSOCK => .error (.socketException .ENOTSOCK)
  | .failed .EOPNOTSUPP => .error (.socketException .EOPNOTSUPP)
  | .failed .EACCES => .error (.socketException .EACCES)
  | .failed .ENOBUFS => .error (.resourceLimitException .ENOBUFS)
  | .failed _ => .ok none

def accept4 {α : Type} : Answer α → Except Exception (Option α)
  | .done fd => .ok (some fd)
  | .failed .ECONNABORTED => .error (.socketException .ECONNABORTED)
  | .failed .EMFILE => .error (.resourceLimitException .EMFILE)
  | .failed .ENFILE => .error (.resourceLimitException .ENFILE)
  | .failed .ENOBUFS => .error (.resourceLimitException .ENOBUFS)
  | .failed .ENOMEM => .error (.resourceLimitException .ENOMEM)
  | .failed .EPERM => .error (.resourceLimitException .EPERM)
  | .failed _ => .ok none

/-- On a non-blocking socket the usual answer is `EINPROGRESS`, an exception. -/
def connect {α : Type} : Answer α → Except Exception (Option α)
  | .done a => .ok (some a)
  | .failed .EADDRINUSE => .error (.socketException .EADDRINUSE)
  | .failed .EADDRNOTAVAIL => .error (.socketException .EADDRNOTAVAIL)
  | .failed .ECONNREFUSED => .error (.socketException .ECONNREFUSED)
  | .failed .EINPROGRESS => .error (.socketException .EINPROGRESS)
  | .failed .ENETUNREACH => .error (.socketException .ENETUNREACH)
  | .failed .ETIMEDOUT => .error (.socketException .ETIMEDOUT)
  | .failed _ => .ok none

end Stub

end Netpp
