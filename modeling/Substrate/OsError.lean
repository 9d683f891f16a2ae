import Substrate.Fault

/-!
# Errors of the operating system

The system answers a request that it refuses with a number. Each number that is in use has a text
of its own.
-/

namespace Substrate

/-- An error number of the operating system. -/
structure OsError where
  code : Int
  deriving DecidableEq, Repr

namespace OsError

/-- The texts of the error numbers from zero on; a number that is not in use has an empty one. -/
def descriptions : List String := [
    "Success", "Operation not permitted", "No such file or directory", "No such process",
    "Interrupted system call", "Input/output error", "No such device or address",
    "Argument list too long", "Exec format error", "Bad file descriptor", "No child processes",
    "Resource temporarily unavailable", "Cannot allocate memory", "Permission denied",
    "Bad address", "Block device required", "Device or resource busy", "File exists",
    "Invalid cross-device link", "No such device", "Not a directory", "Is a directory",
    "Invalid argument", "Too many open files in system", "Too many open files",
    "Inappropriate ioctl for device", "Text file busy", "File too large",
    "No space left on device", "Illegal seek", "Read-only file system", "Too many links",
    "Broken pipe", "Numerical argument out of domain", "Numerical result out of range",
    "Resource deadlock avoided", "File name too long", "No locks available",
    "Function not implemented", "Directory not empty", "Too many levels of symbolic links", "",
    "No message of desired type", "Identifier removed", "Channel number out of range",
    "Level 2 not synchronized", "Level 3 halted", "Level 3 reset", "Link number out of range",
    "Protocol driver not attached", "No CSI structure available", "Level 2 halted",
    "Invalid exchange", "Invalid request descriptor", "Exchange full", "No anode",
    "Invalid request code", "Invalid slot", "", "Bad font file format", "Device not a stream",
    "No data available", "Timer expired", "Out of streams resources",
    "Machine is not on the network", "Package not installed", "Object is remote",
    "Link has been severed", "Advertise error", "Srmount error", "Communication error on send",
    "Protocol error", "Multihop attempted", "RFS specific error", "Bad message",
    "Value too large for defined data type", "Name not unique on network",
    "File descriptor in bad state", "Remote address changed",
    "Can not access a needed shared library", "Accessing a corrupted shared library",
    ".lib section in a.out corrupted", "Attempting to link in too many shared libraries",
    "Cannot exec a shared library directly", "Invalid or incomplete multibyte or wide character",
    "Interrupted system call should be restarted", "Streams pipe error", "Too many users",
    "Socket operation on non-socket", "Destination address required", "Message too long",
    "Protocol wrong type for socket", "Protocol not available", "Protocol not supported",
    "Socket type not supported", "Operation not supported", "Protocol family not supported",
    "Address family not supported by protocol", "Address already in use",
    "Cannot assign requested address", "Network is down", "Network is unreachable",
    "Network dropped connection on reset", "Software caused connection abort",
    "Connection reset by peer", "No buffer space available",
    "Transport endpoint is already connected", "Transport endpoint is not connected",
    "Cannot send after transport endpoint shutdown", "Too many references: cannot splice",
    "Connection timed out", "Connection refused", "Host is down", "No route to host",
    "Operation already in progress", "Operation now in progress", "Stale file handle",
    "Structure needs cleaning", "Not a XENIX named type file", "No XENIX semaphores available",
    "Is a named type file", "Remote I/O error", "Disk quota exceeded", "No medium found",
    "Wrong medium type", "Operation canceled", "Required key not available", "Key has expired",
    "Key has been revoked", "Key was rejected by service", "Owner died", "State not recoverable",
    "Operation not possible due to RF-kill", "Memory page has hardware error"]

/-- The system's own words for an error number. -/
def description (error : OsError) : String :=
  let unknown := "Unknown error " ++ toString error.code
  match error.code with
  | .ofNat n =>
    match descriptions[n]? with
    | some text => if text.isEmpty then unknown else text
    | none => unknown
  | .negSucc _ => unknown

def message (error : OsError) : String :=
  error.description ++ " (os error " ++ toString error.code ++ ")"

/-- Too many threads, or no room for one more stack. -/
def tryAgain : OsError := ⟨11⟩

def noMemory : OsError := ⟨12⟩

def invalidArgument : OsError := ⟨22⟩

/-- Bytes of memory that the machine has. The system refuses a single request for this much or
more. -/
def memoryBytes : Nat := 0x800000000

/-- The most threads that there are at once. -/
def threadLimit : Nat := 1024

/-- Why a thread with a stack of the given size is refused; nothing if it is granted. The stack is
cut to a multiple of 64 bytes and has a guard page behind it. The two must not go beyond a word. -/
def ofStackSize? (bytes : Nat) : Option OsError :=
  if wordLimit ≤ bytes / 64 * 64 + 4096 then some invalidArgument
  else if memoryBytes ≤ bytes then some tryAgain
  else none

/-- Why one more thread is refused, when there are `threads` already. -/
def ofThread? (threads stackBytes : Nat) : Option OsError :=
  if threadLimit ≤ threads then some tryAgain else ofStackSize? stackBytes

end OsError

end Substrate
