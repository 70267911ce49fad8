-- SUMMARY: The errors that the operating system reports for files, programs and connections.

/-!
# System errors

What can go wrong with a file, a program or a connection, in the wording of the
operating system and with its number.
-/

namespace ConsoleScript

/-- An error that the operating system reports. -/
inductive SystemError where
  | notFound
  | noDevice
  | wouldBlock
  | permissionDenied
  | notADirectory
  | isADirectory
  | invalidArgument
  | brokenPipe
  | nameTooLong
  | addressNotAvailable
  | networkUnreachable
  | connectionRefused
  /-- A file is not a text. -/
  | notText
  /-- A path holds the character that ends paths. -/
  | endMarkInPath
  /-- The name of a program, or an argument to it, holds the character that ends
      them. -/
  | endMarkInArgument
  /-- A path is too long for a socket. -/
  | socketPathTooLong
  /-- A path of a socket holds the character that ends paths. -/
  | endMarkInSocketPath
  /-- An address names no service. -/
  | noService
  /-- The service of an address is no number. -/
  | badService
  /-- Nobody could be asked for the number of a host. -/
  | unresolvedHost
  /-- A text cannot be the name of a host. -/
  | unknownHost
  /-- The other side of a connection has gone. -/
  | closed
  deriving DecidableEq, Repr

/-- The wording of an error. -/
def SystemError.message : SystemError → String
  | .notFound => "No such file or directory (os error 2)"
  | .noDevice => "No such device or address (os error 6)"
  | .wouldBlock => "Resource temporarily unavailable (os error 11)"
  | .permissionDenied => "Permission denied (os error 13)"
  | .notADirectory => "Not a directory (os error 20)"
  | .isADirectory => "Is a directory (os error 21)"
  | .invalidArgument => "Invalid argument (os error 22)"
  | .brokenPipe => "Broken pipe (os error 32)"
  | .nameTooLong => "File name too long (os error 36)"
  | .addressNotAvailable => "Cannot assign requested address (os error 99)"
  | .networkUnreachable => "Network is unreachable (os error 101)"
  | .connectionRefused => "Connection refused (os error 111)"
  | .notText => "stream did not contain valid UTF-8"
  | .endMarkInPath => "file name contained an unexpected NUL byte"
  | .endMarkInArgument => "nul byte found in provided data"
  | .socketPathTooLong => "path must be shorter than SUN_LEN"
  | .endMarkInSocketPath => "paths must not contain interior null bytes"
  | .noService => "invalid socket address"
  | .badService => "invalid port value"
  | .unresolvedHost =>
    "failed to lookup address information: Temporary failure in name resolution"
  | .unknownHost => "failed to lookup address information: Name or service not known"
  | .closed => "monitor closed the connection"

end ConsoleScript
