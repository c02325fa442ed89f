/-!
# Errors

What can go wrong around a playground.  None of these is retried: a failed compile
cycle shows the text of its error, and a failed write leaves the stored value as
it was.  `PlaygroundError.isRemote` tells the errors of a remote service from
those of the machine.
-/

namespace Playground

/-- Why a file could not be read or written. -/
inductive IoError where
  /-- A part of the path does not exist. -/
  | notFound
  /-- The path names something that exists already. -/
  | alreadyExists
  /-- A part of the path is a file and not a directory. -/
  | notADirectory
  /-- The path names a directory. -/
  | isADirectory
  /-- A part of the path is too long. -/
  | nameTooLong
  /-- The path holds a NUL. -/
  | nulInPath
  /-- The content is not UTF-8. -/
  | invalidUtf8
  /-- Another cause, told in words. -/
  | other (message : String)
deriving DecidableEq, Repr

/-- The text shown for a cause. -/
def IoError.message : IoError → String
  | .notFound => "No such file or directory (os error 2)"
  | .alreadyExists => "File exists (os error 17)"
  | .notADirectory => "Not a directory (os error 20)"
  | .isADirectory => "Is a directory (os error 21)"
  | .nameTooLong => "File name too long (os error 36)"
  | .nulInPath => "file name contained an unexpected NUL byte"
  | .invalidUtf8 => "stream did not contain valid UTF-8"
  | .other message => message

/-- What went wrong. -/
inductive PlaygroundError where
  /-- A request could not be sent, or its answer could not be read. -/
  | request (service message : String)
  /-- A service answered with a status that is no success. -/
  | status (service : String) (code : Nat)
  /-- The body of an answer does not have the expected shape. -/
  | decode (service message : String)
  /-- A stored value could not be read or written. -/
  | storage (cause : IoError)
  /-- The configuration is wrong. -/
  | configuration (message : String)
deriving DecidableEq, Repr

namespace PlaygroundError

/-- The text shown for an error. -/
def message : PlaygroundError → String
  | .request service message => "Request to " ++ service ++ " failed: " ++ message
  | .status service code => service ++ " returned status " ++ toString code
  | .decode service message => "Could not decode " ++ service ++ " response: " ++ message
  | .storage cause => "Storage error: " ++ cause.message
  | .configuration message => "Configuration error: " ++ message

/-- The error comes from a remote service. -/
def isRemote : PlaygroundError → Bool
  | .request _ _ => true
  | .status _ _ => true
  | .decode _ _ => true
  | .storage _ => false
  | .configuration _ => false

end PlaygroundError

end Playground
