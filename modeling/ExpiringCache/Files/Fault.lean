/-!
Why a file system refuses a step.
-/
namespace ExpiringCache.Files
set_option autoImplicit false

inductive Fault where
  | missing
  | exists
  | notDirectory
  | isDirectory
  | nameTooLong
  /-- a path with a zero byte in it -/
  | zeroByte
  | other (reason : String)
deriving DecidableEq

/-- The wording of a fault, with the number that the system has for it. -/
def Fault.message : Fault → String
  | .missing => "No such file or directory (os error 2)"
  | .exists => "File exists (os error 17)"
  | .notDirectory => "Not a directory (os error 20)"
  | .isDirectory => "Is a directory (os error 21)"
  | .nameTooLong => "File name too long (os error 36)"
  | .zeroByte => "file name contained an unexpected NUL byte"
  | .other reason => reason

end ExpiringCache.Files
