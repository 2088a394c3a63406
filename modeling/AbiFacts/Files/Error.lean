/-! # Errors of the file system

The errors of the operating system that the program tells apart, with the numbers and texts by which
they are known.
-/
namespace AbiFacts.Files

inductive SystemError where
  | notFound
  | alreadyExists
  | notDirectory
  | isDirectory
  | nameTooLong
  | tooManyLinks
  /-- A path ends at its first zero byte, so none may hold one. -/
  | zeroByte
  | other (message : String)
  deriving DecidableEq

def SystemError.message : SystemError → String
  | notFound => "No such file or directory (os error 2)"
  | alreadyExists => "File exists (os error 17)"
  | notDirectory => "Not a directory (os error 20)"
  | isDirectory => "Is a directory (os error 21)"
  | nameTooLong => "File name too long (os error 36)"
  | tooManyLinks => "Too many levels of symbolic links (os error 40)"
  | zeroByte => "file name contained an unexpected NUL byte"
  | other message => message

end AbiFacts.Files
