import Depot.Files.Path

/-! Why an operation on files fails. -/

namespace Depot

inductive FileError where
  | notFound
  | alreadyExists
  | notDirectory
  | isDirectory
  | invalid
  | busy
  | nameTooLong
  | notEmpty
  | tooManyLinks
  | nulInName
  /-- A directory given where the content of a file is asked for. -/
  | notRegular
  | noFreeName (stem : String) (root : Path)
  /-- Reported by a caller's own step. -/
  | reported (text : String)
  deriving DecidableEq

namespace FileError

def system (text : String) (code : Nat) : String := text ++ " (os error " ++ toString code ++ ")"

def message : FileError → String
  | notFound => system "No such file or directory" 2
  | busy => system "Device or resource busy" 16
  | alreadyExists => system "File exists" 17
  | notDirectory => system "Not a directory" 20
  | isDirectory => system "Is a directory" 21
  | invalid => system "Invalid argument" 22
  | nameTooLong => system "File name too long" 36
  | notEmpty => system "Directory not empty" 39
  | tooManyLinks => system "Too many levels of symbolic links" 40
  | nulInName => "file name contained an unexpected NUL byte"
  | notRegular => "the source path is neither a regular file nor a symlink to a regular file"
  | noFreeName stem root => "no free base directory name for " ++ stem ++ " in " ++ root.text
  | reported text => text

end FileError

end Depot
