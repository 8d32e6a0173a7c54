import Rowcast.Text.Utf8

/-!
# Storages

A storage keeps files under paths.  Reading and writing may fail, and the fault says why; a write
that fails may still have made the directories on the way to its file.
-/

namespace Rowcast.Storage

inductive Fault where
  /-- A store without directories has no file under this path. -/
  | unknownFile (path : String)
  | noSuchFile
  | notDirectory
  | isDirectory
  | alreadyExists
  | nameTooLong
  /-- The path holds a NUL character. -/
  | nulInPath
  /-- The file is not text. -/
  | notText
  /-- Any other reason, in its own words. -/
  | stated (text : String)
  deriving DecidableEq

def Fault.message : Fault → String
  | .unknownFile path => "File not found: " ++ path
  | .noSuchFile => "No such file or directory (os error 2)"
  | .notDirectory => "Not a directory (os error 20)"
  | .isDirectory => "Is a directory (os error 21)"
  | .alreadyExists => "File exists (os error 17)"
  | .nameTooLong => "File name too long (os error 36)"
  | .nulInPath => "file name contained an unexpected NUL byte"
  | .notText => "stream did not contain valid UTF-8"
  | .stated text => text

end Rowcast.Storage

namespace Rowcast

/-- The files of a storage, as a value. -/
class Store (σ : Type) where
  /-- Whether a path leads to a file. -/
  isFile : σ → String → Bool
  /-- The content of the file under a path. -/
  fetch : σ → String → Except Storage.Fault Bytes
  /-- Makes the content of the file under a path the given bytes. -/
  save : σ → String → Bytes → Except Storage.Fault Unit × σ

end Rowcast
