import Rowcast.Record
import Rowcast.Storage.Basic

/-!
# A store in memory

A store without directories: any text is the path of at most one file.
-/

namespace Rowcast

structure Memory where
  files : Record Bytes

namespace Memory

def isFile (store : Memory) (path : String) : Bool := (store.files.get? path).isSome

def fetch (store : Memory) (path : String) : Except Storage.Fault Bytes :=
  match store.files.get? path with
  | some data => .ok data
  | none => .error (.unknownFile path)

def save (store : Memory) (path : String) (data : Bytes) : Memory :=
  ⟨store.files.set path data⟩

instance : Store Memory where
  isFile := isFile
  fetch := fetch
  save store path data := (.ok (), store.save path data)

/-- The files, sorted by path. -/
def listing (store : Memory) : List (String × Bytes) :=
  store.files.fields.mergeSort fun a b => a.1 ≤ b.1

end Memory

end Rowcast
