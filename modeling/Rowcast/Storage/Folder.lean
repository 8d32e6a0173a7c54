import Rowcast.Storage.Disk

/-!
# The store in a folder

The paths of this store start at a folder of a disk; absolute paths start at the root all the same.
-/

namespace Rowcast

/-- A disk and the path of a folder on it. -/
structure Folder where
  path : String
  disk : Disk

namespace Folder

def ofHome (disk : Disk) : Folder := ⟨".", disk⟩

def isFile (folder : Folder) (path : String) : Bool :=
  folder.disk.isFile (Path.join folder.path path)

def fetch (folder : Folder) (path : String) : Except Storage.Fault Bytes :=
  folder.disk.fetch (Path.join folder.path path)

def save (folder : Folder) (path : String) (data : Bytes) :
    Except Storage.Fault Unit × Folder :=
  let (result, disk) := folder.disk.save (Path.join folder.path path) data
  (result, { folder with disk := disk })

instance : Store Folder where
  isFile := isFile
  fetch := fetch
  save := save

end Folder

end Rowcast
