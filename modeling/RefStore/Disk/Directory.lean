import RefStore.Disk

/-!
# Files of a directory

A disk made from the files of one directory, and the files that stand at its top.
-/

namespace RefStore.Disk

def addNamed (disk : Disk) (file : String × ByteArray) : Disk :=
  let added := disk.effect (.addFile [file.1])
  added.effect (.write disk.nextNode 0 file.2)

def ofFiles (files : List (String × ByteArray)) : Disk := files.foldl addNamed empty

/-- The files at the top, by name. -/
def files (disk : Disk) : List (String × ByteArray) :=
  disk.entries.toList.filterMap fun (place, entry) =>
    match place, entry with
    | [name], .file node => some (name, (disk.content node).block)
    | _, _ => none

end RefStore.Disk
