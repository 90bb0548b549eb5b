import RefStore.Storage.Error

/-!
# Paged files

A file of pages of one size, page `n` at offset `n` times the size. The number of pages is that of
the whole pages when the file was opened, and grows by writing.
-/

namespace RefStore

structure PagedFile where
  node : Nat
  path : Path
  pageSize : Nat
  pageCount : PageIndex

namespace PagedFile

def create (path : Path) (pageSize : Nat) : Task Disk FileError PagedFile := do
  if (← Disk.exists? path) then refuse (.alreadyExists path.text)
  let node ← Disk.createFile path
  return ⟨node, path, pageSize, 0⟩

def «open» (path : Path) (pageSize : Nat) : Task Disk FileError PagedFile := do
  let node ← Disk.openFile path
  let length ← Disk.length node
  if pageSize = 0 then halt .zeroPageSize
  return ⟨node, path, pageSize, UInt64.ofNat (length / pageSize)⟩

/-- The byte at which a page of the file starts. -/
def offset (file : PagedFile) (index : PageIndex) : Nat := index.toNat * file.pageSize

/-- The length of the file with the page as its last one. Page counts and lengths have 64 bits. -/
def lengthUpTo (file : PagedFile) (index : PageIndex) : Checked FileError Nat :=
  if index.toNat + 1 < UInt64.size ∧ (index.toNat + 1) * file.pageSize < UInt64.size then
    .ok ((index.toNat + 1) * file.pageSize)
  else halt .overflow

theorem lengthUpTo_eq {file : PagedFile} {index : PageIndex} (hindex : index.toNat + 1 < UInt64.size)
    (hlength : (index.toNat + 1) * file.pageSize < UInt64.size) :
    file.lengthUpTo index = .ok ((index.toNat + 1) * file.pageSize) := if_pos ⟨hindex, hlength⟩

theorem lengthUpTo_eq_ok {file : PagedFile} {index : PageIndex} {length : Nat}
    (h : file.lengthUpTo index = .ok length) : (index.toNat + 1) * file.pageSize = length := by
  rw [lengthUpTo] at h
  split at h
  · exact Except.ok.inj h
  · cases h

/-- The page, read into a buffer of `size` bytes. -/
def readPage (file : PagedFile) (index : PageIndex) (size : Nat) : Task Disk FileError Page := do
  if file.pageCount ≤ index then refuse (.pageOutOfBounds index file.pageCount)
  if size ≠ file.pageSize then refuse (.sizeMismatch file.pageSize size)
  let bytes ← Disk.readAt file.node (file.offset index) size
  return ⟨bytes⟩

/-- Writing past the last page first extends the file, with zero pages before the new one. -/
def writePage (file : PagedFile) (index : PageIndex) (page : Page) :
    Task Disk FileError PagedFile := do
  if page.size ≠ file.pageSize then refuse (.sizeMismatch file.pageSize page.size)
  if index < file.pageCount then
    Disk.writeAt file.node (file.offset index) page.bytes
    return file
  Disk.setLength file.node (← Task.ofChecked (file.lengthUpTo index))
  Disk.writeAt file.node (file.offset index) page.bytes
  return { file with pageCount := index + 1 }

def sync (file : PagedFile) : Task Disk FileError Unit := Disk.sync file.node

end PagedFile

end RefStore
