import EmkKernel.Pfs.Ext2

/-!
# The entries of a directory

The loop that `pfs::linux` has four times: in `foreach_entry`, `contains`, `load_root` and
`discover_directory`. The bytes of a directory are walked through by the lengths that its
records claim. What the loops do with a record is a visit, which may go on or return; the
tables of the file system that visits change are given by their operations.
-/

namespace EmkKernel

/-- `PhysicalExt2DirectoryEntry`. -/
structure PhysicalExt2DirectoryEntry where
  inode : Nat
  totalSize : Nat
  nameLength : Nat
  typeIndicator : Nat
  string : List Byte
  deriving DecidableEq, Repr

def PhysicalExt2DirectoryEntry.at (memory : Nat → Byte) (currentPtr : Nat) :
    PhysicalExt2DirectoryEntry where
  inode := littleEndian memory currentPtr 4
  totalSize := littleEndian memory (currentPtr + 4) 2
  nameLength := (memory (currentPtr + 6)).toNat
  typeIndicator := (memory (currentPtr + 7)).toNat
  string := bytesAt memory (currentPtr + 8) (memory (currentPtr + 6)).toNat

/-- Computations on the machine and the tables of the file system. -/
abbrev WalkM (γ : Type) := EStateM IoStop (IoMachine × γ)

section

variable {α β γ : Type}

def onMachine (x : IoM α) : WalkM γ α := fun s =>
  match x s.1 with
  | .ok a m => .ok a (m, s.2)
  | .error e m => .error e (m, s.2)

/-- An operation on the tables; it may panic. -/
def onTables (x : γ → Option (α × γ)) : WalkM γ α := fun s =>
  match x s.2 with
  | some (a, g) => .ok a (s.1, g)
  | none => .error .panic s

/-- `while size_rem != 0`. A visit goes on with `none` or returns; the loop returns `none`
when the fuel is used up. -/
def walkEntries (visit : PhysicalExt2DirectoryEntry → WalkM γ (Option β)) :
    Nat → Nat → Nat → WalkM γ (Option (Option β))
  | 0, _, _ => pure none
  | fuel + 1, currentPtr, sizeRem =>
    if sizeRem = 0 then pure (some none)
    else do
      let s ← get
      let entry := PhysicalExt2DirectoryEntry.at s.1.memory currentPtr
      match ← visit entry with
      | some returned => pure (some (some returned))
      | none => do
        let currentPtr ← onMachine (orPanic (sumU64 currentPtr entry.totalSize))
        if currentPtr % 4 = 0 then do
          let sizeRem ← onMachine (orPanic (subUnsigned sizeRem entry.totalSize))
          walkEntries visit fuel currentPtr sizeRem
        else throw .panic

/-- One of the four functions: the buffer it reads, its visits, and the bytes it walks
through. -/
structure DirectoryWalk (γ β : Type) where
  directoryData : IoM Buffer
  visit : PhysicalExt2DirectoryEntry → WalkM γ (Option β)
  size : Nat

/-- What the functions do: read, walk, and release the buffer at the end or at a return. -/
def DirectoryWalk.run (walk : DirectoryWalk γ β) (fuel : Nat) : WalkM γ (Option (Option β)) := do
  let directoryData ← onMachine walk.directoryData
  match ← walkEntries walk.visit fuel directoryData.ptr walk.size with
  | none => pure none
  | some returned => do
    onMachine directoryData.release
    pure (some returned)

end

namespace PhysicalExt2Directory

variable (self : PhysicalExt2Directory)

/-- The buffer of a directory that is at most one block. -/
def loadBlock (disk : Disk) (blockSize startingLba : Nat) : IoM Buffer := do
  let limit ← orPanic (shlU32 1024 blockSize)
  if self.size > limit then
    throw .panic
  else
    let bytes ← orPanic (shlU64 1024 blockSize)
    let directoryData ← Buffer.new false bytes
    let dirData ← orPanic self.directPointers.head?
    let product ← orPanic (mulU64 dirData bytes)
    let sectors ← orPanic (divUnsigned product disk.sectorSize)
    let lba ← orPanic (sumU64 startingLba sectors)
    let _ ← disk.readIntoBuffer lba directoryData 1
    pure directoryData

variable {γ : Type}

/-- The visit of `foreach_entry`. -/
def callback (func : PhysicalExt2DirectoryEntry → WalkM γ Unit)
    (entry : PhysicalExt2DirectoryEntry) :
    WalkM γ (Option Unit) := do
  func entry
  pure none

def foreachEntry (disk : Disk) (blockSize startingLba : Nat)
    (func : PhysicalExt2DirectoryEntry → WalkM γ Unit) : DirectoryWalk γ Unit :=
  ⟨self.loadBlock disk blockSize startingLba, callback func, self.size⟩

/-- The visit of `contains`. -/
def compare (toCheck : List Byte) (entry : PhysicalExt2DirectoryEntry) :
    WalkM γ (Option (Nat × Nat)) :=
  if entry.string = toCheck then pure (some (entry.inode, entry.typeIndicator)) else pure none

def contains (disk : Disk) (blockSize startingLba : Nat) (toCheck : List Byte) :
    DirectoryWalk γ (Nat × Nat) :=
  ⟨self.loadBlock disk blockSize startingLba, compare toCheck, self.size⟩

end PhysicalExt2Directory

/-! ### The tables of the file system -/

def gfsPermissionsWrite : Nat := 0x0001
def gfsPermissionsExecute : Nat := 0x0008

/-- The arguments of `GfsFile::new`. -/
structure NewFile where
  fsIndex : Nat
  physicalStorageNode : Nat
  directDataPointers : List Nat
  singlyIndirectDataPointer : Nat
  doublyIndirectDataPointer : Nat
  triplyIndirectDataPointer : Nat
  size : Nat
  permissions : Nat

/-- The arguments of `GfsDirectory::new`, with the hash map by its index. -/
structure NewDirectory where
  fsIndex : Nat
  physicalStorageNode : Nat
  entries : Nat
  permissions : Nat

inductive GfsLinkType where
  | file
  | directory
  deriving DecidableEq, Repr

/-- What the walks use of `GeneralFileSystem` and of the directory that they fill. `none`
is a panic; whether a link could be inserted is not looked at. -/
structure GfsTables (γ : Type) where
  requestFile : γ → Option (Nat × γ)
  requestDirectory : γ → Option (Nat × γ)
  requestHashmap : Nat → γ → Option (Nat × γ)
  setFile : Nat → NewFile → γ → Option (Unit × γ)
  setDirectory : Nat → NewDirectory → γ → Option (Unit × γ)
  linuxRootDirectoryIndex : γ → Nat
  /-- The hash map of the directory that is filled. -/
  ownEntries : γ → Nat
  lookup : List Byte → γ → Option (Bool × γ)
  insert : List Byte → Nat → GfsLinkType → γ → Option (Unit × γ)

namespace MountedExt2

variable (self : MountedExt2) {γ : Type} (gfs : GfsTables γ)

def loadInodeIntoFile (file : Nat) (disk : Disk) (fsIndex inodeIndex : Nat) : WalkM γ Unit := do
  let inode ← onMachine (self.readInode inodeIndex disk)
  let write := if inode.typeAndPermissions &&& 0x0080 ≠ 0 then gfsPermissionsWrite else 0
  let execute := if inode.typeAndPermissions &&& 0x0100 ≠ 0 then gfsPermissionsExecute else 0
  onTables (gfs.setFile file {
    fsIndex := fsIndex
    physicalStorageNode := inodeIndex
    directDataPointers := inode.directBlockPointers
    singlyIndirectDataPointer := inode.singlyIndirectBlockPointer
    doublyIndirectDataPointer := inode.doublyIndirectBlockPointer
    triplyIndirectDataPointer := inode.triplyIndirectBlockPointer
    size := inode.lowSize
    permissions := write ||| execute })

/-- A directory of its own, with the permissions of its inode. -/
def newDirectory (directory : Nat) (disk : Disk) (fsIndex inodeIndex : Nat) : WalkM γ Unit := do
  let inode ← onMachine (self.readInode inodeIndex disk)
  let permissions := if inode.typeAndPermissions &&& 0x080 = 0 then 0 else gfsPermissionsWrite
  let entries ← onTables (gfs.requestHashmap 32)
  onTables (gfs.setDirectory directory ⟨fsIndex, inodeIndex, entries, permissions⟩)

/-- `.` or `..`. -/
def IsSelfOrParent (name : List Byte) : Prop := name = [0x2E] ∨ name = [0x2E, 0x2E]

instance (name : List Byte) : Decidable (IsSelfOrParent name) := inferInstanceAs (Decidable (_ ∨ _))

/-- The visit of `load_root`. -/
def loadRootEntry (disk : Disk) (fsIndex : Nat) (entry : PhysicalExt2DirectoryEntry) :
    WalkM γ (Option Unit) := do
  if entry.typeIndicator = 1 then
    let fileIndex ← onTables gfs.requestFile
    self.loadInodeIntoFile gfs fileIndex disk fsIndex entry.inode
    onTables (gfs.insert entry.string fileIndex .file)
    pure none
  else if entry.typeIndicator = 2 then
    let directoryIndex ← onTables gfs.requestDirectory
    if IsSelfOrParent entry.string then
      let s ← get
      onTables (gfs.setDirectory directoryIndex ⟨fsIndex, 2, gfs.ownEntries s.2,
        gfsPermissionsWrite⟩)
      let s ← get
      onTables (gfs.insert entry.string (gfs.linuxRootDirectoryIndex s.2) .directory)
      pure none
    else
      self.newDirectory gfs directoryIndex disk fsIndex entry.inode
      onTables (gfs.insert entry.string directoryIndex .directory)
      pure none
  else
    throw .panic

def loadRoot (disk : Disk) (fsIndex : Nat) : DirectoryWalk γ Unit :=
  ⟨self.rootDirectory.loadBlock disk self.blockSize self.startingLba,
    self.loadRootEntry gfs disk fsIndex, self.rootDirectory.size⟩

/-- The visit of `discover_directory`. -/
def discoverEntry (disk : Disk) (fsIndex : Nat) (entry : PhysicalExt2DirectoryEntry) :
    WalkM γ (Option Unit) := do
  if ← onTables (gfs.lookup entry.string) then
    pure none
  else if entry.typeIndicator = 1 then
    let index ← onTables gfs.requestFile
    self.loadInodeIntoFile gfs index disk fsIndex entry.inode
    onTables (gfs.insert entry.string index .file)
    pure none
  else if entry.typeIndicator = 2 then
    let index ← onTables gfs.requestDirectory
    self.newDirectory gfs index disk fsIndex entry.inode
    onTables (gfs.insert entry.string index .directory)
    pure none
  else
    throw .panic

/-- The blocks of a directory that the direct pointers have no room for. -/
def readIndirectBlocks (directoryData : Buffer) (inodeRaw : PhysicalExt2Inode) (disk : Disk)
    (scheduler maxDirect : Nat) : IoM Unit :=
  if inodeRaw.lowSize > maxDirect then do
    let length ← orPanic (subUnsigned directoryData.originalSize maxDirect)
    let sub ← orPanic (directoryData.subBuffer maxDirect length)
    let _ ← directoryData.releaseOnError
      (self.readSinglyIndirectPointerBlock sub inodeRaw.singlyIndirectBlockPointer disk scheduler)
  else pure ()

/-- The buffer that `discover_directory` walks through: what the pointers of the inode lead
to. A disk error is returned. -/
def directoryContent (disk : Disk) (inodeIndex scheduler : Nat) : IoM Buffer := do
  let inodeRaw ← self.readInode inodeIndex disk
  let directoryData ← Buffer.new false inodeRaw.lowSize
  let _ ← directoryData.releaseOnError
    (self.readPointerContentIntoBuffer directoryData inodeRaw.directBlockPointers disk scheduler)
  let bytes ← orPanic (shlU32 1024 self.blockSize)
  let maxDirect ← orPanic (mulU32 12 bytes)
  self.readIndirectBlocks directoryData inodeRaw disk scheduler maxDirect
  let maxSingly ← orPanic (mulU32 (bytes / 4) bytes)
  let limit ← orPanic (addU32 maxDirect maxSingly)
  if inodeRaw.lowSize > limit then
    throw .panic
  else
    pure directoryData

/-- The number of bytes walked through is the size of the root directory. -/
def discoverDirectory (disk : Disk) (fsIndex inodeIndex scheduler : Nat) : DirectoryWalk γ Unit :=
  ⟨self.directoryContent disk inodeIndex scheduler, self.discoverEntry gfs disk fsIndex,
    self.rootDirectory.size⟩

end MountedExt2

end EmkKernel
