import EmkKernel.Vfs.DirectoryHashmap

/-!
# Paths

`vfs::gfs`: links, directories and the two walks that turn a path without its root into
a link, `win_get_link` and `lin_get_link`. A directory is read at its place in the array
of directories; the link of an entry holds the index of a file or of a directory.
-/

namespace EmkKernel

inductive GfsType where
  | file
  | directory
  deriving DecidableEq, Repr

namespace GfsType

def toU64 : GfsType → BitVec 64
  | file => 1
  | directory => 2

def fromU64 (val : BitVec 64) : Except Stop GfsType :=
  if val = 1 then .ok file
  else if val = 2 then .ok directory
  else .error .panic

end GfsType

namespace GfsLink

def new (index : BitVec 32) (linkType : GfsType) : GfsLink :=
  ⟨index.setWidth 64 ||| linkType.toU64 <<< 32⟩

def index (link : GfsLink) : BitVec 32 := (link.link &&& 0xFFFFFFFF).setWidth 32

def linkType (link : GfsLink) : Except Stop GfsType := GfsType.fromU64 (link.link >>> 32)

end GfsLink

/-- The fields of `GfsDirectory` that the walks use. -/
structure GfsDirectory where
  entries : GfsDirectoryHashmap
  flags : BitVec 8

def gfsDirectoryCompletedPhysicalLookup : BitVec 8 := 1

def GfsDirectory.isCompleted (self : GfsDirectory) : Bool :=
  self.flags &&& gfsDirectoryCompletedPhysicalLookup ≠ 0

/-- The results of `GfsResult` that the walks give. -/
inductive GfsResult where
  | malformed
  | notFound
  | discoveryPossible
  deriving DecidableEq, Repr

/-- The parts of `GeneralFileSystem` that the walks use. `directories` is what lies in the
array of directories. -/
structure GfsNamespace (σ : Type) where
  hashmapManager : GfsDirectoryHashmapManager σ
  directories : BitVec 32 → GfsDirectory
  linuxRoot : BitVec 32

/-- `str::split_terminator`: an empty part behind the last separator does not count. -/
def splitTerminator (separator : Byte) (path : Text) : List Text :=
  if (path.splitOn separator).getLast? = some [] then (path.splitOn separator).dropLast
  else path.splitOn separator

def slash : Byte := 0x2F

def backslash : Byte := 0x5C

namespace GfsNamespace

variable {σ : Type}

/-- The loop of both walks over the parts that are left. -/
def followParts (store : StringStore σ) (gfs : GfsNamespace σ) (link : GfsLink)
    (dir : GfsDirectory) : List Text → Except Stop (Except GfsResult GfsLink)
  | [] => .ok (.ok link)
  | toLookup :: rest => do
    match ← dir.entries.lookup store gfs.hashmapManager toLookup with
    | some link =>
      match ← link.linkType with
      | .directory => followParts store gfs link (gfs.directories link.index) rest
      | .file =>
        -- a file with parts behind it
        if rest ≠ [] then pure (.error .malformed) else pure (.ok link)
    | none =>
      if dir.isCompleted then pure (.error .discoveryPossible) else pure (.error .notFound)

/-- `win_get_link`, which splits at the same character as `lin_get_link`; of the root it
uses `directory_index`. -/
def winGetLink (store : StringStore σ) (gfs : GfsNamespace σ) (directoryIndex : BitVec 32)
    (path : Text) : Except Stop (Except GfsResult GfsLink) :=
  gfs.followParts store (.new directoryIndex .directory) (gfs.directories directoryIndex)
    (splitTerminator slash path)

def linGetLink (store : StringStore σ) (gfs : GfsNamespace σ) (path : Text) :
    Except Stop (Except GfsResult GfsLink) :=
  gfs.followParts store (.new gfs.linuxRoot .directory) (gfs.directories gfs.linuxRoot)
    (splitTerminator slash path)

end GfsNamespace

end EmkKernel
