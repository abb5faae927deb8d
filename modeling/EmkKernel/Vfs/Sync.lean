import EmkKernel.Library.Requests
import EmkKernel.Library.Yields
import EmkKernel.Vfs.StringAllocator

/-!
# Telling the other processors about the memory of the file system

`GeneralFileSystem::sync` with its four counters, the part of the page tables that it reads,
and the requests it sends. A request is also marked with the region and the call of `sync`
that it comes from.
-/

namespace EmkKernel

def gfsDirectoryFixedVaddr : Nat := 0xFFFF800100000000
def gfsFilesFixedVaddr : Nat := 0xFFFF800180000000
def gfsHashmapFixedVaddr : Nat := 0xFFFF800200000000

inductive GfsRegion where
  | files
  | directories
  | hashmaps
  | strings
  deriving DecidableEq

def GfsRegion.fixedVaddr : GfsRegion → Nat
  | .files => gfsFilesFixedVaddr
  | .directories => gfsDirectoryFixedVaddr
  | .hashmaps => gfsHashmapFixedVaddr
  | .strings => gfsStringsFixedVaddr

/-- Where page `i` of a region belongs. -/
def GfsRegion.address (region : GfsRegion) (i : Nat) : Nat := region.fixedVaddr + i * 0x1000

/-- `IpiVMemSync`, sent to a processor. -/
structure SyncIpi where
  apicId : Nat
  paddr : MemoryBlock
  vaddr : Nat
  region : GfsRegion
  call : Nat
  deriving DecidableEq

/-- The processors of `local_apics`, and the one that runs the code. -/
structure GfsProcessors where
  localApics : List Nat
  own : Nat
  distinct : localApics.Nodup

structure GfsSync where
  /-- The bytes of the slices, and `GFS_STRING_ALLOCATED_SIZE`. -/
  bytes : GfsRegion → Nat
  /-- `LAST_FILE_PAGE_SYNCHRONISED` and the three others. -/
  lastPageSynchronised : GfsRegion → Nat
  /-- The pages of the regions in the page tables, with their frames. -/
  mapped : List (Nat × Nat)
  processors : GfsProcessors
  sent : List SyncIpi
  /-- The calls that returned, and the bytes at the last of them. -/
  calls : Nat
  syncedBytes : GfsRegion → Nat

inductive SyncPanic where
  | gotStuck
  | unwrap
  | underflow
  deriving DecidableEq

abbrev SyncM := EStateM SyncPanic GfsSync

namespace GfsSync

/-- The frame in the entry of a page, which is zero without one. -/
def frame (s : GfsSync) (virt : Nat) : Nat := (s.mapped.lookup virt).getD 0

/-- A table of pages exists where a page of its 2 MiB was mapped. -/
def hasTable (s : GfsSync) (virt : Nat) : Bool :=
  s.mapped.any fun page => page.1 / 0x200000 == virt / 0x200000

/-- `Pager::get_physical`, which does not look whether the page is present. -/
def getPhysical (virt : Nat) : SyncM Nat := do
  let s ← get
  if virt % 0x1000 = 0 ∧ s.hasTable virt then pure (s.frame virt) else throw .unwrap

/-- One processor's turn in `send_sync_ipi`. -/
def sendTo (answers : SyncIpi → Bool) (own : Nat) (ipi : SyncIpi) : SyncM Unit :=
  if ipi.apicId ≠ own then do
    modify fun s => { s with sent := s.sent ++ [ipi] }
    if answers ipi then pure () else throw .gotStuck
  else pure ()

/-- `GeneralFileSystem::send_sync_ipi` -/
def sendSyncIpi (answers : SyncIpi → Bool) (region : GfsRegion) (memoryBlock : MemoryBlock)
    (vaddr : Nat) : SyncM Unit := do
  let s ← get
  s.processors.localApics.forM fun lapic =>
    sendTo answers s.processors.own ⟨lapic, memoryBlock, vaddr, region, s.calls⟩

/-- The variables of a loop of `sync`. -/
structure Cursor where
  vaddr : Nat
  vaddrAtIpi : Nat
  memoryBlock : MemoryBlock

/-- The loop over the pages of a region. -/
def syncLoop (answers : SyncIpi → Bool) (region : GfsRegion) : Nat → Cursor → SyncM Cursor
  | 0, c => pure c
  | n + 1, c => do
    let physical ← getPhysical c.vaddr
    if physical ≠ c.memoryBlock.base + c.memoryBlock.length then do
      sendSyncIpi answers region c.memoryBlock c.vaddrAtIpi
      syncLoop answers region n ⟨c.vaddr + 0x1000, c.vaddr, ⟨physical, 0x1000⟩⟩
    else
      syncLoop answers region n ⟨c.vaddr + 0x1000, c.vaddrAtIpi,
        ⟨c.memoryBlock.base, c.memoryBlock.length + 0x1000⟩⟩

def sendRest (answers : SyncIpi → Bool) (region : GfsRegion) (c : Cursor) : SyncM Unit :=
  if c.memoryBlock.length ≠ 0 then sendSyncIpi answers region c.memoryBlock c.vaddrAtIpi
  else pure ()

/-- The part of `sync` about one region, which has `pages` pages. In the source the four copies
take `files_pages` as the end of their loops. -/
def syncRegion (answers : SyncIpi → Bool) (filesPages : Nat) (region : GfsRegion)
    (pages newPages : Nat) : SyncM Unit :=
  if newPages ≠ 0 then do
    let s ← get
    let base := s.lastPageSynchronised region
    let vaddr := region.fixedVaddr + base * 0x1000
    let physical ← getPhysical vaddr
    let c ← syncLoop answers region (filesPages - base) ⟨vaddr, vaddr, ⟨physical, 0⟩⟩
    sendRest answers region c
    modify fun s => { s with
      lastPageSynchronised := Function.update s.lastPageSynchronised region pages }
  else pure ()

def subPages (pages last : Nat) : SyncM Nat :=
  if pages < last then throw .underflow else pure (pages - last)

/-- `GeneralFileSystem::sync` -/
def sync (answers : SyncIpi → Bool) : SyncM Unit := do
  let s ← get
  let filesBytes := s.bytes .files % 2 ^ 32
  let directoriesBytes := s.bytes .directories % 2 ^ 32
  let hashmapsBytes := s.bytes .hashmaps % 2 ^ 32
  let stringBytes := s.bytes .strings % 2 ^ 32
  let filesPages := filesBytes / 0x1000 + if filesBytes % 0x1000 ≠ 0 then 1 else 0
  -- the rest of the hash maps is counted for the directories
  let directoryPages := directoriesBytes / 0x1000 +
    (if directoriesBytes % 0x1000 ≠ 0 then 1 else 0) +
    if hashmapsBytes % 0x1000 ≠ 0 then 1 else 0
  let hashmapPages := hashmapsBytes / 0x1000
  let stringPages := stringBytes / 0x1000 + if stringBytes % 0x1000 ≠ 0 then 1 else 0
  let newFilePages ← subPages filesPages (s.lastPageSynchronised .files)
  let newDirectoryPages ← subPages directoryPages (s.lastPageSynchronised .directories)
  let newHashmapPages ← subPages hashmapPages (s.lastPageSynchronised .hashmaps)
  let newStringPages ← subPages stringPages (s.lastPageSynchronised .strings)
  syncRegion answers filesPages .files filesPages newFilePages
  syncRegion answers filesPages .directories directoryPages newDirectoryPages
  syncRegion answers filesPages .hashmaps hashmapPages newHashmapPages
  syncRegion answers filesPages .strings stringPages newStringPages
  modify fun s => { s with calls := s.calls + 1, syncedBytes := s.bytes }

/-- The pages that so many bytes lie in. -/
def pagesOf (bytes : Nat) : Nat := (bytes + 0xFFF) / 0x1000

def pages (s : GfsSync) (region : GfsRegion) : Nat := pagesOf (s.bytes region)

/-- A region grows into the pages behind it. The regions are 2 GiB apart. -/
def grow (region : GfsRegion) (frames : List Nat) (bytes : Nat) (s : GfsSync) : Option GfsSync :=
  if s.bytes region ≤ bytes ∧ bytes ≤ 0x80000000 ∧
      s.pages region + frames.length = pagesOf bytes then
    some { s with
      bytes := Function.update s.bytes region bytes
      mapped := s.mapped ++
        frames.mapIdx fun i frame => (region.address (s.pages region + i), frame) }
  else none

inductive GfsRequest where
  | grow (region : GfsRegion) (frames : List Nat) (bytes : Nat)
  | sync (answers : SyncIpi → Bool)

def serve (s : GfsSync) : GfsRequest → Option GfsSync
  | .grow region frames bytes => s.grow region frames bytes
  | .sync answers =>
    match sync answers s with
    | .ok _ s' => some s'
    | .error _ _ => none

end GfsSync

/-- What `GeneralFileSystem::new` starts from: the sizes of the structures, 32 pages for each
region, and the processors. -/
structure GfsMemory where
  structureSize : GfsRegion → Nat
  positive : ∀ region, 0 < structureSize region
  small : ∀ region, structureSize region ≤ 0x1000
  strings : structureSize .strings = 1
  block : GfsRegion → MemoryBlock
  processors : GfsProcessors

/-- `GeneralFileSystem::map_virtual` -/
def GfsMemory.mapVirtual (memory : GfsMemory) : List (Nat × Nat) :=
  (List.range (128 / 4)).flatMap fun i =>
    [GfsRegion.directories, .files, .hashmaps, .strings].map fun region =>
      (region.fixedVaddr + 0x1000 * i, (memory.block region).base + 0x1000 * i)

/-- The slices of `GeneralFileSystem::new` hold as many structures as fit; strings are counted
in bytes. -/
def GfsMemory.new (memory : GfsMemory) : GfsSync where
  bytes region := 0x20000 / memory.structureSize region * memory.structureSize region
  lastPageSynchronised _ := 0
  mapped := memory.mapVirtual
  processors := memory.processors
  sent := []
  calls := 0
  syncedBytes _ := 0

end EmkKernel
