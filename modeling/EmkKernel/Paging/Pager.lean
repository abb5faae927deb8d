import EmkKernel.Paging.PointerTable
import Mathlib.Data.List.FinRange

/-!
# The pager

`hal::memory::pager::Pager`: four levels of tables under `cr3`. Where the source
returns an error, so does the computation, in the state the error left behind.
-/

namespace EmkKernel

structure Page where
  physical : BitVec 64
  virt : Nat
  deriving DecidableEq, Repr

/-- The indices of an address in the four levels of tables. -/
structure Address where
  pdp : Index
  pd : Index
  pt : Index
  page : Index
  deriving DecidableEq, Repr

structure Pager where
  cr3 : BitVec 64

inductive ExecutionMode where
  | kernel
  | process
  deriving DecidableEq, Repr

/-- A sum in `u64`. -/
def addU64 (a b : Nat) : PagerM Nat :=
  if a + b < 2 ^ 64 then pure (a + b) else throw .panic

/-- `Option::unwrap`. -/
def unwrap {α : Type} : Option α → PagerM α
  | some a => pure a
  | none => throw .panic

namespace Pager

def intoAddress (pdp pd pt page : Index) : Nat :=
  page.val * 0x1000 + pt.val * pager2Mib + pd.val * pager1Gib + pdp.val * pager512Gib

def translate (virt : Nat) : Address where
  page := Fin.ofNat 512 (virt / 0x1000)
  pt := Fin.ofNat 512 (virt / 0x1000 / 512)
  pd := Fin.ofNat 512 (virt / 0x1000 / 512 / 512)
  pdp := Fin.ofNat 512 (virt / 0x1000 / 512 / 512 / 512)

variable (self : Pager)

/-- The two levels of `get_pd_allocated` share this: the entry gets a table if it
has none, and `RW` if the mapping asks for it. -/
def makeWritable (pt : PointerTable) (flags : Flags) : PagerM PointerTable := do
  let (_, pt) ← pt.allocateIfNecessary
  let readFlags ← pt.readFlags
  if flags.any pagerRw ∧ readFlags.any pagerRw = false then
    let entry ← load pt.location
    store pt.location (entry ||| pagerRw.setWidth 64)
    pure pt
  else
    pure pt

def getPdAllocated (address : Address) (flags : Flags) : PagerM PointerTable := do
  let pdpt ← PointerTable.new .pdpt self.cr3 address.pdp flags
  let pdpt ← makeWritable pdpt flags
  match ← pdpt.instantiate address.pd with
  | none => throw (.err .pagingError)
  | some pd =>
    let active ← pd.pageSizeActive
    if active then
      throw (.err .invalidActivateFlags)
    else
      makeWritable pd flags

def getPdUnallocated (address : Address) (flags : Flags) : PagerM PointerTable := do
  let pdpt ← PointerTable.new .pdpt self.cr3 address.pdp flags
  let present ← pdpt.isPresent
  if present then
    match ← pdpt.instantiate address.pd with
    | none => throw (.err .pagingError)
    | some pd =>
      let present ← pd.isPresent
      if present then
        let active ← pd.pageSizeActive
        if active then throw (.err .invalidActivateFlags) else pure pd
      else
        throw (.err .pagingError)
  else
    throw (.err .pagingError)

def page4Kb (virt : Nat) (physical : BitVec 64) (flags : Flags) : PagerM Page := do
  if virt % 0x1000 ≠ 0 ∨ physical &&& 0xFFF ≠ 0 then
    throw (.err .invalidAddress)
  else
    let patUsed := flags.any pagerPat
    let flags := if patUsed then flags ^^^ pagerPat else flags
    if flags.any 0xF0A0 then
      throw (.err .invalidFlags)
    else
      let address := translate virt
      let pd ← self.getPdAllocated address flags
      match ← pd.instantiate address.pt with
      | none => throw (.err .pagingError)
      | some pt =>
        let active ← pt.pageSizeActive
        if active then
          let pt ← pt.unfold
          let flags := if patUsed then flags ^^^ pagerPat2 else flags
          store ⟨pt.address, address.page⟩ (Entry.pack physical flags)
          pure ⟨physical, virt⟩
        else
          let flags := if patUsed then flags ^^^ pagerPat2 else flags
          let (_, pt) ← pt.allocateIfNecessary
          store ⟨pt.address, address.page⟩ (Entry.pack physical flags)
          pure ⟨physical, virt⟩

def unpage4K (virt : Nat) : PagerM Unit := do
  if virt % 0x1000 ≠ 0 then
    throw (.err .invalidAddress)
  else
    let address := translate virt
    let pd ← self.getPdUnallocated address pagerPresent
    match ← pd.instantiate address.pt with
    | none => throw (.err .pagingError)
    | some pt =>
      let active ← pt.pageSizeActive
      if active then
        throw (.err .invalidActivateFlags)
      -- a store through a null pointer panics
      else if pt.address = 0 ∧ address.page.val = 0 then
        throw .panic
      else
        store ⟨pt.address, address.page⟩ 0

def page2Mb (virt : Nat) (physical : BitVec 64) (flags : Flags) : PagerM Page := do
  if virt % 0x100000 ≠ 0 ∨ physical &&& 0xFFFFF ≠ 0 then
    throw (.err .invalidAddress)
  else if flags.any 0xF0A0 then
    throw (.err .invalidFlags)
  else
    let address := translate virt
    let pd ← self.getPdAllocated address flags
    match ← pd.instantiate address.pt with
    | none => throw (.err .allocationError)
    | some pt =>
      let active ← pt.pageSizeActive
      if active then
        let _ ← pt.setNewAddress physical
        pure ⟨physical, virt⟩
      else
        let allocated ← pt.isAllocated
        let pt ← if allocated then pt.deallocate else pure pt
        let pt := { pt with flags := pt.flags ||| pagerPageSize }
        let _ ← pt.setNewAddress physical
        pure ⟨physical, virt⟩

def getPhysical (virt : Nat) : PagerM (BitVec 64) := do
  if virt % 0x1000 ≠ 0 then
    throw (.err .invalidAddress)
  else
    let address := translate virt
    let top ← load ⟨self.cr3, address.pdp⟩
    let pd ← self.getPdUnallocated address top.flags
    match ← pd.instantiate address.pt with
    | none => throw (.err .pagingError)
    | some pt =>
      let active ← pt.pageSizeActive
      if active then
        pure pt.address
      else
        let entry ← load ⟨pt.address, address.page⟩
        pure (entry &&& ~~~0xFFF)

/-- The common body of `deactivate`, `activate` and `switch_permission`, which
differ in how they change the flags of a large page and the entry of a small one. -/
def editPage (virt : Nat) (editFlags : Flags → Flags) (editEntry : Entry → Entry) :
    PagerM Unit := do
  if virt % 0x1000 ≠ 0 then
    throw (.err .invalidAddress)
  else
    let address := translate virt
    let top ← load ⟨self.cr3, address.pdp⟩
    let pd ← self.getPdUnallocated address top.flags
    match ← pd.instantiate address.pt with
    | none => throw (.err .pagingError)
    | some pt =>
      let active ← pt.pageSizeActive
      if active then
        store pt.location (Entry.pack pt.address (editFlags pt.flags))
      else
        let entry ← load ⟨pt.address, address.page⟩
        store ⟨pt.address, address.page⟩ (editEntry entry)

def deactivate (virt : Nat) : PagerM Unit :=
  self.editPage virt (fun flags => flags &&& ~~~1) (fun entry => entry &&& ~~~1)

def activate (virt : Nat) : PagerM Unit :=
  self.editPage virt (fun flags => flags ||| 1) (fun entry => entry ||| 1)

def switchPermission (virt : Nat) : PagerM Unit :=
  self.editPage virt (fun flags => flags ^^^ pagerUs)
    (fun entry => entry ^^^ pagerUs.setWidth 64)

/-- The flags that `is_suited_for` asks for. -/
def suitedFlags (write : Bool) (executionMode : ExecutionMode) : Flags :=
  let flags : Flags := 1
  let flags := if write then flags ||| pagerRw else flags
  match executionMode with
  | .process => flags ||| pagerUs
  | .kernel => flags

def isSuitedFor (virt : Nat) (write : Bool) (executionMode : ExecutionMode) : PagerM Bool := do
  if virt % 0x1000 ≠ 0 then
    pure false
  else
    let address := translate virt
    let flags := suitedFlags write executionMode
    let pdpt ← PointerTable.new .pdpt self.cr3 address.pdp 0
    let readFlags ← pdpt.readFlags
    if readFlags &&& flags ≠ flags then
      pure false
    else
      match ← pdpt.instantiate address.pd with
      | none => pure false
      | some pdt =>
        let readFlags ← pdt.readFlags
        if readFlags &&& flags ≠ flags then
          pure false
        else
          let active ← pdt.pageSizeActive
          if active then
            pure true
          else
            match ← pdt.instantiate address.pt with
            | none => pure false
            | some pt =>
              let readFlags ← pt.readFlags
              if readFlags &&& flags ≠ flags then
                pure false
              else
                let page ← load ⟨pt.address, address.page⟩
                pure (decide (page.setWidth 16 &&& flags = flags))

/-- The loops of `MemoryBlock::map` and `map_efficient` over small pages. -/
def mapPages (vaddr paddr start : Nat) (flags : Flags) (pages : Nat) : PagerM Unit :=
  (List.range pages).forM fun i => do
    let vaddr ← addU64 vaddr (start + i * 0x1000)
    let paddr ← addU64 paddr (start + i * 0x1000)
    let _ ← self.page4Kb vaddr (BitVec.ofNat 64 paddr) flags
    pure ()

/-- `MemoryBlock::map`. -/
def map (mb : MemoryBlock) (vaddr : Nat) (flags : Flags) : PagerM Unit :=
  self.mapPages vaddr mb.base 0 flags (mb.length / 0x1000)

/-- `MemoryBlock::map_efficient`. -/
def mapEfficient (mb : MemoryBlock) (vaddr : Nat) (flags : Flags) : PagerM Unit := do
  let offsetIntoHugePage := mb.base % pager2Mib / 0x1000
  let pagesRequired := 512 - offsetIntoHugePage
  let pages4K := mb.length / 0x1000 + if mb.length % 0x1000 ≠ 0 then 1 else 0
  if pagesRequired > pages4K then
    self.mapPages vaddr mb.base 0 flags pages4K
  else
    self.mapPages vaddr mb.base 0 flags pagesRequired
    let pages2Mib := (pages4K - pagesRequired) / 512
    (List.range pages2Mib).forM fun i => do
      let vaddr ← addU64 vaddr (pagesRequired * 0x1000 + i * pager2Mib)
      let paddr ← addU64 mb.base (pagesRequired * 0x1000 + i * pager2Mib)
      let _ ← self.page2Mb vaddr (BitVec.ofNat 64 paddr) flags
      pure ()
    let rem := pages4K - (pagesRequired + pages2Mib * 512)
    self.mapPages vaddr mb.base (pagesRequired * 0x1000 + pages2Mib * pager2Mib) flags rem

-- irreducible, so that no proof runs the loops by accident
@[irreducible] def bindOther (base : Nat) (other : Pager) : PagerM Unit :=
  (List.finRange 512).forM fun pdpi => do
    let top ← load ⟨other.cr3, pdpi⟩
    let pdpt ← PointerTable.new .pdpt other.cr3 pdpi top.flags
    if pdpt.flags.any pagerPresent = false then
      pure ()
    else
      (List.finRange 512).forM fun pdi => do
        let pdt ← unwrap (← pdpt.instantiate pdi)
        let readFlags ← pdt.readFlags
        if readFlags.any pagerPresent = false then
          pure ()
        else
          (List.finRange 512).forM fun pti => do
            let pt ← unwrap (← pdt.instantiate pti)
            let readFlags ← pt.readFlags
            if readFlags.any pagerPresent = false then
              pure ()
            else
              let active ← pt.pageSizeActive
              if active then
                let vaddr ← addU64 base (intoAddress pdpi pdi pti 0)
                if vaddr % pager2Mib = 0 then
                  let _ ← self.page2Mb vaddr pt.address readFlags
                  pure ()
                else
                  self.mapEfficient ⟨pt.address.toNat, pager2Mib⟩ vaddr readFlags
              else
                (List.finRange 512).forM fun pi => do
                  let raw ← load ⟨pt.address, pi⟩
                  if raw.any pagerPresent = false then
                    pure ()
                  else
                    let vaddr ← addU64 base (intoAddress pdpi pdi pti pi)
                    let _ ← self.page4Kb vaddr raw.address raw.flags
                    pure ()

@[irreducible] def release : PagerM Unit := do
  (List.finRange 512).forM fun pdpi => do
    let top ← load ⟨self.cr3, pdpi⟩
    let pdpt ← PointerTable.new .pdpt self.cr3 pdpi top.flags
    if pdpt.flags.any pagerStabAllocated = false then
      pure ()
    else
      (List.finRange 512).forM fun pdi => do
        let pdt ← unwrap (← pdpt.instantiate pdi)
        let readFlags ← pdt.readFlags
        if readFlags.any pagerStabAllocated = false then
          pure ()
        else
          (List.finRange 512).forM fun pti => do
            let pt ← unwrap (← pdt.instantiate pti)
            let allocated ← pt.isAllocated
            if allocated then
              let _ ← pt.deallocate
              pure ()
            else
              pure ()
          let _ ← pdt.deallocate
          pure ()
      let _ ← pdpt.deallocate
      pure ()
  freeBlock ⟨self.cr3.toNat, 0x1000⟩

end Pager

end EmkKernel
