import EmkKernel.Drivers.Disk

/-!
# Physical region pages

`NVMeController::construct_prp`: the pages of a transfer are given to the controller as two
pointers, the second of which may point to a chain of list pages. What the function stores
is a list of words with their addresses, in order.
-/

namespace EmkKernel

/-- The result of `construct_prp`, and its stores. -/
structure Prps where
  prp1 : Nat
  prp2 : Nat
  list : Option MemoryBlock
  stores : List (Nat × Nat)

namespace NVMeController

/-- `n` entries from index `j` on: the stores, and the address behind the last page. -/
def writeEntries (array alignedAddress j : Nat) : Nat → Option (List (Nat × Nat) × Nat)
  | 0 => some ([], alignedAddress)
  | n + 1 => do
    let next ← sumU64 alignedAddress 0x1000
    let rest ← writeEntries array next (j + 1) n
    some ((array + 8 * j, alignedAddress) :: rest.1, rest.2)

/-- The loop over the tables: the stores, the table behind them, and the address behind the
last page. -/
def writeTables (baseAddress alignedAddress : Nat) : Nat → Option (List (Nat × Nat) × Nat × Nat)
  | 0 => some ([], baseAddress, alignedAddress)
  | depth + 1 => do
    let entries ← writeEntries baseAddress alignedAddress 0 511
    let next ← sumU64 baseAddress 0x1000
    let rest ← writeTables next entries.2 depth
    some (entries.1 ++ (baseAddress + 8 * 511, next) :: rest.1, rest.2)

/-- The loop behind the tables; its index does not move. -/
def writeLast (array n alignedAddress : Nat) : Nat → Option (List (Nat × Nat))
  | 0 => some []
  | count + 1 => do
    let next ← sumU64 alignedAddress 0x1000
    let rest ← writeLast array n next count
    some ((array + 8 * n, alignedAddress) :: rest)

/-- How many tables there are, and how many entries behind them. -/
def tablesFor (p : Nat) : Nat × Nat :=
  if p = 511 * (p - 511) / 511 + 512 then ((p - 511) / 511, 512)
  else (p / 511, p - p / 511 * 511)

/-- `construct_prp`, with the allocator afterwards; `none` is a panic. -/
def constructPrp (allocator : Allocator) (bytes address : Nat) : Option (Prps × Allocator) := do
  let alignedAddress := address / 0x1000 * 0x1000
  let offset := address % 0x1000
  let tookSize := 0x1000 - offset
  if bytes > tookSize then
    if 0x1000 ≥ bytes - tookSize then
      let prp2 ← sumU64 alignedAddress 0x1000
      some (⟨address, prp2, none, []⟩, allocator)
    else
      let p := (bytes - tookSize) / 0x1000 + if (bytes - tookSize) % 0x1000 ≠ 0 then 1 else 0
      let alignedAddress ← sumU64 alignedAddress 0x1000
      if p > 512 then
        let depth := (tablesFor p).1
        let n := (tablesFor p).2
        match (allocator.alloc (depth % 2 ^ 16)).value with
        | (.error _, _) => none
        | (.ok tables, allocator) =>
          let written ← writeTables tables.base alignedAddress depth
          let last ← writeLast written.2.1 n written.2.2 n
          some (⟨address, tables.base, some tables, written.1 ++ last⟩, allocator)
      else
        match (allocator.alloc 1).value with
        | (.error _, _) => none
        | (.ok table, allocator) =>
          let written ← writeEntries table.base alignedAddress 0 p
          some (⟨address, table.base, some table, written.1⟩, allocator)
  else
    some (⟨address, 0, none, []⟩, allocator)

end NVMeController

end EmkKernel
