import KernelResources.Page.Error
import KernelResources.Page.Ram
import KernelResources.Page.Rounding

-- The managed range. The pages at its bottom hold the link table, one word for each page above them:
--
--     table            base                                     limit
--     | link words ... | page 0   | page 1   | page 2   | ...   |
--
-- A link word is `allocated` while its page is handed out. Otherwise it is the index of the next free
-- page of a list, or `listEnd`.

namespace KernelResources.Page

def listEnd : UInt32 := 0xFFFFFFFE

def allocated : UInt32 := 0xFFFFFFFF

def linkSize : Nat := 4

structure Frames where
  table : Nat
  tablePages : Nat
  count : Nat
  base : Nat
  limit : Nat
  deriving DecidableEq, Repr

namespace Frames

def tablePagesFor (total : Nat) : Nat := (total * linkSize + pageSize - 1) / pageSize

-- Splits `[start, stop)`, table first; what is left of a page at either end is not used.
def plan (start stop : Nat) : Except WordFault (Except InitError Frames) := do
  let first ← roundUp start
  let last := roundDown stop
  if last ≤ first then return .error (.empty start stop)
  let total := (last - first) / pageSize
  let tablePages := tablePagesFor total
  let count := total - tablePages
  if count = 0 then return .error (.empty start stop)
  if listEnd.toNat ≤ count then return .error (.tooLarge count)
  return .ok ⟨first, tablePages, count, first + tablePages * pageSize, last⟩

def mark (f : Frames) (ram : Ram) : Ram := ram.setWords f.table allocated f.count

def linkAddress (f : Frames) (index : UInt32) : Nat := f.table + index.toNat * linkSize

def link (f : Frames) (ram : Ram) (index : UInt32) : Except WordFault UInt32 :=
  if index.toNat < f.count then .ok (ram.word (f.linkAddress index))
  else .error (.outOfBounds f.count index.toNat)

def setLink (f : Frames) (ram : Ram) (index link : UInt32) : Ram :=
  ram.setWord (f.linkAddress index) link

def page (f : Frames) (index : UInt32) : Nat := f.base + index.toNat * pageSize

def indexOf (f : Frames) (address : Nat) : Except FreeError UInt32 :=
  if address % pageSize ≠ 0 then .error (.misaligned address)
  else if address < f.base then .error (.belowRange address f.base)
  else if f.limit ≤ address then .error (.aboveRange address f.limit)
  else .ok (UInt32.ofNat ((address - f.base) / pageSize))

def isAllocated (f : Frames) (ram : Ram) (index : UInt32) : Except WordFault Bool := do
  return (← f.link ram index) == allocated

-- Takes a page out of the allocated state, ahead of putting it on a list.
def claim (f : Frames) (ram : Ram) (index : UInt32) (address : Nat) :
    Except WordFault (Except FreeError Unit) × Ram :=
  match f.link ram index with
  | .error fault => (.error fault, ram)
  | .ok link =>
    if link = allocated then (.ok (.ok ()), f.setLink ram index listEnd)
    else (.ok (.error (.doubleFree address)), ram)

def isFree (f : Frames) (ram : Ram) (address : Nat) : Bool :=
  match f.indexOf address with
  | .error _ => false
  | .ok index => match f.isAllocated ram index with
    | .ok handedOut => !handedOut
    | .error _ => false

end Frames

def wholePages (start stop : Nat) : Except WordFault (Nat × Nat) := do
  let first ← roundUp start
  return (first, (roundDown stop - first) / pageSize)

-- From this number on, the pages beside the table are too many for 32-bit links.
def pageLimit : Nat := 4299165699

-- Whether splitting the range would write link words outside memory. Ranges that are refused before
-- any word is written are not among them.
def leavesRam (ram : Ram) (start stop : Nat) : Bool :=
  match wholePages start stop with
  | .error _ => false
  | .ok (first, pages) => 1 < pages && pages < pageLimit && !ram.covers first (pages * pageSize)

end KernelResources.Page
