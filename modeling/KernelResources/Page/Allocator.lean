import KernelResources.Cell.WriteOnce
import KernelResources.Entries
import KernelResources.Log
import KernelResources.Operation
import KernelResources.Page.FreeList

-- The page allocator. Each core has a free list of its own behind its own spin lock; a core whose list
-- is empty takes one page from the next core after it that has any. A page on its way to a list is
-- checked, marked free and filled before the core is looked up, so a free on a core that does not exist
-- loses the page.

namespace KernelResources.Page

structure Allocator (cores : Nat) where
  ram : Ram
  frames : WriteOnce Frames
  lists : Vector FreeList cores

inductive Notice where
  | ready (frames : Frames)
  | outOfPages (core : Nat)
  | stole (core address victim : Nat)
  deriving DecidableEq, Repr

open Text in
def Notice.line : Notice → LogLine
  | .ready f =>
    ⟨.info, s!"kalloc: {f.count} pages in [{hex f.base}, {hex f.limit}), {f.tablePages} page(s) of link table"⟩
  | .outOfPages core => ⟨.debug, s!"kalloc: out of pages on core {core}"⟩
  | .stole core address victim =>
    ⟨.trace, s!"kalloc: core {core} stole page {hex address} from core {victim}"⟩

namespace Allocator

variable {cores : Nat}

inductive Act (cores : Nat) where
  | usesList (core : Fin cores)
  | tells (notice : Notice)
  deriving DecidableEq, Repr

abbrev Run (cores : Nat) (α : Type) : Type :=
  Operation (Fin cores) (Act cores) (Allocator cores) Fault α

open Operation

def start (cores : Nat) : Allocator cores := ⟨.machine, .empty, Vector.replicate cores .empty⟩

def word {α : Type} (result : Except WordFault α) : Run cores α :=
  .ofExcept (result.mapError .word)

def managed : Run cores (Option Frames) := view (·.frames.get?)

def ownList (caller : Caller) : Run cores (Fin cores) := do
  let core := (← processor).core
  if known : core < cores then return ⟨core, known⟩
  throw (.coreOutside caller core cores)

def fillPage (address : Nat) (byte : UInt8) : Run cores Unit :=
  change fun ⟨ram, frames, lists⟩ => ⟨ram.fillPage address byte, frames, lists⟩

def pushOn (frames : Frames) (core : Fin cores) (index : UInt32) : Run cores Unit :=
  holding core do
    act (.usesList core)
    attempt fun ⟨ram, cell, lists⟩ =>
      let (result, list, ram) := lists[core].push frames ram index
      (result.mapError .word, ⟨ram, cell, lists.set core list core.isLt⟩)

def popFrom (frames : Frames) (core : Fin cores) : Run cores (Option UInt32) :=
  holding core do
    act (.usesList core)
    attempt fun ⟨ram, cell, lists⟩ =>
      let (result, list, ram) := lists[core].pop frames ram
      (result.mapError .word, ⟨ram, cell, lists.set core list core.isLt⟩)

-- Checks that `address` starts a page that is handed out, and takes it out of that state.
def accept (address : Nat) : Run cores (Frames × UInt32) := do
  let some frames ← managed | throw (.freeRejected .uninitialized)
  match frames.indexOf address with
  | .error error => throw (.freeRejected error)
  | .ok index =>
    let claimed ← attempt fun ⟨ram, cell, lists⟩ =>
      let (result, ram) := frames.claim ram index address
      (result.mapError .word, ⟨ram, cell, lists⟩)
    match claimed with
    | .error error => throw (.freeRejected error)
    | .ok () => return (frames, index)

-- Puts the page at `address` on the executing core's list, wherever it came from.
def free (address : Nat) : Run cores Unit := do
  let (frames, index) ← accept address
  fillPage address freeFill
  masked do
    let core ← ownList .free
    pushOn frames core index

-- Frees `count` pages in a row from the boundary `address` on. The page at zero is passed over.
def freeRun : (count address : Nat) → Run cores Unit
  | 0, _ => pure ()
  | count + 1, address => do
    if address ≠ 0 then free address
    freeRun count (address + pageSize)

-- Frees every whole page of `[start, stop)`. The end of the page after them is computed too, and has
-- to be a word.
def freeRange (start stop : Nat) : Run cores Unit := do
  let first ← word (nextMultiple start)
  let count := (stop - first) / pageSize
  freeRun count first
  discard <| word (addWord (first + count * pageSize) pageSize)

def init (start stop : Nat) : Run cores (Except InitError Unit) := do
  if (← view (·.frames.isInitialized)) then return .error .alreadyInitialized
  match ← word (Frames.plan start stop) with
  | .error error => return .error error
  | .ok frames =>
    change fun ⟨ram, _, lists⟩ => ⟨frames.mark ram, ⟨some frames⟩, lists⟩
    act (.tells (.ready frames))
    freeRange frames.base frames.limit
    return .ok ()

-- The cores after `core`, in the order in which it asks them for a page.
def victims (core : Fin cores) : List (Fin cores) :=
  (List.range (cores - 1)).map fun i =>
    ⟨(core + (i + 1)) % cores, Nat.mod_lt _ (Nat.zero_lt_of_lt core.isLt)⟩

def stealFrom (frames : Frames) (core : Fin cores) :
    List (Fin cores) → Run cores (Option UInt32)
  | [] => pure none
  | victim :: rest => do
    match ← popFrom frames victim with
    | some index =>
      act (.tells (.stole core (frames.page index) victim))
      return some index
    | none => stealFrom frames core rest

def take (frames : Frames) (core : Fin cores) : Run cores (Option UInt32) := do
  match ← popFrom frames core with
  | some index => return some index
  | none => stealFrom frames core (victims core)

def alloc : Run cores (Option Nat) := do
  let some frames ← managed | return none
  masked do
    let core ← ownList .alloc
    match ← take frames core with
    | none =>
      act (.tells (.outOfPages core))
      return none
    | some index =>
      fillPage (frames.page index) allocFill
      return some (frames.page index)

def freePages (id : Nat) : Run cores Nat :=
  masked do
    if known : id < cores then
      let core : Fin cores := ⟨id, known⟩
      holding core (view fun a => a.lists[core].length)
    else throw (.coreOutside .freePages id cores)

def sumFree : List Nat → Run cores Nat
  | [] => pure 0
  | id :: rest => do return (← freePages id) + (← sumFree rest)

def totalFree : Run cores Nat := sumFree (List.range cores)

def capacity (a : Allocator cores) : Nat :=
  match a.frames.get? with
  | some frames => frames.count
  | none => 0

def isFree (a : Allocator cores) (address : Nat) : Bool :=
  match a.frames.get? with
  | some frames => frames.isFree a.ram address
  | none => false

end Allocator

end KernelResources.Page
