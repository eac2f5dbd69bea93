import KernelResources.Outcome
import KernelResources.Page.FreeList

-- Free lists by themselves, over a managed range without an allocator around it. Nothing is checked
-- here, so that pages can be put on two lists or taken off none.

namespace KernelResources.Page

structure ListBench where
  frames : Frames
  ram : Ram
  lists : Array FreeList

namespace ListBench

inductive Start where
  | refused (why : Refusal)
  | halted (fault : WordFault)
  | rejected (error : InitError)
  | ready (bench : ListBench)

def start (first stop lists : Nat) : Start :=
  if leavesRam .machine first stop then .refused .notInRam
  else match Frames.plan first stop with
    | .error fault => .halted fault
    | .ok (.error error) => .rejected error
    | .ok (.ok frames) => .ready ⟨frames, frames.mark .machine, Array.replicate lists .empty⟩

inductive Event where
  | indexOf (address : Nat)
  | claim (index : UInt32) (address : Nat)
  | isAllocated (index : UInt32)
  | page (index : UInt32)
  | push (list : Nat) (index : UInt32)
  | pop (list : Nat)
  deriving Repr

inductive Answer where
  | unit
  | index (index : Option UInt32)
  | flag (b : Bool)
  | address (address : Nat)
  deriving DecidableEq, Repr

abbrev Reply := Outcome FreeError WordFault Answer

def advance (b : ListBench) : Event → Reply × ListBench
  | .indexOf address => (.map (.index ∘ some) (.ofExcept (b.frames.indexOf address)), b)
  | .claim index address =>
    let ⟨frames, ram, lists⟩ := b
    match frames.claim ram index address with
    | (.ok result, ram) => (.map (fun _ => .unit) (.ofExcept result), ⟨frames, ram, lists⟩)
    | (.error fault, ram) => (.halted fault, ⟨frames, ram, lists⟩)
  | .isAllocated index => (.map .flag (.ofRun (b.frames.isAllocated b.ram index)), b)
  | .page index =>
    if index.toNat < b.frames.count then (.done (.address (b.frames.page index)), b)
    else (.refused .outsideRange, b)
  | .push number index =>
    let ⟨frames, ram, lists⟩ := b
    match position lists.size number with
    | .error fault => (.halted fault, ⟨frames, ram, lists⟩)
    | .ok which =>
      let (result, list, ram) := lists[which].push frames ram index
      (.map (fun _ => .unit) (.ofRun result), ⟨frames, ram, lists.set which list⟩)
  | .pop number =>
    let ⟨frames, ram, lists⟩ := b
    match position lists.size number with
    | .error fault => (.halted fault, ⟨frames, ram, lists⟩)
    | .ok which =>
      let (result, list, ram) := lists[which].pop frames ram
      (.map .index (.ofRun result), ⟨frames, ram, lists.set which list⟩)

def links (b : ListBench) : List UInt32 :=
  (List.range (min 16 b.frames.count)).map fun i => b.ram.word (b.frames.table + i * linkSize)

def lengths (b : ListBench) : List Nat := b.lists.toList.map (·.length)

end ListBench

end KernelResources.Page
