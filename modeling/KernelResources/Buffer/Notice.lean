import KernelResources.Buffer.Block
import KernelResources.Log
import KernelResources.Task

namespace KernelResources.Buffer

inductive Direction where
  | read
  | write
  deriving DecidableEq, Repr

inductive Notice where
  | overtaken (index : Nat)
  | evicts (wanted : BlockId) (index : Nat) (evicted : BlockId)
  | takesUnused (wanted : BlockId) (index : Nat)
  | loading (b : BlockId)
  deriving DecidableEq, Repr

def BlockId.text (b : BlockId) : String := s!"dev {b.device} block {b.number}"

def Notice.line : Notice → LogLine
  | .overtaken index => ⟨.trace, s!"bget: buffer {index} was claimed during eviction, rescanning"⟩
  | .evicts wanted index evicted =>
    ⟨.debug, s!"bget: {wanted.text} evicts buffer {index} ({evicted.text})"⟩
  | .takesUnused wanted index => ⟨.debug, s!"bget: {wanted.text} takes unused buffer {index}"⟩
  | .loading b => ⟨.trace, s!"bread: loading {b.text}"⟩

inductive CacheFault where
  | noBuffers
  | writeUnheld (index : Nat) (task : TaskId)
  | releaseUnheld (index : Nat) (task : TaskId)
  | releaseUnreferenced (index : Nat)
  | unpinUnreferenced (index : Nat)
  | unpinForeign (index : Nat)
  | disk (b : BlockId)
  deriving DecidableEq, Repr

def CacheFault.message : CacheFault → String
  | .noBuffers => "bget: no buffers"
  | .writeUnheld index task => s!"bwrite: buffer {index} is not locked by {task.text}"
  | .releaseUnheld index task => s!"brelse: buffer {index} is not locked by {task.text}"
  | .releaseUnreferenced index => s!"brelse: buffer {index} is not referenced"
  | .unpinUnreferenced index => s!"bunpin: buffer {index} is not referenced"
  | .unpinForeign index => s!"bunpin: pin for buffer {index} belongs to another buffer cache"
  | .disk b => s!"disk fault: {b.text}"

end KernelResources.Buffer
