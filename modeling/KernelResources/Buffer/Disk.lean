import KernelResources.Buffer.Block
import KernelResources.Registry
import KernelResources.Task

namespace KernelResources.Buffer

-- A disk whose blocks have an initial content. It may fail a transfer for one task and not for the next,
-- and what it fails changes at any time between two steps.
structure Disk where
  initial : BlockId → Block
  written : Registry BlockId Block
  failing : TaskId → BlockId → Bool

namespace Disk

def start (initial : BlockId → Block) : Disk := ⟨initial, [], fun _ _ => false⟩

def written? (d : Disk) (b : BlockId) : Option Block := d.written.find? b

def content (d : Disk) (b : BlockId) : Block := (d.written? b).getD (d.initial b)

def fails (d : Disk) (task : TaskId) (b : BlockId) : Bool := d.failing task b

def write (d : Disk) (b : BlockId) (block : Block) : Disk :=
  { d with written := d.written.put b block }

theorem content_write (d : Disk) (b other : BlockId) (block : Block) :
    (d.write b block).content other = if other = b then block else d.content other := by
  by_cases same : other = b <;>
    simp [content, written?, write, Registry.find?_put, same]

def setFailing (d : Disk) (who : Option TaskId) (b : BlockId) (on : Bool) : Disk :=
  { d with failing := fun task other =>
      if other = b && who.all (· = task) then on else d.failing task other }

-- Before the first write every byte of a block tells its device and number.
def patterned : Disk := start fun b => Block.filled (UInt8.ofNat (b.device * 37 + b.number).toNat)

def zeroed : Disk := start fun _ => Block.filled 0

end Disk

structure Clock where
  now : UInt64
  step : UInt64
  deriving DecidableEq, Repr

namespace Clock

def start : Clock := ⟨0, 1⟩

def read (c : Clock) : UInt64 × Clock := (c.now, { c with now := c.now + c.step })

-- The stamp of a release at time `t`. It is above zero, which stands for never, and stops at the
-- largest word.
def stamp (t : UInt64) : UInt64 := if t + 1 = 0 then t else t + 1

end Clock

end KernelResources.Buffer
