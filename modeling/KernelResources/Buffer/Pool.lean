import KernelResources.Buffer.Bucket
import KernelResources.Buffer.Disk
import KernelResources.Lock.Sleep

-- The buffers of a cache and the buckets they are on. A buffer is on the bucket of its block's number
-- once it carries a block, and on the first bucket before.

namespace KernelResources.Buffer

structure Slot where
  -- The block is without meaning until the buffer is mapped for the first time.
  block : BlockId
  mapped : Bool
  refs : UInt32
  -- Zero stands for never.
  released : UInt64
  -- Whether the bytes are those of the block.
  valid : Bool
  data : SleepLock Block

namespace Slot

def fresh : Slot := ⟨⟨0, 0⟩, false, 0, 0, false, .named "buffer" (.filled 0)⟩

def holds (s : Slot) (b : BlockId) : Bool := s.mapped && s.block == b

def home (s : Slot) : Fin bucketCount := if s.mapped then s.block.bucket else ⟨0, by decide⟩

-- The buffer starts over for another block, with one reference. Its bytes and its last release stay
-- as they are.
def retag (s : Slot) (b : BlockId) : Slot :=
  { s with block := b, mapped := true, valid := false, refs := 1 }

def setBytes (s : Slot) (bytes : Block) : Slot := { s with data := s.data.setData bytes }

end Slot

structure Pool (n : Nat) where
  slots : Vector Slot n
  buckets : Vector (Bucket n) bucketCount

namespace Pool

variable {n : Nat}

def start (n : Nat) : Pool n where
  slots := Vector.replicate n .fresh
  buckets := Vector.ofFn fun b => if b.val = 0 then .holdingAll else .empty

def updateSlot (p : Pool n) (i : Fin n) (f : Slot → Slot) : Pool n :=
  { p with slots := p.slots.set i (f p.slots[i]) i.isLt }

def updateBucket (p : Pool n) (b : Fin bucketCount) (f : Bucket n → Bucket n) : Pool n :=
  { p with buckets := p.buckets.set b (f p.buckets[b]) b.isLt }

@[simp] theorem buckets_updateSlot (p : Pool n) (i : Fin n) (f : Slot → Slot) :
    (p.updateSlot i f).buckets = p.buckets := rfl

@[simp] theorem slots_updateBucket (p : Pool n) (b : Fin bucketCount) (f : Bucket n → Bucket n) :
    (p.updateBucket b f).slots = p.slots := rfl

theorem slot_updateSlot (p : Pool n) (i j : Fin n) (f : Slot → Slot) :
    (p.updateSlot i f).slots[j] = if i = j then f p.slots[i] else p.slots[j] := by
  simp [updateSlot, entry_set]

theorem bucket_updateBucket (p : Pool n) (b c : Fin bucketCount) (f : Bucket n → Bucket n) :
    (p.updateBucket b f).buckets[c] = if b = c then f p.buckets[b] else p.buckets[c] := by
  simp [updateBucket, entry_set]

def find? (p : Pool n) (b : BlockId) : Option (Fin n) :=
  p.buckets[b.bucket].members.find? fun i => p.slots[i].holds b

-- Of two unreferenced buffers the one released longer ago, and the earlier one if neither was.
def older (p : Pool n) (best : Option (Fin n)) (i : Fin n) : Option (Fin n) :=
  if p.slots[i].refs ≠ 0 then best
  else match best with
    | none => some i
    | some oldest => if p.slots[i].released < p.slots[oldest].released then some i else best

def leastRecentlyReleased (p : Pool n) : Option (Fin n) := (List.finRange n).foldl p.older none

end Pool

end KernelResources.Buffer
