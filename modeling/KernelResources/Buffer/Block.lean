import KernelResources.Param

namespace KernelResources.Buffer

structure BlockId where
  device : UInt32
  number : UInt32
  deriving DecidableEq, Repr

-- Blocks are spread over the buckets by their number alone.
def BlockId.bucket (b : BlockId) : Fin bucketCount :=
  ⟨b.number.toNat % bucketCount, Nat.mod_lt _ (by decide)⟩

abbrev Block : Type := Vector UInt8 blockSize

namespace Block

def filled (byte : UInt8) : Block := Vector.replicate blockSize byte

-- Overwrites bytes from `offset` on; what reaches past the end is cut off.
def overwrite (block : Block) (offset : Nat) : List UInt8 → Block
  | [] => block
  | byte :: rest => overwrite (block.setIfInBounds offset byte) (offset + 1) rest

def counter (block : Block) : UInt64 :=
  ((block.toList.take 8).reverse).foldl (fun n byte => n * 256 + byte.toUInt64) 0

def counterBytes (n : UInt64) : List UInt8 :=
  (List.range 8).map fun i => UInt8.ofNat (n.toNat >>> (8 * i))

end Block

end KernelResources.Buffer
