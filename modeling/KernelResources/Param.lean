namespace KernelResources

def pageSize : Nat := 4096

def pageShift : Nat := 12

def kernelBase : Nat := 0x80000000

def memoryTop : Nat := kernelBase + 128 * 1024 * 1024

-- Most processing cores a machine has.
def coreLimit : Nat := 8

-- Most blocks that one file system operation writes.
def blocksPerOperation : Nat := 10

def defaultBuffers : Nat := blocksPerOperation * 3

-- Prime, so that strided block numbers spread over the buckets.
def bucketCount : Nat := 13

def blockSize : Nat := 1024

-- A stale reference into a freed page reads this byte.
def freeFill : UInt8 := 0x01

-- A page comes out of the allocator full of this byte.
def allocFill : UInt8 := 0x05

theorem pageSize_eq_shift : pageSize = 1 <<< pageShift := rfl

theorem kernelBase_aligned : kernelBase % pageSize = 0 := rfl

theorem memoryTop_aligned : memoryTop % pageSize = 0 := rfl

end KernelResources
