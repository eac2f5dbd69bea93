import KernelResources.Entries
import KernelResources.Param

-- Physical memory: whole pages of bytes from a base address on. `byte` is the view through which every
-- write is described; words are four bytes with the lowest first.

namespace KernelResources

-- What a page holds. A page that was just filled is kept as its one byte.
inductive PageBytes where
  | uniform (byte : UInt8)
  | mixed (bytes : Vector UInt8 pageSize)

namespace PageBytes

def get (p : PageBytes) (offset : Fin pageSize) : UInt8 :=
  match p with
  | uniform byte => byte
  | mixed bytes => bytes[offset]

def set (p : PageBytes) (offset : Fin pageSize) (byte : UInt8) : PageBytes :=
  match p with
  | uniform old => if byte = old then p else mixed ((Vector.replicate pageSize old).set offset byte offset.isLt)
  | mixed bytes => mixed (bytes.set offset byte offset.isLt)

theorem get_set (p : PageBytes) (i j : Fin pageSize) (byte : UInt8) :
    (p.set i byte).get j = if i = j then byte else p.get j := by
  cases p with
  | uniform old =>
    unfold set
    simp only
    split
    · rename_i same
      simp [get, same]
    · simp [get, entry_set]
  | mixed bytes => simp [set, get, entry_set]

end PageBytes

structure Ram where
  base : Nat
  pages : Array PageBytes

namespace Ram

def zeroed (base count : Nat) : Ram := ⟨base, Array.replicate count (.uniform 0)⟩

def machine : Ram := zeroed kernelBase ((memoryTop - kernelBase) / pageSize)

def limit (r : Ram) : Nat := r.base + r.pages.size * pageSize

def covers (r : Ram) (address length : Nat) : Bool :=
  r.base ≤ address && address + length ≤ r.limit

def offset (r : Ram) (address : Nat) : Fin pageSize :=
  ⟨(address - r.base) % pageSize, Nat.mod_lt _ (by decide)⟩

-- The byte at an address; there is nothing but zero outside memory.
def byte (r : Ram) (address : Nat) : UInt8 :=
  if address < r.base then 0
  else match r.pages[(address - r.base) / pageSize]? with
    | some page => page.get (r.offset address)
    | none => 0

def setByte (r : Ram) (address : Nat) (byte : UInt8) : Ram :=
  if address < r.base then r
  else
    let ⟨base, pages⟩ := r
    let offset : Fin pageSize := ⟨(address - base) % pageSize, Nat.mod_lt _ (by decide)⟩
    ⟨base, pages.modify ((address - base) / pageSize) (·.set offset byte)⟩

def fillPage (r : Ram) (address : Nat) (byte : UInt8) : Ram :=
  if address < r.base then r
  else
    let ⟨base, pages⟩ := r
    ⟨base, pages.modify ((address - base) / pageSize) fun _ => .uniform byte⟩

def setBytes (r : Ram) (address : Nat) : List UInt8 → Ram
  | [] => r
  | byte :: rest => (r.setByte address byte).setBytes (address + 1) rest

def bytes (r : Ram) (address length : Nat) : List UInt8 :=
  (List.range length).map fun i => r.byte (address + i)

def word (r : Ram) (address : Nat) : UInt32 :=
  UInt32.ofNat ((r.byte address).toNat + 0x100 * (r.byte (address + 1)).toNat
    + 0x10000 * (r.byte (address + 2)).toNat + 0x1000000 * (r.byte (address + 3)).toNat)

def setWord (r : Ram) (address : Nat) (word : UInt32) : Ram :=
  let n := word.toNat
  (((r.setByte address (UInt8.ofNat n)).setByte (address + 1) (UInt8.ofNat (n / 0x100))).setByte
    (address + 2) (UInt8.ofNat (n / 0x10000))).setByte (address + 3) (UInt8.ofNat (n / 0x1000000))

def setWords (r : Ram) (address : Nat) (word : UInt32) : Nat → Ram
  | 0 => r
  | count + 1 => (r.setWord address word).setWords (address + 4) word count

end Ram

end KernelResources
