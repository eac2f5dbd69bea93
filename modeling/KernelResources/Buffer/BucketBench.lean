import KernelResources.Buffer.Bucket
import KernelResources.Outcome

-- Two buckets by themselves, an empty one and one that starts with the whole pool. Indices are not known
-- to be in the pool here.

namespace KernelResources.Buffer

structure BucketBench (n : Nat) where
  fresh : Bucket n
  full : Bucket n

namespace BucketBench

variable {n : Nat}

inductive Which where
  | fresh
  | full
  deriving DecidableEq, Repr

def start (n : Nat) : BucketBench n := ⟨.empty, .holdingAll⟩

inductive Event where
  | look
  | pushFront (which : Which) (index : Nat)
  | remove (which : Which) (index : Nat)
  -- The visitor accepts everything up to `stop`.
  | walk (which : Which) (bucket : Nat) (stop : Option Nat)
  deriving Repr

inductive Answer where
  | unit
  | walked (visited : List Nat) (result : Except AuditError Unit)

abbrev Reply := Outcome Empty WordFault Answer

def get (s : BucketBench n) : Which → Bucket n
  | .fresh => s.fresh
  | .full => s.full

def set (s : BucketBench n) (which : Which) (b : Bucket n) : BucketBench n :=
  match which with
  | .fresh => { s with fresh := b }
  | .full => { s with full := b }

def change (s : BucketBench n) (which : Which) (index : Nat)
    (f : Bucket n → Fin n → Bucket n) : Reply × BucketBench n :=
  match position n index with
  | .error fault => (.halted fault, s)
  | .ok i => (.done .unit, s.set which (f (s.get which) i))

def record (stop : Option Nat) (i : Fin n) (visited : List Nat) :
    Except AuditError Unit × List Nat :=
  if stop = some i.val then (.error (.duplicate i), visited) else (.ok (), i.val :: visited)

def walk (b : Bucket n) (bucket : Nat) (stop : Option Nat) : Answer :=
  let (result, visited) := b.walk bucket (record stop) []
  .walked visited.reverse result

def advance (s : BucketBench n) : Event → Reply × BucketBench n
  | .look => (.done .unit, s)
  | .pushFront which index => s.change which index Bucket.pushFront
  | .remove which index => s.change which index Bucket.remove
  | .walk which bucket stop => (.done (walk (s.get which) bucket stop), s)

def lists (s : BucketBench n) : List (List Nat) :=
  [s.fresh, s.full].map fun b => (b.firstMembers (2 * n + 2)).map (·.val)

def walks (s : BucketBench n) : List (Except AuditError Unit) := [s.fresh.check 0, s.full.check 1]

end BucketBench

end KernelResources.Buffer
