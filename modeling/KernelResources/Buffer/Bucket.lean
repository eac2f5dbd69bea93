import KernelResources.Buffer.AuditError
import KernelResources.Entries
import KernelResources.Fault

-- Hash buckets: doubly linked lists of buffer indices. Every bucket has links for the whole pool, so a
-- buffer's links are always those of the bucket it is on. Membership is not checked; on a bucket that
-- is misused the links say what they say, and `walk` reports it.

namespace KernelResources.Buffer

structure Bucket (n : Nat) where
  head : Option (Fin n)
  next : Vector (Option (Fin n)) n
  prev : Vector (Option (Fin n)) n

namespace Bucket

variable {n : Nat}

def empty : Bucket n := ⟨none, Vector.replicate n none, Vector.replicate n none⟩

def holdingAll : Bucket n where
  head := if inhabited : 0 < n then some ⟨0, inhabited⟩ else none
  next := Vector.ofFn fun i => if more : i.val + 1 < n then some ⟨i.val + 1, more⟩ else none
  prev := Vector.ofFn fun i => if 0 < i.val then some ⟨i.val - 1, by omega⟩ else none

def setHead (b : Bucket n) (head : Option (Fin n)) : Bucket n := { b with head }

def setNext (b : Bucket n) (i : Fin n) (next : Option (Fin n)) : Bucket n :=
  { b with next := b.next.set i next i.isLt }

def setPrev (b : Bucket n) (i : Fin n) (prev : Option (Fin n)) : Bucket n :=
  { b with prev := b.prev.set i prev i.isLt }

def setAfter (b : Bucket n) (before next : Option (Fin n)) : Bucket n :=
  match before with
  | some p => b.setNext p next
  | none => b.setHead next

def setBefore (b : Bucket n) (after prev : Option (Fin n)) : Bucket n :=
  match after with
  | some q => b.setPrev q prev
  | none => b

-- Puts `i`, which must not be on the bucket, in front.
def pushFront (b : Bucket n) (i : Fin n) : Bucket n :=
  (((b.setPrev i none).setNext i b.head).setBefore b.head (some i)).setHead (some i)

-- Unlinks `i`, which must be on the bucket.
def remove (b : Bucket n) (i : Fin n) : Bucket n :=
  let prev := b.prev[i]
  let next := b.next[i]
  (((b.setAfter prev next).setBefore next prev).setNext i none).setPrev i none

def chain (b : Bucket n) : (limit : Nat) → (cursor : Option (Fin n)) → List (Fin n)
  | 0, _ => []
  | _ + 1, none => []
  | limit + 1, some i => i :: b.chain limit b.next[i]

def firstMembers (b : Bucket n) (limit : Nat) : List (Fin n) := b.chain limit b.head

-- The members in order. A list that runs on past `n` has come back to a member it had before.
def members (b : Bucket n) : List (Fin n) := b.firstMembers n

-- Visits the members as long as each has its predecessor for its backward link and the visitor goes
-- along, for at most `left` steps. The visitor's `s` is handed on from member to member.
def walkFrom {σ : Type} (b : Bucket n) (bucket : Nat)
    (visit : Fin n → σ → Except AuditError Unit × σ) :
    (left : Nat) → (before cursor : Option (Fin n)) → σ → Except AuditError Unit × σ
  | _, _, none, s => (.ok (), s)
  | 0, _, some _, s => (.error (.brokenLinks bucket), s)
  | left + 1, before, some i, s =>
    if b.prev[i] ≠ before then (.error (.brokenLinks bucket), s)
    else match visit i s with
      | (.ok (), s) => b.walkFrom bucket visit left (some i) b.next[i] s
      | (.error error, s) => (.error error, s)

def walk {σ : Type} (b : Bucket n) (bucket : Nat)
    (visit : Fin n → σ → Except AuditError Unit × σ) (s : σ) : Except AuditError Unit × σ :=
  b.walkFrom bucket visit n none b.head s

def check (b : Bucket n) (bucket : Nat) : Except AuditError Unit :=
  (b.walk bucket (fun _ s => (.ok (), s)) ()).1

end Bucket

-- The bucket holds exactly the list `l` from `cursor` on, and each member has its predecessor for
-- its backward link.
def Bucket.Linked {n : Nat} (b : Bucket n) :
    (before cursor : Option (Fin n)) → (l : List (Fin n)) → Prop
  | _, cursor, [] => cursor = none
  | before, cursor, i :: rest =>
    cursor = some i ∧ b.prev[i] = before ∧ b.Linked (some i) b.next[i] rest

def Bucket.Represents {n : Nat} (b : Bucket n) (l : List (Fin n)) : Prop :=
  b.Linked none b.head l ∧ l.Nodup

end KernelResources.Buffer
