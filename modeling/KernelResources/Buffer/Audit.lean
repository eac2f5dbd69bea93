import KernelResources.Buffer.Pool

namespace KernelResources.Buffer.Pool

variable {n : Nat}

def auditMember (p : Pool n) (b : Fin bucketCount) (i : Fin n) (seen : Vector Bool n) :
    Except AuditError Unit × Vector Bool n :=
  if seen[i] then (.error (.duplicate i), seen)
  else
    let home := p.slots[i].home
    (if home = b then .ok () else .error (.wrongBucket i b home), seen.set i true i.isLt)

def auditBuckets (p : Pool n) :
    List (Fin bucketCount) → Vector Bool n → Except AuditError (Vector Bool n)
  | [], seen => .ok seen
  | b :: rest, seen =>
    match p.buckets[b].walk b (p.auditMember b) seen with
    | (.ok (), seen) => p.auditBuckets rest seen
    | (.error error, _) => .error error

-- The lowest mapped buffer whose block is carried by a later one too.
def aliased? (p : Pool n) : Option (Fin n) :=
  (List.finRange n).find? fun i => p.slots[i].mapped &&
    (List.finRange n).any fun j => i < j && p.slots[j].holds p.slots[i].block

def audit (p : Pool n) : Except AuditError Unit := do
  let seen ← p.auditBuckets (List.finRange bucketCount) (Vector.replicate n false)
  match (List.finRange n).find? fun i => !seen[i] with
  | some i => throw (.missing i)
  | none =>
    match p.aliased? with
    | some i => throw (.aliased p.slots[i].block.device.toNat p.slots[i].block.number.toNat)
    | none => return ()

end KernelResources.Buffer.Pool
