import KernelResources.Text.Record

namespace KernelResources.Buffer

inductive AuditError where
  | brokenLinks (bucket : Nat)
  | duplicate (index : Nat)
  | missing (index : Nat)
  | wrongBucket (index bucket expected : Nat)
  | aliased (device number : Nat)
  deriving DecidableEq, Repr

namespace AuditError

def message : AuditError → String
  | brokenLinks bucket => s!"bucket {bucket} has inconsistent links"
  | duplicate index => s!"buffer {index} is listed twice"
  | missing index => s!"buffer {index} is on no bucket"
  | wrongBucket index bucket expected =>
    s!"buffer {index} is on bucket {bucket} but belongs on bucket {expected}"
  | aliased device number => s!"dev {device} block {number} is cached twice"

def name : AuditError → String
  | brokenLinks .. => "BrokenLinks"
  | duplicate .. => "Duplicate"
  | missing .. => "Missing"
  | wrongBucket .. => "WrongBucket"
  | aliased .. => "Aliased"

def fields : AuditError → List (String × String)
  | brokenLinks bucket => [("bucket", toString bucket)]
  | duplicate index => [("index", toString index)]
  | missing index => [("index", toString index)]
  | wrongBucket index bucket expected =>
    [("index", toString index), ("bucket", toString bucket), ("expected", toString expected)]
  | aliased device number => [("dev", toString device), ("blockno", toString number)]

def record (e : AuditError) : String := Text.record e.name e.fields

end AuditError

end KernelResources.Buffer
