import KernelResources.Registry

-- Tasks, and how they come by their identities: lazily, in the order of their first question, from one.

namespace KernelResources

structure TaskId where
  id : Nat
  deriving DecidableEq, Repr

namespace TaskId

def text (t : TaskId) : String := s!"task {t.id}"

def record (t : TaskId) : String := s!"TaskId({t.id})"

end TaskId

structure TaskRegister where
  next : Nat
  known : Registry Nat TaskId

namespace TaskRegister

def start : TaskRegister := ⟨1, []⟩

def current (r : TaskRegister) (thread : Nat) : TaskId × TaskRegister :=
  match r.known.find? thread with
  | some t => (t, r)
  | none => (⟨r.next⟩, ⟨r.next + 1, r.known.put thread ⟨r.next⟩⟩)

def ask (thread : Nat) : Nat → TaskRegister → List TaskId × TaskRegister
  | 0, r => ([], r)
  | calls + 1, r =>
    let (t, r) := r.current thread
    let (rest, r) := ask thread calls r
    (t :: rest, r)

def census (threads calls : Nat) : List (List TaskId) :=
  go threads 0 start
where
  go : Nat → Nat → TaskRegister → List (List TaskId)
    | 0, _, _ => []
    | left + 1, thread, r =>
      let (heard, r) := r.ask thread calls
      heard :: go left (thread + 1) r

end TaskRegister

end KernelResources
