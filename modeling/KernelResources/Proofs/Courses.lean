import KernelResources.Operation

-- Operations laid open where they take and give back spin locks, so that others can come in between. A
-- course that nobody interrupts is the operation itself.

namespace KernelResources

-- `works` is a part of the operation that touches no spin lock; what follows depends on how it ended.
inductive Course (Lock Act State Fault α : Type) : Type 1 where
  | ends (result : Except Fault α)
  | works {β : Type} (part : Operation Lock Act State Fault β)
      (next : Except Fault β → Course Lock Act State Fault α)
  | takes (lock : Lock) (next : Course Lock Act State Fault α)
  | gives (lock : Lock) (next : Course Lock Act State Fault α)

variable {Lock Act State Fault α β : Type}

namespace Course

def run : Course Lock Act State Fault α → Execution Lock Act State →
    Except Fault α × Execution Lock Act State
  | .ends result, e => (result, e)
  | .works part next, e => (next (part.run e).1).run (part.run e).2
  | .takes lock next, e => next.run (e.note (.acquire lock))
  | .gives lock next, e => next.run (e.note (.release lock))

def settle : Course Lock Act State Fault α → (Except Fault α → Course Lock Act State Fault β) →
    Course Lock Act State Fault β
  | .ends result, next => next result
  | .works part rest, next => .works part fun result => (rest result).settle next
  | .takes lock rest, next => .takes lock (rest.settle next)
  | .gives lock rest, next => .gives lock (rest.settle next)

instance : Monad (Course Lock Act State Fault) where
  pure value := .ends (.ok value)
  bind course next := course.settle fun
    | .ok value => next value
    | .error fault => .ends (.error fault)

instance : MonadExceptOf Fault (Course Lock Act State Fault) where
  throw fault := .ends (.error fault)
  tryCatch course handler := course.settle fun
    | .ok value => .ends (.ok value)
    | .error fault => handler fault

def work (part : Operation Lock Act State Fault α) : Course Lock Act State Fault α := .works part .ends

def holding (lock : Lock) (body : Course Lock Act State Fault α) : Course Lock Act State Fault α :=
  .takes lock (body.settle fun result => .gives lock (.ends result))

def takesAll (locks : List Lock) (next : Course Lock Act State Fault α) : Course Lock Act State Fault α :=
  locks.foldr .takes next

def givesAll (locks : List Lock) (next : Course Lock Act State Fault α) : Course Lock Act State Fault α :=
  locks.foldr .gives next

def holdingAll (locks : List Lock) (body : Course Lock Act State Fault α) :
    Course Lock Act State Fault α :=
  takesAll locks (body.settle fun result => givesAll locks (.ends result))

def masked (body : Course Lock Act State Fault α) : Course Lock Act State Fault α :=
  .works .takeGuard fun
    | .error fault => .ends (.error fault)
    | .ok guard => body.settle fun result => .works (.dropGuard guard) fun _ => .ends result

def Follows (course : Course Lock Act State Fault α) (op : Operation Lock Act State Fault α) : Prop :=
  ∀ e, course.run e = op.run e

theorem run_settle (course : Course Lock Act State Fault α)
    (next : Except Fault α → Course Lock Act State Fault β) (e : Execution Lock Act State) :
    (course.settle next).run e = (next (course.run e).1).run (course.run e).2 := by
  induction course generalizing e with
  | ends result => rfl
  | works part rest ih => exact ih _ _
  | takes lock rest ih => exact ih _
  | gives lock rest ih => exact ih _

theorem run_takesAll (locks : List Lock) (next : Course Lock Act State Fault α)
    (e : Execution Lock Act State) :
    (takesAll locks next).run e = next.run (locks.foldl (fun e lock => e.note (.acquire lock)) e) := by
  induction locks generalizing e with
  | nil => rfl
  | cons lock locks ih => exact ih _

theorem run_givesAll (locks : List Lock) (next : Course Lock Act State Fault α)
    (e : Execution Lock Act State) :
    (givesAll locks next).run e = next.run (locks.foldl (fun e lock => e.note (.release lock)) e) := by
  induction locks generalizing e with
  | nil => rfl
  | cons lock locks ih => exact ih _

section Following

variable {course : Course Lock Act State Fault α} {op : Operation Lock Act State Fault α}

theorem follows_pure (value : α) :
    (pure value : Course Lock Act State Fault α).Follows (pure value) := fun _ => rfl

theorem follows_throw (fault : Fault) :
    (throw fault : Course Lock Act State Fault α).Follows (throw fault) := fun _ => rfl

theorem follows_work (op : Operation Lock Act State Fault α) : (work op).Follows op := fun _ => rfl

theorem follows_bind {next : α → Course Lock Act State Fault β}
    {rest : α → Operation Lock Act State Fault β} (first : course.Follows op)
    (later : ∀ value, (next value).Follows (rest value)) : (course >>= next).Follows (op >>= rest) := by
  intro e
  rw [Operation.run_bind, ← first e]
  refine (run_settle course _ e).trans ?_
  obtain ⟨result, middle⟩ := course.run e
  cases result with
  | ok value => exact later value middle
  | error fault => rfl

theorem follows_tryCatch {handler : Fault → Course Lock Act State Fault α}
    {rest : Fault → Operation Lock Act State Fault α} (first : course.Follows op)
    (later : ∀ fault, (handler fault).Follows (rest fault)) :
    (tryCatch course handler).Follows (tryCatch op rest) := by
  intro e
  rw [Operation.run_tryCatch, ← first e]
  refine (run_settle course _ e).trans ?_
  obtain ⟨result, middle⟩ := course.run e
  cases result with
  | ok value => rfl
  | error fault => exact later fault middle

theorem follows_holding (lock : Lock) (body : course.Follows op) :
    (course.holding lock).Follows (op.holding lock) := by
  intro e
  rw [Operation.run_holding, ← body]
  exact run_settle course _ _

theorem follows_holdingAll (locks : List Lock) (body : course.Follows op) :
    (course.holdingAll locks).Follows (op.holdingAll locks) := by
  intro e
  rw [holdingAll, run_takesAll, run_settle, run_givesAll, body]
  rfl

theorem follows_masked (body : course.Follows op) : course.masked.Follows op.masked := by
  intro e
  rw [Operation.run_masked, ← body]
  exact run_settle course _ _

end Following

end Course

namespace Effect

variable [DecidableEq Lock]

def hold (held : List Lock) : Effect Lock Act → List Lock
  | .acquire lock => lock :: held
  | .release lock => held.erase lock
  | .mask | .unmask | .act _ => held

def locks (past : List (Effect Lock Act)) : List Lock := past.foldr (fun effect held => effect.hold held) []

theorem locks_append {later past : List (Effect Lock Act)} (free : locks past = []) :
    locks (later ++ past) = locks later := by
  unfold locks at free ⊢
  rw [List.foldr_append, free]

end Effect

def Operation.Makes (allowed : Effect Lock Act → Prop) (op : Operation Lock Act State Fault α) : Prop :=
  ∀ e, ∃ made, (op.run e).2.past = made ++ e.past ∧ ∀ effect ∈ made, allowed effect

namespace Operation

variable {allowed : Effect Lock Act → Prop} {op : Operation Lock Act State Fault α}

theorem makes_still (still : ∀ e, (op.run e).2.past = e.past) : op.Makes allowed :=
  fun e => ⟨[], still e, List.forall_mem_nil _⟩

theorem makes_act {what : Act} (fine : allowed (.act what)) :
    (act what : Operation Lock Act State Fault Unit).Makes allowed :=
  fun _ => ⟨[.act what], rfl, List.forall_mem_singleton.mpr fine⟩

theorem makes_run (first : op.Makes allowed) {rest : Execution Lock Act State}
    {e : Execution Lock Act State} (later : ∃ made, rest.past = made ++ (op.run e).2.past ∧
      ∀ effect ∈ made, allowed effect) :
    ∃ made, rest.past = made ++ e.past ∧ ∀ effect ∈ made, allowed effect := by
  obtain ⟨made, past, fine⟩ := first e
  obtain ⟨more, longer, further⟩ := later
  refine ⟨more ++ made, by rw [longer, past, List.append_assoc], fun effect member => ?_⟩
  rcases List.mem_append.mp member with new | old
  · exact further effect new
  · exact fine effect old

theorem makes_bind {rest : α → Operation Lock Act State Fault β} (first : op.Makes allowed)
    (later : ∀ value, (rest value).Makes allowed) : (op >>= rest).Makes allowed := by
  intro e
  refine makes_run first ?_
  rw [run_bind]
  obtain ⟨result, middle⟩ := op.run e
  cases result with
  | ok value => exact later value middle
  | error fault => exact ⟨[], rfl, List.forall_mem_nil _⟩

end Operation

end KernelResources
