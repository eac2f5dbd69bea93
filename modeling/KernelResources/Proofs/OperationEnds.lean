import KernelResources.Operation

namespace KernelResources

variable {Lock Act State Fault α β : Type}

namespace Effect

theorem acts_cons (effect : Effect Lock Act) (past : List (Effect Lock Act)) :
    acts (effect :: past) = acts past ++ (match effect with | .act what => [what] | _ => []) := by
  cases effect <;> simp [acts]

end Effect

namespace Execution

variable (e : Execution Lock Act State) (effect : Effect Lock Act) (guard : Interrupts.Guard)

@[simp] theorem task_note : (e.note effect).task = e.task := rfl
@[simp] theorem cpu_note : (e.note effect).cpu = e.cpu := rfl
@[simp] theorem state_note : (e.note effect).state = e.state := rfl
@[simp] theorem past_note : (e.note effect).past = effect :: e.past := rfl

@[simp] theorem task_takeGuard : e.takeGuard.2.task = e.task := by
  unfold takeGuard Interrupts.Guard.take
  split <;> rfl

@[simp] theorem state_takeGuard : e.takeGuard.2.state = e.state := by
  unfold takeGuard Interrupts.Guard.take
  split <;> rfl

@[simp] theorem core_takeGuard : e.takeGuard.2.cpu.core = e.cpu.core := by
  unfold takeGuard Interrupts.Guard.take
  split <;> rfl

theorem enabled_takeGuard : e.takeGuard.2.cpu.enabled = false := by
  unfold takeGuard Interrupts.Guard.take
  split
  · rfl
  · simp_all

@[simp] theorem acts_takeGuard : Effect.acts e.takeGuard.2.past = Effect.acts e.past := by
  unfold takeGuard Interrupts.Guard.take
  split <;> simp [mask, Effect.acts_cons]

@[simp] theorem task_dropGuard : (e.dropGuard guard).task = e.task := by
  unfold dropGuard Interrupts.Guard.drop
  split <;> rfl

@[simp] theorem state_dropGuard : (e.dropGuard guard).state = e.state := by
  unfold dropGuard Interrupts.Guard.drop
  split <;> rfl

@[simp] theorem cpu_dropGuard : (e.dropGuard guard).cpu = guard.drop Processor.unmask e.cpu := by
  unfold dropGuard Interrupts.Guard.drop
  split <;> rfl

@[simp] theorem acts_dropGuard : Effect.acts (e.dropGuard guard).past = Effect.acts e.past := by
  unfold dropGuard Interrupts.Guard.drop
  split <;> simp [unmask, Effect.acts_cons]

@[simp] theorem drop_takeGuard : e.takeGuard.1.drop Processor.unmask e.takeGuard.2.cpu = e.cpu := by
  obtain ⟨task, ⟨core, enabled⟩, past, state⟩ := e
  cases enabled <;> rfl

section Several

variable (locks : List Lock) (made : Lock → Effect Lock Act)

@[simp] theorem task_notes : (locks.foldl (fun e lock => e.note (made lock)) e).task = e.task := by
  induction locks generalizing e with
  | nil => rfl
  | cons lock locks ih => exact ih _

@[simp] theorem cpu_notes : (locks.foldl (fun e lock => e.note (made lock)) e).cpu = e.cpu := by
  induction locks generalizing e with
  | nil => rfl
  | cons lock locks ih => exact ih _

@[simp] theorem state_notes : (locks.foldl (fun e lock => e.note (made lock)) e).state = e.state := by
  induction locks generalizing e with
  | nil => rfl
  | cons lock locks ih => exact ih _

theorem acts_notes (silent : ∀ lock past, Effect.acts (made lock :: past) = Effect.acts past) :
    Effect.acts (locks.foldl (fun e lock => e.note (made lock)) e).past = Effect.acts e.past := by
  induction locks generalizing e with
  | nil => rfl
  | cons lock locks ih => exact (ih _).trans (silent lock e.past)

end Several

end Execution

@[simp] theorem Operation.run_holdingAll (e : Execution Lock Act State) (locks : List Lock)
    (body : Operation Lock Act State Fault α) :
    (body.holdingAll locks).run e =
      let inside := locks.foldl (fun e lock => e.note (.acquire lock)) e
      ((body.run inside).1,
        locks.foldl (fun e lock => e.note (.release lock)) (body.run inside).2) := rfl

namespace Operation

-- A run ends with this result in this state, after these acts in this order. It is the run of the
-- same task still, and its core and interrupt flag are as they were.
structure Ends (op : Operation Lock Act State Fault α) (e : Execution Lock Act State)
    (result : Except Fault α) (state : State) (acts : List Act) : Prop where
  result : (op.run e).1 = result
  state : (op.run e).2.state = state
  acts : Effect.acts (op.run e).2.past = Effect.acts e.past ++ acts
  task : (op.run e).2.task = e.task
  cpu : (op.run e).2.cpu = e.cpu

def Keeps (related : State → State → Prop) (op : Operation Lock Act State Fault α) : Prop :=
  ∀ e, related e.state (op.run e).2.state

section Keeping

variable {related : State → State → Prop}

theorem keeps_still (refl : ∀ s, related s s) {op : Operation Lock Act State Fault α}
    (still : ∀ e, (op.run e).2.state = e.state) : op.Keeps related := by
  intro e
  rw [still e]
  exact refl e.state

theorem keeps_bind (trans : ∀ a b c, related a b → related b c → related a c)
    {op : Operation Lock Act State Fault α} {rest : α → Operation Lock Act State Fault β}
    (first : op.Keeps related) (later : ∀ value, (rest value).Keeps related) :
    (op >>= rest).Keeps related := by
  intro e
  have before := first e
  rw [run_bind]
  generalize op.run e = ended at before ⊢
  obtain ⟨result, middle⟩ := ended
  cases result with
  | ok value => exact trans _ _ _ before (later value middle)
  | error fault => exact before

theorem keeps_tryCatch (trans : ∀ a b c, related a b → related b c → related a c)
    {op : Operation Lock Act State Fault α} {handler : Fault → Operation Lock Act State Fault α}
    (first : op.Keeps related) (later : ∀ fault, (handler fault).Keeps related) :
    (tryCatch op handler).Keeps related := by
  intro e
  have before := first e
  rw [run_tryCatch]
  generalize op.run e = ended at before ⊢
  obtain ⟨result, middle⟩ := ended
  cases result with
  | ok value => exact before
  | error fault => exact trans _ _ _ before (later fault middle)

theorem keeps_masked {op : Operation Lock Act State Fault α} (body : op.Keeps related) :
    op.masked.Keeps related := by
  intro e
  simpa using body e.takeGuard.2

theorem keeps_holding (lock : Lock) {op : Operation Lock Act State Fault α}
    (body : op.Keeps related) : (op.holding lock).Keeps related :=
  fun e => body (e.note (.acquire lock))

end Keeping

-- On core `core` in the state `before` the operation ends with this result in the state `after`, whatever
-- was done before it. The core and the interrupt flag are as they were.
def Yields (op : Operation Lock Act State Fault α) (core : Nat) (before : State)
    (result : Except Fault α) (after : State) : Prop :=
  ∀ e : Execution Lock Act State, e.cpu.core = core → e.state = before →
    (op.run e).1 = result ∧ (op.run e).2.state = after ∧ (op.run e).2.cpu = e.cpu

section Yielding

variable {core : Nat} {before middle after : State} {value : α} {fault : Fault}
  {op : Operation Lock Act State Fault α} {result : Except Fault α}
  {rest : α → Operation Lock Act State Fault β} {last : Except Fault β}

theorem yields_pure (core : Nat) (before : State) (value : α) :
    (pure value : Operation Lock Act State Fault α).Yields core before (.ok value) before :=
  fun _ _ state => ⟨rfl, state, rfl⟩

theorem yields_throw (core : Nat) (before : State) (fault : Fault) :
    (throw fault : Operation Lock Act State Fault α).Yields core before (.error fault) before :=
  fun _ _ state => ⟨rfl, state, rfl⟩

theorem yields_ofExcept (core : Nat) (before : State) (result : Except Fault α) :
    (Operation.ofExcept result : Operation Lock Act State Fault α).Yields core before result before := by
  intro e _ state
  rw [run_ofExcept]
  exact ⟨rfl, state, rfl⟩

theorem yields_act (core : Nat) (before : State) (what : Act) :
    (act what : Operation Lock Act State Fault Unit).Yields core before (.ok ()) before :=
  fun _ _ state => ⟨rfl, state, rfl⟩

theorem yields_view (core : Nat) (before : State) (f : State → α) :
    (view f : Operation Lock Act State Fault α).Yields core before (.ok (f before)) before := by
  rintro e _ rfl
  exact ⟨rfl, rfl, rfl⟩

theorem yields_change (core : Nat) (before : State) (f : State → State) :
    (change f : Operation Lock Act State Fault Unit).Yields core before (.ok ()) (f before) := by
  rintro e _ rfl
  exact ⟨rfl, rfl, rfl⟩

theorem yields_attempt {f : State → Except Fault α × State} (done : f before = (result, after)) :
    (attempt f : Operation Lock Act State Fault α).Yields core before result after := by
  rintro e _ rfl
  rw [run_attempt, done]
  exact ⟨rfl, rfl, rfl⟩

theorem yields_bind (first : op.Yields core before (.ok value) middle)
    (later : (rest value).Yields core middle last after) :
    (op >>= rest).Yields core before last after := by
  intro e here state
  obtain ⟨ended, reached, cpu⟩ := first e here state
  rw [run_bind]
  generalize op.run e = between at ended reached cpu ⊢
  obtain ⟨result, next⟩ := between
  cases ended
  obtain ⟨ended, reached, still⟩ := later next (cpu ▸ here) reached
  exact ⟨ended, reached, still.trans cpu⟩

theorem yields_bind_error (first : op.Yields core before (.error fault) after) :
    (op >>= rest).Yields core before (.error fault) after := by
  intro e here state
  obtain ⟨ended, reached, cpu⟩ := first e here state
  rw [run_bind]
  generalize op.run e = between at ended reached cpu ⊢
  obtain ⟨result, next⟩ := between
  cases ended
  exact ⟨rfl, reached, cpu⟩

theorem yields_discard (body : op.Yields core before result after) :
    (discard op).Yields core before (result.map fun _ => ()) after := by
  cases result with
  | ok value => exact yields_bind body (yields_pure _ _ _)
  | error fault => exact yields_bind_error body

theorem yields_masked (body : op.Yields core before result after) :
    op.masked.Yields core before result after := by
  intro e here state
  obtain ⟨ended, reached, cpu⟩ := body e.takeGuard.2 ((Execution.core_takeGuard e).trans here)
    ((Execution.state_takeGuard e).trans state)
  rw [run_masked]
  refine ⟨ended, ?_, ?_⟩
  · rw [Execution.state_dropGuard, reached]
  · rw [Execution.cpu_dropGuard, cpu, Execution.drop_takeGuard]

theorem yields_holding (lock : Lock) (body : op.Yields core before result after) :
    (op.holding lock).Yields core before result after :=
  fun e here state => body (e.note (.acquire lock)) here state

end Yielding

end Operation

end KernelResources
