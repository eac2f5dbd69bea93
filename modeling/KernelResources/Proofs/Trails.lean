import KernelResources.Proofs.OperationEnds

namespace KernelResources

variable {Lock Act State Fault α β γ : Type}

def Deed.act? : Deed Lock Act State → Option Act
  | .effect (.act what) => some what
  | _ => none

namespace Operation

variable {op : Operation Lock Act State Fault α}
  (e : Execution Lock Act State)

theorem deeds_walk (deeds : List (Deed Lock Act State)) : (e.walk deeds).map (·.2) = deeds := by
  induction deeds generalizing e with
  | nil => rfl
  | cons deed rest ih => exact congrArg (deed :: ·) (ih (e.after deed))

theorem deed_of_trail {moment : Execution Lock Act State} {deed : Deed Lock Act State}
    (member : (moment, deed) ∈ op.trail e) : deed ∈ op.deeds e := by
  rw [← deeds_walk e (op.deeds e)]
  exact List.mem_map_of_mem member

theorem trail_prefix {before : List (Deed Lock Act State)} {deed : Deed Lock Act State}
    (begins : before ++ [deed] <+: op.deeds e) : (e.along before, deed) ∈ op.trail e := by
  obtain ⟨rest, deeds⟩ := begins
  rw [trail, ← deeds, List.append_assoc, Execution.walk_append]
  exact List.mem_append_right _ List.mem_cons_self

theorem acts_along (deeds : List (Deed Lock Act State)) :
    Effect.acts (e.along deeds).past = Effect.acts e.past ++ deeds.filterMap Deed.act? := by
  induction deeds generalizing e with
  | nil => exact (List.append_nil _).symm
  | cons deed rest ih =>
    refine (ih (e.after deed)).trans ?_
    cases deed with
    | change state => rfl
    | effect what => cases what <;> simp [Execution.after, Execution.mask, Execution.unmask,
        Effect.acts_cons, Deed.act?, List.filterMap_cons]

theorem acts_deeds {result : Except Fault α} {state : State} {acts : List Act}
    (ends : op.Ends e result state acts) : (op.deeds e).filterMap Deed.act? = acts := by
  have along := acts_along e (op.deeds e)
  rw [op.leads, ends.acts] at along
  exact (List.append_cancel_left along).symm

theorem ext {x y : Operation Lock Act State Fault α} (same : ∀ e, x.run e = y.run e)
    (deeds : ∀ e, x.deeds e = y.deeds e) : x = y := by
  cases x
  cases y
  obtain rfl := funext same
  obtain rfl := funext deeds
  rfl

section Parts

@[simp] theorem deeds_act (what : Act) :
    (act what : Operation Lock Act State Fault Unit).deeds e = [.effect (.act what)] := rfl

@[simp] theorem deeds_view (f : State → α) : (view f : Operation Lock Act State Fault α).deeds e = [] := rfl

@[simp] theorem deeds_currentTask : (currentTask : Operation Lock Act State Fault _).deeds e = [] := rfl

@[simp] theorem deeds_processor : (processor : Operation Lock Act State Fault _).deeds e = [] := rfl

@[simp] theorem deeds_bind (next : α → Operation Lock Act State Fault β) :
    (op >>= next).deeds e = op.deeds e ++
      match op.run e with
      | (.ok value, e) => (next value).deeds e
      | (.error _, _) => [] := rfl

@[simp] theorem deeds_tryCatch (handler : Fault → Operation Lock Act State Fault α) :
    (tryCatch op handler).deeds e = op.deeds e ++
      match op.run e with
      | (.ok _, _) => []
      | (.error fault, e) => (handler fault).deeds e := rfl

theorem pure_then (value : α) (next : α → Operation Lock Act State Fault β) :
    (pure value : Operation Lock Act State Fault α) >>= next = next value := rfl

theorem then_assoc (next : α → Operation Lock Act State Fault β)
    (last : β → Operation Lock Act State Fault γ) :
    (op >>= next) >>= last = op >>= fun value => next value >>= last := by
  refine ext (fun e => ?_) fun e => ?_
  · simp only [run_bind]
    generalize op.run e = ended
    obtain ⟨result, e⟩ := ended
    cases result <;> rfl
  · simp only [deeds_bind, run_bind, List.append_assoc]
    generalize op.run e = ended
    obtain ⟨result, e⟩ := ended
    cases result <;> rfl

theorem trail_bind (next : α → Operation Lock Act State Fault β) :
    (op >>= next).trail e = op.trail e ++
      match op.run e with
      | (.ok value, e) => (next value).trail e
      | (.error _, _) => [] := by
  have leads := op.leads e
  unfold trail
  rw [deeds_bind, Execution.walk_append, leads]
  generalize op.run e = ended
  obtain ⟨result, e⟩ := ended
  cases result <;> rfl

theorem trail_tryCatch (handler : Fault → Operation Lock Act State Fault α) :
    (tryCatch op handler).trail e = op.trail e ++
      match op.run e with
      | (.ok _, _) => []
      | (.error fault, e) => (handler fault).trail e := by
  have leads := op.leads e
  unfold trail
  rw [deeds_tryCatch, Execution.walk_append, leads]
  generalize op.run e = ended
  obtain ⟨result, e⟩ := ended
  cases result <;> rfl

theorem trail_leaving (leave : Operation Lock Act State Fault Unit) :
    (op.leaving leave).trail e = op.trail e ++ leave.trail (op.run e).2 := by
  unfold trail leaving
  rw [Execution.walk_append, op.leads]

theorem trail_masked : op.masked.trail e =
    (takeGuard : Operation Lock Act State Fault _).trail e ++ (op.trail e.takeGuard.2 ++
      (dropGuard e.takeGuard.1 : Operation Lock Act State Fault _).trail (op.run e.takeGuard.2).2) :=
  (trail_bind e _).trans (congrArg _ (trail_leaving e.takeGuard.2 _))

theorem trail_holdingAll (locks : List Lock) : (op.holdingAll locks).trail e =
    (takeLocks locks : Operation Lock Act State Fault _).trail e ++
      (op.trail (locks.foldl (fun e lock => e.note (.acquire lock)) e) ++
        (giveLocks locks : Operation Lock Act State Fault _).trail
          (op.run (locks.foldl (fun e lock => e.note (.acquire lock)) e)).2) :=
  (trail_bind e _).trans (congrArg _ (trail_leaving _ _))

end Parts

end Operation

end KernelResources
