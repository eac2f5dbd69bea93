import KernelResources.Proofs.Trails

namespace KernelResources

variable {Lock Act State Fault α β : Type}

namespace Effect

variable (past : List (Effect Lock Act))

theorem masks_mask : masks (.mask :: past) = masks past + 1 := List.countP_cons_of_pos rfl

theorem unmasks_unmask : unmasks (.unmask :: past) = unmasks past + 1 := List.countP_cons_of_pos rfl

theorem masks_unmask : masks (.unmask :: past) = masks past := List.countP_cons_of_neg Bool.false_ne_true

theorem unmasks_mask : unmasks (.mask :: past) = unmasks past := List.countP_cons_of_neg Bool.false_ne_true

theorem masks_other {effect : Effect Lock Act} (other : effect ≠ .mask) :
    masks (effect :: past) = masks past := by
  refine List.countP_cons_of_neg ?_
  cases effect <;> simp at other ⊢

theorem unmasks_other {effect : Effect Lock Act} (other : effect ≠ .unmask) :
    unmasks (effect :: past) = unmasks past := by
  refine List.countP_cons_of_neg ?_
  cases effect <;> simp at other ⊢

end Effect

open Effect

-- From `e` to `f` interrupts were switched on as often as off, and never if they were off to begin with. Task,
-- core and interrupt flag are in the end what they were.
structure Restored (e f : Execution Lock Act State) : Prop where
  task : f.task = e.task
  cpu : f.cpu = e.cpu
  calls : ∃ k, masks f.past = masks e.past + k ∧ unmasks f.past = unmasks e.past + k ∧
    (e.cpu.enabled = false → k = 0)

namespace Restored

variable {e f g : Execution Lock Act State}

theorem refl (e : Execution Lock Act State) : Restored e e := ⟨rfl, rfl, ⟨0, rfl, rfl, fun _ => rfl⟩⟩

theorem trans (first : Restored e f) (second : Restored f g) : Restored e g where
  task := second.task.trans first.task
  cpu := second.cpu.trans first.cpu
  calls := by
    obtain ⟨j, masked, unmasked, none⟩ := first.calls
    obtain ⟨k, more, further, still⟩ := second.calls
    refine ⟨j + k, by omega, by omega, fun off => ?_⟩
    have before := none off
    have after := still (first.cpu ▸ off)
    omega

theorem note (e : Execution Lock Act State) (effect : Effect Lock Act)
    (plain : effect ≠ .mask ∧ effect ≠ .unmask) : Restored e (e.note effect) :=
  ⟨rfl, rfl, ⟨0, masks_other _ plain.1, unmasks_other _ plain.2, fun _ => rfl⟩⟩

theorem notes (made : Lock → Effect Lock Act) (plain : ∀ lock, made lock ≠ .mask ∧ made lock ≠ .unmask)
    (locks : List Lock) (e : Execution Lock Act State) :
    Restored e (locks.foldl (fun e lock => e.note (made lock)) e) := by
  induction locks generalizing e with
  | nil => exact .refl e
  | cons lock locks ih => exact (Restored.note e (made lock) (plain lock)).trans (ih _)

theorem change (e : Execution Lock Act State) (state : State) : Restored e { e with state } :=
  ⟨rfl, rfl, ⟨0, rfl, rfl, fun _ => rfl⟩⟩

theorem guarded (inside : Restored e.takeGuard.2 f) : Restored e (f.dropGuard e.takeGuard.1) := by
  obtain ⟨task, ⟨core, enabled⟩, past, state⟩ := e
  cases enabled with
  | false => exact inside
  | true =>
    obtain ⟨task, cpu, ⟨k, masked, unmasked, none⟩⟩ := inside
    obtain ⟨_, _, past, state⟩ := f
    dsimp only at task cpu
    subst task cpu
    obtain rfl := none rfl
    refine ⟨rfl, rfl, ⟨1, ?_, ?_, nofun⟩⟩
    · exact (masks_unmask past).trans (masked.trans (masks_mask _))
    · exact (unmasks_unmask past).trans (congrArg (· + 1) (unmasked.trans (unmasks_mask _)))

end Restored

namespace Operation

def Changes (op : Operation Lock Act State Fault α) (e moment : Execution Lock Act State) (state : State) :
    Prop :=
  (moment, .change state) ∈ op.trail e

-- Started where the interrupt flag is as told, a run ends with it restored, and no change of the state on
-- the way is other than is allowed at its moment.
structure Restores (allowed : Execution Lock Act State → State → Prop) (flag : Bool → Prop)
    (op : Operation Lock Act State Fault α) : Prop where
  restored : ∀ e, flag e.cpu.enabled → Restored e (op.run e).2
  changes : ∀ e, flag e.cpu.enabled → ∀ moment state, op.Changes e moment state → allowed moment state

section Restoring

variable {allowed : Execution Lock Act State → State → Prop} {flag : Bool → Prop}
  {op : Operation Lock Act State Fault α}

theorem restores_still (still : ∀ e, op.deeds e = []) : op.Restores allowed flag where
  restored := by
    intro e _
    rw [← op.leads e, still e]
    exact .refl e
  changes := by
    intro e _ moment state change
    have deed := deed_of_trail e change
    rw [still e] at deed
    cases deed

theorem restores_pure (value : α) :
    (pure value : Operation Lock Act State Fault α).Restores allowed flag :=
  restores_still fun _ => rfl

theorem restores_throw (fault : Fault) :
    (throw fault : Operation Lock Act State Fault α).Restores allowed flag :=
  restores_still fun _ => rfl

theorem restores_view (f : State → α) :
    (view f : Operation Lock Act State Fault α).Restores allowed flag :=
  restores_still fun _ => rfl

theorem restores_ofExcept (result : Except Fault α) :
    (.ofExcept result : Operation Lock Act State Fault α).Restores allowed flag := by
  cases result with
  | ok value => exact restores_pure value
  | error fault => exact restores_throw fault

theorem restores_act (what : Act) :
    (act what : Operation Lock Act State Fault Unit).Restores allowed flag where
  restored := fun e _ => .note e (.act what) ⟨nofun, nofun⟩
  changes := by
    intro e _ moment state change
    cases List.mem_singleton.mp (deed_of_trail e change)

theorem restores_bind {rest : α → Operation Lock Act State Fault β} (first : op.Restores allowed flag)
    (later : ∀ value, (rest value).Restores allowed flag) : (op >>= rest).Restores allowed flag where
  restored := by
    intro e so
    have before := first.restored e so
    rw [run_bind]
    generalize op.run e = ended at before ⊢
    obtain ⟨result, middle⟩ := ended
    cases result with
    | ok value => exact before.trans ((later value).restored middle (before.cpu ▸ so))
    | error fault => exact before
  changes := by
    intro e so moment state change
    have before := first.restored e so
    rw [Changes, trail_bind] at change
    rcases List.mem_append.mp change with own | next
    · exact first.changes e so moment state own
    · generalize op.run e = ended at before next
      obtain ⟨result, middle⟩ := ended
      cases result with
      | ok value => exact (later value).changes middle (before.cpu ▸ so) moment state next
      | error fault => cases next

theorem restores_discard (body : op.Restores allowed flag) : (discard op).Restores allowed flag :=
  restores_bind body fun _ => restores_pure ()

theorem restores_tryCatch {handler : Fault → Operation Lock Act State Fault α}
    (first : op.Restores allowed flag) (later : ∀ fault, (handler fault).Restores allowed flag) :
    (tryCatch op handler).Restores allowed flag where
  restored := by
    intro e so
    have before := first.restored e so
    rw [run_tryCatch]
    generalize op.run e = ended at before ⊢
    obtain ⟨result, middle⟩ := ended
    cases result with
    | ok value => exact before
    | error fault => exact before.trans ((later fault).restored middle (before.cpu ▸ so))
  changes := by
    intro e so moment state change
    have before := first.restored e so
    rw [Changes, trail_tryCatch] at change
    rcases List.mem_append.mp change with own | next
    · exact first.changes e so moment state own
    · generalize op.run e = ended at before next
      obtain ⟨result, middle⟩ := ended
      cases result with
      | ok value => cases next
      | error fault => exact (later fault).changes middle (before.cpu ▸ so) moment state next

theorem restores_masked (body : op.Restores allowed (· = false)) : op.masked.Restores allowed flag where
  restored := fun e _ => Restored.guarded (body.restored e.takeGuard.2 e.enabled_takeGuard)
  changes := by
    intro e _ moment state change
    rw [Changes, trail_masked] at change
    rcases List.mem_append.mp change with taking | rest
    · have deed := deed_of_trail e taking
      unfold takeGuard at deed
      dsimp only at deed
      split at deed <;> simp at deed
    · rcases List.mem_append.mp rest with inside | dropping
      · exact body.changes e.takeGuard.2 e.enabled_takeGuard moment state inside
      · have deed := deed_of_trail _ dropping
        unfold dropGuard at deed
        dsimp only at deed
        split at deed <;> simp at deed

theorem restores_holdingAll (locks : List Lock) (body : op.Restores allowed flag) :
    (op.holdingAll locks).Restores allowed flag where
  restored := by
    intro e so
    rw [run_holdingAll]
    have taken := Restored.notes .acquire (fun _ => ⟨nofun, nofun⟩) locks e
    exact (taken.trans (body.restored _ (taken.cpu ▸ so))).trans
      (.notes .release (fun _ => ⟨nofun, nofun⟩) locks _)
  changes := by
    intro e so moment state change
    have taken := Restored.notes .acquire (fun _ => ⟨nofun, nofun⟩) locks e
    rw [Changes, trail_holdingAll] at change
    rcases List.mem_append.mp change with taking | rest
    · obtain ⟨lock, -, same⟩ := List.mem_map.mp (deed_of_trail e taking)
      cases same
    · rcases List.mem_append.mp rest with inside | giving
      · exact body.changes _ (taken.cpu ▸ so) moment state inside
      · obtain ⟨lock, -, same⟩ := List.mem_map.mp (deed_of_trail _ giving)
        cases same

theorem restores_holding (lock : Lock) (body : op.Restores allowed flag) :
    (op.holding lock).Restores allowed flag :=
  restores_holdingAll [lock] body

theorem restores_changes (f : State → State) (changes : ∀ e, op.deeds e = [.change (f e.state)])
    (fine : ∀ e, flag e.cpu.enabled → allowed e (f e.state)) : op.Restores allowed flag where
  restored := by
    intro e _
    rw [← op.leads e, changes e]
    exact .change e (f e.state)
  changes := by
    intro e so moment state change
    rw [Changes, trail, changes e] at change
    cases List.mem_singleton.mp change
    exact fine e so

theorem restores_announced {what : Act} (f : State → State)
    (changes : ∀ e, op.deeds e = [.change (f e.state)])
    (fine : ∀ e : Execution Lock Act State, flag e.cpu.enabled →
      allowed (e.note (.act what)) (f e.state)) :
    (act what >>= fun _ => op).Restores allowed flag where
  restored := by
    intro e _
    rw [run_bind, run_act]
    dsimp only
    rw [← op.leads, changes]
    exact (Restored.note e (.act what) ⟨nofun, nofun⟩).trans (.change _ _)
  changes := by
    intro e so moment state change
    rw [Changes, trail_bind, run_act] at change
    dsimp only at change
    rcases List.mem_append.mp change with announcing | changing
    · cases List.mem_singleton.mp (deed_of_trail e announcing)
    · rw [trail, changes] at changing
      cases List.mem_singleton.mp changing
      exact fine e so

end Restoring

end Operation

end KernelResources
