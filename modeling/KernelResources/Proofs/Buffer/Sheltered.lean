import KernelResources.Proofs.Buffer.Calls
import KernelResources.Proofs.MaskedSections

namespace KernelResources.Buffer

variable {n m : Nat}

namespace Cache

open Operation

-- The list of a bucket, a reference count and a time of release change under masked interrupts only, right
-- after the change was announced.
structure Shelters (e : Execution PoolLock (Act n) (Cache n × Clock)) (after : Cache n × Clock) : Prop where
  lists : ∀ b : Fin bucketCount, after.1.pool.buckets[b] ≠ e.state.1.pool.buckets[b] →
    e.cpu.enabled = false ∧ e.past.head? = some (.act (.relinks b))
  counts : ∀ i : Fin n, after.1.pool.slots[i].refs ≠ e.state.1.pool.slots[i].refs →
    e.cpu.enabled = false ∧ e.past.head? = some (.act (.counts i))
  stamps : ∀ i : Fin n, after.1.pool.slots[i].released ≠ e.state.1.pool.slots[i].released →
    e.cpu.enabled = false ∧ e.past.head? = some (.act (.stamps i))

variable {α : Type} {flag : Bool → Prop} {e : Execution PoolLock (Act n) (Cache n × Clock)}

theorem shelters_alike {after : Cache n × Clock} (alike : after.1.pool.Alike e.state.1.pool) :
    Shelters e after where
  lists := fun b changed => absurd (by rw [alike.buckets]) changed
  counts := fun i changed => absurd (alike.refs i) changed
  stamps := fun i changed => absurd (alike.released i) changed

theorem restores_unannounced {op : Run n α} (f : Cache n × Clock → Cache n × Clock)
    (changes : ∀ e, op.deeds e = [.change (f e.state)])
    (alike : ∀ s, (f s).1.pool.Alike s.1.pool) : op.Restores Shelters flag :=
  restores_changes f changes fun e _ => shelters_alike (alike e.state)

theorem restores_updateSlot (i : Fin n) {f : Slot → Slot} (refs : ∀ s, (f s).refs = s.refs)
    (released : ∀ s, (f s).released = s.released) : (updateSlot i f).Restores Shelters flag :=
  restores_unannounced (fun s => ({ s.1 with pool := s.1.pool.updateSlot i f }, s.2)) (fun _ => rfl)
    fun _ => Pool.alike_updateSlot (refs _) (released _)

theorem restores_counts (i : Fin n) {f : Slot → Slot} (released : ∀ s, (f s).released = s.released) :
    (act (.counts i) >>= fun _ => updateSlot i f).Restores Shelters (· = false) := by
  refine restores_announced (fun s => ({ s.1 with pool := s.1.pool.updateSlot i f }, s.2))
    (fun _ => rfl) fun e off => ⟨fun _ changed => absurd rfl changed, fun j changed => ?_, fun j changed => ?_⟩
  · exact ⟨off, by rw [Pool.changed_updateSlot Slot.refs changed]; rfl⟩
  · exact absurd (Pool.kept_updateSlot Slot.released (released _)) changed

theorem restores_stamps (i : Fin n) {f : Slot → Slot} (refs : ∀ s, (f s).refs = s.refs) :
    (act (.stamps i) >>= fun _ => updateSlot i f).Restores Shelters (· = false) := by
  refine restores_announced (fun s => ({ s.1 with pool := s.1.pool.updateSlot i f }, s.2))
    (fun _ => rfl) fun e off => ⟨fun _ changed => absurd rfl changed, fun j changed => ?_, fun j changed => ?_⟩
  · exact absurd (Pool.kept_updateSlot Slot.refs (refs _)) changed
  · exact ⟨off, by rw [Pool.changed_updateSlot Slot.released changed]; rfl⟩

theorem restores_relink (b : Fin bucketCount) (f : Bucket n → Bucket n) :
    (relink b f).Restores Shelters (· = false) := by
  refine restores_announced (fun s => ({ s.1 with pool := s.1.pool.updateBucket b f }, s.2))
    (fun _ => rfl) fun e off => ⟨fun c changed => ?_, fun _ changed => absurd rfl changed,
      fun _ changed => absurd rfl changed⟩
  dsimp only at changed
  rw [Pool.bucket_updateBucket] at changed
  split at changed
  · rename_i here
    exact ⟨off, by rw [here]; rfl⟩
  · exact absurd rfl changed

theorem restores_slot (i : Fin n) : (slot i).Restores Shelters flag := restores_view _

theorem restores_count (i : Fin n) (f : UInt32 → UInt32) :
    (count i f).Restores Shelters (· = false) := restores_counts i fun _ => rfl

theorem restores_takeCached (b : BlockId) :
    (takeCached b : Run n _).Restores Shelters (· = false) := by
  refine restores_bind (restores_view _) fun found => ?_
  cases found with
  | some i => exact restores_bind (restores_count i _) fun _ => restores_pure _
  | none => exact restores_pure _

theorem restores_unlinkUnreferenced (i : Fin n) (home : Fin bucketCount) :
    (unlinkUnreferenced i home).Restores Shelters (· = false) := by
  refine restores_bind (restores_slot i) fun slot => ?_
  split
  · exact restores_bind (restores_relink home _) fun _ => restores_pure _
  · exact restores_pure _

theorem restores_takeVictim (b : BlockId) (rounds : Nat) :
    (takeVictim b rounds : Run n _).Restores Shelters (· = false) := by
  induction rounds with
  | zero => exact restores_throw _
  | succ rounds ih =>
    refine restores_bind (restores_view _) fun chosen => ?_
    cases chosen with
    | none => exact restores_throw _
    | some i =>
      refine restores_bind (restores_slot i) fun slot => ?_
      have later : ∀ unlinked : Bool,
          (if unlinked = true then pure i else
            act (.tells (.overtaken i)) >>= fun _ => takeVictim b rounds : Run n (Fin n)).Restores Shelters
              (· = false) := by
        intro unlinked
        cases unlinked with
        | true => exact restores_pure _
        | false => exact restores_bind (restores_act _) fun _ => ih
      dsimp only
      split
      · exact restores_bind (restores_unlinkUnreferenced i _) later
      · exact restores_bind (restores_holding _ (restores_unlinkUnreferenced i _)) later

theorem restores_retag (i : Fin n) (b : BlockId) : (retag i b).Restores Shelters (· = false) :=
  restores_bind (restores_slot i) fun _ => restores_bind (restores_act _) fun _ => by
    have retagged := restores_bind (restores_counts i (f := (·.retag b)) fun _ => rfl) fun _ =>
      restores_relink b.bucket (·.pushFront i)
    exact retagged

theorem restores_claim (b : BlockId) : (claim b : Run n _).Restores Shelters flag := by
  refine restores_masked (restores_bind (restores_holding _ (restores_takeCached b)) fun found => ?_)
  cases found with
  | some i => exact restores_pure _
  | none =>
    refine restores_holding _ (restores_holding _ (restores_bind (restores_takeCached b) fun again => ?_))
    cases again with
    | some i => exact restores_pure _
    | none =>
      exact restores_bind (restores_takeVictim b _) fun i =>
        restores_bind (restores_retag i b) fun _ => restores_pure _

theorem restores_unless (wrong : Prop) [Decidable wrong] (fault : CacheFault) {op : Run n α}
    (body : op.Restores Shelters flag) :
    (do if wrong then throw fault
        op).Restores Shelters flag := by
  split
  · exact restores_bind (restores_throw _) fun _ => body
  · exact body

theorem restores_underHome (i : Fin n) {op : Run n α} (body : op.Restores Shelters (· = false)) :
    (underHome i op).Restores Shelters flag :=
  restores_masked (restores_bind (restores_slot i) fun _ => restores_holding _ body)

theorem restores_currentTask : (currentTask : Run n TaskId).Restores Shelters flag :=
  restores_still fun _ => rfl

theorem restores_dropReleased (i : Fin n) : (dropReleased i).Restores Shelters flag := by
  refine restores_bind (restores_unannounced (fun s => (s.1, s.2.read.2)) (fun _ => rfl) fun _ => .refl _)
    fun now => restores_underHome i <| restores_bind (restores_slot i) fun _ => restores_unless _ _ <|
      restores_bind (restores_count i _) fun _ => restores_stamps i fun _ => rfl

theorem restores_release (i : Fin n) : (release i).Restores Shelters flag :=
  restores_bind restores_currentTask fun _ => restores_bind (restores_slot i) fun _ =>
    restores_unless _ _ <| restores_bind (restores_act _) fun _ =>
      restores_bind (restores_updateSlot i (fun _ => rfl) fun _ => rfl) fun _ => restores_dropReleased i

theorem restores_enter (i : Fin n) : (enter i).Restores Shelters flag :=
  restores_bind restores_currentTask fun _ => restores_bind (restores_slot i) fun _ =>
    restores_bind (restores_act _) fun _ =>
      restores_bind (restores_updateSlot i (fun _ => rfl) fun _ => rfl) fun _ => restores_pure _

theorem restores_transfer (direction : Direction) (b : BlockId) :
    (transfer direction b : Run n Unit).Restores Shelters flag := by
  refine restores_bind (restores_still fun _ => rfl) fun _ => restores_bind (restores_act _) fun _ =>
    restores_bind restores_currentTask fun _ => restores_bind (restores_view _) fun fails => ?_
  split
  · exact restores_throw _
  · exact restores_pure _

theorem restores_load (i : Fin n) (b : BlockId) : (load i b).Restores Shelters flag := by
  refine restores_bind (restores_slot i) fun slot => ?_
  split
  · exact restores_bind (restores_act _) fun _ => restores_bind (restores_transfer _ _) fun _ =>
      restores_bind (restores_view _) fun _ => restores_updateSlot i (fun _ => rfl) fun _ => rfl
  · exact restores_pure _

theorem restores_loadOrRelease (i : Fin n) (b : BlockId) :
    (loadOrRelease i b).Restores Shelters flag :=
  restores_tryCatch (restores_load i b) fun _ =>
    restores_bind (restores_release i) fun _ => restores_throw _

theorem restores_write (i : Fin n) : (write i).Restores Shelters flag :=
  restores_bind restores_currentTask fun _ => restores_bind (restores_slot i) fun held =>
    restores_unless _ _ <| restores_bind (restores_transfer _ _) fun _ =>
      restores_unannounced
        (fun s => ({ s.1 with disk := s.1.disk.write held.block held.data.data }, s.2)) (fun _ => rfl)
        fun _ => .refl _

theorem restores_unpin (i : Fin n) (own : Bool) : (unpin i own).Restores Shelters flag :=
  restores_unless _ _ <| restores_underHome i <| restores_bind (restores_slot i) fun _ =>
    restores_unless _ _ (restores_count i _)

theorem restores_isCached (b : BlockId) : (isCached b : Run n _).Restores Shelters flag :=
  restores_masked (restores_holding _ (restores_view _))

theorem restores_audit : (audit : Run n _).Restores Shelters flag :=
  restores_masked (restores_holding _ (restores_holdingAll _ (restores_view _)))

theorem Call.restores (call : Call n) : call.operation.Restores Shelters flag := by
  cases call with
  | claim b => exact restores_claim b
  | enter i => exact restores_enter i
  | load i b => exact restores_loadOrRelease i b
  | write i => exact restores_write i
  | release i => exact restores_release i
  | pin i => exact restores_underHome i (restores_count i _)
  | unpin i own => exact restores_unpin i own
  | isCached b => exact restores_isCached b
  | audit => exact restores_audit

end Cache

namespace Machine

variable {s t u : Machine n m} {who : TaskId → Prop} {task : TaskId} {event : Event m}

-- From `s` to `t` every core and interrupt flag is the same, interrupts were switched on as often as off,
-- and never if the tasks that did anything had them off.
structure Restored (who : TaskId → Prop) (s t : Machine n m) : Prop where
  cpu : ∀ task, t.cpu task = s.cpu task
  calls : ∃ k, Effect.masks t.effects = Effect.masks s.effects + k ∧
    Effect.unmasks t.effects = Effect.unmasks s.effects + k ∧
      ((∀ task, who task → (s.cpu task).enabled = false) → k = 0)

theorem Restored.trans (first : Restored who s t) (second : Restored who t u) : Restored who s u where
  cpu := fun task => (second.cpu task).trans (first.cpu task)
  calls := by
    obtain ⟨j, masked, unmasked, none⟩ := first.calls
    obtain ⟨k, more, further, still⟩ := second.calls
    refine ⟨j + k, by omega, by omega, fun off => ?_⟩
    have before := none off
    have after := still fun task one => (first.cpu task).symm ▸ off task one
    omega

theorem restored_part (part : Part who s t) : Restored who s t := by
  cases part with
  | runs task one c call =>
    have restores : call.operation.Restores Cache.Shelters fun _ => True := call.restores
    have restored := restores.restored (s.entry task c) trivial
    refine ⟨fun other => ?_, ?_⟩
    · rw [cpu, show (s.run task c call.operation).2.cpus =
        s.cpus.put task (call.operation.run (s.entry task c)).2.cpu from rfl, Registry.find?_put,
        restored.cpu]
      split
      · rename_i same
        rw [eq_of_beq same]
        rfl
      · rfl
    · obtain ⟨k, masked, unmasked, none⟩ := restored.calls
      have effects : (s.run task c call.operation).2.effects =
          (call.operation.run (s.entry task c)).2.past ++ s.effects := by
        rw [Machine.effects, show (s.run task c call.operation).2.past =
          (call.operation.run (s.entry task c)).2.past.map (c, ·) ++ s.past from rfl, List.map_append,
          List.map_map]
        exact congrArg (· ++ s.effects) (List.map_id' _)
      refine ⟨k, ?_, ?_, fun off => none (off task one)⟩
      · rw [effects, Effect.masks, List.countP_append, Nat.add_comm]
        exact congrArg (Effect.masks s.effects + ·) (masked.trans (Nat.zero_add k))
      · rw [effects, Effect.unmasks, List.countP_append, Nat.add_comm]
        exact congrArg (Effect.unmasks s.effects + ·) (unmasked.trans (Nat.zero_add k))
  | rests t pools cpus past =>
    refine ⟨fun task => by rw [cpu, cpus, cpu], 0, ?_, ?_, fun _ => rfl⟩
    · rw [effects, past]
      rfl
    · rw [effects, past]
      rfl

theorem restored_parts (parts : Parts who s t) : Restored who s t := by
  induction parts with
  | refl => exact ⟨fun _ => rfl, 0, rfl, rfl, fun _ => rfl⟩
  | tail _ part ih => exact ih.trans (restored_part part)

theorem cpu_advance (s : Machine n m) (task : TaskId) (operates : event.Operates) (who : TaskId) :
    (s.opened.advance task event).2.cpu who = s.cpu who :=
  (restored_parts (parts_advance (anybody_is task) operates)).cpu who

theorem enabled_resumeAll (tasks : List TaskId) (s : Machine n m) :
    ∀ woken ∈ (resumeAll tasks s).1, woken.enabled = (s.cpu woken.task).enabled := by
  induction tasks generalizing s with
  | nil => exact List.forall_mem_nil _
  | cons task rest ih =>
    unfold resumeAll
    cases found : s.asleep.find? task with
    | none => exact ih s
    | some call =>
      have looked := restored_parts
        (parts_enter (s := { s with asleep := s.asleep.erase task }) (anybody_is task) call)
      refine List.forall_mem_cons.mpr ⟨?_, fun woken later => ?_⟩
      · exact congrArg Processor.enabled (looked.cpu task)
      · exact (ih _ woken later).trans (congrArg Processor.enabled (looked.cpu woken.task))

theorem enabled_wake (s : Machine n m) :
    ∀ woken ∈ s.wake.1, woken.enabled = (s.cpu woken.task).enabled := by
  unfold wake
  cases s.released? with
  | none => exact List.forall_mem_nil _
  | some place => exact enabled_resumeAll _ _

structure Shelters (s : Machine n m) (task : TaskId) (event : Event m) : Prop where
  -- Every task has the core and the interrupt flag that it had.
  flags : ∀ who, (s.step task event).2.cpu who = s.cpu who
  -- So it is told, and so are those that were woken.
  told : (s.step task event).1.enabled = (s.cpu task).enabled
  woken : ∀ woken ∈ (s.step task event).1.woken, woken.enabled = (s.cpu woken.task).enabled
  -- Interrupts were switched on as often as off.
  balanced : Effect.masks (s.step task event).2.effects = Effect.unmasks (s.step task event).2.effects
  -- A task that has them off and wakes nobody does not touch them.
  silent : (s.cpu task).enabled = false → (s.step task event).1.woken = [] →
    Effect.masks (s.step task event).2.effects = 0
  -- Lists, counts and times of release change in the operations of the cache alone.
  parts : Parts (fun who => who = task ∨ ∃ woken ∈ (s.step task event).1.woken, woken.task = who)
    s.opened (s.step task event).2

theorem step_shelters (s : Machine n m) (task : TaskId) (operates : event.Operates) :
    s.Shelters task event := by
  have parts : Parts (fun who => who = task ∨ ∃ woken ∈ (s.step task event).1.woken, woken.task = who)
      s.opened (s.step task event).2 :=
    parts_step s task operates (fun _ => .inl rfl) fun woken member => .inr ⟨woken, member, rfl⟩
  have restored := restored_parts parts
  obtain ⟨k, masked, unmasked, none⟩ := restored.calls
  have flags : ∀ who, (s.step task event).2.cpu who = s.cpu who := restored.cpu
  refine ⟨flags, ?_, ?_, masked.trans unmasked.symm, fun off nobody => ?_, parts⟩
  · cases asleep : s.isAsleep task with
    | true => rw [step_asleep asleep]
    | false =>
      rw [step_awake asleep]
      exact congrArg Processor.enabled (s.cpu_advance task operates task)
  · cases asleep : s.isAsleep task with
    | true =>
      rw [step_asleep asleep]
      exact List.forall_mem_nil _
    | false =>
      rw [step_awake asleep]
      intro woken member
      exact (enabled_wake _ woken member).trans
        (congrArg Processor.enabled (s.cpu_advance task operates woken.task))
  · have own : k = 0 := by
      refine none fun who one => ?_
      rcases one with rfl | ⟨woken, member, _⟩
      · exact off
      · rw [nobody] at member
        cases member
    rw [masked, own]
    rfl

end Machine

end KernelResources.Buffer
