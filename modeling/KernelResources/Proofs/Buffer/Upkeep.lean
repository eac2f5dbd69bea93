import KernelResources.Proofs.Buffer.MachineRuns

namespace KernelResources.Buffer

variable {n m : Nat}

structure Slot.SameContents (s t : Slot) : Prop where
  tag : s.SameTag t
  valid : s.valid = t.valid
  bytes : s.data.data = t.data.data

theorem Slot.SameContents.refl (s : Slot) : s.SameContents s := ⟨⟨rfl, rfl⟩, rfl, rfl⟩

theorem Slot.SameContents.trans {s t u : Slot} (first : s.SameContents t) (second : t.SameContents u) :
    s.SameContents u :=
  ⟨⟨first.tag.1.trans second.tag.1, first.tag.2.trans second.tag.2⟩, first.valid.trans second.valid,
    first.bytes.trans second.bytes⟩

theorem Slot.contents_enter (s : Slot) (task : TaskId) : s.SameContents (s.enter task) := by
  refine ⟨⟨rfl, rfl⟩, rfl, ?_⟩
  unfold Slot.enter SleepLock.enter SleepLock.tryLock
  cases s.data.holder <;> rfl

structure Pool.SameContents (p q : Pool n) : Prop where
  buckets : p.buckets = q.buckets
  slots : ∀ i : Fin n, p.slots[i].SameContents q.slots[i]

namespace Pool

theorem SameContents.refl (p : Pool n) : p.SameContents p := ⟨rfl, fun _ => .refl _⟩

theorem SameContents.trans {p q r : Pool n} (first : p.SameContents q) (second : q.SameContents r) :
    p.SameContents r :=
  ⟨first.buckets.trans second.buckets, fun i => (first.slots i).trans (second.slots i)⟩

theorem SameContents.tags {p q : Pool n} (same : p.SameContents q) : p.SameTags q :=
  ⟨same.buckets, fun i => (same.slots i).tag⟩

theorem contents_updateSlot (p : Pool n) (i : Fin n) {f : Slot → Slot}
    (same : p.slots[i].SameContents (f p.slots[i])) : p.SameContents (p.updateSlot i f) := by
  refine ⟨rfl, ?_⟩
  intro j
  rw [slot_updateSlot]
  split
  · rename_i here
    exact here ▸ same
  · exact .refl _

end Pool

namespace Cache

open Operation

def SameContents (s t : Cache n × Clock) : Prop := s.1.pool.SameContents t.1.pool

variable {α β : Type}

theorem contents_still {op : Run n α} (still : ∀ e, (op.run e).2.state = e.state) :
    op.Keeps SameContents := keeps_still (fun _ => .refl _) still

theorem contents_bind {op : Run n α} {rest : α → Run n β} (first : op.Keeps SameContents)
    (later : ∀ value, (rest value).Keeps SameContents) : (op >>= rest).Keeps SameContents :=
  keeps_bind (fun _ _ _ => .trans) first later

theorem contents_updateSlot (i : Fin n) {f : Slot → Slot} (same : ∀ s : Slot, s.SameContents (f s)) :
    (updateSlot i f).Keeps SameContents :=
  fun e => Pool.contents_updateSlot e.state.1.pool i (same _)

theorem contents_count (i : Fin n) (f : UInt32 → UInt32) : (count i f).Keeps SameContents :=
  contents_bind (contents_still fun _ => rfl) fun _ =>
    contents_updateSlot i fun _ => ⟨⟨rfl, rfl⟩, rfl, rfl⟩

theorem contents_underHome (i : Fin n) {body : Run n α} (inside : body.Keeps SameContents) :
    (underHome i body).Keeps SameContents :=
  keeps_masked (contents_bind (contents_still fun _ => rfl) fun _ => keeps_holding _ inside)

theorem contents_unless (wrong : Prop) [Decidable wrong] (fault : CacheFault) {op : Run n α}
    (body : op.Keeps SameContents) :
    (do if wrong then throw fault
        op).Keeps SameContents := by
  split
  · exact contents_still fun _ => rfl
  · exact body

theorem contents_dropReleased (i : Fin n) : (dropReleased i).Keeps SameContents := by
  refine contents_bind (fun _ => Pool.SameContents.refl _) fun now => contents_underHome i ?_
  refine contents_bind (contents_still fun _ => rfl) fun before => contents_unless _ _ ?_
  refine contents_bind (contents_count i _) fun _ => contents_bind (contents_still fun _ => rfl) fun _ => ?_
  exact contents_updateSlot i fun _ => ⟨⟨rfl, rfl⟩, rfl, rfl⟩

theorem contents_release (i : Fin n) : (release i).Keeps SameContents := by
  refine contents_bind (contents_still fun _ => rfl) fun task => ?_
  refine contents_bind (contents_still fun _ => rfl) fun before => contents_unless _ _ ?_
  refine contents_bind (contents_still fun _ => rfl) fun _ => ?_
  exact contents_bind (contents_updateSlot i fun _ => ⟨⟨rfl, rfl⟩, rfl, rfl⟩) fun _ =>
    contents_dropReleased i

theorem contents_transfer (direction : Direction) (b : BlockId) :
    (transfer direction b : Run n Unit).Keeps SameContents := by
  refine contents_still fun e => ?_
  unfold transfer
  cases fails : e.state.1.disk.fails e.task b <;> simp [fails]

theorem contents_enter (i : Fin n) : (enter i).Keeps SameContents := by
  intro e
  rw [(enter_ends e i).state]
  exact Pool.contents_updateSlot _ i (Slot.contents_enter _ _)

theorem contents_write (i : Fin n) : (write i).Keeps SameContents := by
  refine contents_bind (contents_still fun _ => rfl) fun task => ?_
  refine contents_bind (contents_still fun _ => rfl) fun held => contents_unless _ _ ?_
  exact contents_bind (contents_transfer .write _) fun _ => fun _ => Pool.SameContents.refl _

theorem contents_pin (i : Fin n) : (pin i).Keeps SameContents :=
  contents_underHome i (contents_count i _)

theorem contents_unpin (i : Fin n) (own : Bool) : (unpin i own).Keeps SameContents :=
  contents_unless _ _ <| contents_underHome i <| contents_bind (contents_still fun _ => rfl) fun _ =>
    contents_unless _ _ (contents_count i _)

theorem contents_isCached (b : BlockId) : (isCached b : Run n Bool).Keeps SameContents :=
  contents_still fun e => (isCached_ends e b).state

theorem contents_audit : (audit : Run n _).Keeps SameContents :=
  contents_still fun e => (audit_ends e).state

theorem contents_load_fails {e : Execution PoolLock (Act n) (Cache n × Clock)} {i : Fin n} {b : BlockId}
    (invalid : e.state.1.pool.slots[i].valid = false) (fails : e.state.1.disk.fails e.task b = true) :
    SameContents e.state ((loadOrRelease i b).run e).2.state := by
  obtain ⟨failed, ran, same⟩ :
      ∃ failed, (load i b).run e = (.error (.disk b), failed) ∧ failed.state = e.state := by
    unfold load transfer
    simp [invalid, fails]
  have givenUp : (release i >>= fun _ => (throw (.disk b) : Run n Unit)).Keeps SameContents :=
    contents_bind (contents_release i) fun _ => contents_still fun _ => rfl
  unfold loadOrRelease
  rw [run_tryCatch, ran, ← same]
  exact givenUp failed

end Cache

namespace Machine

variable {α : Type} {s t u : Machine n m}

def SameContents (s t : Machine n m) : Prop :=
  ∀ c : Fin m, s.caches[c].pool.SameContents t.caches[c].pool

theorem SameContents.refl (s : Machine n m) : s.SameContents s := fun _ => .refl _

theorem SameContents.slot (same : s.SameContents t) (p : Place n m) :
    (s.slot p).SameContents (t.slot p) := (same p.cache).slots p.slot

theorem contents_agrees (agrees : t.Agrees s) : s.SameContents t := by
  intro c
  rw [agrees.caches]
  exact .refl _

theorem contents_updateSlot (s : Machine n m) (p : Place n m) {f : Slot → Slot}
    (same : (s.slot p).SameContents (f (s.slot p))) : s.SameContents (s.updateSlot p f) := by
  intro c
  rw [updateSlot, cache_updateCache]
  split
  · rename_i here
    subst here
    exact Pool.contents_updateSlot _ p.slot same
  · exact .refl _

theorem contents_run (s : Machine n m) (task : TaskId) (c : Fin m) {op : Cache.Run n α}
    (same : Cache.SameContents (s.entry task c).state (op.run (s.entry task c)).2.state) :
    s.SameContents (s.run task c op).2 := by
  intro d
  rw [cache_run]
  split
  · rename_i here
    subst here
    exact same
  · exact .refl _

theorem contents_setFault (s : Machine n m) (c : Fin m) (who : Option TaskId) (b : BlockId) (on : Bool) :
    s.SameContents (s.setFault c who b on) := by
  intro d
  rw [pool_setFault]
  exact .refl _

theorem contents_withBuffer {name : String} {f : Place n m → Reply × Machine n m}
    (kept : ∀ p, s.SameContents (f p).2) : s.SameContents (s.withBuffer name f).2 := by
  unfold withBuffer
  cases s.held.find? name with
  | some p => exact kept p
  | none => exact .refl s

theorem contents_withPin {name : String} {f : Place n m → Reply × Machine n m}
    (kept : ∀ p, s.SameContents (f p).2) : s.SameContents (s.withPin name f).2 := by
  unfold withPin
  cases s.pins.find? name with
  | some p => exact kept p
  | none => exact .refl s

def Event.LeavesContents : Event m → Prop
  | .read .. | .acquire .. | .fill .. | .put .. | .tamper .. => False
  | _ => True

theorem contents_advance (s : Machine n m) (task : TaskId) {event : Event m}
    (leaves : event.LeavesContents) : s.SameContents (s.advance task event).2 := by
  cases event with
  | read | acquire | fill | put | tamper => exact leaves.elim
  | write name =>
    exact contents_withBuffer fun p => contents_run s task p.cache (Cache.contents_write p.slot _)
  | release name =>
    exact contents_withBuffer fun p =>
      contents_run { s with held := s.held.erase name } task p.cache (Cache.contents_release p.slot _)
  | pin name pinName =>
    refine contents_withBuffer fun p => ?_
    cases s.pins.find? pinName with
    | some _ => exact .refl s
    | none =>
      have pinned := contents_run s task p.cache (Cache.contents_pin p.slot _)
      dsimp only
      generalize s.run task p.cache _ = ended at pinned ⊢
      obtain ⟨result, t⟩ := ended
      cases result <;> exact pinned
  | unpin c pinName =>
    exact contents_withPin fun p =>
      contents_run { s with pins := s.pins.erase pinName } task c (Cache.contents_unpin p.slot _ _)
  | bytes | info | record | forget => exact contents_withBuffer fun _ => .refl s
  | dropPin | pinInfo => exact contents_withPin fun _ => .refl s
  | isCached c b => exact contents_run s task c (Cache.contents_isCached b _)
  | audit c =>
    have audited := contents_run s task c (Cache.contents_audit _)
    unfold advance
    dsimp only
    generalize s.run task c Cache.audit = ended at audited ⊢
    obtain ⟨result, t⟩ := ended
    cases result <;> exact audited
  | capacity | setClock | moveTo | setInterrupts | disk => exact .refl s
  | setFault c b on => exact contents_setFault s c none b on
  | setFaultFor c who b on => exact contents_setFault s c (some who) b on

end Machine

end KernelResources.Buffer
