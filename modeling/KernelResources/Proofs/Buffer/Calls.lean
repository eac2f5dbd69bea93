import KernelResources.Proofs.Buffer.MachineRuns
import Mathlib.Logic.Relation

namespace KernelResources.Buffer

variable {n m : Nat}

inductive Cache.Call (n : Nat) where
  | claim (b : BlockId)
  | enter (i : Fin n)
  | load (i : Fin n) (b : BlockId)
  | write (i : Fin n)
  | release (i : Fin n)
  | pin (i : Fin n)
  | unpin (i : Fin n) (own : Bool)
  | isCached (b : BlockId)
  | audit
  deriving DecidableEq, Repr

namespace Cache.Call

def Result : Call n → Type
  | .claim _ => Fin n
  | .enter _ => Bool
  | .isCached _ => Bool
  | .audit => Except AuditError Unit
  | .load .. | .write _ | .release _ | .pin _ | .unpin .. => Unit

def operation : (call : Call n) → Cache.Run n call.Result
  | .claim b => Cache.claim b
  | .enter i => Cache.enter i
  | .load i b => Cache.loadOrRelease i b
  | .write i => Cache.write i
  | .release i => Cache.release i
  | .pin i => Cache.pin i
  | .unpin i own => Cache.unpin i own
  | .isCached b => Cache.isCached b
  | .audit => Cache.audit

end Cache.Call

structure Pool.Alike (p q : Pool n) : Prop where
  buckets : p.buckets = q.buckets
  refs : ∀ i : Fin n, p.slots[i].refs = q.slots[i].refs
  released : ∀ i : Fin n, p.slots[i].released = q.slots[i].released

theorem Pool.Alike.refl (p : Pool n) : p.Alike p := ⟨rfl, fun _ => rfl, fun _ => rfl⟩

namespace Pool

variable {β : Type} {p : Pool n} {i j : Fin n} {f : Slot → Slot}

theorem changed_updateSlot (field : Slot → β)
    (changed : field (p.updateSlot i f).slots[j] ≠ field p.slots[j]) : i = j := by
  rw [slot_updateSlot] at changed
  split at changed
  · assumption
  · exact absurd rfl changed

theorem kept_updateSlot (field : Slot → β) (same : field (f p.slots[i]) = field p.slots[i]) :
    field (p.updateSlot i f).slots[j] = field p.slots[j] := by
  rw [slot_updateSlot]
  split
  · rename_i here
    rw [same, here]
  · rfl

theorem alike_updateSlot (refs : (f p.slots[i]).refs = p.slots[i].refs)
    (released : (f p.slots[i]).released = p.slots[i].released) : (p.updateSlot i f).Alike p :=
  ⟨rfl, fun _ => kept_updateSlot Slot.refs refs, fun _ => kept_updateSlot Slot.released released⟩

end Pool

namespace Machine

-- What the operations of a cache are asked for with. The others move a task, switch its interrupts, or
-- store into a pool from outside.
def Event.Operates : Event m → Prop
  | .moveTo _ | .setInterrupts _ | .tamper .. => False
  | _ => True

-- Part of a step: one of the tasks `who` runs an operation, or nobody does anything that touches a list,
-- a count, a time of release, a core or an interrupt flag.
inductive Part (who : TaskId → Prop) (s : Machine n m) : Machine n m → Prop where
  | runs (task : TaskId) (one : who task) (c : Fin m) (call : Cache.Call n) :
      Part who s (s.run task c call.operation).2
  | rests (t : Machine n m) (pools : ∀ c : Fin m, t.caches[c].pool.Alike s.caches[c].pool)
      (cpus : t.cpus = s.cpus) (past : t.past = s.past) : Part who s t

def anybody (_ : TaskId) : Prop := True

theorem anybody_is (task : TaskId) : anybody task := trivial

abbrev Parts (who : TaskId → Prop) : Machine n m → Machine n m → Prop :=
  Relation.ReflTransGen (Part who)

variable {who : TaskId → Prop} {s t : Machine n m} {task : TaskId}

theorem parts_rest (pools : ∀ c : Fin m, t.caches[c].pool.Alike s.caches[c].pool)
    (cpus : t.cpus = s.cpus) (past : t.past = s.past) : Parts who s t :=
  .single (.rests t pools cpus past)

theorem parts_rebook (parts : Parts who s t) {u : Machine n m} (caches : u.caches = t.caches)
    (cpus : u.cpus = t.cpus) (past : u.past = t.past) : Parts who s u := by
  refine parts.tail (.rests u (fun c => ?_) cpus past)
  rw [caches]
  exact .refl _

theorem parts_updateSlot (s : Machine n m) (p : Place n m) {f : Slot → Slot}
    (refs : (f (s.slot p)).refs = (s.slot p).refs)
    (released : (f (s.slot p)).released = (s.slot p).released) : Parts who s (s.updateSlot p f) := by
  refine parts_rest (fun c => ?_) rfl rfl
  rw [updateSlot, cache_updateCache]
  split
  · rename_i here
    subst here
    exact Pool.alike_updateSlot refs released
  · exact .refl _

theorem parts_run (one : who task) (c : Fin m) (call : Cache.Call n) :
    Parts who s (s.run task c call.operation).2 := .single (.runs task one c call)

theorem parts_finish (one : who task) (call : SleepingCall n m) :
    Parts who s (s.finish task call).2 := by
  unfold finish
  by_cases loads : call.loads = true
  · rw [if_pos loads]
    have ran : Parts who s
        (s.run task call.place.cache (Cache.loadOrRelease call.place.slot call.block)).2 :=
      parts_run one call.place.cache (.load call.place.slot call.block)
    generalize s.run task call.place.cache _ = ended at ran ⊢
    obtain ⟨result, t⟩ := ended
    cases result with
    | error fault => exact ran
    | ok => exact parts_rebook ran rfl rfl rfl
  · rw [if_neg loads]
    exact parts_rebook .refl rfl rfl rfl

theorem parts_enter (one : who task) (call : SleepingCall n m) :
    Parts who s (s.enter task call).2 := by
  unfold enter
  have ran : Parts who s (s.run task call.place.cache (Cache.enter call.place.slot)).2 :=
    parts_run one call.place.cache (.enter call.place.slot)
  generalize s.run task call.place.cache _ = ended at ran ⊢
  obtain ⟨result, t⟩ := ended
  match result with
  | .error fault => exact ran
  | .ok true => exact ran.trans (parts_finish one call)
  | .ok false => exact parts_rebook ran rfl rfl rfl

theorem parts_call (one : who task) (c : Fin m) (b : BlockId) (loads : Bool) (name : String) :
    Parts who s (s.call task c b loads name).2 := by
  unfold call
  cases s.held.find? name with
  | some place => exact .refl
  | none =>
    have ran : Parts who s (s.run task c (Cache.claim b)).2 := parts_run one c (.claim b)
    dsimp only
    generalize s.run task c _ = ended at ran ⊢
    obtain ⟨result, t⟩ := ended
    cases result with
    | error fault => exact ran
    | ok i => exact ran.trans (parts_enter one _)

theorem parts_resumeAll (tasks : List TaskId) (s : Machine n m)
    (ours : ∀ woken ∈ (resumeAll tasks s).1, who woken.task) : Parts who s (resumeAll tasks s).2 := by
  induction tasks generalizing s with
  | nil => exact .refl
  | cons task rest ih =>
    unfold resumeAll at ours ⊢
    cases found : s.asleep.find? task with
    | none =>
      rw [found] at ours
      exact ih s ours
    | some call =>
      rw [found] at ours
      have roused : Parts who s { s with asleep := s.asleep.erase task } :=
        parts_rebook .refl rfl rfl rfl
      have looks := parts_enter (s := { s with asleep := s.asleep.erase task })
        (ours _ (List.mem_cons_self ..)) call
      exact (roused.trans looks).trans (ih _ fun woken later => ours woken (List.mem_cons_of_mem _ later))

theorem parts_wake (s : Machine n m) (ours : ∀ woken ∈ s.wake.1, who woken.task) :
    Parts who s s.wake.2 := by
  unfold wake at ours ⊢
  cases released : s.released? with
  | none => exact .refl
  | some place =>
    rw [released] at ours
    exact (parts_updateSlot s place rfl rfl).trans (parts_resumeAll _ _ ours)

theorem parts_withBuffer {name : String} {f : Place n m → Reply × Machine n m}
    (parts : ∀ p, Parts who s (f p).2) : Parts who s (s.withBuffer name f).2 := by
  unfold withBuffer
  cases s.held.find? name with
  | some place => exact parts place
  | none => exact .refl

theorem parts_withPin {name : String} {f : Place n m → Reply × Machine n m}
    (parts : ∀ p, Parts who s (f p).2) : Parts who s (s.withPin name f).2 := by
  unfold withPin
  cases s.pins.find? name with
  | some place => exact parts place
  | none => exact .refl

theorem parts_pin (one : who task) (p : Place n m) (pinName : String) :
    ∃ t, s.run task p.cache (Cache.pin p.slot) = (.ok (), t) ∧
      Parts who s { t with pins := t.pins.put pinName p } := by
  obtain ⟨t, ran, -⟩ := s.run_pin task p
  have pinned : Parts who s (s.run task p.cache (Cache.pin p.slot)).2 :=
    parts_run one p.cache (.pin p.slot)
  rw [ran] at pinned
  exact ⟨t, ran, parts_rebook pinned rfl rfl rfl⟩

theorem parts_audit (one : who task) (c : Fin m) :
    ∃ t, s.run task c Cache.audit = (.ok s.caches[c].pool.audit, t) ∧ Parts who s t := by
  obtain ⟨t, ran, -⟩ := s.run_audit task c
  have audited : Parts who s (s.run task c Cache.audit).2 := parts_run one c .audit
  rw [ran] at audited
  exact ⟨t, ran, audited⟩

theorem parts_setFault (s : Machine n m) (c : Fin m) (of : Option TaskId) (b : BlockId) (on : Bool) :
    Parts who s (s.setFault c of b on) := by
  refine parts_rest (fun d => ?_) rfl rfl
  rw [pool_setFault]
  exact .refl _

theorem parts_advance (one : who task) {event : Event m} (operates : event.Operates) :
    Parts who s (s.advance task event).2 := by
  have rebooked : ∀ held pins : Registry String (Place n m), Parts who s { s with held, pins } :=
    fun held pins => parts_rebook .refl rfl rfl rfl
  cases event with
  | read c b name => exact parts_call one c b true name
  | acquire c b name => exact parts_call one c b false name
  | write name => exact parts_withBuffer fun p => parts_run one p.cache (.write p.slot)
  | release name =>
    exact parts_withBuffer fun p => (rebooked (s.held.erase name) s.pins).trans
      (parts_run one p.cache (.release p.slot))
  | pin name pinName =>
    refine parts_withBuffer fun p => ?_
    obtain ⟨t, ran, pinned⟩ := parts_pin (s := s) one p pinName
    cases s.pins.find? pinName with
    | some _ => exact .refl
    | none =>
      dsimp only
      rw [ran]
      exact pinned
  | unpin c pinName =>
    exact parts_withPin fun p => (rebooked s.held (s.pins.erase pinName)).trans
      (parts_run one c (.unpin p.slot (p.cache = c)))
  | dropPin pinName => exact parts_withPin fun _ => rebooked s.held (s.pins.erase pinName)
  | fill name byte => exact parts_withBuffer fun p => parts_updateSlot s p rfl rfl
  | put name offset bytes =>
    refine parts_withBuffer fun p => ?_
    split
    · exact parts_updateSlot s p rfl rfl
    · exact .refl
  | forget name => exact parts_withBuffer fun _ => rebooked (s.held.erase name) s.pins
  | bytes name | info name | record name => exact parts_withBuffer fun _ => .refl
  | pinInfo pinName => exact parts_withPin fun _ => .refl
  | isCached c b => exact parts_run one c (.isCached b)
  | audit c =>
    obtain ⟨t, ran, audited⟩ := parts_audit (s := s) one c
    unfold advance
    dsimp only
    rw [ran]
    exact audited
  | setClock now step => exact parts_rebook .refl rfl rfl rfl
  | setFault c b on => exact parts_setFault s c none b on
  | setFaultFor c of b on => exact parts_setFault s c (some of) b on
  | capacity | disk => exact .refl
  | moveTo | setInterrupts | tamper => exact operates.elim

theorem parts_step (s : Machine n m) (task : TaskId) {event : Event m} (operates : event.Operates)
    (own : s.isAsleep task = false → who task)
    (ours : ∀ woken ∈ (s.step task event).1.woken, who woken.task) :
    Parts who s.opened (s.step task event).2 := by
  cases asleep : s.isAsleep task with
  | true =>
    rw [step_asleep asleep]
  | false =>
    rw [step_awake asleep] at ours ⊢
    exact (parts_advance (own asleep) operates).trans (parts_wake _ ours)

end Machine

end KernelResources.Buffer
