import KernelResources.Proofs.Buffer.Looks

namespace KernelResources.Buffer

open Machine Stage

variable {n m : Nat}

namespace Machine

def queue (s : Machine n m) (p : Place n m) : List TaskId := (s.slot p).data.sleepers

-- The calls asleep and the queues are the same. `pending` were woken, and have still to look again.
structure Lined (s : Machine n m) (pending : List TaskId) : Prop where
  once : ∀ p, (s.queue p).Nodup
  stands : ∀ task call, s.asleep.find? task = some call → task ∉ pending → task ∈ s.queue call.place
  sleeps : ∀ p, ∀ task ∈ s.queue p,
    task ∉ pending ∧ ∃ call, s.asleep.find? task = some call ∧ call.place = p
  locked : ∀ p, s.queue p ≠ [] → (s.slot p).data.holder ≠ none

variable {s t u : Machine n m} {pending : List TaskId} {p : Place n m} {slot : Slot} {clock : Clock}
  {acts : List (Cache.Act n)} {task : TaskId} {call : SleepingCall n m}

theorem Lined.kept (lined : s.Lined pending) (asleep : t.asleep = s.asleep)
    (queues : ∀ q, t.queue q = s.queue q)
    (holders : ∀ q, s.queue q ≠ [] → (t.slot q).data.holder ≠ none) : t.Lined pending where
  once := fun q => queues q ▸ lined.once q
  stands := fun who other found awaited => by
    rw [queues]
    exact lined.stands who other (asleep ▸ found) awaited
  sleeps := fun q who member => by
    rw [asleep]
    exact lined.sleeps q who (queues q ▸ member)
  locked := fun q some => holders q (queues q ▸ some)

theorem Works.queue (works : Works s t p slot clock acts) (sleepers : slot.data.sleepers = s.queue p)
    (q : Place n m) : t.queue q = s.queue q := by
  rw [Machine.queue, works.slots]
  split
  · rename_i here
    rw [sleepers, here]
  · rfl

theorem Lined.works (lined : s.Lined pending) (works : Works s t p slot clock acts)
    (sleepers : slot.data.sleepers = s.queue p) (holder : s.queue p ≠ [] → slot.data.holder ≠ none) :
    t.Lined pending := by
  refine lined.kept works.asleep (works.queue sleepers) fun q some => ?_
  rw [works.slots]
  split
  · rename_i here
    exact holder (here ▸ some)
  · exact lined.locked q some

theorem Lined.unqueued (lined : s.Lined pending) (free : (s.slot p).data.holder = none) : s.queue p = [] := by
  by_contra some
  exact lined.locked p some free

theorem queue_enter_busy {slot : Slot} (busy : slot.data.holder ≠ none) (task : TaskId) :
    (slot.enter task).data.sleepers = slot.data.sleepers ++ [task] ∧
      (slot.enter task).data.holder = slot.data.holder := by
  obtain ⟨other, holder⟩ := Option.ne_none_iff_exists'.mp busy
  unfold Slot.enter SleepLock.enter SleepLock.tryLock
  rw [holder]
  exact ⟨rfl, holder⟩

theorem Works.queue_enter (works : Works s t p ((s.slot p).enter task) clock acts)
    (busy : (s.slot p).data.holder ≠ none) (q : Place n m) :
    t.queue q = if q = p then s.queue q ++ [task] else s.queue q := by
  rw [Machine.queue, works.slots]
  split
  · rename_i here
    rw [(queue_enter_busy busy task).1, here]
    rfl
  · rfl

theorem find?_sleeps {who : TaskId} {waits : SleepingCall n m}
    (found : (s.asleep.put task call).find? who = some waits) :
    who = task ∧ waits = call ∨ who ≠ task ∧ s.asleep.find? who = some waits := by
  rw [Registry.find?_put] at found
  split at found
  · rename_i same
    exact .inl ⟨by simpa using same, (Option.some.inj found).symm⟩
  · rename_i other
    exact .inr ⟨by simpa using other, found⟩

theorem Lined.sleep (lined : s.Lined pending) (awake : s.asleep.find? task = none)
    (looked : task ∉ pending) (busy : (s.slot call.place).data.holder ≠ none)
    (works : Works s t call.place ((s.slot call.place).enter task) clock acts) :
    { t with asleep := t.asleep.put task call }.Lined pending := by
  have queues := works.queue_enter busy
  have absent : ∀ q, task ∉ s.queue q := by
    intro q member
    obtain ⟨-, other, found, -⟩ := lined.sleeps q task member
    cases awake.symm.trans found
  refine ⟨?_, ?_, ?_, ?_⟩
  · intro q
    change (t.queue q).Nodup
    rw [queues]
    split
    · rw [← List.concat_eq_append]
      exact (lined.once q).concat (absent q)
    · exact lined.once q
  · intro who waits found awaited
    change who ∈ t.queue waits.place
    rw [queues]
    rcases find?_sleeps (works.asleep ▸ found) with ⟨rfl, rfl⟩ | ⟨-, before⟩
    · rw [if_pos rfl]
      exact List.mem_append_right _ (List.mem_singleton_self who)
    · have member := lined.stands who waits before awaited
      split
      · exact List.mem_append_left _ member
      · exact member
  · intro q who member
    change who ∈ t.queue q at member
    change who ∉ pending ∧ ∃ waits, (t.asleep.put task call).find? who = some waits ∧ waits.place = q
    rw [works.asleep, Registry.find?_put]
    rw [queues] at member
    by_cases same : who = task
    · subst same
      rw [if_pos (by simp)]
      split at member
      · rename_i here
        exact ⟨looked, call, rfl, here.symm⟩
      · exact absurd member (absent q)
    · rw [if_neg (by simpa using same)]
      refine lined.sleeps q who ?_
      split at member
      · exact (List.mem_append.mp member).resolve_right (by simpa using same)
      · exact member
  · intro q some
    change t.queue q ≠ [] at some
    change (t.slot q).data.holder ≠ none
    rw [works.slots]
    rw [queues] at some
    split at some
    · rename_i here
      rw [if_pos here, (queue_enter_busy busy task).2]
      exact busy
    · rename_i elsewhere
      rw [if_neg elsewhere]
      exact lined.locked q some

theorem Lined.rouse (lined : s.Lined (task :: pending)) :
    { s with asleep := s.asleep.erase task }.Lined pending where
  once := lined.once
  stands := by
    intro who other found awaited
    dsimp only at found
    rw [Registry.find?_erase] at found
    split at found
    · cases found
    · rename_i apart
      refine lined.stands who other found ?_
      rw [List.mem_cons, not_or]
      exact ⟨by simpa using apart, awaited⟩
  sleeps := by
    intro q who member
    obtain ⟨awaited, call, found, here⟩ := lined.sleeps q who member
    rw [List.mem_cons, not_or] at awaited
    refine ⟨awaited.2, call, ?_, here⟩
    dsimp only
    rw [Registry.find?_erase, if_neg (by simpa using awaited.1)]
    exact found
  locked := lined.locked

theorem Lined.dismiss (lined : s.Lined []) (asleep : t.asleep = s.asleep)
    (emptied : t.queue p = []) (others : ∀ q, q ≠ p → t.slot q = s.slot q) : t.Lined (s.queue p) := by
  have queues : ∀ q, q ≠ p → t.queue q = s.queue q :=
    fun q other => congrArg (fun slot => slot.data.sleepers) (others q other)
  have inside : ∀ q who, who ∈ t.queue q → q ≠ p := by
    rintro q who member rfl
    rw [emptied] at member
    cases member
  refine ⟨?_, ?_, ?_, ?_⟩
  · intro q
    by_cases here : q = p
    · rw [here, emptied]
      exact .nil
    · rw [queues q here]
      exact lined.once q
  · intro who call found awaited
    rw [asleep] at found
    have member := lined.stands who call found List.not_mem_nil
    have other : call.place ≠ p := fun here => awaited (here ▸ member)
    rw [queues _ other]
    exact member
  · intro q who member
    have other := inside q who member
    rw [queues q other] at member
    obtain ⟨-, call, found, place⟩ := lined.sleeps q who member
    refine ⟨fun waits => ?_, call, asleep ▸ found, place⟩
    obtain ⟨-, same, again, here⟩ := lined.sleeps p who waits
    rw [found] at again
    cases again
    exact other (place.symm.trans here)
  · intro q some
    have other : q ≠ p := fun here => some (here ▸ emptied)
    rw [others q other]
    exact lined.locked q (queues q other ▸ some)

theorem Looked.lined {xs : List (Exchange n m)} {reply : Reply} (looked : Looked s task call xs reply t)
    (lined : s.Lined pending) (awake : s.asleep.find? task = none) (own : task ∉ pending) :
    t.Lined pending := by
  cases looked with
  | waits busy works => exact lined.sleep awake own busy works
  | fails free _ _ works =>
    have nobody := lined.unqueued free
    exact lined.works works rfl fun some => absurd nobody some
  | gets _ works _ locked sleepers =>
    have entered := lined.works works sleepers fun _ => by simp [locked]
    exact ⟨entered.once, entered.stands, entered.sleeps, entered.locked⟩

theorem Looked.queues {xs : List (Exchange n m)} {reply : Reply} (looked : Looked s task call xs reply t)
    (q : Place n m) :
    t.queue q = s.queue q ∨ q = call.place ∧ reply = .asleep ∧ t.queue q = s.queue q ++ [task] ∧
      t.asleep.find? task = some call := by
  cases looked with
  | @waits u busy works =>
    have queue : u.queue q = _ := works.queue_enter busy q
    by_cases here : q = call.place
    · refine .inr ⟨here, rfl, ?_, ?_⟩
      · rw [if_pos here] at queue
        exact queue
      · rw [Registry.find?_put, if_pos (by simp)]
    · rw [if_neg here] at queue
      exact .inl queue
  | fails _ _ _ works => exact .inl (works.queue rfl q)
  | gets _ works _ _ sleepers => exact .inl (works.queue sleepers q)

structure Undisturbed (s t : Machine n m) : Prop where
  queues : ∀ p, t.queue p = s.queue p
  holders : ∀ p, (t.slot p).data.holder = (s.slot p).data.holder
  asleep : t.asleep = s.asleep
  keeps : Unreleasing s t

variable {c : Fin m} {name pinName : String}

theorem undisturbed_rebook (caches : t.caches = s.caches) (asleep : t.asleep = s.asleep)
    (past : t.past = s.past) : s.Undisturbed t where
  queues := fun p => by rw [queue, queue, Machine.slot, Machine.slot, caches]
  holders := fun p => by rw [Machine.slot, Machine.slot, caches]
  asleep := asleep
  keeps := fun c i left => by
    rw [actsAt, past] at left
    exact left

theorem undisturbed_refl (s : Machine n m) : s.Undisturbed s := undisturbed_rebook rfl rfl rfl

theorem undisturbed_setFault (c : Fin m) (who : Option TaskId) (b : BlockId) (on : Bool) :
    s.Undisturbed (s.setFault c who b on) where
  queues := fun p => congrArg (fun slot => slot.data.sleepers) (s.slot_setFault c who b on p)
  holders := fun p => congrArg (fun slot => slot.data.holder) (s.slot_setFault c who b on p)
  asleep := rfl
  keeps := fun _ _ => id

theorem undisturbed_slots (traced : Traced s t c clock acts) (silent : ∀ i, .leavesLock i ∉ acts)
    (asleep : t.asleep = s.asleep) (slots : ∀ p, t.slot p = s.slot p) : s.Undisturbed t where
  queues := fun p => congrArg (fun slot => slot.data.sleepers) (slots p)
  holders := fun p => congrArg (fun slot => slot.data.holder) (slots p)
  asleep := asleep
  keeps := unreleasing_traced traced silent

theorem undisturbed_update {f : Slot → Slot} (agrees : t.Agrees (s.updateSlot p f))
    (keeps : Unreleasing s t) (holder : (f (s.slot p)).data.holder = (s.slot p).data.holder)
    (sleepers : (f (s.slot p)).data.sleepers = (s.slot p).data.sleepers) : s.Undisturbed t := by
  have slots : ∀ q, t.slot q = if q = p then f (s.slot p) else s.slot q := by
    intro q
    rw [agrees.slot, slot_updateSlot]
  refine ⟨fun q => ?_, fun q => ?_, agrees.asleep, keeps⟩
  · rw [queue, slots]
    split
    · rename_i here
      rw [sleepers, here]
      rfl
    · rfl
  · rw [slots]
    split
    · rename_i here
      rw [holder, here]
    · rfl

theorem undisturbed_edit (s : Machine n m) (p : Place n m) (f : Block → Block) : s.Undisturbed (s.edit p f) :=
  undisturbed_update ⟨rfl, rfl, rfl, rfl⟩ (fun _ _ => id) rfl rfl

theorem undisturbed_withBuffer {f : Place n m → Reply × Machine n m}
    (found : ∀ p, s.held.find? name = some p → s.Undisturbed (f p).2) :
    s.Undisturbed (s.withBuffer name f).2 := by
  unfold withBuffer
  split
  · rename_i place held
    exact found place held
  · exact undisturbed_refl s

theorem undisturbed_withPin {f : Place n m → Reply × Machine n m}
    (found : ∀ p, s.pins.find? name = some p → s.Undisturbed (f p).2) :
    s.Undisturbed (s.withPin name f).2 := by
  unfold withPin
  split
  · rename_i place pinned
    exact found place pinned
  · exact undisturbed_refl s

theorem undisturbed_write (s : Machine n m) (task : TaskId) (p : Place n m) :
    s.Undisturbed (s.run task p.cache (Cache.write p.slot)).2 := by
  cases held : (s.slot p).data.heldBy task with
  | false =>
    obtain ⟨t, ran, agrees⟩ := s.run_write_unheld task held
    have traced := run_traced (Cache.write_unheld (s.entry task p.cache) (i := p.slot) held)
    rw [ran] at traced ⊢
    exact undisturbed_slots traced (by simp) agrees.asleep agrees.slot
  | true =>
    cases fails : s.caches[p.cache].disk.fails task (s.slot p).block with
    | true =>
      obtain ⟨t, ran, agrees⟩ := s.run_write_fails task held fails
      have traced := run_traced (Cache.write_fails (s.entry task p.cache) held fails)
      rw [ran] at traced ⊢
      exact undisturbed_slots traced (by simp) agrees.asleep agrees.slot
    | false =>
      obtain ⟨t, ran, agrees⟩ := s.run_write_succeeds task held fails
      have traced := run_traced (Cache.write_succeeds (s.entry task p.cache) held fails)
      rw [ran] at traced ⊢
      exact undisturbed_slots traced (by simp) agrees.asleep fun q =>
        (agrees.slot q).trans (s.slot_store p q)

theorem undisturbed_unpin {l : Ledger m} (accounted : Accounted ⟨s, l, [], []⟩) (task : TaskId) (c : Fin m)
    (known : s.pins.find? pinName = some p) :
    s.Undisturbed ({ s with pins := s.pins.erase pinName }.run task c
      (Cache.unpin p.slot (p.cache = c))).2 := by
  by_cases own : p.cache = c
  · subst own
    have referenced := referenced_hand (accounted.unpin known)
    obtain ⟨t, ran, agrees⟩ := run_unpin_own { s with pins := s.pins.erase pinName } task referenced
    have traced := run_traced (Cache.unpin_own
      (entry { s with pins := s.pins.erase pinName } task p.cache) (i := p.slot) referenced)
    rw [ran] at traced
    rw [decide_eq_true rfl, ran]
    have dropped := undisturbed_update agrees (unreleasing_traced traced (by simp)) rfl rfl
    exact ⟨dropped.queues, dropped.holders, dropped.asleep, dropped.keeps⟩
  · obtain ⟨t, ran, agrees⟩ :=
      run_unpin_foreign { s with pins := s.pins.erase pinName } task (c := c) p.slot
    have traced := run_traced (Cache.unpin_foreign
      (entry { s with pins := s.pins.erase pinName } task c) p.slot)
    rw [ran] at traced
    rw [decide_eq_false own, ran]
    have stopped := undisturbed_slots traced (by simp) agrees.asleep agrees.slot
    exact ⟨stopped.queues, stopped.holders, stopped.asleep, stopped.keeps⟩

def Event.LeavesLocks : Event m → Prop
  | .read .. | .acquire .. | .release .. | .tamper .. => False
  | _ => True

theorem advance_undisturbed {l : Ledger m} (accounted : Accounted ⟨s, l, [], []⟩) (task : TaskId)
    {event : Event m} (leaves : event.LeavesLocks) : s.Undisturbed (s.advance task event).2 := by
  cases event with
  | read | acquire | release | tamper => exact leaves.elim
  | write name => exact undisturbed_withBuffer fun p _ => undisturbed_write s task p
  | pin name pinName =>
    refine undisturbed_withBuffer fun p _ => ?_
    cases s.pins.find? pinName with
    | some _ => exact undisturbed_refl s
    | none =>
      obtain ⟨t, ran, agrees⟩ := s.run_pin task p
      have traced := run_traced (Cache.pin_ends (s.entry task p.cache) p.slot)
      rw [ran] at traced
      dsimp only
      rw [ran]
      have pinned := undisturbed_update agrees (unreleasing_traced traced (by simp)) rfl rfl
      exact ⟨pinned.queues, pinned.holders, pinned.asleep, pinned.keeps⟩
  | unpin c pinName => exact undisturbed_withPin fun p known => undisturbed_unpin accounted task c known
  | fill name byte => exact undisturbed_withBuffer fun p _ => undisturbed_edit s p fun _ => .filled byte
  | put name offset bytes =>
    refine undisturbed_withBuffer fun p _ => ?_
    split
    · exact undisturbed_edit s p (·.overwrite offset bytes)
    · exact undisturbed_refl s
  | bytes | info | record | forget =>
    exact undisturbed_withBuffer fun _ _ => undisturbed_rebook rfl rfl rfl
  | dropPin | pinInfo => exact undisturbed_withPin fun _ _ => undisturbed_rebook rfl rfl rfl
  | isCached c b =>
    obtain ⟨t, ran, agrees⟩ := s.run_isCached task c b
    have traced := run_traced (Cache.isCached_ends (s.entry task c) b)
    rw [ran] at traced
    rw [advance, ran]
    exact undisturbed_slots traced (by simp) agrees.asleep agrees.slot
  | audit c =>
    obtain ⟨t, ran, agrees⟩ := s.run_audit task c
    have traced := run_traced (Cache.audit_ends (s.entry task c))
    rw [ran] at traced
    rw [advance, ran]
    exact undisturbed_slots traced (by simp) agrees.asleep agrees.slot
  | capacity | setClock | moveTo | setInterrupts | disk => exact undisturbed_rebook rfl rfl rfl
  | setFault c b on => exact undisturbed_setFault c none b on
  | setFaultFor c who b on => exact undisturbed_setFault c (some who) b on

end Machine

end KernelResources.Buffer
