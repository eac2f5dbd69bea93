import KernelResources.Proofs.Buffer.StepMoves

namespace KernelResources.Buffer

open Machine Stage

variable {n m : Nat}

inductive Served : Reply → Prop where
  | buffer (info : BufferInfo) (bytes : Block) : Served (.done (.buffer info bytes))
  | asleep : Served .asleep

structure Disk.Alike (d e : Disk) : Prop where
  initial : d.initial = e.initial
  failing : d.failing = e.failing

theorem Disk.Alike.fails {d e : Disk} (alike : d.Alike e) (task : TaskId) (b : BlockId) :
    d.fails task b = e.fails task b := by
  rw [Disk.fails, Disk.fails, alike.failing]

theorem queue_enter (lock : SleepLock Block) (task : TaskId) :
    (∀ other ∈ lock.sleepers, other ∈ (lock.enter task).2.sleepers) ∧
      (lock.holder ≠ none → task ∈ (lock.enter task).2.sleepers) := by
  unfold SleepLock.enter SleepLock.tryLock
  cases holder : lock.holder <;> simp +contextual

namespace Machine

def Queued (s : Machine n m) (task : TaskId) (call : SleepingCall n m) : Prop :=
  task ∈ (s.slot call.place).data.sleepers ∧ (s.slot call.place).data.holder ≠ none

-- The devices are as they were, and every call asleep is in the queue of a locked buffer or is one of
-- those that are still to be woken.
structure Attended (disks : Vector Disk m) (s : Machine n m) (pending : List TaskId) : Prop where
  devices : ∀ c : Fin m, disks[c].Alike s.caches[c].disk
  queued : ∀ task call, s.asleep.find? task = some call → task ∈ pending ∨ s.Queued task call

variable {disks : Vector Disk m} {s t : Machine n m} {pending : List TaskId}

theorem Attended.weaken (attended : s.Attended disks []) : s.Attended disks pending := by
  refine ⟨attended.devices, ?_⟩
  intro task call found
  rcases attended.queued task call found with absent | queued
  · cases absent
  · exact .inr queued

theorem Attended.agrees (attended : s.Attended disks pending) (agrees : t.Agrees s) :
    t.Attended disks pending := by
  refine ⟨?_, ?_⟩
  · rw [agrees.caches]
    exact attended.devices
  · intro task call
    rw [agrees.asleep, Queued, agrees.slot]
    exact attended.queued task call

theorem Attended.opened (attended : s.Attended disks pending) : s.opened.Attended disks pending :=
  ⟨attended.devices, attended.queued⟩

theorem Attended.slot_change (attended : s.Attended disks pending) (p : Place n m) {slot : Slot}
    (asleep : t.asleep = s.asleep)
    (devices : ∀ c : Fin m, s.caches[c].disk.Alike t.caches[c].disk)
    (slots : ∀ q, t.slot q = if q = p then slot else s.slot q)
    (sleepers : ∀ task ∈ (s.slot p).data.sleepers, task ∈ slot.data.sleepers)
    (holder : (s.slot p).data.holder ≠ none → slot.data.holder ≠ none) :
    t.Attended disks pending := by
  refine ⟨?_, ?_⟩
  · intro c
    obtain ⟨initial, failing⟩ := attended.devices c
    exact ⟨initial.trans (devices c).initial, failing.trans (devices c).failing⟩
  · intro task call found
    rw [asleep] at found
    rcases attended.queued task call found with waits | ⟨queued, locked⟩
    · exact .inl waits
    · rw [Queued, slots]
      split
      · rename_i here
        rw [here] at queued locked
        exact .inr ⟨sleepers task queued, holder locked⟩
      · exact .inr ⟨queued, locked⟩

theorem Attended.updateSlot (attended : s.Attended disks pending) (p : Place n m) {f : Slot → Slot}
    (sleepers : ∀ task ∈ (s.slot p).data.sleepers, task ∈ (f (s.slot p)).data.sleepers)
    (holder : (s.slot p).data.holder ≠ none → (f (s.slot p)).data.holder ≠ none) :
    (s.updateSlot p f).Attended disks pending := by
  refine attended.slot_change p rfl ?_ (s.slot_updateSlot p · f) sleepers holder
  intro c
  rw [disk_updateSlot]
  exact ⟨rfl, rfl⟩

theorem Attended.recycle (attended : s.Attended disks pending) (p : Place n m) (b : BlockId) :
    (s.recycle p b).Attended disks pending := by
  refine attended.slot_change p rfl ?_ (s.slot_recycle p · b) (fun _ queued => queued) id
  intro c
  rw [disk_recycle]
  exact ⟨rfl, rfl⟩

theorem Attended.store (attended : s.Attended disks pending) (p : Place n m) :
    (s.store p).Attended disks pending := by
  have slots : ∀ q, (s.store p).slot q = if q = p then s.slot p else s.slot q := by
    intro q
    rw [slot_store]
    split
    · rename_i here
      rw [here]
    · rfl
  refine attended.slot_change p rfl ?_ slots (fun _ queued => queued) id
  intro c
  rw [Machine.store, cache_updateCache]
  split
  · rename_i here
    rw [← here]
    exact ⟨rfl, rfl⟩
  · exact ⟨rfl, rfl⟩

theorem Attended.enter (attended : s.Attended disks pending) (p : Place n m) (task : TaskId) :
    (s.updateSlot p (.enter task)).Attended disks pending := by
  refine attended.updateSlot p (queue_enter (s.slot p).data task).1 ?_
  intro locked
  rw [Slot.enter, (holder_enter _ task).1]
  simp

theorem Attended.dismiss {p : Place n m} (attended : s.Attended disks (s.slot p).data.sleepers)
    (f : Slot → Slot) : (s.updateSlot p f).Attended disks (s.slot p).data.sleepers := by
  refine ⟨?_, ?_⟩
  · intro c
    rw [disk_updateSlot]
    exact attended.devices c
  · intro task call found
    rcases attended.queued task call found with waits | ⟨queued, locked⟩
    · exact .inl waits
    · by_cases here : call.place = p
      · rw [here] at queued
        exact .inl queued
      · rw [Queued, slot_updateSlot, if_neg here]
        exact .inr ⟨queued, locked⟩

theorem Attended.sleep (attended : s.Attended disks pending) {task : TaskId} {call : SleepingCall n m}
    (queued : s.Queued task call) :
    { s with asleep := s.asleep.put task call }.Attended disks pending := by
  refine ⟨attended.devices, ?_⟩
  intro other slept found
  dsimp only at found
  rw [Registry.find?_put] at found
  split at found
  · rename_i same
    cases found
    rw [eq_of_beq same]
    exact .inr queued
  · exact attended.queued other slept found

theorem Attended.rouse {task : TaskId} (attended : s.Attended disks (task :: pending)) :
    { s with asleep := s.asleep.erase task }.Attended disks pending := by
  refine ⟨attended.devices, ?_⟩
  intro other slept found
  dsimp only at found
  rw [Registry.find?_erase] at found
  split at found
  · cases found
  · rename_i apart
    rcases attended.queued other slept found with waits | queued
    · rcases List.mem_cons.mp waits with rfl | later
      · simp at apart
      · exact .inl later
    · exact .inr queued

variable (works : ∀ (c : Fin m) (task : TaskId) (b : BlockId), disks[c].fails task b = false)

include works

theorem finish_served (attended : s.Attended disks pending) (task : TaskId) (call : SleepingCall n m) :
    Served (s.finish task call).1 ∧ (s.finish task call).2.Attended disks pending := by
  unfold finish
  cases loads : call.loads with
  | false =>
    rw [if_neg Bool.false_ne_true]
    exact ⟨.buffer _ _, attended.devices, attended.queued⟩
  | true =>
    rw [if_pos rfl]
    cases valid : (s.slot call.place).valid with
    | true =>
      obtain ⟨t, ran, agrees⟩ := s.run_load_valid task call.block valid
      obtain ⟨devices, queued⟩ := attended.agrees agrees
      rw [ran]
      exact ⟨.buffer _ _, devices, queued⟩
    | false =>
      have healthy := (attended.devices call.place.cache).fails task call.block
      rw [works] at healthy
      obtain ⟨t, ran, agrees⟩ := s.run_load_succeeds task valid healthy.symm
      have loaded := attended.updateSlot call.place
        (f := .load (s.caches[call.place.cache].disk.content call.block)) (fun _ queued => queued) id
      obtain ⟨devices, queued⟩ := loaded.agrees agrees
      rw [ran]
      exact ⟨.buffer _ _, devices, queued⟩

theorem enter_served (attended : s.Attended disks pending) (task : TaskId) (call : SleepingCall n m) :
    Served (s.enter task call).1 ∧ (s.enter task call).2.Attended disks pending := by
  obtain ⟨t, ran, agrees⟩ := s.run_enter task call.place
  have entered := (attended.enter call.place task).agrees agrees
  unfold Machine.enter
  rw [ran]
  cases holder : (s.slot call.place).data.holder with
  | none => exact finish_served works entered task call
  | some other =>
    have locked : (s.slot call.place).data.holder ≠ none := by simp [holder]
    have queued : t.Queued task call := by
      rw [Queued, agrees.slot, slot_updateSlot, if_pos rfl, Slot.enter, (holder_enter _ task).1, holder]
      exact ⟨(queue_enter (s.slot call.place).data task).2 locked, by simp⟩
    exact ⟨.asleep, entered.sleep queued⟩

theorem resumeAll_served {tasks : List TaskId} (attended : s.Attended disks tasks) :
    (∀ woken ∈ (resumeAll tasks s).1, Served woken.reply) ∧
      (resumeAll tasks s).2.Attended disks [] := by
  induction tasks generalizing s with
  | nil => exact ⟨by simp [resumeAll], attended⟩
  | cons task rest ih =>
    unfold resumeAll
    cases found : s.asleep.find? task with
    | none =>
      have gone := attended.rouse
      rw [Registry.erase_absent found] at gone
      exact ih gone
    | some call =>
      have roused := attended.rouse
      obtain ⟨served, entered⟩ := enter_served works roused task call
      obtain ⟨later, resumed⟩ := ih entered
      exact ⟨List.forall_mem_cons.mpr ⟨served, later⟩, resumed⟩

omit works

def waking (s : Machine n m) : List TaskId :=
  match s.released? with
  | none => []
  | some place => (s.slot place).data.sleepers

include works

theorem wake_served (attended : s.Attended disks s.waking) :
    (∀ woken ∈ s.wake.1, Served woken.reply) ∧ s.wake.2.Attended disks [] := by
  unfold waking at attended
  unfold wake
  cases released : s.released? with
  | none =>
    rw [released] at attended
    exact ⟨by simp, attended⟩
  | some place =>
    rw [released] at attended
    have same : (s.updateSlot place fun slot => { slot with data := (s.slot place).data.wake.2 }) =
        s.updateSlot place fun slot => { slot with data := slot.data.wake.2 } :=
      s.updateSlot_congr place rfl
    dsimp only
    rw [same]
    exact resumeAll_served works (attended.dismiss _)

variable {task : TaskId} {c : Fin m} {b : BlockId} {name : String} {p : Place n m} {event : Event m}

theorem call_served (attended : s.Attended disks []) (task : TaskId) (free : s.held.find? name = none)
    (available : s.caches[c].pool.find? b = none → s.caches[c].pool.leastRecentlyReleased ≠ none)
    (loads : Bool) :
    Served (s.call task c b loads name).1 ∧ (s.call task c b loads name).2.Attended disks [] := by
  unfold call
  rw [free]
  cases found : s.caches[c].pool.find? b with
  | some i =>
    obtain ⟨t, ran, agrees⟩ := s.run_claim_found task found
    have referred := attended.updateSlot ⟨c, i⟩ (f := .refer) (fun _ queued => queued) id
    rw [ran]
    exact enter_served works (referred.agrees agrees) task _
  | none =>
    obtain ⟨i, chosen⟩ := Option.ne_none_iff_exists'.mp (available found)
    obtain ⟨t, ran, agrees⟩ := s.run_claim_recycles task found chosen
    rw [ran]
    exact enter_served works ((attended.recycle ⟨c, i⟩ b).agrees agrees) task _

omit works

structure Serves (disks : Vector Disk m) (s : Machine n m) (task : TaskId) (event : Event m) : Prop where
  woken : ∀ woken ∈ (s.step task event).1.woken, Served woken.reply
  attended : (s.step task event).2.Attended disks []

include works

theorem serves_step (awake : s.isAsleep task = false)
    (advanced : (s.opened.advance task event).2.Attended disks (s.opened.advance task event).2.waking) :
    Serves disks s task event := by
  obtain ⟨served, attended⟩ := wake_served works advanced
  refine ⟨?_, ?_⟩ <;> rw [step_awake awake]
  · exact served
  · exact attended

theorem read_serves (attended : s.Attended disks []) (awake : s.isAsleep task = false)
    (free : s.held.find? name = none)
    (available : s.caches[c].pool.find? b = none → s.caches[c].pool.leastRecentlyReleased ≠ none) :
    Served (s.step task (.read c b name)).1.reply ∧ Serves disks s task (.read c b name) := by
  obtain ⟨served, called⟩ :=
    call_served works attended.opened task free available true
  refine ⟨?_, serves_step works awake called.weaken⟩
  rw [step_awake awake]
  exact served

theorem put_serves (attended : s.Attended disks []) (awake : s.isAsleep task = false)
    (found : s.held.find? name = some p) {offset : Nat} {bytes : List UInt8}
    (inside : offset + bytes.length ≤ blockSize) :
    (s.step task (.put name offset bytes)).1.reply = .done .unit ∧
      Serves disks s task (.put name offset bytes) := by
  have advanced : s.opened.advance task (.put name offset bytes) =
      (.done .unit, s.opened.edit p (·.overwrite offset bytes)) := by
    have held : s.opened.held.find? name = some p := found
    simp only [advance, withBuffer, held, if_pos inside]
  have edited : (s.opened.edit p (·.overwrite offset bytes)).Attended disks [] :=
    attended.opened.updateSlot p (fun _ queued => queued) id
  refine ⟨?_, serves_step works awake ?_⟩
  · rw [step_awake awake, advanced]
  · rw [advanced]
    exact edited.weaken

theorem write_serves (attended : s.Attended disks []) (awake : s.isAsleep task = false)
    (found : s.held.find? name = some p) (locked : (s.slot p).data.holder = some task) :
    (s.step task (.write name)).1.reply = .done .unit ∧ Serves disks s task (.write name) := by
  have healthy := (attended.devices p.cache).fails task (s.slot p).block
  rw [works] at healthy
  obtain ⟨t, ran, agrees⟩ := run_write_succeeds s.opened task (heldBy_iff.mpr locked) healthy.symm
  have advanced : s.opened.advance task (.write name) = (.done .unit, t) := by
    have held : s.opened.held.find? name = some p := found
    simp only [advance, withBuffer, held, ran]
    rfl
  have stored : (s.opened.store p).Attended disks [] :=
    attended.opened.store p
  refine ⟨?_, serves_step works awake ?_⟩
  · rw [step_awake awake, advanced]
  · rw [advanced]
    exact (stored.agrees agrees).weaken

omit works

def unlocks? : Cache.Act n → Option (Fin n)
  | .leavesLock i => some i
  | _ => none

theorem released?_run {α : Type} {s : Machine n m} (fresh : s.past = []) (task : TaskId) (c : Fin m)
    (op : Cache.Run n α) :
    (s.run task c op).2.released? =
      ((Effect.acts (op.run (s.entry task c)).2.past).reverse.findSome? unlocks?).map
        fun i => ⟨c, i⟩ := by
  have past : (s.run task c op).2.past = (op.run (s.entry task c)).2.past.map (c, ·) := by
    simp only [run, absorb, setCpu, fresh, List.append_nil]
    rfl
  rw [released?, past, Effect.acts]
  generalize (op.run (s.entry task c)).2.past = effects
  induction effects with
  | nil => rfl
  | cons effect rest ih =>
    cases effect with
    | act what =>
      cases what with
      | leavesLock i => simp [List.findSome?_cons, unlocks?]
      | _ => simpa [List.findSome?_cons, unlocks?] using ih
    | _ => simpa using ih

theorem Attended.release (attended : s.Attended disks []) (task : TaskId) (fresh : s.past = [])
    (held : (s.slot p).data.heldBy task = true) (referenced : (s.slot p).refs ≠ 0) :
    ∃ t, s.run task p.cache (Cache.release p.slot) = (.ok (), t) ∧ t.Attended disks t.waking := by
  obtain ⟨t, ran, agrees⟩ := s.run_release_held task held referenced
  have released : t.released? = some p := by
    have acts := (Cache.release_held (s.entry task p.cache) held referenced).acts
    have unlocked := released?_run fresh task p.cache (Cache.release p.slot)
    rw [ran, acts] at unlocked
    exact unlocked
  have sleepers : (t.slot p).data.sleepers = (s.slot p).data.sleepers := by
    rw [agrees.slot, slot_updateSlot, if_pos rfl, slot_updateSlot, if_pos rfl]
    rfl
  have unlocked := attended.weaken.dismiss (p := p) .unlock
  have stamped := unlocked.updateSlot p (f := .stamp s.clock.now) (fun _ queued => queued) id
  refine ⟨t, ran, ?_⟩
  rw [waking, released]
  dsimp only
  rw [sleepers]
  exact stamped.agrees agrees

include works

theorem release_serves (attended : s.Attended disks []) (awake : s.isAsleep task = false)
    (found : s.held.find? name = some p) (locked : (s.slot p).data.holder = some task)
    (referenced : (s.slot p).refs ≠ 0) :
    (s.step task (.release name)).1.reply = .done .unit ∧ Serves disks s task (.release name) := by
  have given : { s.opened with held := s.held.erase name }.Attended disks [] :=
    ⟨attended.devices, attended.queued⟩
  obtain ⟨t, ran, left⟩ := given.release task rfl (heldBy_iff.mpr locked) referenced
  have advanced : s.opened.advance task (.release name) = (.done .unit, t) := by
    have held : s.opened.held.find? name = some p := found
    simp only [advance, withBuffer, held]
    dsimp only [opened] at ran ⊢
    rw [ran]
    rfl
  refine ⟨?_, serves_step works awake ?_⟩
  · rw [step_awake awake, advanced]
  · rw [advanced]
    exact left

end Machine

end KernelResources.Buffer
