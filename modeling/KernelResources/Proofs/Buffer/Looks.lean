import KernelResources.Proofs.Buffer.SoleVisits
import KernelResources.Proofs.Buffer.Transfers

namespace KernelResources.Buffer.Machine

variable {n m : Nat}

-- `xs` are the transfers that are made for the call.
inductive Looked (s : Machine n m) (task : TaskId) (call : SleepingCall n m) (xs : List (Exchange n m)) :
    Reply → Machine n m → Prop where
  | waits {t : Machine n m} (busy : (s.slot call.place).data.holder ≠ none)
      (works : Works s t call.place ((s.slot call.place).enter task) s.clock
        [.sleepsOn call.place.slot])
      (silent : xs = []) :
      Looked s task call xs .asleep { t with asleep := t.asleep.put task call }
  | fails {t : Machine n m} (free : (s.slot call.place).data.holder = none)
      (invalid : (s.slot call.place).valid = false)
      (broken : s.caches[call.place.cache].disk.fails task call.block = true)
      (works : Works s t call.place ((s.slot call.place).stamp s.clock.now) s.clock.read.2
        [.takesLock call.place.slot, .tells (.loading call.block),
          .transfers .read call.block (s.cpu task).enabled, .leavesLock call.place.slot,
          .counts call.place.slot, .stamps call.place.slot]) :
      Looked s task call xs (.halted (.disk call.block)) t
  | gets {t : Machine n m} {slot : Slot} {acts : List (Cache.Act n)}
      (free : (s.slot call.place).data.holder = none)
      (works : Works s t call.place slot s.clock acts)
      (keeps : ∀ i, .leavesLock i ∉ acts)
      (locked : slot.data.holder = some task)
      (sleepers : slot.data.sleepers = (s.slot call.place).data.sleepers)
      (valid : slot.valid = ((s.slot call.place).valid || call.loads))
      (loaded : call.loads = true → (s.slot call.place).valid = false →
        s.caches[call.place.cache].disk.fails task call.block = false ∧
          ∃ x ∈ xs, x.place = call.place ∧ x.Loads)
      (sound : ∀ x ∈ xs, x.failed = false) :
      Looked s task call xs (.done (.buffer (t.infoAt call.place) (t.bytesAt call.place)))
        { t with held := t.held.put call.name call.place }

variable {s t : Machine n m} {p : Place n m} {b : BlockId} {task : TaskId} {call : SleepingCall n m}

theorem Works.load_fails (invalid : (s.slot p).valid = false)
    (broken : s.caches[p.cache].disk.fails task b = true) (held : (s.slot p).data.heldBy task = true)
    (referenced : (s.slot p).refs ≠ 0) :
    ∃ t, s.run task p.cache (Cache.loadOrRelease p.slot b) = (.error (.disk b), t) ∧
      Works s t p ((s.slot p).unlock.stamp s.clock.now) s.clock.read.2
        [.tells (.loading b), .transfers .read b (s.cpu task).enabled, .leavesLock p.slot,
          .counts p.slot, .stamps p.slot] := by
  obtain ⟨t, ran, agrees⟩ := s.run_load_fails task invalid broken held referenced
  have traced := run_traced (Cache.load_fails (s.entry task p.cache) invalid broken held referenced)
  rw [ran] at traced
  refine ⟨t, ran, slot_released agrees, ?_, agrees.held, agrees.asleep, traced⟩
  intro c
  rw [agrees.caches, disk_updateSlot, disk_updateSlot]

theorem enter_unlocked {slot : Slot} (free : slot.data.holder = none) (task : TaskId) :
    (slot.enter task).data.holder = some task ∧
      (slot.enter task).data.sleepers = slot.data.sleepers ∧ (slot.enter task).unlock = slot := by
  obtain ⟨block, mapped, refs, released, valid, ⟨name, holder, sleepers, data⟩⟩ := slot
  cases free
  exact ⟨rfl, rfl, rfl⟩

theorem finish_looked (free : (s.slot call.place).data.holder = none)
    (referenced : (s.slot call.place).refs ≠ 0)
    (entered : Works s t call.place ((s.slot call.place).enter task) s.clock
      [.takesLock call.place.slot]) :
    Looked s task call (t.finishExchanges task call) (t.finish task call).1 (t.finish task call).2 := by
  obtain ⟨locked, sleepers, unlocked⟩ := enter_unlocked free task
  unfold finish finishExchanges
  cases loads : call.loads with
  | false =>
    rw [if_neg Bool.false_ne_true, if_neg Bool.false_ne_true]
    exact .gets free entered (by simp) locked sleepers (by rw [loads, Bool.or_false]; rfl)
      (by simp [loads]) (List.forall_mem_nil _)
  | true =>
    rw [if_pos rfl, if_pos rfl]
    cases valid : (s.slot call.place).valid with
    | true =>
      have known : (t.slot call.place).valid = true := by
        rw [entered.here]
        exact valid
      obtain ⟨u, loaded, load⟩ := Works.load_valid call.block known task
      rw [entered.here, entered.traced.clock] at load
      rw [made_none (Cache.load_valid (t.entry task call.place.cache) call.block known) rfl, loaded]
      exact .gets free (entered.trans load) (by simp) locked sleepers (by rw [valid]; exact valid)
        (by simp [valid]) (List.forall_mem_nil _)
    | false =>
      have invalid : (t.slot call.place).valid = false := by
        rw [entered.here]
        exact valid
      have device : t.caches[call.place.cache].disk.fails task call.block =
          s.caches[call.place.cache].disk.fails task call.block := by
        rw [entered.disks]
      cases fails : s.caches[call.place.cache].disk.fails task call.block with
      | false =>
        have healthy := device.trans fails
        obtain ⟨u, loaded, load⟩ := Works.load_succeeds invalid healthy
        rw [entered.here, entered.traced.clock] at load
        rw [made_load invalid (Cache.load_succeeds (t.entry task call.place.cache) invalid healthy) rfl, loaded]
        exact .gets free (entered.trans load) (by simp) locked sleepers (by rw [loads, Bool.or_true]; rfl)
          (fun _ _ => ⟨fails, _, List.mem_singleton_self _, rfl, rfl, healthy⟩)
          (List.forall_mem_singleton.mpr healthy)
      | true =>
        obtain ⟨u, loaded, load⟩ := Works.load_fails invalid (device.trans fails)
          (heldBy_iff.mpr (entered.here ▸ locked)) (by rw [entered.here]; exact referenced)
        rw [entered.here, entered.traced.clock, entered.traced.cpu, unlocked] at load
        rw [loaded]
        exact .fails free valid fails (entered.trans load)

theorem enter_looked (task : TaskId) (call : SleepingCall n m)
    (referenced : (s.slot call.place).refs ≠ 0) :
    Looked s task call (s.enterExchanges task call) (s.enter task call).1 (s.enter task call).2 := by
  obtain ⟨t, ran, entered⟩ := Works.enter s task call.place
  unfold Machine.enter enterExchanges
  cases holder : (s.slot call.place).data.holder with
  | none =>
    rw [if_pos ((SleepLock.enter_taken ..).mpr holder)] at entered
    rw [ran, holder]
    exact finish_looked holder referenced entered
  | some other =>
    have busy : (s.slot call.place).data.holder ≠ none := by simp [holder]
    rw [if_neg fun taken => busy ((SleepLock.enter_taken ..).mp taken)] at entered
    rw [ran, holder]
    exact .waits busy entered rfl

end KernelResources.Buffer.Machine
