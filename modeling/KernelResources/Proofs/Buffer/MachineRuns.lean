import KernelResources.Buffer.Machine.Steps
import KernelResources.Proofs.Buffer.CacheEnds

namespace KernelResources.Buffer.Machine

variable {n m : Nat} {α : Type}

structure Agrees (s t : Machine n m) : Prop where
  caches : s.caches = t.caches
  held : s.held = t.held
  pins : s.pins = t.pins
  asleep : s.asleep = t.asleep

theorem Agrees.slot {s t : Machine n m} (agrees : s.Agrees t) (p : Place n m) : s.slot p = t.slot p := by
  rw [Machine.slot, Machine.slot, agrees.caches]

theorem cache_updateCache (s : Machine n m) (c d : Fin m) (f : Cache n → Cache n) :
    (s.updateCache c f).caches[d] = if c = d then f s.caches[c] else s.caches[d] := by
  simp [updateCache, entry_set]

theorem cache_run (s : Machine n m) (task : TaskId) (c d : Fin m) (op : Cache.Run n α) :
    (s.run task c op).2.caches[d] =
      if c = d then (op.run (.start task (s.cpu task) (s.caches[c], s.clock))).2.state.1
      else s.caches[d] := by
  simp [run, absorb, setCpu, entry_set]

theorem slot_updateCache (s : Machine n m) (p q : Place n m) {f : Cache n → Cache n} {x : Slot}
    (one : ∀ j : Fin n, (f s.caches[p.cache]).pool.slots[j] =
      if p.slot = j then x else s.caches[p.cache].pool.slots[j]) :
    (s.updateCache p.cache f).slot q = if q = p then x else s.slot q := by
  obtain ⟨c, i⟩ := p
  obtain ⟨d, j⟩ := q
  rw [slot, cache_updateCache]
  by_cases cache : c = d
  · subst cache
    rw [if_pos rfl, one]
    by_cases same : i = j
    · subst same
      rw [if_pos rfl, if_pos rfl]
    · rw [if_neg same, if_neg fun together => same (Place.mk.inj together).2.symm]
      rfl
  · rw [if_neg cache, if_neg fun together => cache (Place.mk.inj together).1.symm]
    rfl

theorem slot_updateSlot (s : Machine n m) (p q : Place n m) (f : Slot → Slot) :
    (s.updateSlot p f).slot q = if q = p then f (s.slot p) else s.slot q :=
  s.slot_updateCache p q fun j => Pool.slot_updateSlot s.caches[p.cache].pool p.slot j f

theorem slot_released {s t : Machine n m} {p : Place n m} {now : UInt64}
    (agrees : t.Agrees ((s.updateSlot p .unlock).updateSlot p (.stamp now))) (q : Place n m) :
    t.slot q = if q = p then (s.slot p).unlock.stamp now else s.slot q := by
  rw [agrees.slot, slot_updateSlot, slot_updateSlot, slot_updateSlot, if_pos rfl]
  split <;> rfl

theorem disk_updateSlot (s : Machine n m) (p : Place n m) (c : Fin m) (f : Slot → Slot) :
    (s.updateSlot p f).caches[c].disk = s.caches[c].disk := by
  rw [updateSlot, cache_updateCache]
  split
  · rename_i here
    rw [here]
  · rfl

theorem slot_updateDisk (s : Machine n m) (c : Fin m) (f : Disk → Disk) (p : Place n m) :
    (s.updateCache c fun cache => { cache with disk := f cache.disk }).slot p = s.slot p := by
  rw [slot, cache_updateCache]
  split
  · rename_i here
    subst here
    rfl
  · rfl

theorem pool_setFault (s : Machine n m) (c : Fin m) (who : Option TaskId) (b : BlockId) (on : Bool)
    (d : Fin m) : (s.setFault c who b on).caches[d].pool = s.caches[d].pool := by
  rw [setFault, cache_updateCache]
  split
  · rename_i here
    rw [here]
  · rfl

theorem content_setFault (s : Machine n m) (c : Fin m) (who : Option TaskId) (b : BlockId) (on : Bool)
    (d : Fin m) (other : BlockId) :
    (s.setFault c who b on).caches[d].disk.content other = s.caches[d].disk.content other := by
  rw [setFault, cache_updateCache]
  split
  · rename_i here
    subst here
    rfl
  · rfl

theorem slot_setFault (s : Machine n m) (c : Fin m) (who : Option TaskId) (b : BlockId) (on : Bool)
    (p : Place n m) : (s.setFault c who b on).slot p = s.slot p := by
  rw [slot, pool_setFault, slot]

def opened (s : Machine n m) : Machine n m := { s with past := [] }

theorem step_asleep {s : Machine n m} {task : TaskId} (asleep : s.isAsleep task = true)
    (event : Event m) :
    s.step task event = (⟨.refused (.taskBlocked task), (s.cpu task).enabled, []⟩, s.opened) := by
  unfold step
  exact if_pos asleep

theorem step_awake {s : Machine n m} {task : TaskId} (awake : s.isAsleep task = false)
    (event : Event m) :
    s.step task event =
      (⟨(s.opened.advance task event).1, ((s.opened.advance task event).2.cpu task).enabled,
        (s.opened.advance task event).2.wake.1⟩, (s.opened.advance task event).2.wake.2) := by
  unfold step
  exact if_neg (by simpa [isAsleep] using awake)

def recycle (s : Machine n m) (p : Place n m) (b : BlockId) : Machine n m :=
  s.updateCache p.cache fun cache => { cache with pool := cache.pool.recycle p.slot b }

theorem slot_recycle (s : Machine n m) (p q : Place n m) (b : BlockId) :
    (s.recycle p b).slot q = if q = p then (s.slot p).retag b else s.slot q :=
  s.slot_updateCache p q fun j => Pool.slot_recycle s.caches[p.cache].pool p.slot j b

theorem disk_recycle (s : Machine n m) (p : Place n m) (c : Fin m) (b : BlockId) :
    (s.recycle p b).caches[c].disk = s.caches[c].disk := by
  rw [recycle, cache_updateCache]
  split
  · rename_i here
    rw [here]
  · rfl

def store (s : Machine n m) (p : Place n m) : Machine n m :=
  s.updateCache p.cache fun cache =>
    { cache with disk := cache.disk.write (s.slot p).block (s.slot p).data.data }

theorem slot_store (s : Machine n m) (p q : Place n m) : (s.store p).slot q = s.slot q :=
  s.slot_updateDisk p.cache (·.write (s.slot p).block (s.slot p).data.data) q

theorem content_store (s : Machine n m) (p : Place n m) (c : Fin m) (b : BlockId) :
    (s.store p).caches[c].disk.content b =
      if p.cache = c ∧ b = (s.slot p).block then (s.slot p).data.data
      else s.caches[c].disk.content b := by
  rw [store, cache_updateCache]
  by_cases here : p.cache = c
  · subst here
    rw [if_pos rfl, Disk.content_write]
    simp
  · rw [if_neg here, if_neg fun both => here both.1]

def entry (s : Machine n m) (task : TaskId) (c : Fin m) :
    Execution PoolLock (Cache.Act n) (Cache n × Clock) :=
  .start task (s.cpu task) (s.caches[c], s.clock)

theorem run_agrees {s : Machine n m} {task : TaskId} {c : Fin m} {op : Cache.Run n α}
    {result : Except CacheFault α} {state : Cache n × Clock} {acts : List (Cache.Act n)}
    (ends : op.Ends (s.entry task c) result state acts) (f : Cache n → Cache n)
    (changed : state.1 = f s.caches[c]) :
    ∃ t, s.run task c op = (result, t) ∧ t.Agrees (s.updateCache c f) := by
  refine ⟨(s.run task c op).2, Prod.ext ends.result rfl, ?_, rfl, rfl, rfl⟩
  rw [updateCache, ← changed, ← ends.state]
  rfl

theorem run_still {s : Machine n m} {task : TaskId} {c : Fin m} {op : Cache.Run n α}
    {result : Except CacheFault α} {state : Cache n × Clock} {acts : List (Cache.Act n)}
    (ends : op.Ends (s.entry task c) result state acts) (kept : state.1 = s.caches[c]) :
    ∃ t, s.run task c op = (result, t) ∧ t.Agrees s := by
  obtain ⟨t, ran, agrees⟩ := run_agrees ends id kept
  refine ⟨t, ran, agrees.caches.trans ?_, agrees.held, agrees.pins, agrees.asleep⟩
  simp [updateCache]

variable (s : Machine n m) (task : TaskId)

theorem run_claim_found {c : Fin m} {b : BlockId} {i : Fin n}
    (found : s.caches[c].pool.find? b = some i) :
    ∃ t, s.run task c (Cache.claim b) = (.ok i, t) ∧ t.Agrees (s.updateSlot ⟨c, i⟩ .refer) :=
  run_agrees (Cache.claim_found (s.entry task c) found) _ rfl

theorem run_claim_recycles {c : Fin m} {b : BlockId} {i : Fin n}
    (absent : s.caches[c].pool.find? b = none)
    (chosen : s.caches[c].pool.leastRecentlyReleased = some i) :
    ∃ t, s.run task c (Cache.claim b) = (.ok i, t) ∧ t.Agrees (s.recycle ⟨c, i⟩ b) :=
  run_agrees (Cache.claim_recycles (s.entry task c) absent chosen) _ rfl

theorem run_claim_exhausted {c : Fin m} {b : BlockId} (absent : s.caches[c].pool.find? b = none)
    (nothing : s.caches[c].pool.leastRecentlyReleased = none) :
    ∃ t, s.run task c (Cache.claim b) = (.error .noBuffers, t) ∧ t.Agrees s :=
  run_still (Cache.claim_exhausted (s.entry task c) absent nothing) rfl

theorem run_enter (p : Place n m) :
    ∃ t, s.run task p.cache (Cache.enter p.slot) = (.ok (s.slot p).data.holder.isNone, t) ∧
      t.Agrees (s.updateSlot p (.enter task)) := by
  obtain ⟨t, ran, agrees⟩ := run_agrees (Cache.enter_ends (s.entry task p.cache) p.slot)
    (fun cache => { cache with pool := cache.pool.updateSlot p.slot (.enter task) }) rfl
  refine ⟨t, ?_, agrees⟩
  have taken : ((s.slot p).data.enter task).1 = (s.slot p).data.holder.isNone := by
    rw [Bool.eq_iff_iff, SleepLock.enter_taken, Option.isNone_iff_eq_none]
  rw [ran, ← taken]
  rfl

theorem run_release_unheld {p : Place n m} (unheld : (s.slot p).data.heldBy task = false) :
    ∃ t, s.run task p.cache (Cache.release p.slot) = (.error (.releaseUnheld p.slot task), t) ∧
      t.Agrees s :=
  run_still (Cache.release_unheld (s.entry task p.cache) unheld) rfl

theorem run_release_held {p : Place n m} (held : (s.slot p).data.heldBy task = true)
    (referenced : (s.slot p).refs ≠ 0) :
    ∃ t, s.run task p.cache (Cache.release p.slot) = (.ok (), t) ∧
      t.Agrees ((s.updateSlot p .unlock).updateSlot p (.stamp s.clock.now)) := by
  obtain ⟨t, ran, agrees⟩ := run_agrees (Cache.release_held (s.entry task p.cache) held referenced)
    (fun cache => { cache with
      pool := (cache.pool.updateSlot p.slot .unlock).updateSlot p.slot (.stamp s.clock.now) }) rfl
  refine ⟨t, ran, agrees.caches.trans ?_, agrees.held, agrees.pins, agrees.asleep⟩
  simp [updateCache, updateSlot]

theorem run_load_valid {p : Place n m} (b : BlockId) (valid : (s.slot p).valid = true) :
    ∃ t, s.run task p.cache (Cache.loadOrRelease p.slot b) = (.ok (), t) ∧ t.Agrees s :=
  run_still (Cache.load_valid (s.entry task p.cache) b valid) rfl

theorem run_load_succeeds {p : Place n m} {b : BlockId} (invalid : (s.slot p).valid = false)
    (works : s.caches[p.cache].disk.fails task b = false) :
    ∃ t, s.run task p.cache (Cache.loadOrRelease p.slot b) = (.ok (), t) ∧
      t.Agrees (s.updateSlot p (.load (s.caches[p.cache].disk.content b))) :=
  run_agrees (Cache.load_succeeds (s.entry task p.cache) invalid works) _ rfl

theorem run_load_fails {p : Place n m} {b : BlockId} (invalid : (s.slot p).valid = false)
    (fails : s.caches[p.cache].disk.fails task b = true) (held : (s.slot p).data.heldBy task = true)
    (referenced : (s.slot p).refs ≠ 0) :
    ∃ t, s.run task p.cache (Cache.loadOrRelease p.slot b) = (.error (.disk b), t) ∧
      t.Agrees ((s.updateSlot p .unlock).updateSlot p (.stamp s.clock.now)) := by
  obtain ⟨t, ran, agrees⟩ :=
    run_agrees (Cache.load_fails (s.entry task p.cache) invalid fails held referenced)
      (fun cache => { cache with
        pool := (cache.pool.updateSlot p.slot .unlock).updateSlot p.slot (.stamp s.clock.now) }) rfl
  refine ⟨t, ran, agrees.caches.trans ?_, agrees.held, agrees.pins, agrees.asleep⟩
  simp [updateCache, updateSlot]

theorem run_write_unheld {p : Place n m} (unheld : (s.slot p).data.heldBy task = false) :
    ∃ t, s.run task p.cache (Cache.write p.slot) = (.error (.writeUnheld p.slot task), t) ∧
      t.Agrees s :=
  run_still (Cache.write_unheld (s.entry task p.cache) unheld) rfl

theorem run_write_fails {p : Place n m} (held : (s.slot p).data.heldBy task = true)
    (fails : s.caches[p.cache].disk.fails task (s.slot p).block = true) :
    ∃ t, s.run task p.cache (Cache.write p.slot) = (.error (.disk (s.slot p).block), t) ∧
      t.Agrees s :=
  run_still (Cache.write_fails (s.entry task p.cache) held fails) rfl

theorem run_write_succeeds {p : Place n m} (held : (s.slot p).data.heldBy task = true)
    (works : s.caches[p.cache].disk.fails task (s.slot p).block = false) :
    ∃ t, s.run task p.cache (Cache.write p.slot) = (.ok (), t) ∧ t.Agrees (s.store p) :=
  run_agrees (Cache.write_succeeds (s.entry task p.cache) held works) _ rfl

theorem run_pin (p : Place n m) :
    ∃ t, s.run task p.cache (Cache.pin p.slot) = (.ok (), t) ∧
      t.Agrees (s.updateSlot p .refer) :=
  run_agrees (Cache.pin_ends (s.entry task p.cache) p.slot) _ rfl

theorem run_unpin_foreign {c : Fin m} (i : Fin n) :
    ∃ t, s.run task c (Cache.unpin i false) = (.error (.unpinForeign i), t) ∧ t.Agrees s :=
  run_still (Cache.unpin_foreign (s.entry task c) i) rfl

theorem run_unpin_own {p : Place n m} (referenced : (s.slot p).refs ≠ 0) :
    ∃ t, s.run task p.cache (Cache.unpin p.slot true) = (.ok (), t) ∧
      t.Agrees (s.updateSlot p .unrefer) :=
  run_agrees (Cache.unpin_own (s.entry task p.cache) referenced) _ rfl

theorem run_isCached (c : Fin m) (b : BlockId) :
    ∃ t, s.run task c (Cache.isCached b) = (.ok (s.caches[c].pool.find? b).isSome, t) ∧ t.Agrees s :=
  run_still (Cache.isCached_ends (s.entry task c) b) rfl

theorem run_audit (c : Fin m) :
    ∃ t, s.run task c Cache.audit = (.ok s.caches[c].pool.audit, t) ∧ t.Agrees s :=
  run_still (Cache.audit_ends (s.entry task c)) rfl

end KernelResources.Buffer.Machine
