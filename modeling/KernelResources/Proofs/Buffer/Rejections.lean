import KernelResources.Proofs.Buffer.Losses

namespace KernelResources.Buffer

open Machine Stage

variable {n m : Nat}

namespace Machine

structure Untouched (s : Machine n m) (task : TaskId) (event : Event m) : Prop where
  caches : (s.step task event).2.caches = s.caches
  clock : (s.step task event).2.clock = s.clock
  asleep : (s.step task event).2.asleep = s.asleep
  woken : (s.step task event).1.woken = []

variable {s t : Machine n m} {l : Ledger m} {task : TaskId} {event : Event m} {c : Fin m} {b : BlockId}
  {name pinName : String} {p : Place n m} {fault : CacheFault} {reply : Reply}
  {acts : List (Cache.Act n)}

theorem step_ended (awake : s.isAsleep task = false) (advanced : s.opened.advance task event = (reply, t))
    (traced : Traced s.opened t c s.clock acts) (locked : ∀ i, .leavesLock i ∉ acts) :
    s.step task event = (⟨reply, (t.cpu task).enabled, []⟩, t) := by
  have unreleased : t.wake = ([], t) :=
    wake_unreleased fun d i left => List.not_mem_nil (unreleasing_traced traced locked d i left)
  rw [step_awake awake, advanced]
  dsimp only
  rw [unreleased]

theorem untouched_ended (awake : s.isAsleep task = false)
    (advanced : s.opened.advance task event = (reply, t)) (traced : Traced s.opened t c s.clock acts)
    (locked : ∀ i, .leavesLock i ∉ acts) (caches : t.caches = s.caches) (asleep : t.asleep = s.asleep) :
    Untouched s task event := by
  have step := step_ended awake advanced traced locked
  refine ⟨?_, ?_, ?_, ?_⟩ <;> rw [step]
  · exact caches
  · exact traced.clock
  · exact asleep

structure Refrains (s : Machine n m) (task : TaskId) (event : Event m) (fault : CacheFault)
    (t : Machine n m) (c : Fin m) : Prop where
  advanced : s.opened.advance task event = (.halted fault, t)
  traced : Traced s.opened t c s.clock []
  caches : t.caches = s.caches
  asleep : t.asleep = s.asleep

theorem call_exhausted (intact : s.caches[c].pool.Intact) (task : TaskId) (loads : Bool)
    (free : s.held.find? name = none) (uncached : ∀ i : Fin n, (s.slot ⟨c, i⟩).holds b = false)
    (referenced : ∀ i : Fin n, (s.slot ⟨c, i⟩).refs ≠ 0) :
    ∃ t, s.call task c b loads name = (.halted .noBuffers, t) ∧ t.Agrees s ∧
      Traced s t c s.clock [] := by
  have absent : s.caches[c].pool.find? b = none := (Pool.find?_none _ intact b).mpr uncached
  have nothing : s.caches[c].pool.leastRecentlyReleased = none := by
    cases chosen : s.caches[c].pool.leastRecentlyReleased with
    | none => rfl
    | some i => exact absurd (Pool.refs_leastRecentlyReleased chosen) (referenced i)
  obtain ⟨t, ran, agrees⟩ := s.run_claim_exhausted task absent nothing
  have traced := run_traced (Cache.claim_exhausted (s.entry task c) absent nothing)
  rw [ran] at traced
  refine ⟨t, ?_, agrees, traced⟩
  rw [call, free, ran]

theorem stops_refrains (intact : ∀ c : Fin m, s.caches[c].pool.Intact)
    (stops : Stops s task event fault) : ∃ t c, Refrains s task event fault t c := by
  cases stops with
  | @read c b name free uncached referenced =>
    obtain ⟨t, called, agrees, traced⟩ :=
      call_exhausted (s := s.opened) (intact c) task true free uncached referenced
    exact ⟨t, c, called, traced, agrees.caches, agrees.asleep⟩
  | @acquire c b name free uncached referenced =>
    obtain ⟨t, called, agrees, traced⟩ :=
      call_exhausted (s := s.opened) (intact c) task false free uncached referenced
    exact ⟨t, c, called, traced, agrees.caches, agrees.asleep⟩
  | @write name p known foreign =>
    have unheld := unheld_iff.mpr foreign
    obtain ⟨t, ran, agrees⟩ := s.opened.run_write_unheld task unheld
    have traced := run_traced (Cache.write_unheld (s.opened.entry task p.cache) unheld)
    rw [ran] at traced
    refine ⟨t, p.cache, ?_, traced, agrees.caches, agrees.asleep⟩
    have held : s.opened.held.find? name = some p := known
    simp only [advance, withBuffer, held, ran]
    rfl
  | @release name p known foreign =>
    have unheld := unheld_iff.mpr foreign
    obtain ⟨t, ran, agrees⟩ :=
      run_release_unheld { s.opened with held := s.held.erase name } task unheld
    have traced := run_traced (Cache.release_unheld
      (entry { s.opened with held := s.held.erase name } task p.cache) (i := p.slot) unheld)
    rw [ran] at traced
    refine ⟨t, p.cache, ?_, ⟨traced.clock, traced.acts, traced.cpu⟩, agrees.caches, agrees.asleep⟩
    have held : s.opened.held.find? name = some p := known
    simp only [advance, withBuffer, held]
    exact congrArg (report · fun _ => Answer.unit) ran
  | @unpin c pinName p known foreign =>
    obtain ⟨t, ran, agrees⟩ :=
      run_unpin_foreign { s.opened with pins := s.pins.erase pinName } task (c := c) p.slot
    have traced := run_traced (Cache.unpin_foreign
      (entry { s.opened with pins := s.pins.erase pinName } task c) p.slot)
    rw [ran] at traced
    refine ⟨t, c, ?_, ⟨traced.clock, traced.acts, traced.cpu⟩, agrees.caches, agrees.asleep⟩
    have pinned : s.opened.pins.find? pinName = some p := known
    simp only [advance, withPin, pinned, decide_eq_false foreign]
    exact congrArg (report · fun _ => Answer.unit) ran

theorem stops_step (intact : ∀ c : Fin m, s.caches[c].pool.Intact) (awake : s.isAsleep task = false)
    (stops : Stops s task event fault) :
    (s.step task event).1.reply = .halted fault ∧ Untouched s task event ∧
      ∀ c, (s.step task event).2.transfers c = [] := by
  obtain ⟨t, c, advanced, traced, caches, asleep⟩ := stops_refrains intact stops
  have unlocked : ∀ i, Cache.Act.leavesLock (n := n) i ∉ [] := fun _ => List.not_mem_nil
  refine ⟨?_, untouched_ended awake advanced traced unlocked caches asleep, ?_⟩ <;>
    rw [step_ended awake advanced traced unlocked]
  intro d
  rw [transfers_acts, traced.acts, ite_self, List.append_nil]
  rfl

theorem awake_of_halted (halted : (s.step task event).1.reply = .halted fault) :
    s.isAsleep task = false := by
  cases asleep : s.isAsleep task with
  | false => rfl
  | true =>
    rw [step_asleep asleep] at halted
    cases halted

theorem write_untouched (halted : (s.step task (.write name)).1.reply = .halted fault) :
    Untouched s task (.write name) := by
  have awake := awake_of_halted halted
  rw [step_awake awake] at halted
  cases known : s.opened.held.find? name with
  | none =>
    simp only [advance, withBuffer, known] at halted
    cases halted
  | some p =>
    have advanced : s.opened.advance task (.write name) =
        report (s.opened.run task p.cache (Cache.write p.slot)) fun _ => .unit := by
      simp only [advance, withBuffer, known]
    rw [advanced] at halted
    cases held : (s.opened.slot p).data.heldBy task with
    | false =>
      obtain ⟨t, ran, agrees⟩ := s.opened.run_write_unheld task held
      have traced := run_traced (Cache.write_unheld (s.opened.entry task p.cache) held)
      rw [ran] at traced advanced
      exact untouched_ended awake advanced traced (by simp) agrees.caches agrees.asleep
    | true =>
      cases fails : s.opened.caches[p.cache].disk.fails task (s.opened.slot p).block with
      | true =>
        obtain ⟨t, ran, agrees⟩ := s.opened.run_write_fails task held fails
        have traced := run_traced (Cache.write_fails (s.opened.entry task p.cache) held fails)
        rw [ran] at traced advanced
        exact untouched_ended awake advanced traced (by simp) agrees.caches agrees.asleep
      | false =>
        obtain ⟨t, ran, agrees⟩ := s.opened.run_write_succeeds task held fails
        rw [ran] at halted
        cases halted

end Machine

namespace Account

variable {a : Account n m} {task : TaskId} {event : Event m}

structure Fails (a : Account n m) (task : TaskId) (event : Event m) (x : Exchange n m)
    (fault : CacheFault) : Prop where
  made : x ∈ a.machine.exchanges task event
  transferred : x.transfer ∈ (a.machine.step task event).2.transfers x.place.cache
  failed : x.failed = true
  told : fault = .disk x.transfer.block

theorem fails_made (steps : Steps a.machine task event) {x : Exchange n m}
    (made : x ∈ a.machine.exchanges task event) (failed : x.failed = true) :
    Fails a task event x (.disk x.transfer.block) := by
  refine ⟨made, ?_, failed, rfl⟩
  rw [steps.transfers]
  exact List.mem_map.mpr ⟨x, List.mem_filter.mpr ⟨made, by simp⟩, rfl⟩

-- For what the operations of a step are stopped, and what they leave. Those that are stopped for a mistake
-- leave everything as it was; what was to be given back stays out for good, and a buffer that was to be
-- unlocked stays locked.
structure Stopped (a : Account n m) (task : TaskId) (event : Event m) : Prop where
  own : ∀ fault, (a.machine.step task event).1.reply = .halted fault →
    Stops a.machine task event fault ∨ ∃ x, Fails a task event x fault ∧ Asks a.machine task x event
  woken : ∀ woken ∈ (a.machine.step task event).1.woken, ∀ fault, woken.reply = .halted fault →
    ∃ x, Fails a task event x fault ∧ x.task = woken.task
  mistakes : ∀ fault, a.machine.isAsleep task = false → Stops a.machine task event fault →
    (a.machine.step task event).1.reply = .halted fault ∧ Untouched a.machine task event ∧
      ∀ c, (a.machine.step task event).2.transfers c = []
  write : ∀ name fault, event = .write name →
    (a.machine.step task event).1.reply = .halted fault → Untouched a.machine task event
  release : ∀ name p fault, event = .release name → a.machine.held.find? name = some p →
    (a.machine.step task event).1.reply = .halted fault →
      ∃ holder, (a.machine.slot p).data.holder = some holder ∧ holder ≠ task ∧
        ∀ z, Run Orderly (a.next task event) z →
          Leaked a p z ∧ Jammed p (a.machine.slot p).block holder z
  unpin : ∀ c pinName p fault, event = .unpin c pinName → a.machine.pins.find? pinName = some p →
    (a.machine.step task event).1.reply = .halted fault →
      p.cache ≠ c ∧ ∀ z, Run Orderly (a.next task event) z → Leaked a p z

theorem next_lost {l : Ledger m}
    (noted : a.ledger.note task event (a.machine.step task event).1.reply = l) :
    l.Loses (a.next task event).ledger := by
  rw [next, Ledger.record, noted]
  exact l.loses_resume _

theorem untouched_tag (untouched : Untouched a.machine task event) (p : Place n m) :
    (a.machine.slot p).SameTag ((a.next task event).machine.slot p) := by
  have same : (a.next task event).machine.slot p = a.machine.slot p := by
    rw [slot, slot, next, untouched.caches]
  rw [same]
  exact ⟨rfl, rfl⟩

theorem mistaken (sound : Sound a) (orderly : Orderly a task event) {fault : CacheFault}
    (halted : (a.machine.step task event).1.reply = .halted fault)
    (quiet : ∀ x, ¬ Asks a.machine task x event) :
    Stops a.machine task event fault ∧ Untouched a.machine task event := by
  rcases (next_steps sound orderly).halted fault halted with stops | ⟨x, _, asks, _⟩
  · exact ⟨stops, (stops_step sound.intact (awake_of_halted halted) stops).2.1⟩
  · exact absurd asks (quiet x)

theorem release_stopped (sound : Sound a) (orderly : Orderly a task event) {name : String}
    {p : Place n m} {fault : CacheFault} (asked : event = .release name)
    (known : a.machine.held.find? name = some p)
    (halted : (a.machine.step task event).1.reply = .halted fault) :
    ∃ holder, (a.machine.slot p).data.holder = some holder ∧ holder ≠ task ∧
      ∀ z, Run Orderly (a.next task event) z →
        Leaked a p z ∧ Jammed p (a.machine.slot p).block holder z := by
  obtain ⟨g, granted, spot, fits⟩ := sound.accounted.granted known
  have noted : a.ledger.note task event (a.machine.step task event).1.reply = a.ledger.lose name := by
    rw [asked] at halted ⊢
    rw [halted]
    rfl
  have lost : (a.ledger.lose name).lostBuffers = g :: a.ledger.lostBuffers := by
    rw [Ledger.lose, granted]
  have loses := next_lost noted
  have leaked : a.ledger.leakedAt p.spot < (a.ledger.lose name).leakedAt p.spot := by
    rw [← spot]
    simp [Ledger.leakedAt, Ledger.lostBuffersAt, Ledger.lose, granted]
  obtain ⟨stops, untouched⟩ := mistaken sound orderly halted fun x asks => by
    rw [asked] at asks
    cases asks
  refine ⟨g.task, fits.locked, ?_, fun z path => ⟨?_, ?_⟩⟩
  · rw [asked] at stops
    cases stops with
    | release found foreign =>
      cases known.symm.trans found
      exact fun mine => foreign (mine ▸ fits.locked)
  · exact run_leaked (next_sound sound orderly) (untouched_tag untouched p)
      (lt_of_lt_of_le leaked (loses.leakedAt p.spot)) path
  · rw [((Slot.holds_iff ..).mp fits.holds).2]
    refine jammed (run_sound path (next_sound sound orderly)) ?_ spot.symm
    exact (run_loses path).buffers.subset (loses.buffers.subset (lost ▸ List.mem_cons_self))

theorem unpin_stopped (sound : Sound a) (orderly : Orderly a task event) {c : Fin m} {pinName : String}
    {p : Place n m} {fault : CacheFault} (asked : event = .unpin c pinName)
    (known : a.machine.pins.find? pinName = some p)
    (halted : (a.machine.step task event).1.reply = .halted fault) :
    p.cache ≠ c ∧ ∀ z, Run Orderly (a.next task event) z → Leaked a p z := by
  have noted : a.ledger.note task event (a.machine.step task event).1.reply =
      a.ledger.losePin pinName := by
    rw [asked] at halted ⊢
    rw [halted]
    rfl
  have pinned : a.ledger.pins.find? pinName = some p.spot := by
    have same := sound.accounted.booked.pinned pinName
    dsimp only at same
    rw [known] at same
    exact same.symm
  have leaked : a.ledger.leakedAt p.spot < (a.ledger.losePin pinName).leakedAt p.spot := by
    simp [Ledger.leakedAt, Ledger.lostBuffersAt, Ledger.losePin, pinned]
  obtain ⟨stops, untouched⟩ := mistaken sound orderly halted fun x asks => by
    rw [asked] at asks
    cases asks
  refine ⟨?_, fun z path => ?_⟩
  · rw [asked] at stops
    cases stops with
    | unpin found foreign =>
      cases known.symm.trans found
      exact foreign
  · exact run_leaked (next_sound sound orderly) (untouched_tag untouched p)
      (lt_of_lt_of_le leaked ((next_lost noted).leakedAt p.spot)) path

-- In every state that the tasks can bring about: an operation is only stopped for a mistake of its task or
-- by the device, and those that are stopped change nothing that anybody could miss.
theorem stopped_operations_change_nothing {disks : Vector Disk m}
    (path : Run Orderly (start n disks) a) (orderly : Orderly a task event) : Stopped a task event := by
  have sound := run_sound path (sound_start disks)
  have steps := next_steps sound orderly
  refine ⟨?_, ?_, ?_, ?_, ?_, ?_⟩
  · intro fault halted
    rcases steps.halted fault halted with stops | ⟨x, made, asks, failed, rfl⟩
    · exact .inl stops
    · exact .inr ⟨x, fails_made steps made failed, asks⟩
  · intro woken member fault halted
    obtain ⟨x, made, own, failed, rfl⟩ := steps.woken woken member fault halted
    exact ⟨x, fails_made steps made failed, own⟩
  · exact fun fault awake stops => stops_step sound.intact awake stops
  · rintro name fault rfl halted
    exact write_untouched halted
  · exact fun name p fault => release_stopped sound orderly
  · exact fun c pinName p fault => unpin_stopped sound orderly

-- A task that may not release a buffer leaves it referenced and locked, and the next call for its block
-- waits in vain.
theorem stopped_operations_change_nothing_rejected :
    let a := (start 2 #v[.zeroed]).next ⟨1⟩ (.read 0 ⟨1, 5⟩ "a")
    let z := (a.next ⟨2⟩ (.release "a")).next ⟨3⟩ (.acquire 0 ⟨1, 5⟩ "b")
    let p : Place 2 1 := ⟨0, 0⟩
    Run Orderly (start 2 #v[.zeroed]) a ∧ Orderly a ⟨2⟩ (.release "a") ∧
      (a.machine.step ⟨2⟩ (.release "a")).1.reply = .halted (.releaseUnheld 0 ⟨2⟩) ∧
      Run Orderly (a.next ⟨2⟩ (.release "a")) z ∧
      ((z.machine.slot p).refs, (z.machine.slot p).data.holder) = (2, some ⟨1⟩) ∧
      z.machine.isAsleep ⟨3⟩ = true ∧
      Stopped a ⟨2⟩ (.release "a") ∧ Leaked a p z ∧ Jammed p ⟨1, 5⟩ ⟨1⟩ z := by
  intro a z p
  have path : Run Orderly (start 2 #v[.zeroed]) a := .step .refl ⟨trivial, by decide +kernel⟩
  have orderly : Orderly a ⟨2⟩ (.release "a") := ⟨trivial, by decide +kernel⟩
  have later : Run Orderly (a.next ⟨2⟩ (.release "a")) z := .step .refl ⟨trivial, by decide +kernel⟩
  have stopped := stopped_operations_change_nothing path orderly
  have known : a.machine.held.find? "a" = some p := by decide +kernel
  obtain ⟨halted, _⟩ := stopped.mistakes (.releaseUnheld 0 ⟨2⟩) (by decide +kernel)
    (.release known (by decide +kernel))
  obtain ⟨holder, locked, _, after⟩ := stopped.release "a" p _ rfl known halted
  have first : (a.machine.slot p).data.holder = some ⟨1⟩ := by decide +kernel
  have block : (a.machine.slot p).block = ⟨1, 5⟩ := by decide +kernel
  cases locked.symm.trans first
  obtain ⟨leaked, jammed⟩ := after z later
  rw [block] at jammed
  exact ⟨path, orderly, halted, later, by decide +kernel, by decide +kernel, stopped, leaked, jammed⟩

end Account

end KernelResources.Buffer
