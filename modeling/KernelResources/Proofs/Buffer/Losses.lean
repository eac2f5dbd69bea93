import KernelResources.Proofs.Buffer.Identity
import KernelResources.Proofs.Buffer.Transfers

namespace KernelResources.Buffer

open Machine Stage

variable {n m : Nat}

namespace Ledger

structure Loses (l k : Ledger m) : Prop where
  buffers : l.lostBuffers <:+ k.lostBuffers
  pins : l.lostPins <:+ k.lostPins

theorem loses_refl (l : Ledger m) : l.Loses l := ⟨List.suffix_rfl, List.suffix_rfl⟩

theorem Loses.trans {l k j : Ledger m} (first : l.Loses k) (second : k.Loses j) : l.Loses j :=
  ⟨first.buffers.trans second.buffers, first.pins.trans second.pins⟩

theorem Loses.leakedAt {l k : Ledger m} (loses : l.Loses k) (spot : Spot m) :
    l.leakedAt spot ≤ k.leakedAt spot :=
  Nat.add_le_add (loses.buffers.sublist.countP_le) (loses.pins.sublist.count_le spot)

variable {l k : Ledger m}

theorem loses_same (buffers : k.lostBuffers = l.lostBuffers) (pins : k.lostPins = l.lostPins) :
    l.Loses k := by
  refine ⟨?_, ?_⟩
  · rw [buffers]
  · rw [pins]

theorem loses_lose (l : Ledger m) (name : String) : l.Loses (l.lose name) := by
  unfold lose
  cases l.grants.find? name with
  | none => exact l.loses_refl
  | some g => exact ⟨List.suffix_cons g _, List.suffix_rfl⟩

theorem loses_losePin (l : Ledger m) (pinName : String) : l.Loses (l.losePin pinName) := by
  unfold losePin
  cases l.pins.find? pinName with
  | none => exact l.loses_refl
  | some spot => exact ⟨List.suffix_rfl, List.suffix_cons spot _⟩

theorem loses_write (l : Ledger m) (name : String) : l.Loses (l.write name) := by
  unfold write
  cases l.grants.find? name with
  | none => exact l.loses_refl
  | some g => exact loses_same rfl rfl

theorem loses_hear (l : Ledger m) (task : TaskId) (request : Request m) (reply : Reply) :
    l.Loses (l.hear task request reply) := by
  unfold hear
  split
  · have lost := loses_lose { l with requests := l.requests.erase task } request.name
    exact ⟨lost.buffers, lost.pins⟩
  · exact loses_same rfl rfl
  · exact loses_same rfl rfl
  · exact l.loses_refl

theorem loses_note (l : Ledger m) (task : TaskId) (event : Event m) (reply : Reply) :
    l.Loses (l.note task event reply) := by
  unfold note
  split
  · exact l.loses_hear ..
  · exact l.loses_hear ..
  · exact l.loses_write _
  · exact loses_same rfl rfl
  · exact l.loses_lose _
  · exact l.loses_lose _
  · split <;> exact loses_same rfl rfl
  · exact loses_same rfl rfl
  · exact l.loses_losePin _
  · exact l.loses_losePin _
  · exact loses_same rfl rfl
  · exact loses_same rfl rfl
  · exact l.loses_refl

theorem loses_resume (l : Ledger m) (woken : List Woken) : l.Loses (l.resume woken) := by
  induction woken generalizing l with
  | nil => exact l.loses_refl
  | cons first rest ih =>
    unfold resume
    split
    · exact (l.loses_hear ..).trans (ih _)
    · exact ih l

theorem loses_record (l : Ledger m) (task : TaskId) (event : Event m) (report : Report) :
    l.Loses (l.record task event report) :=
  (l.loses_note task event report.reply).trans (loses_resume _ report.woken)

end Ledger

namespace Stage

variable {s : Machine n m} {l : Ledger m} {hand locks : List (Place n m)} {p : Place n m} {g : Grant m}

theorem Accounted.lost (accounted : Accounted ⟨s, l, hand, locks⟩) (lost : g ∈ l.lostBuffers)
    (spot : p.spot = g.spot) : g.Fits (s.slot p) := by
  obtain ⟨q, place, fits⟩ := accounted.fits g (List.mem_append_right _ lost)
  rw [spot_inj.mp (spot.trans place.symm)]
  exact fits

end Stage

namespace Machine

variable {s : Machine n m} {l : Ledger m} {p : Place n m} {g : Grant m} {task who : TaskId}
  {call : SleepingCall n m}

theorem enter_busy (task : TaskId) (busy : (s.slot call.place).data.holder ≠ none) :
    (s.enter task call).1 = .asleep ∧ (s.enter task call).2.asleep = s.asleep.put task call := by
  obtain ⟨t, ran, agrees⟩ := s.run_enter task call.place
  obtain ⟨holder, locked⟩ := Option.ne_none_iff_exists'.mp busy
  rw [locked] at ran
  unfold enter
  rw [ran]
  exact ⟨rfl, congrArg (·.put task call) agrees.asleep⟩

theorem enter_stuck {other : SleepingCall n m} (found : s.asleep.find? task = some other)
    (waits : s.asleep.find? who = some call) (busy : (s.slot call.place).data.holder ≠ none) :
    (task = who → ({ s with asleep := s.asleep.erase task }.enter task other).1 = .asleep) ∧
      ({ s with asleep := s.asleep.erase task }.enter task other).2.asleep.find? who = some call := by
  by_cases same : task = who
  · subst same
    cases found.symm.trans waits
    obtain ⟨reply, asleep⟩ := enter_busy (s := { s with asleep := s.asleep.erase task }) task busy
    refine ⟨fun _ => reply, ?_⟩
    rw [asleep, Registry.find?_put]
    simp
  · refine ⟨fun theirs => absurd theirs same, ?_⟩
    rw [asleep_enter_other (Ne.symm same)]
    dsimp only
    rw [Registry.find?_erase, if_neg (by simpa using Ne.symm same)]
    exact waits

theorem resumeAll_stuck (tasks : List TaskId) (accounted : Accounted ⟨s, l, [], []⟩)
    (lost : g ∈ l.lostBuffers) (spot : p.spot = g.spot) (waits : s.asleep.find? who = some call)
    (here : call.place = p) :
    (∀ woken ∈ (resumeAll tasks s).1, woken.task = who → woken.reply = .asleep) ∧
      (resumeAll tasks s).2.asleep.find? who = some call := by
  induction tasks generalizing s l with
  | nil => exact ⟨List.forall_mem_nil _, waits⟩
  | cons task rest ih =>
    unfold resumeAll
    cases found : s.asleep.find? task with
    | none => exact ih accounted lost waits
    | some other =>
      have roused : Moves (fun _ => True) ⟨s, l, [], []⟩ _ := .single (.rouse task other found)
      have referred := moves_accounted roused accounted
      obtain ⟨_, moves⟩ := enter_moves (fun _ => True) task other referred
        (accounted.waits task other found) ((Registry.find?_erase s.asleep task task).trans (by simp))
      have entered := moves_accounted moves referred
      have still := (Ledger.loses_hear { l with requests := l.requests.erase task } task other.request
        ({ s with asleep := s.asleep.erase task }.enter task other).1).buffers.subset lost
      have busy : (s.slot call.place).data.holder ≠ none := by
        rw [here, (accounted.lost lost spot).locked]
        exact Option.some_ne_none _
      obtain ⟨reply, again⟩ := enter_stuck found waits busy
      obtain ⟨told, kept⟩ := ih entered still again
      exact ⟨List.forall_mem_cons.mpr ⟨reply, told⟩, kept⟩

theorem wake_stuck (accounted : Accounted ⟨s, l, [], []⟩) (lost : g ∈ l.lostBuffers)
    (spot : p.spot = g.spot) (waits : s.asleep.find? who = some call) (here : call.place = p) :
    (∀ woken ∈ s.wake.1, woken.task = who → woken.reply = .asleep) ∧
      s.wake.2.asleep.find? who = some call := by
  unfold wake
  cases s.released? with
  | none => exact ⟨List.forall_mem_nil _, waits⟩
  | some place =>
    have same : (s.updateSlot place fun slot => { slot with data := (s.slot place).data.wake.2 }) =
        s.updateSlot place fun slot => { slot with data := slot.data.wake.2 } :=
      s.updateSlot_congr place rfl
    dsimp only
    rw [same]
    exact resumeAll_stuck (s.slot place).data.wake.1 (accounted.wake place) lost spot waits here

theorem call_stuck (intact : s.caches[p.cache].pool.Intact) (fits : g.Fits (s.slot p)) (task : TaskId)
    (loads : Bool) (name : String) :
    (s.call task p.cache g.block loads name).1 = .asleep ∨
      ∃ why, (s.call task p.cache g.block loads name).1 = .refused why := by
  unfold call
  cases s.held.find? name with
  | some place => exact .inr ⟨_, rfl⟩
  | none =>
    have found : s.caches[p.cache].pool.find? g.block = some p.slot :=
      (Pool.find?_some _ intact _ _).mpr fits.holds
    obtain ⟨t, ran, agrees⟩ := s.run_claim_found task found
    rw [ran]
    refine .inl (enter_busy task ?_).1
    rw [agrees.slot, slot_updateSlot, if_pos rfl]
    exact fun free => Option.some_ne_none _ (fits.locked.symm.trans free)

end Machine

namespace Account

variable {a z : Account n m} {p : Place n m} {g : Grant m} {task who : TaskId} {event : Event m}
  {call : SleepingCall n m}

theorem next_loses (a : Account n m) (task : TaskId) (event : Event m) :
    a.ledger.Loses (a.next task event).ledger :=
  a.ledger.loses_record ..

theorem run_loses {rule : Rule n m} (path : Run rule a z) : a.ledger.Loses z.ledger := by
  induction path with
  | refl => exact a.ledger.loses_refl
  | step _ _ ih => exact ih.trans (next_loses ..)

theorem next_stuck (sound : Sound a) (orderly : Orderly a task event) (lost : g ∈ a.ledger.lostBuffers)
    (spot : p.spot = g.spot) (waits : a.machine.asleep.find? who = some call) (here : call.place = p) :
    (∀ woken ∈ (a.machine.step task event).1.woken, woken.task = who → woken.reply = .asleep) ∧
      (a.next task event).machine.asleep.find? who = some call := by
  cases asleep : a.machine.isAsleep task with
  | true =>
    have step := step_asleep asleep event
    simp only [next, step]
    exact ⟨List.forall_mem_nil _, waits⟩
  | false =>
    have step := step_awake asleep event
    obtain ⟨acts, accounted⟩ := sound_advance sound orderly asleep
    have other : who ≠ task := by
      rintro rfl
      simp [isAsleep, Registry.contains, waits] at asleep
    have still : (a.machine.opened.advance task event).2.asleep.find? who = some call :=
      (acts.others other).trans waits
    have kept := (a.ledger.loses_note task event (a.machine.opened.advance task event).1).buffers.subset lost
    simp only [next, step]
    exact wake_stuck accounted kept spot still here

theorem lost_waits (sound : Sound a) (lost : g ∈ a.ledger.lostBuffers) (spot : p.spot = g.spot)
    (waits : a.machine.asleep.find? who = some call) (cache : call.place.cache = p.cache)
    (block : call.block = g.block) : call.place = p :=
  same_place sound cache (block ▸ sound.accounted.waits who call waits)
    (sound.accounted.lost lost spot).holds

theorem next_asks (sound : Sound a) (lost : g ∈ a.ledger.lostBuffers) (spot : p.spot = g.spot)
    (task : TaskId) {name : String}
    (asks : event = .read p.cache g.block name ∨ event = .acquire p.cache g.block name) :
    (a.machine.step task event).1.reply = .asleep ∨
      ∃ why, (a.machine.step task event).1.reply = .refused why := by
  cases asleep : a.machine.isAsleep task with
  | true =>
    rw [step_asleep asleep]
    exact .inr ⟨_, rfl⟩
  | false =>
    have stuck := fun loads => call_stuck (s := a.machine.opened) (sound.intact p.cache)
      (sound.accounted.lost lost spot) task loads name
    rw [step_awake asleep]
    rcases asks with rfl | rfl
    · exact stuck true
    · exact stuck false

theorem woken_slept (sound : Sound a) (orderly : Orderly a task event) {woken : Woken}
    (member : woken ∈ (a.machine.step task event).1.woken) {request : Request m}
    (asked : (a.ledger.note task event (a.machine.step task event).1.reply).requests.find? woken.task =
      some request) :
    ∃ call, a.machine.asleep.find? woken.task = some call ∧ call.request = request := by
  cases asleep : a.machine.isAsleep task with
  | true =>
    rw [step_asleep asleep] at member
    cases member
  | false =>
    rw [step_awake asleep] at member asked
    obtain ⟨acts, accounted⟩ := sound_advance sound orderly asleep
    have waits := (accounted.booked.asked woken.task).trans asked
    rcases acts.asleep with kept | ⟨_, _, _, unreleased⟩
    · rw [kept] at waits
      exact Option.map_eq_some_iff.mp waits
    · rw [wake, unreleased] at member
      cases member

-- A buffer that is out of use for good: its lock has a holder who can never give it up, and no call for
-- its block ends.
structure Jammed (p : Place n m) (b : BlockId) (holder : TaskId) (a : Account n m) : Prop where
  carries : (a.machine.slot p).holds b = true
  locked : (a.machine.slot p).data.holder = some holder
  asks : ∀ task name event, event = .read p.cache b name ∨ event = .acquire p.cache b name →
    (a.machine.step task event).1.reply = .asleep ∨
      ∃ why, (a.machine.step task event).1.reply = .refused why
  sleeps : ∀ task event, Orderly a task event →
    ∀ who call, a.machine.asleep.find? who = some call → call.place.cache = p.cache → call.block = b →
      (a.next task event).machine.asleep.find? who = some call
  unanswered : ∀ task event, Orderly a task event → ∀ who request info bytes,
    Answers a task event who request info bytes → request.cache = p.cache → request.block ≠ b

theorem jammed (sound : Sound a) (lost : g ∈ a.ledger.lostBuffers) (spot : p.spot = g.spot) :
    Jammed p g.block g.task a := by
  have fits := sound.accounted.lost lost spot
  have stuck := fun {task event who call} (orderly : Orderly a task event)
      (waits : a.machine.asleep.find? who = some call) (cache : call.place.cache = p.cache)
      (block : call.block = g.block) =>
    next_stuck sound orderly lost spot waits (lost_waits sound lost spot waits cache block)
  refine ⟨fits.holds, fits.locked, ?_, ?_, ?_⟩
  · intro task name event asks
    exact next_asks sound lost spot task asks
  · intro task event orderly who call waits cache block
    exact (stuck orderly waits cache block).2
  · intro task event orderly who request info bytes answers cache block
    have unanswered : ∀ name, event = .read p.cache g.block name ∨ event = .acquire p.cache g.block name →
        (a.machine.step task event).1.reply ≠ .done (.buffer info bytes) := by
      intro name asks told
      rcases next_asks sound lost spot task asks with asleep | ⟨why, refused⟩
      · cases asleep.symm.trans told
      · cases refused.symm.trans told
    cases answers with
    | read asked told =>
      dsimp only at cache block
      exact unanswered _ (.inl (cache ▸ block ▸ asked)) told
    | acquire asked told =>
      dsimp only at cache block
      exact unanswered _ (.inr (cache ▸ block ▸ asked)) told
    | woken member asked told =>
      obtain ⟨call, waits, rfl⟩ := woken_slept sound orderly member asked
      have asleep := (stuck orderly waits cache block).1 _ member rfl
      cases asleep.symm.trans told

-- A buffer with a reference for good, more than there were in `a`: it is never recycled.
structure Leaked (a : Account n m) (p : Place n m) (z : Account n m) : Prop where
  balance : (z.machine.slot p).refs.toNat = z.ledger.buffersAt p.spot + z.ledger.pinsAt p.spot
    + z.machine.sleepersAt p + z.ledger.leakedAt p.spot
  more : a.ledger.leakedAt p.spot < z.ledger.leakedAt p.spot
  tag : (a.machine.slot p).SameTag (z.machine.slot p)

theorem run_leaked {b : Account n m} (sound : Sound b)
    (tag : (a.machine.slot p).SameTag (b.machine.slot p))
    (more : a.ledger.leakedAt p.spot < b.ledger.leakedAt p.spot) (path : Run Orderly b z) :
    Leaked a p z := by
  have leaks : ∀ {y}, Run Orderly b y → a.ledger.leakedAt p.spot < y.ledger.leakedAt p.spot :=
    fun path => lt_of_lt_of_le more ((run_loses path).leakedAt p.spot)
  refine ⟨(run_sound path sound).accounted.balance p, leaks path, ?_⟩
  induction path with
  | refl => exact tag
  | @step y task event path orderly ih =>
    have referenced : (y.machine.slot p).refs ≠ 0 := by
      intro none
      have unused := ((run_sound path sound).accounted.unused none).1
      have leaked := leaks path
      simp only [Account.references] at unused
      omega
    have kept : (y.machine.slot p).SameTag ((y.next task event).machine.slot p) :=
      next_tag orderly.1 referenced
    exact ⟨ih.1.trans kept.1, ih.2.trans kept.2⟩

end Account

end KernelResources.Buffer
