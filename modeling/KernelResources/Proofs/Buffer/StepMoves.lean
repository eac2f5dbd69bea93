import KernelResources.Proofs.Buffer.Accounted
import KernelResources.Proofs.Buffer.PoolAudit

namespace KernelResources.Buffer

open Machine Stage

variable {n m : Nat}

inductive Heard : Reply → Prop where
  | buffer (info : BufferInfo) (bytes : Block) : Heard (.done (.buffer info bytes))
  | asleep : Heard .asleep
  | noBuffers : Heard (.halted .noBuffers)
  | disk (b : BlockId) : Heard (.halted (.disk b))

def Referenced (reply : Reply) : Prop :=
  ∀ i, reply ≠ .halted (.releaseUnreferenced i) ∧ reply ≠ .halted (.unpinUnreferenced i)

theorem referenced_done (answer : Answer) : Referenced (.done answer) :=
  fun _ => ⟨nofun, nofun⟩

theorem referenced_refused (why : Refusal) : Referenced (.refused why) :=
  fun _ => ⟨nofun, nofun⟩

theorem Heard.referenced {reply : Reply} (heard : Heard reply) : Referenced reply := by
  intro i
  cases heard <;> exact ⟨by simp, by simp⟩

namespace Ledger

theorem note_refused (l : Ledger m) (task : TaskId) (event : Event m) (why : Refusal) :
    l.note task event (.refused why) = l := by
  cases event <;> rfl

-- A woken task had a call that waits, and if it was given a buffer for it, that one is out now.
structure Tells (before after : Ledger m) (woken : Woken) : Prop where
  heard : Heard woken.reply
  asked : ∃ request, before.requests.find? woken.task = some request ∧
    ∀ info bytes, woken.reply = .done (.buffer info bytes) →
      request.granted woken.task info.index bytes ∈ after.unreleased

theorem hear_erased (l : Ledger m) (task : TaskId) (request : Request m) {reply : Reply}
    (heard : Heard reply) :
    { l with requests := l.requests.erase task }.hear task request reply =
      l.hear task request reply := by
  have twice : (l.requests.erase task).erase task = l.requests.erase task :=
    Registry.erase_absent ((Registry.find?_erase l.requests task task).trans (by simp))
  cases heard with
  | asleep => simp only [hear, Registry.put_erase]
  | buffer | noBuffers | disk => simp only [hear, twice]

end Ledger

namespace Machine

theorem updateSlot_congr (s : Machine n m) (p : Place n m) {f g : Slot → Slot}
    (same : f (s.slot p) = g (s.slot p)) : s.updateSlot p f = s.updateSlot p g := by
  unfold updateSlot updateCache
  dsimp only
  rw [Pool.updateSlot_congr same]

variable (fair : Grant m → Prop) {s t : Machine n m} {l : Ledger m} {hand locks : List (Place n m)}
  {p : Place n m}

theorem heldBy_iff {slot : Slot} {task : TaskId} :
    slot.data.heldBy task = true ↔ slot.data.holder = some task := by
  simp [SleepLock.heldBy]

theorem unheld_iff {slot : Slot} {task : TaskId} :
    slot.data.heldBy task = false ↔ slot.data.holder ≠ some task := by
  rw [← Bool.not_eq_true, heldBy_iff]

theorem referenced_hand (accounted : Accounted ⟨s, l, p :: hand, locks⟩) : (s.slot p).refs ≠ 0 := by
  intro none
  have unused := (accounted.unused none).2
  rw [List.count_cons_self] at unused
  cases unused

theorem name_moves {task : TaskId} {request : Request m} (cache : request.cache = p.cache)
    (holds : (s.slot p).holds request.block = true) (locked : (s.slot p).data.holder = some task)
    (valid : request.loads = true → (s.slot p).valid = true) :
    Moves fair ⟨s, l, p :: hand, p :: locks⟩
      ⟨{ s with held := s.held.put request.name p },
        l.grant task request p.slot (s.bytesAt p), hand, locks⟩ := by
  have named : Move fair
      ⟨{ s with held := s.held.erase request.name }, l.lose request.name, p :: hand, p :: locks⟩ _ :=
    .grant request.name p
      ⟨task, ⟨request.cache, p.slot⟩, request.block, request.loads, s.bytesAt p, false⟩
      (by rw [cache]; rfl) ⟨holds, locked, rfl, valid⟩ rfl (l.find?_lose request.name)
  dsimp only at named
  rw [Registry.put_erase] at named
  exact .step (.single (.lose request.name)) named

theorem release_moves (task : TaskId) (accounted : Accounted ⟨s, l, p :: hand, p :: locks⟩)
    (locked : (s.slot p).data.holder = some task) :
    ∃ t, s.run task p.cache (Cache.release p.slot) = (.ok (), t) ∧
      Moves fair ⟨s, l, p :: hand, p :: locks⟩ ⟨t, l, hand, locks⟩ := by
  obtain ⟨t, ran, agrees⟩ :=
    s.run_release_held task (heldBy_iff.mpr locked) (referenced_hand accounted)
  refine ⟨t, ran, .step (.step (.single (.unlock p)) ?_) (.still agrees.still)⟩
  exact .unrefer p fun _ => Clock.stamp s.clock.now

theorem load_moves (task : TaskId) {b : BlockId}
    (accounted : Accounted ⟨s, l, p :: hand, p :: locks⟩) (holds : (s.slot p).holds b = true)
    (locked : (s.slot p).data.holder = some task) :
    ∃ t, (s.run task p.cache (Cache.loadOrRelease p.slot b) = (.ok (), t) ∧
          Moves fair ⟨s, l, p :: hand, p :: locks⟩ ⟨t, l, p :: hand, p :: locks⟩ ∧
          (t.slot p).holds b = true ∧ (t.slot p).data.holder = some task ∧
          (t.slot p).valid = true) ∨
      (s.run task p.cache (Cache.loadOrRelease p.slot b) = (.error (.disk b), t) ∧
        Moves fair ⟨s, l, p :: hand, p :: locks⟩ ⟨t, l, hand, locks⟩) := by
  cases valid : (s.slot p).valid with
  | true =>
    obtain ⟨t, ran, agrees⟩ := s.run_load_valid task b valid
    refine ⟨t, .inl ⟨ran, .single (.still agrees.still), ?_⟩⟩
    rw [agrees.slot]
    exact ⟨holds, locked, valid⟩
  | false =>
    cases fails : s.caches[p.cache].disk.fails task b with
    | false =>
      obtain ⟨t, ran, agrees⟩ := s.run_load_succeeds task valid fails
      refine ⟨t, .inl ⟨ran, .step (.single (.load p b holds)) (.still agrees.still), ?_⟩⟩
      rw [agrees.slot, slot_updateSlot, if_pos rfl]
      exact ⟨holds, locked, rfl⟩
    | true =>
      obtain ⟨t, ran, agrees⟩ := s.run_load_fails task valid fails (heldBy_iff.mpr locked)
        (referenced_hand accounted)
      refine ⟨t, .inr ⟨ran, .step (.step (.single (.unlock p)) ?_) (.still agrees.still)⟩⟩
      exact .unrefer p fun _ => Clock.stamp s.clock.now

variable (task : TaskId) (call : SleepingCall n m)

theorem finish_moves (accounted : Accounted ⟨s, l, call.place :: hand, call.place :: locks⟩)
    (holds : (s.slot call.place).holds call.block = true)
    (locked : (s.slot call.place).data.holder = some task) (unasked : l.requests.find? task = none) :
    Heard (s.finish task call).1 ∧
      Moves fair ⟨s, l, call.place :: hand, call.place :: locks⟩
        ⟨(s.finish task call).2, l.hear task call.request (s.finish task call).1, hand, locks⟩ := by
  have silent : { l with requests := l.requests.erase task } = l := by
    rw [Registry.erase_absent unasked]
  unfold finish
  cases loads : call.loads with
  | false =>
    rw [if_neg Bool.false_ne_true]
    refine ⟨.buffer _ _, ?_⟩
    have valid : call.request.loads = true → (s.slot call.place).valid = true := by
      intro wanted
      rw [SleepingCall.request, loads] at wanted
      cases wanted
    have named : Moves fair ⟨s, l, call.place :: hand, call.place :: locks⟩ _ :=
      name_moves fair (Eq.refl call.request.cache) holds locked valid
    rw [Ledger.hear, silent]
    exact named
  | true =>
    obtain ⟨t, ⟨ran, moves, holdsT, lockedT, validT⟩ | ⟨ran, moves⟩⟩ :=
      load_moves fair task accounted holds locked
    · rw [if_pos rfl, ran]
      refine ⟨.buffer _ _, moves.trans ?_⟩
      have named : Moves fair ⟨t, l, call.place :: hand, call.place :: locks⟩ _ :=
        name_moves fair (Eq.refl call.request.cache) holdsT lockedT fun _ => validT
      rw [Ledger.hear, silent]
      exact named
    · rw [if_pos rfl, ran]
      refine ⟨.disk _, ?_⟩
      rw [Ledger.hear, silent]
      exact moves

theorem unasked (accounted : Accounted ⟨s, l, hand, locks⟩) (awake : s.asleep.find? task = none) :
    l.requests.find? task = none := by
  have asked := accounted.booked.asked task
  dsimp only at asked
  rw [← asked, awake]
  rfl

theorem enter_moves (accounted : Accounted ⟨s, l, call.place :: hand, locks⟩)
    (holds : (s.slot call.place).holds call.block = true) (awake : s.asleep.find? task = none) :
    Heard (s.enter task call).1 ∧
      Moves fair ⟨s, l, call.place :: hand, locks⟩
        ⟨(s.enter task call).2, l.hear task call.request (s.enter task call).1, hand, locks⟩ := by
  have unasked := unasked task accounted awake
  obtain ⟨t, ran, agrees⟩ := s.run_enter task call.place
  have slotT : t.slot call.place = (s.slot call.place).enter task := by
    rw [agrees.slot, slot_updateSlot, if_pos rfl]
  unfold enter
  rw [ran]
  cases holder : (s.slot call.place).data.holder with
  | none =>
    have taken : Moves fair ⟨s, l, call.place :: hand, locks⟩
        ⟨t, l, call.place :: hand, call.place :: locks⟩ :=
      .step (.single (.lock call.place task holder)) (.still agrees.still)
    obtain ⟨heard, moves⟩ := finish_moves fair task call (moves_accounted taken accounted)
      (by rw [slotT]; exact holds)
      (by rw [slotT, Slot.enter, (holder_enter _ task).1, holder]; rfl) unasked
    exact ⟨heard, taken.trans moves⟩
  | some other =>
    have busy : (s.slot call.place).data.holder ≠ none := by simp [holder]
    refine ⟨.asleep, .step (.step (.single (.queue call.place task busy)) (.still agrees.still)) ?_⟩
    exact .sleep task call (by rw [slotT]; exact holds) (by rw [agrees.asleep]; exact awake)

theorem resumeAll_moves (tasks : List TaskId) (accounted : Accounted ⟨s, l, hand, locks⟩) :
    (∀ woken ∈ (resumeAll tasks s).1, l.Tells (l.resume (resumeAll tasks s).1) woken) ∧
      Moves fair ⟨s, l, hand, locks⟩
        ⟨(resumeAll tasks s).2, l.resume (resumeAll tasks s).1, hand, locks⟩ := by
  induction tasks generalizing s l with
  | nil => exact ⟨by simp [resumeAll], .refl⟩
  | cons task rest ih =>
    unfold resumeAll
    cases found : s.asleep.find? task with
    | none => exact ih accounted
    | some call =>
      have asked : l.requests.find? task = some call.request := by
        have asked := accounted.booked.asked task
        dsimp only at asked
        rw [← asked, found]
        rfl
      have roused : Moves fair ⟨s, l, hand, locks⟩ _ := .single (.rouse task call found)
      obtain ⟨heard, entered⟩ := enter_moves fair task call (moves_accounted roused accounted)
        (accounted.waits task call found)
        ((Registry.find?_erase s.asleep task task).trans (by simp))
      -- The others find the machine and the books as this one leaves them.
      rw [Ledger.hear_erased l task call.request heard] at entered
      have entered := roused.trans entered
      obtain ⟨later, resumed⟩ := ih (moves_accounted entered accounted)
      simp only [Ledger.resume, asked]
      refine ⟨?_, entered.trans resumed⟩
      intro woken member
      rcases List.mem_cons.mp member with rfl | other
      · refine ⟨heard, call.request, asked, ?_⟩
        intro info bytes told
        dsimp only at told
        rw [told]
        exact Ledger.resume_keeps (Ledger.distinct_hear accounted.booked.grantsDistinct)
          (l.hear_grants info bytes)
      · obtain ⟨heard, request, waits, granted⟩ := later woken other
        exact ⟨heard, request, Ledger.asked_hear asked waits, granted⟩

theorem wake_moves (accounted : Accounted ⟨s, l, hand, locks⟩) :
    (∀ woken ∈ s.wake.1, l.Tells (l.resume s.wake.1) woken) ∧
      Moves fair ⟨s, l, hand, locks⟩ ⟨s.wake.2, l.resume s.wake.1, hand, locks⟩ := by
  unfold wake
  cases s.released? with
  | none => exact ⟨by simp, .refl⟩
  | some place =>
    have emptied : Moves fair ⟨s, l, hand, locks⟩ _ := .single (.wake place)
    obtain ⟨told, resumed⟩ := resumeAll_moves fair (s.slot place).data.wake.1
      (moves_accounted emptied accounted)
    have same : (s.updateSlot place fun slot => { slot with data := (s.slot place).data.wake.2 }) =
        s.updateSlot place fun slot => { slot with data := slot.data.wake.2 } :=
      s.updateSlot_congr place rfl
    dsimp only
    rw [same]
    exact ⟨told, emptied.trans resumed⟩

structure Follows (s : Machine n m) (l : Ledger m) (event : Event m) (ended : Reply × Machine n m) :
    Prop where
  referenced : Referenced ended.1
  moves : Moves fair ⟨s, l, [], []⟩ ⟨ended.2, l.note task event ended.1, [], []⟩

variable {c : Fin m} {b : BlockId} {name pinName : String} {event : Event m}

theorem follows_refused (why : Refusal) : Follows fair task s l event (.refused why, s) := by
  refine ⟨referenced_refused why, ?_⟩
  rw [Ledger.note_refused]
  exact .refl

theorem follows_withBuffer {f : Place n m → Reply × Machine n m}
    (found : ∀ p, s.held.find? name = some p → Follows fair task s l event (f p)) :
    Follows fair task s l event (s.withBuffer name f) := by
  unfold withBuffer
  split
  · rename_i place held
    exact found place held
  · exact follows_refused fair task _

theorem follows_withPin {f : Place n m → Reply × Machine n m}
    (found : ∀ p, s.pins.find? pinName = some p → Follows fair task s l event (f p)) :
    Follows fair task s l event (s.withPin pinName f) := by
  unfold withPin
  split
  · rename_i place pinned
    exact found place pinned
  · exact follows_refused fair task _

theorem follows_enter {u : Machine n m} {i : Fin n} {loads : Bool}
    (noted : ∀ reply, l.note task event reply = l.hear task ⟨c, b, loads, name⟩ reply)
    (accounted : Accounted ⟨s, l, [], []⟩) (awake : u.asleep.find? task = none)
    (holds : (u.slot ⟨c, i⟩).holds b = true)
    (claimed : Moves fair ⟨s, l, [], []⟩ ⟨u, l, [⟨c, i⟩], []⟩) :
    Follows fair task s l event (u.enter task ⟨⟨c, i⟩, b, loads, name⟩) := by
  obtain ⟨heard, entered⟩ := enter_moves fair task ⟨⟨c, i⟩, b, loads, name⟩
    (moves_accounted claimed accounted) holds awake
  refine ⟨heard.referenced, ?_⟩
  rw [noted]
  exact claimed.trans entered

theorem follows_call {loads : Bool}
    (noted : ∀ reply, l.note task event reply = l.hear task ⟨c, b, loads, name⟩ reply)
    (accounted : Accounted ⟨s, l, [], []⟩) (awake : s.asleep.find? task = none)
    (room : ∀ i, s.held.find? name = none → s.caches[c].pool.find? b = some i →
      Account.references ⟨s, l⟩ ⟨c, i⟩ + 1 < UInt32.size) :
    Follows fair task s l event (s.call task c b loads name) := by
  unfold call
  cases free : s.held.find? name with
  | some place => exact follows_refused fair task _
  | none =>
    cases found : s.caches[c].pool.find? b with
    | some i =>
      obtain ⟨t, ran, agrees⟩ := s.run_claim_found task found
      rw [ran]
      have referred : Moves fair ⟨s, l, [], []⟩ ⟨t, l, [⟨c, i⟩], []⟩ :=
        .step (.single (.refer ⟨c, i⟩ (room i free found))) (.still agrees.still)
      refine follows_enter fair task noted accounted (by rw [agrees.asleep]; exact awake) ?_ referred
      rw [agrees.slot, slot_updateSlot, if_pos rfl]
      exact Pool.find?_holds found
    | none =>
      cases chosen : s.caches[c].pool.leastRecentlyReleased with
      | some i =>
        obtain ⟨t, ran, agrees⟩ := s.run_claim_recycles task found chosen
        rw [ran]
        have unreferenced : (s.slot ⟨c, i⟩).refs = 0 := Pool.refs_leastRecentlyReleased chosen
        have recycled : Moves fair ⟨s, l, [], []⟩ ⟨t, l, [⟨c, i⟩], []⟩ :=
          .step (.single (.recycle ⟨c, i⟩ b found unreferenced)) (.still agrees.still)
        refine follows_enter fair task noted accounted (by rw [agrees.asleep]; exact awake) ?_ recycled
        rw [agrees.slot, slot_recycle, if_pos rfl]
        exact Slot.holds_retag _ b
      | none =>
        obtain ⟨t, ran, agrees⟩ := s.run_claim_exhausted task found chosen
        rw [ran]
        refine ⟨Heard.noBuffers.referenced, .single ?_⟩
        rw [noted, Ledger.hear, Registry.erase_absent (unasked task accounted awake)]
        exact .still agrees.still

theorem follows_write {p : Place n m} (found : s.held.find? name = some p)
    (intact : s.caches[p.cache].pool.Intact) :
    Follows fair task s l (.write name)
      (report (s.run task p.cache (Cache.write p.slot)) fun _ => .unit) := by
  cases held : (s.slot p).data.heldBy task with
  | false =>
    have told : Referenced (.halted (.writeUnheld p.slot task)) := fun _ => ⟨nofun, nofun⟩
    obtain ⟨t, ran, agrees⟩ := s.run_write_unheld task held
    rw [ran]
    exact ⟨told, .single (.still agrees.still)⟩
  | true =>
    cases fails : s.caches[p.cache].disk.fails task (s.slot p).block with
    | true =>
      obtain ⟨t, ran, agrees⟩ := s.run_write_fails task held fails
      rw [ran]
      exact ⟨(Heard.disk _).referenced, .single (.still agrees.still)⟩
    | false =>
      obtain ⟨t, ran, agrees⟩ := s.run_write_succeeds task held fails
      rw [ran]
      refine ⟨referenced_done _, ?_⟩
      exact .step (.single (.write name p found intact)) (.still agrees.still)

theorem follows_release {p : Place n m} (accounted : Accounted ⟨s, l, [], []⟩)
    (found : s.held.find? name = some p)
    (allowed : ∀ g, l.grants.find? name = some g →
      ({ s with held := s.held.erase name }.run task p.cache (Cache.release p.slot)).1 = .ok () →
        fair g) :
    Follows fair task s l (.release name)
      (report ({ s with held := s.held.erase name }.run task p.cache (Cache.release p.slot))
        fun _ => .unit) := by
  cases held : (s.slot p).data.heldBy task with
  | false =>
    have told : Referenced (.halted (.releaseUnheld p.slot task)) := fun _ => ⟨nofun, nofun⟩
    have lost : Moves fair ⟨s, l, [], []⟩ _ := .single (.lose name)
    obtain ⟨t, ran, agrees⟩ := run_release_unheld { s with held := s.held.erase name } task held
    rw [ran]
    exact ⟨told, lost.step (.still agrees.still)⟩
  | true =>
    obtain ⟨g, known, _, _⟩ := accounted.granted found
    obtain ⟨t, ran, released⟩ :=
      release_moves fair task (accounted.giveBack found) (heldBy_iff.mp held)
    have given : Moves fair ⟨s, l, [], []⟩ _ :=
      .single (.giveBack name p g found known (allowed g known (by rw [ran])))
    rw [ran]
    exact ⟨referenced_done _, given.trans released⟩

theorem follows_pin {p : Place n m} (accounted : Accounted ⟨s, l, [], []⟩)
    (found : s.held.find? name = some p) (free : s.pins.find? pinName = none)
    (room : Account.references ⟨s, l⟩ p + 1 < UInt32.size) :
    ∃ t, s.run task p.cache (Cache.pin p.slot) = (.ok (), t) ∧
      ∀ answer, Follows fair task s l (.pin name pinName)
        (.done answer, { t with pins := t.pins.put pinName p }) := by
  obtain ⟨g, known, spot, _⟩ := accounted.granted found
  have fresh : l.pins.find? pinName = none := by
    have pinned := accounted.booked.pinned pinName
    dsimp only at pinned
    rw [← pinned, free]
    rfl
  obtain ⟨t, ran, agrees⟩ := s.run_pin task p
  refine ⟨t, ran, ?_⟩
  intro answer
  have pinned : Move fair ⟨t, l, [p], []⟩ _ := .pin pinName p fresh
  refine ⟨referenced_done answer, ?_⟩
  simp only [Ledger.note, known, spot]
  exact .step (.step (.single (.refer p room)) (.still agrees.still)) pinned

theorem follows_unpin {p : Place n m} (accounted : Accounted ⟨s, l, [], []⟩)
    (found : s.pins.find? pinName = some p) :
    Follows fair task s l (.unpin c pinName)
      (report ({ s with pins := s.pins.erase pinName }.run task c (Cache.unpin p.slot (p.cache = c)))
        fun _ => .unit) := by
  by_cases own : p.cache = c
  · subst own
    have taken : Moves fair ⟨s, l, [], []⟩ _ := .single (.unpin pinName p found)
    obtain ⟨t, ran, agrees⟩ := run_unpin_own { s with pins := s.pins.erase pinName } task
      (referenced_hand (accounted.unpin found))
    rw [decide_eq_true rfl, ran]
    exact ⟨referenced_done _, (taken.step (.unrefer p id)).step (.still agrees.still)⟩
  · have told : Referenced (.halted (.unpinForeign p.slot)) := fun _ => ⟨nofun, nofun⟩
    have lost : Moves fair ⟨s, l, [], []⟩ _ := .single (.losePin pinName)
    obtain ⟨t, ran, agrees⟩ :=
      run_unpin_foreign { s with pins := s.pins.erase pinName } task (c := c) p.slot
    rw [decide_eq_false own, ran]
    exact ⟨told, lost.step (.still agrees.still)⟩

theorem follows_advance (accounted : Accounted ⟨s, l, [], []⟩) (awake : s.asleep.find? task = none)
    (intact : ∀ c : Fin m, s.caches[c].pool.Intact) (event : Event m) (regular : event.Regular)
    (room : ∀ p, s.takes? task event = some p → Account.references ⟨s, l⟩ p + 1 < UInt32.size)
    (allowed : ∀ name g answer, event = .release name → l.grants.find? name = some g →
      (s.advance task event).1 = .done answer → fair g) :
    Follows fair task s l event (s.advance task event) := by
  have up : s.isAsleep task = false := by
    rw [isAsleep, Registry.contains, awake]
    rfl
  have still : ∀ {t : Machine n m}, t.Agrees s → Moves fair ⟨s, l, [], []⟩ ⟨t, l, [], []⟩ :=
    fun agrees => .single (.still agrees.still)
  cases event with
  | tamper => exact absurd regular id
  | read c b name | acquire c b name =>
    refine follows_call fair task (fun _ => rfl) accounted awake ?_
    intro i free found
    refine room ⟨c, i⟩ ?_
    simp [takes?, up, Registry.contains, free, found]
  | write name =>
    exact follows_withBuffer fair task fun p found => follows_write fair task found (intact p.cache)
  | release name =>
    refine follows_withBuffer fair task fun p found => ?_
    apply follows_release fair task accounted found
    intro g known ran
    apply allowed name g .unit rfl known
    simp only [advance, withBuffer, found, report, ran, Outcome.ofRun, Outcome.map]
  | pin name pinName =>
    refine follows_withBuffer fair task fun p found => ?_
    cases free : s.pins.find? pinName with
    | some q => exact follows_refused fair task _
    | none =>
      have fits : Account.references ⟨s, l⟩ p + 1 < UInt32.size := by
        apply room p
        simp [takes?, up, Registry.contains, free, found]
      obtain ⟨t, ran, follows⟩ := follows_pin fair task accounted found free fits
      rw [ran]
      exact follows _
  | unpin c pinName =>
    exact follows_withPin fair task fun p found => follows_unpin fair task accounted found
  | dropPin pinName =>
    exact follows_withPin fair task fun p _ => ⟨referenced_done _, .single (.losePin pinName)⟩
  | fill name byte =>
    exact follows_withBuffer fair task fun p found =>
      ⟨referenced_done _, .single (.edit name p (fun _ => .filled byte) found)⟩
  | put name offset bytes =>
    refine follows_withBuffer fair task fun p found => ?_
    split
    · exact ⟨referenced_done _, .single (.edit name p (·.overwrite offset bytes) found)⟩
    · exact follows_refused fair task _
  | bytes name | info name | record name =>
    exact follows_withBuffer fair task fun p _ => ⟨referenced_done _, .refl⟩
  | forget name =>
    exact follows_withBuffer fair task fun p _ => ⟨referenced_done _, .single (.lose name)⟩
  | pinInfo pinName =>
    exact follows_withPin fair task fun p _ => ⟨referenced_done _, .refl⟩
  | isCached c b =>
    obtain ⟨t, ran, agrees⟩ := s.run_isCached task c b
    rw [advance, ran]
    exact ⟨referenced_done _, still agrees⟩
  | audit c =>
    obtain ⟨t, ran, agrees⟩ := s.run_audit task c
    rw [advance, ran, Pool.audit_intact (intact c)]
    exact ⟨referenced_done _, still agrees⟩
  | capacity | setClock | moveTo | setInterrupts | disk =>
    exact ⟨referenced_done _, still ⟨rfl, rfl, rfl, rfl⟩⟩
  | setFault c b on =>
    exact ⟨referenced_done _, .single (.still ⟨fun d => (s.pool_setFault c none b on d).symm,
      fun d other => (s.content_setFault c none b on d other).symm, rfl, rfl, rfl⟩)⟩
  | setFaultFor c who b on =>
    exact ⟨referenced_done _, .single (.still ⟨fun d => (s.pool_setFault c who b on d).symm,
      fun d other => (s.content_setFault c who b on d other).symm, rfl, rfl, rfl⟩)⟩

end Machine

namespace Account

variable (fair : Grant m → Prop) {a : Account n m}

structure Proceeds (a : Account n m) (task : TaskId) (event : Event m) : Prop where
  referenced : Referenced (a.machine.step task event).1.reply
  distinct : (a.ledger.note task event (a.machine.step task event).1.reply).grants.keys.Nodup
  told : ∀ woken ∈ (a.machine.step task event).1.woken,
    (a.ledger.note task event (a.machine.step task event).1.reply).Tells
      (a.next task event).ledger woken
  moves : Moves fair ⟨a.machine, a.ledger, [], []⟩
    ⟨(a.next task event).machine, (a.next task event).ledger, [], []⟩

theorem next_proceeds (accounted : Accounted ⟨a.machine, a.ledger, [], []⟩)
    (intact : ∀ c : Fin m, a.machine.caches[c].pool.Intact) {task : TaskId} {event : Event m}
    (orderly : Orderly a task event)
    (allowed : ∀ name g answer, event = .release name → a.ledger.grants.find? name = some g →
      (a.machine.step task event).1.reply = .done answer → fair g) : Proceeds fair a task event := by
  obtain ⟨regular, room⟩ := orderly
  have opening : Moves fair ⟨a.machine, a.ledger, [], []⟩ ⟨a.machine.opened, a.ledger, [], []⟩ :=
    .single (.still (Agrees.mk rfl rfl rfl rfl : a.machine.opened.Agrees a.machine).still)
  cases asleep : a.machine.isAsleep task with
  | true =>
    have step := step_asleep asleep event
    have noted : (a.next task event).ledger = a.ledger := by
      rw [next, Ledger.record, step]
      exact Ledger.note_refused ..
    refine ⟨?_, ?_, ?_, ?_⟩
    · rw [step]
      exact referenced_refused _
    · rw [step, Ledger.note_refused]
      exact accounted.booked.grantsDistinct
    · simp [step]
    · rw [noted, next, step]
      exact opening
  | false =>
    have step := step_awake asleep event
    rw [step] at allowed
    have awake : a.machine.asleep.find? task = none := by simpa [isAsleep, Registry.contains] using asleep
    obtain ⟨referenced, advanced⟩ := follows_advance fair task (moves_accounted opening accounted) awake
      intact event regular room allowed
    have noted := moves_accounted (opening.trans advanced) accounted
    obtain ⟨told, woken⟩ := wake_moves fair noted
    refine ⟨?_, ?_, ?_, ?_⟩ <;> simp only [next, Ledger.record, step]
    · exact referenced
    · exact noted.booked.grantsDistinct
    · exact told
    · exact (opening.trans advanced).trans woken

end Account

end KernelResources.Buffer
