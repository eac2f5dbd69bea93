import KernelResources.Proofs.Buffer.Fillings
import KernelResources.Proofs.Buffer.Losses
import KernelResources.Proofs.Buffer.Sources

namespace KernelResources.Buffer

open Machine Stage

variable {n m : Nat}

def Machine.Event.stores? : Event m → Option String
  | .write name | .fill name _ | .put name _ _ => some name
  | _ => none

namespace Account

variable {a y z : Account n m} {task who : TaskId} {event : Event m} {p : Place n m} {b : BlockId}
  {bytes : Block} {reply : Reply} {request : Request m} {name pinName : String}

-- Where the bytes of the buffer come from that it has after the step. They are loaded by a read, its own or
-- one that the step resumes.
inductive Rewritten (a : Account n m) (task : TaskId) (event : Event m) (p : Place n m) : Prop where
  | kept (same : (a.next task event).machine.bytesAt p = a.machine.bytesAt p) : Rewritten a task event p
  | edited (edits : a.machine.Edits p ((a.next task event).machine.bytesAt p) event) :
      Rewritten a task event p
  | loaded {x : Exchange n m} (member : x ∈ a.machine.exchanges task event)
      (fills : x.Fills p ((a.next task event).machine.bytesAt p))
      (reads : Asks a.machine task x event ∨ Resumes a.machine x) : Rewritten a task event p

theorem rewritten (sound : Sound a) (orderly : Orderly a task event) (p : Place n m) :
    Rewritten a task event p := by
  rcases step_explains a.machine task orderly.1 p with same | edits | ⟨x, member, fills⟩
  · exact .kept same
  · exact .edited edits
  · exact .loaded member fills ((next_steps sound orderly).source x member)

inductive Hears (a : Account n m) (task : TaskId) (event : Event m) :
    TaskId → Request m → Reply → Prop where
  | read {c : Fin m} {b : BlockId} {name : String} (asked : event = .read c b name) :
      Hears a task event task ⟨c, b, true, name⟩ (a.machine.step task event).1.reply
  | acquire {c : Fin m} {b : BlockId} {name : String} (asked : event = .acquire c b name) :
      Hears a task event task ⟨c, b, false, name⟩ (a.machine.step task event).1.reply
  | woken {woken : Woken} {request : Request m} (member : woken ∈ (a.machine.step task event).1.woken)
      (asked : (a.ledger.note task event (a.machine.step task event).1.reply).requests.find?
        woken.task = some request) : Hears a task event woken.task request woken.reply

theorem Hears.answers {info : BufferInfo}
    (hears : Hears a task event who request (.done (.buffer info bytes))) :
    Answers a task event who request info bytes := by
  generalize told : (Outcome.done (.buffer info bytes) : Reply) = reply at hears
  cases hears with
  | read asked => exact .read asked told.symm
  | acquire asked => exact .acquire asked told.symm
  | woken member asked => exact .woken member asked told.symm

-- A call is refused if its task is asleep, or has a buffer under the name of the call already.
inductive Refused (a : Account n m) (task : TaskId) (request : Request m) : TaskId → Reply → Prop where
  | blocked (asleep : a.machine.isAsleep task = true) :
      Refused a task request task (.refused (.taskBlocked task))
  | inUse (used : a.machine.held.find? request.name ≠ none) :
      Refused a task request task (.refused (.handleInUse request.name))

-- What any other call for block `b` may be told whose buffer is at `p` with `bytes` in it: it gets them, or
-- it does not end.
inductive Returned (p : Place n m) (b : BlockId) (bytes : Block) : Reply → Prop where
  | buffer (refs : UInt32) : Returned p b bytes (.done (.buffer ⟨p.slot, b, true, refs⟩ bytes))
  | asleep : Returned p b bytes .asleep

structure Returns (p : Place n m) (b : BlockId) (bytes : Block) (a : Account n m) (task : TaskId)
    (event : Event m) : Prop where
  hears : ∀ who request reply, Hears a task event who request reply → request.cache = p.cache →
    request.block = b → Refused a task request who reply ∨ Returned p b bytes reply
  untransferred : ∀ transfer ∈ (a.machine.step task event).2.transfers p.cache, transfer.block ≠ b

def Spares (p : Place n m) (a : Account n m) (event : Event m) : Prop :=
  ∀ name, event.stores? = some name → a.machine.held.find? name ≠ some p

theorem next_valid (steps : Steps a.machine task event) (kept : Referring p a task event)
    (valid : (a.machine.slot p).valid = true) :
    ((a.next task event).machine.slot p).valid = true ∧
      ∀ x ∈ a.machine.exchanges task event, (x.machine.slot p).valid = true :=
  steps.lasting p (next_tag kept.1.1 kept.2) valid

theorem next_remains (sound : Sound a) (kept : Referring p a task event) (loaded : Loaded a p b) :
    Loaded (a.next task event) p b :=
  ⟨(next_valid (next_steps sound kept.1) kept loaded.valid).1, run_holds (.step .refl kept) loaded.holds⟩

theorem next_bytes (sound : Sound a) (kept : Referring p a task event)
    (valid : (a.machine.slot p).valid = true) (spares : Spares p a event) :
    (a.next task event).machine.bytesAt p = a.machine.bytesAt p := by
  cases rewritten sound kept.1 p with
  | kept same => exact same
  | edited edits =>
    cases edits with
    | fill live => exact absurd live (spares _ rfl)
    | put live => exact absurd live (spares _ rfl)
  | loaded member fills reads =>
    have still := (next_valid (next_steps sound kept.1) kept valid).2 _ member
    rw [← fills.place] at still
    exact absurd (still.symm.trans fills.invalid) Bool.noConfusion

-- The transfers of a block are those of its buffer. It is not read, since it is loaded, and only under its
-- name could it be written.
theorem untransferred (sound : Sound a) (kept : Referring p a task event) (loaded : Loaded a p b)
    (spares : Spares p a event) {x : Exchange n m} (member : x ∈ a.machine.exchanges task event)
    (cache : x.place.cache = p.cache) : x.transfer.block ≠ b := by
  rintro rfl
  have steps := next_steps sound kept.1
  have later := next_remains sound kept loaded
  have here : x.place = p :=
    same_place (next_sound sound kept.1) cache (exchange_holds steps member) later.holds
  have unread : x.transfer.direction ≠ .read := by
    intro read
    have invalid := (steps.proper x member).invalid read
    have still := (next_valid steps kept loaded.valid).2 x member
    rw [← here] at still
    exact absurd (still.symm.trans invalid) Bool.noConfusion
  rcases steps.source x member with asks | ⟨_, serves⟩
  · cases asks with
    | read direction => exact unread direction
    | write _ _ known => exact spares _ rfl (here ▸ known)
  · exact unread serves.direction

theorem advanced_loaded (sound : Sound a) (kept : Referring p a task event) (loaded : Loaded a p b)
    (awake : a.machine.isAsleep task = false) :
    ((a.machine.opened.advance task event).2.slot p).valid = true ∧
      ((a.machine.opened.advance task event).2.slot p).holds b = true := by
  obtain ⟨v, begins, passes⟩ := (sound_advance sound kept.1 awake).1.begins
  have last : (a.machine.slot p).SameTag ((a.next task event).machine.slot p) := next_tag kept.1.1 kept.2
  rw [next, step_awake awake] at last
  have woken := (tags_wake (a.machine.opened.advance task event).2 p.cache).2 p.slot
  have tag : (a.machine.slot p).SameTag ((a.machine.opened.advance task event).2.slot p) :=
    ⟨last.1.trans woken.1.symm, last.2.trans woken.2.symm⟩
  have passed := (passes.tags p.cache).2 p.slot
  have begun := begins.valid p ⟨tag.1.trans passed.1.symm, tag.2.trans passed.2.symm⟩ loaded.valid
  refine ⟨passes.valid p begun, ?_⟩
  rw [Slot.holds, ← tag.1, ← tag.2]
  exact loaded.holds

theorem hears_told (sound : Sound a) (kept : Referring p a task event) (loaded : Loaded a p b)
    (hears : Hears a task event who request reply) (cache : request.cache = p.cache) :
    Refused a task request who reply ∨
      ∃ q u, q.cache = p.cache ∧ (u.slot p).valid = true ∧ (u.slot p).holds b = true ∧
        Told u q reply := by
  cases asleep : a.machine.isAsleep task with
  | true =>
    have step := step_asleep asleep event
    have refused : ∀ asked : Request m,
        Refused a task asked task (a.machine.step task event).1.reply := by
      intro asked
      rw [step]
      exact .blocked asleep
    cases hears with
    | read => exact .inl (refused _)
    | acquire => exact .inl (refused _)
    | woken member =>
      rw [step] at member
      cases member
  | false =>
    have step := step_awake asleep event
    obtain ⟨valid, holds⟩ := advanced_loaded sound kept loaded asleep
    have own := fun block loads name => call_told a.machine.opened task p block loads name
    cases hears with
    | read asked =>
      dsimp only at cache
      subst asked cache
      rw [step]
      rcases own _ true _ with ⟨used, refused⟩ | ⟨i, told⟩
      · exact .inl (refused ▸ .inUse used)
      · exact .inr ⟨⟨p.cache, i⟩, _, rfl, valid, holds, told⟩
    | acquire asked =>
      dsimp only at cache
      subst asked cache
      rw [step]
      rcases own _ false _ with ⟨used, refused⟩ | ⟨i, told⟩
      · exact .inl (refused ▸ .inUse used)
      · exact .inr ⟨⟨p.cache, i⟩, _, rfl, valid, holds, told⟩
    | woken member asked =>
      rw [step] at member asked
      obtain ⟨call, _, u, waits, fills, told⟩ := wake_told _ _ member
      have booked := (sound_advance sound kept.1 asleep).2.booked.asked
      dsimp only at booked
      have same := (congrArg (Option.map SleepingCall.request) waits).symm.trans ((booked _).trans asked)
      refine .inr ⟨call.place, u, ?_, fills.valid p valid, ?_, told⟩
      · rw [← cache, ← Option.some.inj same]
        rfl
      · rw [Slot.holds, ← (fills.tags p).1, ← (fills.tags p).2]
        exact holds

theorem hears_halted (sound : Sound a) (orderly : Orderly a task event) {fault : CacheFault}
    (hears : Hears a task event who request (.halted fault)) :
    (∀ i : Fin n, (a.machine.slot ⟨request.cache, i⟩).holds request.block = false) ∨
      ∃ x ∈ a.machine.exchanges task event, x.place.cache = request.cache ∧
        x.transfer.block = request.block := by
  have steps := next_steps sound orderly
  generalize told : (Outcome.halted fault : Reply) = reply at hears
  cases hears with
  | read asked =>
    subst asked
    rcases steps.halted fault told.symm with stops | ⟨x, member, asks, _⟩
    · cases stops with
      | read _ uncached => exact .inl uncached
    · cases asks with
      | read => exact .inr ⟨x, member, rfl, rfl⟩
  | acquire asked =>
    subst asked
    rcases steps.halted fault told.symm with stops | ⟨x, member, asks, _⟩
    · cases stops with
      | acquire _ uncached => exact .inl uncached
    · cases asks
  | woken member asked =>
    obtain ⟨x, made, own, _⟩ := steps.woken _ member fault told.symm
    obtain ⟨call, waits, rfl⟩ := woken_slept sound orderly member asked
    rcases steps.source x made with asks | ⟨found, serves⟩
    · -- Whoever is woken slept, and did not ask for anything in this step.
      have asleep := isAsleep_found waits
      rw [← own, Asks.own asks] at asleep
      rw [exchanges, if_pos asleep] at made
      cases made
    · rw [own, waits] at found
      cases found
      exact .inr ⟨x, made, congrArg Place.cache serves.place, serves.block⟩

theorem answers_here (sound : Sound a) (kept : Referring p a task event)
    (holds : (a.machine.slot p).holds b = true) {info : BufferInfo}
    (answers : Answers a task event who request info bytes) (cache : request.cache = p.cache)
    (block : request.block = b) :
    info.index = p.slot.val ∧ bytes = (a.next task event).machine.bytesAt p := by
  have later := next_sound sound kept.1
  obtain ⟨q, spot, fits⟩ := later.accounted.fits _ (answers_granted sound kept.1 answers)
  obtain ⟨place, index⟩ := Spot.mk.inj spot
  have here : q = p :=
    same_place later (place.trans cache) (block ▸ fits.holds) (run_holds (.step .refl kept) holds)
  subst here
  exact ⟨index.symm, fits.bytes.symm⟩

theorem returns (sound : Sound a) (kept : Referring p a task event) (loaded : Loaded a p b)
    (spares : Spares p a event) : Returns p b (a.machine.bytesAt p) a task event := by
  have alone := fun {x} => untransferred (x := x) sound kept loaded spares
  refine ⟨?_, ?_⟩
  · intro who request reply hears cache block
    rcases hears_told sound kept loaded hears cache with refused | ⟨q, u, place, valid, holds, told⟩
    · exact .inl refused
    refine .inr ?_
    cases told with
    | buffer found =>
      obtain ⟨index, same⟩ := answers_here sound kept loaded.holds hears.answers cache block
      have here : q = p := by
        cases q
        cases p
        cases place
        exact congrArg _ (Fin.ext index)
      have seen : u.infoAt p = ⟨p.slot, b, true, (u.slot p).refs⟩ := by
        rw [infoAt, valid, ((Slot.holds_iff ..).mp holds).2]
      rw [here, seen, same, next_bytes sound kept loaded.valid spares]
      exact .buffer _
    | asleep => exact .asleep
    | halted fault =>
      rcases hears_halted sound kept.1 hears with uncached | ⟨x, member, here, same⟩
      · have holds := loaded.holds
        rw [← block] at holds
        have free := uncached p.slot
        rw [cache] at free
        exact absurd (free.symm.trans holds) Bool.noConfusion
      · exact absurd (same.trans block) (alone member (here.trans cache))
  · intro transfer made
    rw [(next_steps sound kept.1).transfers] at made
    obtain ⟨x, member, rfl⟩ := List.mem_map.mp made
    obtain ⟨member, cache⟩ := List.mem_filter.mp member
    exact alone member (of_decide_eq_true cache)

def Unanswered (p : Place n m) (b : BlockId) : Rule n m :=
  fun a task event => ∀ who request info bytes, Answers a task event who request info bytes →
    request.cache = p.cache → request.block ≠ b

structure Left (p : Place n m) (b : BlockId) (bytes : Block) (a : Account n m) : Prop where
  loaded : Loaded a p b
  bytes : a.machine.bytesAt p = bytes
  free : ∀ g ∈ a.ledger.unreleased, g.spot ≠ p.spot

theorem Left.spares (sound : Sound a) (left : Left p b bytes a) (event : Event m) : Spares p a event := by
  intro name _ live
  obtain ⟨g, known, spot, _⟩ := sound.accounted.granted live
  exact left.free g (Ledger.named_unreleased known) spot

theorem out_answered (sound : Sound a) (orderly : Orderly a task event) {g : Grant m}
    (member : g ∈ (a.next task event).ledger.unreleased) :
    g ∈ (a.ledger.note task event (a.machine.step task event).1.reply).unreleased ∨
      ∃ who request info bytes, Answers a task event who request info bytes ∧
        g = request.granted who info.index bytes := by
  rcases Ledger.resume_unreleased (sound_proceeds sound orderly).distinct member with
    noted | ⟨told, woken, request, info, bytes, asked, reply, same⟩
  · exact .inl noted
  · exact .inr ⟨_, request, info, bytes, .woken woken asked reply, same⟩

theorem next_out (sound : Sound a) (orderly : Orderly a task event) {g : Grant m}
    (member : g ∈ (a.next task event).ledger.unreleased) :
    (∃ h ∈ a.ledger.unreleased, g.Alike h) ∨
      ∃ who request info bytes, Answers a task event who request info bytes ∧
        g = request.granted who info.index bytes := by
  have distinct := sound.accounted.booked.grantsDistinct
  rcases out_answered sound orderly member with noted | answered
  · rcases Ledger.note_unreleased distinct noted with old | ⟨c, b, loads, name, asked, heard⟩
    · exact .inl old
    · rcases Ledger.hear_unreleased distinct heard with old | ⟨info, bytes, reply, same⟩
      · exact .inl ⟨g, old, g.alike_refl⟩
      · cases loads with
        | true => exact .inr ⟨_, _, info, bytes, .read asked reply, same⟩
        | false => exact .inr ⟨_, _, info, bytes, .acquire asked reply, same⟩
  · exact .inr answered

theorem answered_elsewhere (sound : Sound a) (kept : Referring p a task event)
    (holds : (a.machine.slot p).holds b = true) (unanswered : Unanswered p b a task event)
    {info : BufferInfo} (answers : Answers a task event who request info bytes) :
    (request.granted who info.index bytes).spot ≠ p.spot := by
  intro spot
  obtain ⟨q, place, index, carries, _⟩ := answers_place sound kept.1 answers
  obtain ⟨cache, there⟩ := Spot.mk.inj spot
  have here : q = p := spot_inj.mp (by rw [Place.spot, Place.spot, place.trans cache, index.trans there])
  subst here
  have mine := (Slot.holds_iff ..).mp (run_holds (.step .refl kept) holds)
  exact unanswered _ _ _ _ answers cache (((Slot.holds_iff ..).mp carries).2.symm.trans mine.2)

theorem next_left (sound : Sound a) (kept : Referring p a task event)
    (unanswered : Unanswered p b a task event) (left : Left p b bytes a) :
    Left p b bytes (a.next task event) := by
  refine ⟨next_remains sound kept left.loaded, ?_, ?_⟩
  · rw [next_bytes sound kept left.loaded.valid (left.spares sound event)]
    exact left.bytes
  · intro g member
    rcases next_out sound kept.1 member with ⟨h, old, alike⟩ | ⟨who, request, info, bytes, answers, rfl⟩
    · rw [alike.spot]
      exact left.free h old
    · exact answered_elsewhere sound kept left.loaded.holds unanswered answers

theorem run_left {rule : Rule n m}
    (referring : ∀ a task event, Sound a → rule a task event → Referring p a task event) (sound : Sound a)
    (path : Run (fun a task event => rule a task event ∧ Unanswered p b a task event) a z)
    (left : Left p b bytes a) : Sound z ∧ Left p b bytes z := by
  induction path with
  | refl => exact ⟨sound, left⟩
  | step _ kept ih =>
    obtain ⟨sound, left⟩ := ih
    have refers := referring _ _ _ sound kept.1
    exact ⟨next_sound sound refers.1, next_left sound refers kept.2 left⟩

structure GivesBack (a : Account n m) (task : TaskId) (name : String) (p : Place n m) (b : BlockId) :
    Prop where
  live : a.machine.held.find? name = some p
  loaded : Loaded a p b
  done : ∃ answer, (a.machine.step task (.release name)).1.reply = .done answer

theorem release_done (sound : Sound a) (awake : a.machine.isAsleep task = false)
    (live : a.machine.held.find? name = some p) (locked : (a.machine.slot p).data.holder = some task) :
    ∃ answer, (a.machine.step task (.release name)).1.reply = .done answer := by
  have referenced := referenced_hand (sound.accounted.giveBack live)
  obtain ⟨t, ran, _⟩ := run_release_held { a.machine.opened with held := a.machine.held.erase name } task
    (heldBy_iff.mpr locked) referenced
  have known : a.machine.opened.held.find? name = some p := live
  rw [step_awake awake]
  simp only [advance, withBuffer, known]
  refine ⟨.unit, ?_⟩
  rw [show a.machine.opened.held = a.machine.held from rfl, ran]
  rfl

theorem GivesBack.referring (gives : GivesBack a task name p b) (sound : Sound a)
    (orderly : Orderly a task (.release name)) : Referring p a task (.release name) := by
  have given := referenced_hand (sound.accounted.giveBack gives.live)
  exact ⟨orderly, given⟩

theorem released_left (sound : Sound a) (orderly : Orderly a task (.release name))
    (gives : GivesBack a task name p b) (unanswered : Unanswered p b a task (.release name)) :
    Left p b (a.machine.bytesAt p) (a.next task (.release name)) := by
  have kept := gives.referring sound orderly
  refine ⟨next_remains sound kept gives.loaded, next_bytes sound kept gives.loaded.valid nofun, ?_⟩
  intro g member
  rcases out_answered sound orderly member with noted | ⟨who, request, info, bytes, answers, rfl⟩
  · obtain ⟨answer, reply⟩ := gives.done
    rw [reply] at noted
    exact (sound.accounted.giveBack gives.live).sole.2 g noted
  · exact answered_elsewhere sound kept gives.loaded.holds unanswered answers

-- What the holder leaves in the buffer at a release is what the next call for the block gets, whether
-- the release wakes it or it ends in a later step, as long as all steps until then keep to the rule.
structure PassesOn (rule : Rule n m) (p : Place n m) (b : BlockId) (a : Account n m) (task : TaskId)
    (name : String) : Prop where
  now : Returns p b (a.machine.bytesAt p) a task (.release name)
  later : Unanswered p b a task (.release name) →
    ∀ z, Run (fun a task event => rule a task event ∧ Unanswered p b a task event)
        (a.next task (.release name)) z →
      ∀ who event, rule z who event → Returns p b (a.machine.bytesAt p) z who event

theorem passesOn {rule : Rule n m} (sound : Sound a)
    (referring : ∀ a task event, Sound a → rule a task event → Referring p a task event)
    (orderly : Orderly a task (.release name)) (gives : GivesBack a task name p b) :
    PassesOn rule p b a task name := by
  have kept := gives.referring sound orderly
  refine ⟨returns sound kept gives.loaded nofun, ?_⟩
  intro unanswered z path who event ruled
  have left := released_left sound orderly gives unanswered
  obtain ⟨sound, left⟩ := run_left referring (next_sound sound orderly) path left
  rw [← left.bytes]
  exact returns sound (referring z who event sound ruled) left.loaded (left.spares sound event)

def Pinned (pinName : String) (p : Place n m) : Rule n m :=
  fun a task event => Orderly a task event ∧ a.machine.pins.find? pinName = some p

theorem pinned_referring (sound : Sound a) (pinned : Pinned pinName p a task event) :
    Referring p a task event := by
  have given := referenced_hand (sound.accounted.unpin pinned.2)
  exact ⟨pinned.1, given⟩

theorem run_pinned (sound : Sound a) (path : Run (Pinned pinName p) a z) (loaded : Loaded a p b) :
    Sound z ∧ Loaded z p b := by
  induction path with
  | refl => exact ⟨sound, loaded⟩
  | step _ pinned ih =>
    obtain ⟨sound, loaded⟩ := ih
    exact ⟨next_sound sound pinned.1, next_remains sound (pinned_referring sound pinned) loaded⟩

-- In every state that the tasks can bring about, whatever they write to the disk or do not: the bytes of a
-- buffer change by edits under its name and by loads, what its holder leaves in it is there for the next one
-- as long as there are references on it, and as long as it is pinned for every next one.
theorem contents_survive {disks : Vector Disk m} (path : Run Orderly (start n disks) a) :
    (∀ task event, Orderly a task event → ∀ p, Rewritten a task event p) ∧
    (∀ p b task name, Orderly a task (.release name) → GivesBack a task name p b →
      PassesOn (Referring p) p b a task name) ∧
    ∀ p b pinName z, Loaded a p b → Run (Pinned pinName p) a z → Loaded z p b ∧
      ∀ task name, Pinned pinName p z task (.release name) → z.machine.held.find? name = some p →
        (∃ answer, (z.machine.step task (.release name)).1.reply = .done answer) →
        PassesOn (Pinned pinName p) p b z task name := by
  have sound := run_sound path (sound_start disks)
  refine ⟨fun task event orderly p => rewritten sound orderly p, ?_, ?_⟩
  · intro p b task name orderly gives
    exact passesOn sound (fun _ _ _ _ referring => referring) orderly gives
  · intro p b pinName z loaded segment
    obtain ⟨sound, loaded⟩ := run_pinned sound segment loaded
    refine ⟨loaded, ?_⟩
    intro task name pinned live done
    exact passesOn sound (fun _ _ _ sound pinned => pinned_referring sound pinned) pinned.1 ⟨live, loaded, done⟩

-- A block is changed, pinned and released without being written. Others take turns in the other buffer,
-- and the block is there as it was left.
theorem contents_survive_pinned :
    let a := (((start 2 #v[.zeroed]).next ⟨1⟩ (.read 0 ⟨1, 5⟩ "a")).next ⟨1⟩ (.fill "a" 7)).next ⟨1⟩
      (.pin "a" "p")
    let z := ((((a.next ⟨1⟩ (.release "a")).next ⟨2⟩ (.read 0 ⟨1, 6⟩ "b")).next ⟨2⟩ (.release "b")).next ⟨2⟩
      (.read 0 ⟨1, 7⟩ "c")).next ⟨2⟩ (.release "c")
    let p : Place 2 1 := ⟨0, 0⟩
    Run Orderly (start 2 #v[.zeroed]) a ∧ Loaded a p ⟨1, 5⟩ ∧
      PassesOn (Pinned "p" p) p ⟨1, 5⟩ a ⟨1⟩ "a" ∧
      ((a.machine.bytesAt p).get ⟨0, by decide⟩,
        (z.machine.caches[(0 : Fin 1)].disk.content ⟨1, 5⟩).get ⟨0, by decide⟩) = (7, 0) ∧
      Run (fun a task event => Pinned "p" p a task event ∧ Unanswered p ⟨1, 5⟩ a task event)
        (a.next ⟨1⟩ (.release "a")) z ∧
      (z.next ⟨2⟩ (.read 0 ⟨1, 5⟩ "d")).machine.held.find? "d" = some p ∧
      Returns p ⟨1, 5⟩ (a.machine.bytesAt p) z ⟨2⟩ (.read 0 ⟨1, 5⟩ "d") := by
  intro a z p
  have unanswered : ∀ {a : Account 2 1} {task : TaskId} {event : Event 1},
      (a.machine.step task event).1.woken.length = 0 →
      (∀ c b name, event = .read c b name ∨ event = .acquire c b name → b ≠ ⟨1, 5⟩) →
      Unanswered p ⟨1, 5⟩ a task event := by
    intro a task event nobody other who request info bytes answers _
    cases answers with
    | read asked => exact other _ _ _ (.inl asked)
    | acquire asked => exact other _ _ _ (.inr asked)
    | woken member =>
      rw [List.length_eq_zero_iff.mp nobody] at member
      cases member
  have path : Run Orderly (start 2 #v[.zeroed]) a := by
    refine .step (.step (.step .refl ?_) ?_) ?_ <;> exact ⟨trivial, by decide +kernel⟩
  have loaded : Loaded a p ⟨1, 5⟩ := ⟨by decide +kernel, by decide +kernel⟩
  have pinned : Pinned "p" p a ⟨1⟩ (.release "a") := ⟨⟨trivial, by decide +kernel⟩, by decide +kernel⟩
  have live : a.machine.held.find? "a" = some p := by decide +kernel
  have done : ∃ answer, (a.machine.step ⟨1⟩ (.release "a")).1.reply = .done answer :=
    release_done (run_sound path (sound_start _)) (by decide +kernel) live (by decide +kernel)
  have segment : Run (fun a task event => Pinned "p" p a task event ∧ Unanswered p ⟨1, 5⟩ a task event)
      (a.next ⟨1⟩ (.release "a")) z := by
    refine .step (.step (.step (.step .refl ?_) ?_) ?_) ?_ <;>
      refine ⟨⟨⟨trivial, by decide +kernel⟩, by decide +kernel⟩, unanswered (by decide +kernel) ?_⟩ <;>
      rintro c b name (⟨⟨⟩⟩ | ⟨⟨⟩⟩) <;> decide
  have last : Pinned "p" p z ⟨2⟩ (.read 0 ⟨1, 5⟩ "d") := ⟨⟨trivial, by decide +kernel⟩, by decide +kernel⟩
  have first : Unanswered p ⟨1, 5⟩ a ⟨1⟩ (.release "a") := unanswered (by decide +kernel) (by simp)
  have passes := ((contents_survive path).2.2 p ⟨1, 5⟩ "p" a loaded .refl).2 ⟨1⟩ "a" pinned live done
  exact ⟨path, loaded, passes, by decide +kernel, segment, by decide +kernel,
    passes.later first z segment ⟨2⟩ _ last⟩

end Account

end KernelResources.Buffer
