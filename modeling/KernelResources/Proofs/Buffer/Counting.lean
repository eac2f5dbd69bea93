import KernelResources.Proofs.Buffer.CounterBytes
import KernelResources.Proofs.Buffer.Crowd

namespace KernelResources.Buffer

open Machine Stage

variable {n : Nat}

def GoesOn (reply : Reply) : Prop := (∃ answer, reply = .done answer) ∨ reply = .asleep

theorem Served.goesOn {reply : Reply} (served : Served reply) : GoesOn reply := by
  cases served with
  | buffer info bytes => exact .inl ⟨_, rfl⟩
  | asleep => exact .inr rfl

theorem Client.attempt_goesOn {c next : Client} {s : Machine n 1} {event : Event 1}
    (goesOn : GoesOn (s.step c.task event).1.reply) :
    c.attempt s event next = (next, (s.step c.task event).2) := by
  unfold attempt
  generalize s.step c.task event = ended at goesOn ⊢
  obtain ⟨⟨reply, enabled, woken⟩, t⟩ := ended
  obtain ⟨answer, rfl⟩ | rfl := goesOn <;> rfl

theorem Ledger.content_resume (l : Ledger 1) (woken : List Woken) (disks : Vector Disk 1) (c : Fin 1)
    (b : BlockId) : (l.resume woken).content disks c b = l.content disks c b := by
  induction woken generalizing l with
  | nil => rfl
  | cons w rest ih =>
    unfold Ledger.resume
    cases l.requests.find? w.task with
    | none => exact ih l
    | some request => exact (ih _).trans (l.content_hear w.task request w.reply disks c b)

namespace Stage

theorem Accounted.placed {s : Machine n 1} {l : Ledger 1} {hand locks : List (Place n 1)}
    (accounted : Accounted ⟨s, l, hand, locks⟩) {name : String} {g : Grant 1}
    (known : l.grants.find? name = some g) :
    ∃ p, s.held.find? name = some p ∧ p.spot = g.spot ∧ g.Fits (s.slot p) := by
  have named := accounted.booked.named name
  dsimp only at named
  rw [known] at named
  obtain ⟨p, found, _⟩ := Option.map_eq_some_iff.mp named
  obtain ⟨h, same, spot, fit⟩ := accounted.granted found
  rw [known] at same
  cases same
  exact ⟨p, found, spot.symm, fit⟩

end Stage

-- What holds of the clients, the cache and the books between any two turns. In the end the blocks shall
-- have counted up to `goal`.
structure Working (disks : Vector Disk 1) (goal : BlockId → UInt64) (clients : List Client)
    (a : Account n 1) : Prop where
  sound : Account.Sound a
  mirrors : Mirrors disks ⟨a.machine, a.ledger, [], []⟩
  attended : a.machine.Attended disks []
  books : Books disks a.ledger clients
  few : clients.length ≤ n
  counted : ∀ b, clients.countP (b ∈ ·.todo) < UInt32.size
  balance : ∀ b, (a.ledger.content disks 0 b).counter +
    UInt64.ofNat ((clients.flatMap Client.owed).count b) = goal b

structure EndsWell (disks : Vector Disk 1) (goal : BlockId → UInt64) (clients : List Client)
    (a : Account n 1) (task : TaskId) (event : Event 1) : Prop where
  reply : GoesOn (a.machine.step task event).1.reply
  woken : ∀ w ∈ (a.machine.step task event).1.woken, GoesOn w.reply
  working : Working disks goal clients (a.next task event)

namespace Working

variable {disks : Vector Disk 1} {goal : BlockId → UInt64} {a : Account n 1}
  {clients before after : List Client} {c : Client} {b : BlockId} {rest : List BlockId}
  {event : Event 1} {g : Grant 1}

theorem awake (working : Working disks goal clients a) {task : TaskId}
    (unasked : a.ledger.requests.find? task = none) : a.machine.isAsleep task = false := by
  have asked := working.sound.accounted.booked.asked task
  dsimp only at asked
  rw [unasked] at asked
  rw [isAsleep, Registry.contains, Option.map_eq_none_iff.mp asked]
  rfl

theorem unheld (working : Working disks goal clients a) {name : String}
    (absent : a.ledger.grants.find? name = none) : a.machine.held.find? name = none := by
  have named := working.sound.accounted.booked.named name
  dsimp only at named
  rw [absent] at named
  exact Option.map_eq_none_iff.mp named

theorem moves (working : Working disks goal (before ++ c :: after) a) {d : Client}
    (reply : GoesOn (a.machine.step c.task event).1.reply)
    (written : Account.WrittenBack a c.task event) (serves : Serves disks a.machine c.task event)
    (books : Books disks (a.ledger.note c.task event (a.machine.step c.task event).1.reply)
      (before ++ d :: after))
    (todo : ∀ b ∈ d.todo, b ∈ c.todo)
    (balance : ∀ b,
      ((a.ledger.note c.task event (a.machine.step c.task event).1.reply).content disks 0 b).counter +
          UInt64.ofNat (d.owed.count b) =
        (a.ledger.content disks 0 b).counter + UInt64.ofNat (c.owed.count b)) :
    EndsWell disks goal (before ++ d :: after) a c.task event := by
  refine ⟨reply, fun w member => (serves.woken w member).goesOn, ?_⟩
  refine ⟨Account.next_sound working.sound written.1,
    Account.next_mirrors working.sound written working.mirrors, serves.attended,
    books.resume serves.woken, ?_, ?_, ?_⟩
  · have few := working.few
    rw [List.length_append, List.length_cons] at few ⊢
    exact few
  · intro b
    have counted := working.counted b
    have less : (if decide (b ∈ d.todo) = true then 1 else 0) ≤
        if decide (b ∈ c.todo) = true then 1 else 0 := by
      by_cases wants : b ∈ d.todo
      · simp [wants, todo b wants]
      · simp [wants]
    rw [List.countP_append, List.countP_cons] at counted ⊢
    omega
  · intro b
    have earlier := working.balance b
    have now := balance b
    rw [Account.next, Ledger.record]
    dsimp only
    rw [Ledger.content_resume]
    simp only [List.flatMap_append, List.flatMap_cons, List.count_append, UInt64.ofNat_add] at earlier ⊢
    grind

theorem ask (working : Working disks goal (before ++ c :: after) a)
    (works : ∀ (c : Fin 1) (task : TaskId) (b : BlockId), disks[c].fails task b = false) (todo : c.todo = b :: rest)
    (phase : c.phase = .asking) :
    EndsWell disks goal (before ++ { c with phase := .counting } :: after) a c.task
      (.read 0 b c.name) := by
  have wants : b ∈ c.todo := by
    rw [todo]
    exact List.mem_cons_self
  have present : c ∈ before ++ c :: after := List.mem_append_right _ List.mem_cons_self
  obtain ⟨unasked, unheld⟩ := (working.books.standing c present).away_of_asking phase
  have room : Account.Room a c.task (.read 0 b c.name) := by
    intro p taken
    have found : ∃ i, a.machine.caches[(0 : Fin 1)].pool.find? b = some i ∧ p = ⟨0, i⟩ := by
      simp only [takes?] at taken
      split at taken
      · cases taken
      · obtain ⟨i, found, same⟩ := Option.map_eq_some_iff.mp taken
        exact ⟨i, found, same.symm⟩
    obtain ⟨i, found, rfl⟩ := found
    exact lt_of_le_of_lt
      (Account.room_left working.sound working.books phase wants (Pool.find?_holds found))
      (working.counted b)
  obtain ⟨served, serves⟩ := read_serves works (c := 0) (b := b) working.attended (working.awake unasked)
    (working.unheld unheld)
    fun _ => Account.buffer_left working.sound working.books phase working.few
  refine working.moves served.goesOn ⟨⟨trivial, room⟩, by simp⟩ serves
    (working.books.hear todo unheld served) (fun _ listed => listed) ?_
  intro b
  rw [Ledger.note, Ledger.content_hear]
  simp [Client.owed, phase]

theorem increment (working : Working disks goal (before ++ c :: after) a)
    (works : ∀ (c : Fin 1) (task : TaskId) (b : BlockId), disks[c].fails task b = false) (holds : c.Holds a.ledger g rest)
    (phase : c.phase = .counting) (unedited : g.edited = false) :
    EndsWell disks goal (before ++ { c with phase := .writing } :: after) a c.task
      (.put c.name 0 (Block.counterBytes (g.bytes.counter + 1))) := by
  obtain ⟨p, found, spot, fit⟩ := working.sound.accounted.placed holds.held
  have inside : 0 + (Block.counterBytes (g.bytes.counter + 1)).length ≤ blockSize := by
    simp [Block.counterBytes, blockSize]
  obtain ⟨replied, serves⟩ :=
    put_serves works working.attended (working.awake holds.unasked) found inside
  -- Nobody but the client has the buffer, and it has not changed it since it was loaded.
  have clean : a.ledger.Unedited p.spot := by
    intro h member same
    rw [List.inj_on_of_nodup_map (Account.spots_nodup working.sound) member
      (Ledger.named_unreleased holds.held) (same.trans spot)]
    exact unedited
  have current : g.bytes = a.ledger.content disks 0 g.block := by
    have same := working.mirrors.clean p g.block fit.holds (fit.valid holds.loaded) clean
    rw [Subsingleton.elim p.cache 0] at same
    exact (fit.bytes.symm.trans same).trans (working.mirrors.contents 0 g.block)
  refine working.moves (.inl ⟨_, replied⟩) ⟨⟨trivial, by simp [Account.Room, takes?]⟩, by simp⟩ serves ?_
    (fun _ listed => listed) ?_
  · have counts : (g.bytes.overwrite 0 (Block.counterBytes (g.bytes.counter + 1))).counter =
        (a.ledger.content disks 0 g.block).counter + 1 := by
      rw [Block.counter_overwrite, current]
    rw [replied]
    exact working.books.edit (f := (·.overwrite 0 (Block.counterBytes (g.bytes.counter + 1)))) holds counts
  · intro b
    rw [replied]
    simp [Client.owed, phase]
    rfl

theorem write (working : Working disks goal (before ++ c :: after) a)
    (works : ∀ (c : Fin 1) (task : TaskId) (b : BlockId), disks[c].fails task b = false) (holds : c.Holds a.ledger g rest)
    (phase : c.phase = .writing)
    (counts : g.bytes.counter = (a.ledger.content disks 0 g.block).counter + 1) :
    EndsWell disks goal (before ++ { c with phase := .releasing } :: after) a c.task (.write c.name) := by
  obtain ⟨p, found, spot, fit⟩ := working.sound.accounted.placed holds.held
  have locked : (a.machine.slot p).data.holder = some c.task := by
    rw [fit.locked, holds.task]
  obtain ⟨replied, serves⟩ :=
    write_serves works working.attended (working.awake holds.unasked) found locked
  have alone : ∀ name h, a.ledger.grants.find? name = some h → h.block = g.block → name = c.name := by
    intro name h known same
    have one : h = g := List.inj_on_of_nodup_map (Account.blocks_nodup working.sound)
      (Ledger.named_unreleased known) (Ledger.named_unreleased holds.held)
      (Prod.ext (Subsingleton.elim _ _) same)
    obtain ⟨d, _, _, rfl, theirs, _⟩ := working.books.holder known
    have task : d.task = c.task := by
      rw [← theirs.task, one, holds.task]
    exact congrArg nameOf task
  refine working.moves (.inl ⟨_, replied⟩) ⟨⟨trivial, by simp [Account.Room, takes?]⟩, by simp⟩ serves ?_
    (fun _ listed => listed) ?_
  · rw [replied]
    exact working.books.write holds alone
  · intro b
    have written := a.ledger.content_write holds.held disks b
    rw [Subsingleton.elim g.spot.cache 0] at written
    rw [replied, Ledger.note, written]
    simp only [Client.owed, phase, holds.todo, List.tail_cons, List.count_cons]
    by_cases here : b = g.block
    · subst here
      rw [if_pos rfl, counts]
      simp
      grind
    · simp [here, Ne.symm here]

theorem giveBack (working : Working disks goal (before ++ c :: after) a)
    (works : ∀ (c : Fin 1) (task : TaskId) (b : BlockId), disks[c].fails task b = false) (holds : c.Holds a.ledger g rest)
    (phase : c.phase = .releasing) (unedited : g.edited = false) :
    EndsWell disks goal (before ++ { c with todo := rest, phase := .asking } :: after) a c.task
      (.release c.name) := by
  obtain ⟨p, found, spot, fit⟩ := working.sound.accounted.placed holds.held
  have locked : (a.machine.slot p).data.holder = some c.task := by
    rw [fit.locked, holds.task]
  have referenced : (a.machine.slot p).refs ≠ 0 := by
    have given := referenced_hand (working.sound.accounted.giveBack found)
    exact given
  obtain ⟨replied, serves⟩ :=
    release_serves works working.attended (working.awake holds.unasked) found locked referenced
  have written : Account.WrittenBack a c.task (.release c.name) := by
    refine ⟨⟨trivial, by simp [Account.Room, takes?]⟩, ?_⟩
    intro name h answer same known _
    cases same
    rw [holds.held] at known
    cases known
    exact unedited
  refine working.moves (.inl ⟨_, replied⟩) written serves ?_ ?_ ?_
  · rw [replied]
    exact working.books.giveBack holds
  · intro b listed
    rw [holds.todo]
    exact List.mem_cons_of_mem _ listed
  · intro b
    rw [replied]
    simp [Client.owed, phase, holds.todo]
    rfl

theorem endsWell (working : Working disks goal (before ++ c :: after) a)
    (works : ∀ (c : Fin 1) (task : TaskId) (b : BlockId), disks[c].fails task b = false)
    (asks : c.request? a.machine = some event) :
    EndsWell disks goal (before ++ c.advanced :: after) a c.task event := by
  have standing := working.books.standing c (List.mem_append_right _ List.mem_cons_self)
  unfold Client.request? at asks
  unfold Client.advanced
  split at asks
  · cases asks
  · rename_i b rest todo
    cases phase : c.phase with
    | asking =>
      rw [phase] at asks
      cases asks
      exact working.ask works todo phase
    | counting =>
      rw [phase] at asks
      obtain ⟨block, seen, rfl⟩ := Option.map_eq_some_iff.mp asks
      obtain ⟨p, found, rfl⟩ := Option.map_eq_some_iff.mp seen
      cases standing with
      | away asking => cases asking.symm.trans phase
      | waiting waits => cases (working.unheld waits.unheld).symm.trans found
      | holding holds knows =>
        obtain ⟨q, place, _, fit⟩ := working.sound.accounted.placed holds.held
        cases place.symm.trans found
        rw [phase] at knows
        rw [bytesAt, fit.bytes]
        exact working.increment works holds phase knows
    | writing =>
      rw [phase] at asks
      cases asks
      obtain ⟨g, rest, holds, knows⟩ := standing.holds_of_phase (.inl phase)
      rw [phase] at knows
      exact working.write works holds phase knows
    | releasing =>
      rw [phase] at asks
      cases asks
      obtain ⟨g, others, holds, knows⟩ := standing.holds_of_phase (.inr phase)
      rw [phase] at knows
      rw [holds.todo]
      exact working.giveBack works holds phase knows
    | stopped =>
      rw [phase] at asks
      cases asks

theorem holder_asks (working : Working disks goal clients a) (holds : c.Holds a.ledger g rest)
    (knows : c.phase.Knows g (a.ledger.content disks 0 g.block)) :
    a.machine.isAsleep c.task = false ∧ (c.request? a.machine).isSome = true := by
  obtain ⟨p, found, _⟩ := working.sound.accounted.placed holds.held
  refine ⟨working.awake holds.unasked, ?_⟩
  rw [Client.request?, holds.todo]
  cases phase : c.phase with
  | counting => simp [Client.buffer?, found]
  | writing | releasing => rfl
  | asking | stopped =>
    rw [phase] at knows
    cases knows

theorem somebody_asks (working : Working disks goal clients a) (left : ∃ c ∈ clients, c.todo ≠ []) :
    ∃ c ∈ clients, c.todo ≠ [] ∧ a.machine.isAsleep c.task = false ∧
      (c.request? a.machine).isSome = true := by
  obtain ⟨c, member, unfinished⟩ := left
  cases working.books.standing c member with
  | away phase unasked _ =>
    refine ⟨c, member, unfinished, working.awake unasked, ?_⟩
    obtain ⟨b, rest, todo⟩ := List.exists_cons_of_ne_nil unfinished
    rw [Client.request?, todo, phase]
    rfl
  | holding holds knows => exact ⟨c, member, unfinished, working.holder_asks holds knows⟩
  | waiting waits =>
    have asked := working.sound.accounted.booked.asked c.task
    dsimp only at asked
    rw [waits.asked] at asked
    obtain ⟨call, slept, _⟩ := Option.map_eq_some_iff.mp asked
    rcases working.attended.queued c.task call slept with absent | ⟨_, locked⟩
    · cases absent
    · -- A locked buffer is out under some name, and that name is a client's.
      have users := working.sound.accounted.exclusive call.place
      rw [if_pos (Option.isSome_iff_ne_none.mpr locked)] at users
      have out : 0 < a.ledger.unreleased.countP (·.spot = call.place.spot) := by
        rw [Ledger.count_unreleased]
        simp only [Stage.users, List.count_nil] at users
        omega
      obtain ⟨h, present, _⟩ := List.countP_pos_iff.mp out
      rw [Ledger.unreleased, working.books.keptBuffers, List.append_nil] at present
      obtain ⟨⟨name, _⟩, granted, rfl⟩ := List.mem_map.mp present
      obtain ⟨d, other, rest, _, holds, knows⟩ :=
        working.books.holder (Registry.mem_find? working.sound.accounted.booked.grantsDistinct granted)
      exact ⟨d, other, by simp [holds.todo], working.holder_asks holds knows⟩

theorem unstopped (working : Working disks goal clients a) (member : c ∈ clients) :
    c.phase ≠ .stopped := by
  intro stopped
  cases working.books.standing c member with
  | away phase => cases stopped.symm.trans phase
  | waiting waits => cases stopped.symm.trans waits.phase
  | holding _ knows =>
    rw [stopped] at knows
    cases knows

theorem turn_advances (working : Working disks goal (before ++ c :: after) a)
    (works : ∀ (c : Fin 1) (task : TaskId) (b : BlockId), disks[c].fails task b = false)
    (asks : c.request? a.machine = some event) :
    c.turn a.machine = (c.advanced, (a.next c.task event).machine) := by
  rw [Client.turn_attempt asks, Client.attempt_goesOn (working.endsWell works asks).reply]
  rfl

theorem turn (working : Working disks goal (before ++ c :: after) a)
    (works : ∀ (c : Fin 1) (task : TaskId) (b : BlockId), disks[c].fails task b = false) :
    ∃ z : Account n 1, z.machine = (c.turn a.machine).2 ∧
      Working disks goal (before ++ (c.turn a.machine).1 :: after) z := by
  cases asks : c.request? a.machine with
  | none =>
    rw [Client.turn_idle asks]
    exact ⟨a, rfl, working⟩
  | some event =>
    rw [working.turn_advances works asks]
    exact ⟨a.next c.task event, rfl, (working.endsWell works asks).working⟩

theorem turns {t u : Team n} (path : Team.Turns t u)
    (works : ∀ (c : Fin 1) (task : TaskId) (b : BlockId), disks[c].fails task b = false) (machine : a.machine = t.machine)
    (working : Working disks goal t.clients a) :
    ∃ z : Account n 1, z.machine = u.machine ∧ Working disks goal u.clients z := by
  induction path with
  | refl => exact ⟨a, machine, working⟩
  | step _ turn ih =>
    obtain ⟨z, same, between⟩ := ih
    cases turn with
    | take before c after s =>
      dsimp only at same between
      subst same
      exact between.turn works

end Working

end KernelResources.Buffer
