import KernelResources.Proofs.Buffer.Arrivals
import KernelResources.Proofs.Buffer.Contents

namespace KernelResources.Buffer

open Machine Stage

variable {n m : Nat} {disks : Vector Disk m}

namespace Machine

-- In part of a step no buffer comes to have the bytes of its block but by one of the transfers.
def Gains (s : Machine n m) (xs : List (Exchange n m)) (t : Machine n m) : Prop :=
  ∀ p, (t.slot p).valid = true →
    (s.slot p).SameTag (t.slot p) ∧ (s.slot p).valid = true ∨ ∃ x ∈ xs, x.place = p ∧ x.Loads

variable {s t u : Machine n m} {l : Ledger m} {xs ys : List (Exchange n m)} {x : Exchange n m}
  {p : Place n m} {b : BlockId} {c : Fin m} {task : TaskId} {tasks : List TaskId} {call : SleepingCall n m}
  {reply : Reply} {loads : Bool} {name : String} {event : Event m}

theorem gains_contents (same : s.SameContents t) : Gains s xs t := fun p valid =>
  .inl ⟨(same.slot p).tag, (same.slot p).valid ▸ valid⟩

theorem Gains.trans (first : Gains s xs t) (second : Gains t ys u) : Gains s (xs ++ ys) u := by
  intro p valid
  rcases second p valid with ⟨tag, before⟩ | ⟨x, member, loads⟩
  · rcases first p before with ⟨earlier, known⟩ | ⟨x, member, loads⟩
    · exact .inl ⟨⟨earlier.1.trans tag.1, earlier.2.trans tag.2⟩, known⟩
    · exact .inr ⟨x, List.mem_append_left _ member, loads⟩
  · exact .inr ⟨x, List.mem_append_right _ member, loads⟩

theorem Looked.gained (looked : Looked s task call xs reply t)
    (valid : (t.slot p).valid = true) :
    (s.slot p).valid = true ∨ ∃ x ∈ xs, x.place = p ∧ x.Loads := by
  by_cases here : p = call.place
  · subst here
    cases looked with
    | @waits u _ works =>
      have slot : u.slot call.place = (s.slot call.place).enter task := works.here
      exact .inl ((congrArg Slot.valid slot).symm.trans valid)
    | fails _ _ _ works =>
      rw [works.here] at valid
      exact .inl valid
    | @gets u slot _ _ works _ _ _ known loaded =>
      have own : slot.valid = true := (congrArg Slot.valid works.here).symm.trans valid
      cases before : (s.slot call.place).valid with
      | true => exact .inl rfl
      | false =>
        rw [known, before, Bool.false_or] at own
        exact .inr (loaded own before).2
  · exact .inl (looked.others here ▸ valid)

theorem enter_gains (task : TaskId) (call : SleepingCall n m)
    (referenced : (s.slot call.place).refs ≠ 0) :
    Gains s (s.enterExchanges task call) (s.enter task call).2 := fun p valid =>
  ((enter_looked task call referenced).gained valid).imp_left fun known =>
    ⟨(enter_fills s task call).tags p, known⟩

theorem First.exchanges (first : First s p task tasks call reply t) :
    s.resumeExchanges (task :: tasks) =
      { s with asleep := s.asleep.erase task }.enterExchanges task call ++ t.resumeExchanges tasks := by
  rw [resumeExchanges, first.found]
  dsimp only
  rw [first.looks]

theorem First.gains (first : First s p task tasks call reply t) :
    Gains s ({ s with asleep := s.asleep.erase task }.enterExchanges task call) t := by
  have referenced : (s.slot call.place).refs ≠ 0 := first.place ▸ first.referenced
  have gains := enter_gains (s := { s with asleep := s.asleep.erase task }) task call referenced
  rw [first.looks] at gains
  exact gains

theorem resumeAll_gains (awaited : s.Awaited p tasks) (accounted : Accounted ⟨s, l, [], []⟩) :
    Gains s (s.resumeExchanges tasks) (s.resumeAll tasks).2 := by
  induction tasks generalizing s l with
  | nil => exact gains_contents (.refl s)
  | cons task tasks ih =>
    obtain ⟨call, reply, t, first⟩ := awaited.first accounted
    obtain ⟨k, later⟩ := first.accounted
    rw [first.resumeAll, first.exchanges]
    exact first.gains.trans (ih first.awaited later)

theorem Looked.failed (looked : Looked s task call xs reply t) (member : x ∈ xs)
    (failed : x.failed = true) : reply = .halted (.disk call.block) := by
  cases looked with
  | waits _ _ silent =>
    rw [silent] at member
    cases member
  | fails => rfl
  | gets _ _ _ _ _ _ _ sound => cases (sound x member).symm.trans failed

theorem resumeAll_failed (awaited : s.Awaited p tasks) (accounted : Accounted ⟨s, l, [], []⟩)
    (member : x ∈ s.resumeExchanges tasks) (failed : x.failed = true) :
    x.place = p ∧ ∃ woken ∈ (s.resumeAll tasks).1, woken.task = x.task ∧
      woken.reply = .halted (.disk x.transfer.block) := by
  induction tasks generalizing s l with
  | nil => cases member
  | cons task tasks ih =>
    obtain ⟨call, reply, t, first⟩ := awaited.first accounted
    obtain ⟨k, later⟩ := first.accounted
    rw [first.exchanges] at member
    rw [first.resumeAll]
    rcases List.mem_append.mp member with own | other
    · have serves := first.serves x own
      refine ⟨serves.place.trans first.place, _, List.mem_cons_self, serves.task.symm, ?_⟩
      rw [serves.block]
      exact first.looked.failed own failed
    · obtain ⟨place, woken, member, told⟩ := ih first.awaited later other
      exact ⟨place, woken, List.mem_cons_of_mem _ member, told⟩

theorem wakeExchanges_released (released : s.released? = some p) :
    s.wakeExchanges = (s.cleared p).resumeExchanges (s.queue p) := by
  unfold wakeExchanges
  rw [released]
  dsimp only
  rw [cleared_eq]
  rfl

theorem gains_cleared (s : Machine n m) (p : Place n m) : Gains s [] (s.cleared p) := by
  refine gains_contents (contents_updateSlot s p ?_)
  exact ⟨⟨rfl, rfl⟩, rfl, rfl⟩

theorem Calls.gains (calls : Calls s task c b loads name) :
    Gains s (s.callExchanges task c b loads name) (s.call task c b loads name).2 := by
  cases calls with
  | refused same =>
    rw [same]
    exact gains_contents (.refl s)
  | exhausted ended agrees =>
    rw [ended]
    exact gains_contents (contents_agrees agrees)
  | @begins i t slot acts begun looks exchanges =>
    rw [looks, exchanges]
    have claimed : Gains s [] t := by
      intro q valid
      rw [begun.works.slots] at valid ⊢
      split at valid
      · rename_i here
        rw [if_pos here, here]
        exact .inl (begun.kept valid)
      · rename_i elsewhere
        rw [if_neg elsewhere]
        exact .inl ⟨⟨rfl, rfl⟩, valid⟩
    refine claimed.trans (enter_gains task ⟨⟨c, i⟩, b, loads, name⟩ ?_)
    rw [begun.works.here]
    exact begun.referenced

theorem gains_edit (s : Machine n m) (p : Place n m) (f : Block → Block) : Gains s xs (s.edit p f) := by
  intro q valid
  rw [edit, slot_updateSlot] at valid ⊢
  split at valid
  · rename_i here
    rw [if_pos here, here]
    exact .inl ⟨⟨rfl, rfl⟩, valid⟩
  · rename_i elsewhere
    rw [if_neg elsewhere]
    exact .inl ⟨⟨rfl, rfl⟩, valid⟩

theorem gains_withBuffer {f : Place n m → Reply × Machine n m} (gains : ∀ p, Gains s xs (f p).2) :
    Gains s xs (s.withBuffer name f).2 := by
  unfold withBuffer
  cases s.held.find? name with
  | some p => exact gains p
  | none => exact gains_contents (.refl s)

end Machine

namespace Account

variable {a z : Account n m} {task who : TaskId} {event : Event m} {x : Exchange n m} {c : Fin m}
  {b : BlockId}

theorem sound_calls (sound : Sound a) (awake : a.machine.isAsleep task = false) {loads : Bool}
    {name : String} (orderly : Orderly a task (if loads then .read c b name else .acquire c b name)) :
    Calls a.machine.opened task c b loads name := by
  refine call_calls (sound_opened sound) task c b loads name (sound.intact c) fun i free found => ?_
  obtain ⟨read, acquire⟩ := takes_call awake free found
  cases loads with
  | true => exact orderly.2 ⟨c, i⟩ read
  | false => exact orderly.2 ⟨c, i⟩ acquire

theorem advanced_gains (sound : Sound a) (orderly : Orderly a task event)
    (awake : a.machine.isAsleep task = false) :
    Gains a.machine.opened (a.machine.opened.advanceExchanges task event) (a.advanced task event) := by
  cases event with
  | tamper => exact orderly.1.elim
  | read c b name =>
    have calls : Calls a.machine.opened task c b true name := sound_calls sound awake orderly
    exact calls.gains
  | acquire c b name =>
    have calls : Calls a.machine.opened task c b false name := sound_calls sound awake orderly
    exact calls.gains
  | fill name byte => exact gains_withBuffer fun p => gains_edit _ p _
  | put name offset bytes =>
    refine gains_withBuffer fun p => ?_
    split
    · exact gains_edit _ p _
    · exact gains_contents (.refl _)
  | _ =>
    refine gains_contents (contents_advance _ task ?_)
    trivial

theorem exchanges_awake (awake : a.machine.isAsleep task = false) : a.machine.exchanges task event =
    a.machine.opened.advanceExchanges task event ++ (a.advanced task event).wakeExchanges :=
  if_neg (by simp [awake])

theorem next_gains (sound : Sound a) (orderly : Orderly a task event) (lined : a.machine.Lined []) :
    Gains a.machine (a.machine.exchanges task event) (a.next task event).machine := by
  have begun : Gains a.machine [] a.machine.opened := gains_contents (.refl a.machine)
  cases next_turned sound orderly lined with
  | refused asleep =>
    rw [next, step_asleep asleep]
    exact gains_contents (.refl a.machine)
  | stays awake _ same released =>
    have own := begun.trans (advanced_gains sound orderly awake)
    rw [exchanges_awake awake, next, same, wakeExchanges, released, List.append_nil]
    exact own
  | @gives p b awake gives =>
    have own := begun.trans (advanced_gains sound orderly awake)
    obtain ⟨l, accounted⟩ := gives.accounted
    have woken := resumeAll_gains gives.awaited (accounted.wake p)
    rw [← wakeExchanges_released gives.released, ← wake_released gives.released] at woken
    rw [exchanges_awake awake, next, gives.last]
    exact own.trans ((gains_cleared _ p).trans woken)

def Fetches (c : Fin m) (b : BlockId) (a : Account n m) (task : TaskId) (event : Event m) : Prop :=
  ∃ transfer ∈ (a.next task event).machine.transfers c, transfer.direction = .read ∧ transfer.block = b

theorem exchange_fetches (steps : Steps a.machine task event) (member : x ∈ a.machine.exchanges task event)
    (reads : x.transfer.direction = .read) : Fetches x.place.cache x.transfer.block a task event := by
  refine ⟨x.transfer, ?_, reads, rfl⟩
  rw [next, steps.transfers]
  exact List.mem_map.mpr ⟨x, List.mem_filter.mpr ⟨member, by simp⟩, rfl⟩

def Unfetched (c : Fin m) (b : BlockId) : Rule n m :=
  fun a task event => Orderly a task event ∧ ¬ Fetches c b a task event

def Unloaded (s : Machine n m) (c : Fin m) (b : BlockId) : Prop :=
  ∀ i : Fin n, (s.slot ⟨c, i⟩).holds b = true → (s.slot ⟨c, i⟩).valid = false

theorem next_unloaded (sound : Sound a) (unfetched : Unfetched c b a task event)
    (lined : a.machine.Lined []) (unloaded : Unloaded a.machine c b) :
    Unloaded (a.next task event).machine c b := by
  obtain ⟨orderly, silent⟩ := unfetched
  intro i holds
  by_contra loaded
  rcases next_gains sound orderly lined ⟨c, i⟩ (by simpa using loaded) with ⟨tag, valid⟩ | ⟨x, member, place, loads⟩
  · have before : (a.machine.slot ⟨c, i⟩).holds b = true := by
      rw [Slot.holds, tag.1, tag.2]
      exact holds
    exact absurd (valid.symm.trans (unloaded i before)) Bool.noConfusion
  · have steps := next_steps sound orderly
    have own := exchange_holds steps member
    rw [place] at own
    have block : x.transfer.block = b :=
      ((Slot.holds_iff ..).mp own).2.symm.trans ((Slot.holds_iff ..).mp holds).2
    have fetched := exchange_fetches steps member loads.1
    rw [place, block] at fetched
    exact silent fetched

theorem run_unloaded (sound : Sound a) (lined : a.machine.Lined []) (unloaded : Unloaded a.machine c b)
    (path : Run (Unfetched c b) a z) : Unloaded z.machine c b := by
  induction path with
  | refl => exact unloaded
  | step path unfetched ih =>
    have orderly := path.weaken fun _ _ _ unfetched => unfetched.1
    exact next_unloaded (run_sound orderly sound) unfetched (run_lined orderly sound lined) ih

theorem answers_fetch (sound : Sound a) (orderly : Orderly a task event) (lined : a.machine.Lined [])
    {request : Request m} {info : BufferInfo} {bytes : Block}
    (unloaded : Unloaded a.machine request.cache request.block)
    (answers : Answers a task event who request info bytes) (loads : request.loads = true) :
    Fetches request.cache request.block a task event := by
  by_contra silent
  have still := next_unloaded sound ⟨orderly, silent⟩ lined unloaded
  obtain ⟨p, spot, fits⟩ := (next_sound sound orderly).accounted.fits _ (answers_granted sound orderly answers)
  have cache : p.cache = request.cache := congrArg Spot.cache spot
  have here : p = ⟨request.cache, p.slot⟩ := by rw [← cache]
  have invalid := still p.slot (here ▸ fits.holds)
  rw [← here] at invalid
  exact absurd (invalid.symm.trans (fits.valid loads)) Bool.noConfusion

theorem halted_fetch (sound : Sound a) (orderly : Orderly a task event) {request : Request m}
    {failing : BlockId} (hears : Hears a task event who request (.halted (.disk failing)))
    (loads : request.loads = true) : Fetches request.cache request.block a task event := by
  have steps := next_steps sound orderly
  generalize told : (Outcome.halted (.disk failing) : Reply) = reply at hears
  cases hears with
  | read asked =>
    subst asked
    rcases steps.halted _ told.symm with stops | ⟨x, member, asks, -⟩
    · cases stops
    · cases asks with
      | read direction => exact exchange_fetches steps member direction
  | acquire => cases loads
  | woken member asked =>
    obtain ⟨x, made, own, -⟩ := steps.woken _ member _ told.symm
    obtain ⟨call, waits, rfl⟩ := woken_slept sound orderly member asked
    rcases steps.source x made with asks | ⟨found, serves⟩
    · -- Whoever is woken slept, and did not ask for anything in this step.
      have asleep := isAsleep_found waits
      rw [← own, Asks.own asks] at asleep
      rw [exchanges, if_pos asleep] at made
      cases made
    · rw [own, waits] at found
      cases found
      have fetched := exchange_fetches steps made serves.direction
      rw [serves.place, serves.block] at fetched
      exact fetched

end Account

end KernelResources.Buffer
