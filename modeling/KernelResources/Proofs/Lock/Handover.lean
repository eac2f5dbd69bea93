import KernelResources.Proofs.Lock.GuardBooks

namespace KernelResources.SleepRoom

variable {n : Nat} {r : SleepRoom n} {task first : TaskId} {call : SleepingCall n} {lock : Fin n}
  {rest : List TaskId}

def occupied (r : SleepRoom n) (task : TaskId) (call : SleepingCall n) : SleepRoom n :=
  { r.update call.lock fun lock =>
      { lock with holder := some task, data := lock.data ++ call.suffix } with
    guards := r.guards.put call.name call.lock }

def joined (r : SleepRoom n) (task : TaskId) (call : SleepingCall n) : SleepRoom n :=
  { r.update call.lock fun lock => { lock with sleepers := lock.sleepers ++ [task] } with
    asleep := r.asleep.put task call }

def vacated (r : SleepRoom n) (lock : Fin n) : SleepRoom n := r.update lock SleepLock.leave

def handed : List TaskId → List (TaskId × Bool)
  | [] => []
  | first :: rest => (first, true) :: rest.map (·, false)

theorem enter_free (call : SleepingCall n) (free : r.locks[call.lock].holder = none) :
    r.enter task call = (true, r.occupied task call) := by
  simp [enter, SleepLock.enter, SleepLock.tryLock, free, finish, update, occupied, SleepLock.setData]

theorem enter_held {holder : TaskId} (call : SleepingCall n)
    (held : r.locks[call.lock].holder = some holder) :
    r.enter task call = (false, r.joined task call) := by
  simp [enter, SleepLock.enter, SleepLock.tryLock, held, update, joined]

-- All that `tasks` change that look again at a lock that is taken: they are asleep on it once more, in the
-- same order.
structure Requeued (r after : SleepRoom n) (lock : Fin n) (tasks : List TaskId) : Prop where
  here : after.locks[lock] = { r.locks[lock] with sleepers := r.locks[lock].sleepers ++ tasks }
  apart : ∀ other, lock ≠ other → after.locks[other] = r.locks[other]
  guards : after.guards = r.guards
  asleep : ∀ task, after.asleep.find? task = r.asleep.find? task

structure Passed (r after : SleepRoom n) (first : TaskId) (rest : List TaskId)
    (call : SleepingCall n) : Prop where
  here : after.locks[call.lock] =
    ⟨r.locks[call.lock].name, some first, rest, r.locks[call.lock].data ++ call.suffix⟩
  apart : ∀ other, call.lock ≠ other → after.locks[other] = r.locks[other]
  guards : after.guards = r.guards.put call.name call.lock
  asleep : ∀ task, after.asleep.find? task = if task = first then none else r.asleep.find? task

theorem resume_held {holder : TaskId} (held : r.locks[call.lock].holder = some holder)
    (found : r.asleep.find? task = some call) :
    ∃ after, r.resume task = (false, after) ∧ Requeued r after call.lock [task] := by
  refine ⟨joined { r with asleep := r.asleep.erase task } task call, ?_, ?_, ?_, rfl, ?_⟩
  · simp only [resume, found]
    exact enter_held call held
  · exact entry_set_self ..
  · intro other elsewhere
    exact (entry_set ..).trans (if_neg elsewhere)
  · intro other
    rw [joined, Registry.put_erase, Registry.find?_put]
    split
    · rename_i same
      rw [eq_of_beq same, found]
    · rfl

theorem resumeAll_held {holder : TaskId} (tasks : List TaskId) (held : r.locks[lock].holder = some holder)
    (waiting : ∀ task ∈ tasks, ∃ call, r.asleep.find? task = some call ∧ call.lock = lock) :
    ∃ after, r.resumeAll tasks = (tasks.map (·, false), after) ∧ Requeued r after lock tasks := by
  induction tasks generalizing r with
  | nil => exact ⟨r, rfl, by simp, fun _ _ => rfl, rfl, fun _ => rfl⟩
  | cons task tasks ih =>
    obtain ⟨call, found, rfl⟩ := waiting task List.mem_cons_self
    obtain ⟨middle, back, one⟩ := resume_held held found
    obtain ⟨after, resumed, all⟩ := ih (r := middle) (by rw [one.here]; exact held) (by
      intro other member
      rw [one.asleep]
      exact waiting other (List.mem_cons_of_mem _ member))
    refine ⟨after, by simp only [resumeAll, back, resumed, List.map_cons], ?_, ?_, ?_, ?_⟩
    · rw [all.here, one.here, List.append_assoc]
      rfl
    · intro other elsewhere
      rw [all.apart other elsewhere, one.apart other elsewhere]
    · rw [all.guards, one.guards]
    · intro other
      rw [all.asleep, one.asleep]

theorem vacated_entry (r : SleepRoom n) (lock other : Fin n) :
    (r.vacated lock).locks[other] = if lock = other then r.locks[lock].leave else r.locks[other] :=
  entry_set ..

theorem leave_quiet (quiet : r.locks[lock].sleepers = []) : r.leave lock = ([], r.vacated lock) := by
  have alone : { r.locks[lock].leave with sleepers := [] } = r.locks[lock].leave := by
    rw [← quiet]
    rfl
  simp only [leave, SleepLock.wake, alone]
  rw [show r.locks[lock].leave.sleepers = [] from quiet]
  rfl

theorem leave_handed (sleeping : r.locks[lock].sleepers = first :: rest) (once : first ∉ rest)
    (waiting : ∀ task ∈ first :: rest, ∃ call, r.asleep.find? task = some call ∧ call.lock = lock) :
    ∃ call after, r.asleep.find? first = some call ∧ call.lock = lock ∧
      r.leave lock = (handed (first :: rest), after) ∧ Passed r after first rest call := by
  obtain ⟨call, found, rfl⟩ := waiting first List.mem_cons_self
  let opened : SleepRoom n := r.update call.lock fun lock => lock.leave.wake.2
  let woken : SleepRoom n := { opened with asleep := r.asleep.erase first }
  have looks : opened.resume first = (true, woken.occupied first call) := by
    simp only [resume, show opened.asleep.find? first = some call from found]
    exact enter_free call (by simp [opened, update, SleepLock.leave, SleepLock.wake])
  have here : (woken.occupied first call).locks[call.lock] =
      ⟨r.locks[call.lock].name, some first, [], r.locks[call.lock].data ++ call.suffix⟩ := by
    simp [occupied, woken, opened, update, SleepLock.leave, SleepLock.wake]
  have asleep : ∀ task, woken.asleep.find? task = if task = first then none else r.asleep.find? task := by
    intro task
    simpa using Registry.find?_erase r.asleep first task
  have held : (woken.occupied first call).locks[call.lock].holder = some first := by rw [here]
  obtain ⟨after, resumed, all⟩ := resumeAll_held rest held (by
      intro task member
      obtain ⟨other, wants, there⟩ := waiting task (List.mem_cons_of_mem _ member)
      refine ⟨other, ?_, there⟩
      rw [← wants]
      refine (asleep task).trans (if_neg ?_)
      rintro rfl
      exact once member)
  refine ⟨call, after, found, rfl, ?_, ?_, ?_, all.guards, fun task => (all.asleep task).trans (asleep task)⟩
  · have left : r.leave call.lock = opened.resumeAll r.locks[call.lock].sleepers := rfl
    rw [left, sleeping, resumeAll, looks]
    simp only [resumed, handed]
  · rw [all.here, here]
    rfl
  · intro other elsewhere
    rw [all.apart other elsewhere]
    simp [occupied, woken, opened, update, entry_set, elsewhere]

def subject (r : SleepRoom n) : Event n → Option (Fin n)
  | .lock lock _ _ | .tryLock lock _ | .holding lock | .holder lock | .record lock | .name lock
  | .replace lock _ => some lock
  | .drop name | .forget name | .heldByCurrent name | .append name _ | .get name | .lockName name =>
    r.guards.find? name

inductive Stepped (r : SleepRoom n) (task : TaskId) :
    Event n → Reply → List (TaskId × Bool) → SleepRoom n → Prop where
  | takes {call : SleepingCall n} : r.guards.find? call.name = none →
      r.locks[call.lock].holder = none →
      Stepped r task (.lock call.lock call.name call.suffix) (.done .unit) [] (r.occupied task call)
  | waits {call : SleepingCall n} {holder : TaskId} : r.asleep.find? task = none →
      r.locks[call.lock].holder = some holder →
      Stepped r task (.lock call.lock call.name call.suffix) .asleep [] (r.joined task call)
  | obtains {lock : Fin n} {name : String} : r.guards.find? name = none →
      r.locks[lock].holder = none →
      Stepped r task (.tryLock lock name) (.done (.flag true)) [] (r.occupied task ⟨lock, name, ""⟩)
  | drops {lock : Fin n} {name : String} : r.guards.find? name = some lock →
      Stepped r task (.drop name) (.done .unit) (leave { r with guards := r.guards.erase name } lock).1
        (leave { r with guards := r.guards.erase name } lock).2
  | forgets {lock : Fin n} {name : String} : r.guards.find? name = some lock →
      Stepped r task (.forget name) (.done .unit) [] { r with guards := r.guards.erase name }
  | rewrites {event : Event n} {reply : Reply} {lock : Fin n} (data : String) :
      r.subject event = some lock → (∀ l : Ledger n, l.note task event reply = l) →
      Stepped r task event reply [] (r.update lock (·.setData data))
  | stays {event : Event n} {reply : Reply} : (∀ l : Ledger n, l.note task event reply = l) →
      Stepped r task event reply [] r

theorem stepped_refused (r : SleepRoom n) (task : TaskId) (event : Event n) (why : Refusal) :
    Stepped r task event (.refused why) [] r :=
  .stays (by intro l; cases event <;> rfl)

theorem stepped_withGuard {event : Event n} {name : String}
    {f : Fin n → Reply × List (TaskId × Bool) × SleepRoom n}
    (known : ∀ lock, r.guards.find? name = some lock →
      Stepped r task event (f lock).1 (f lock).2.1 (f lock).2.2) :
    Stepped r task event (r.withGuard name f).1 (r.withGuard name f).2.1 (r.withGuard name f).2.2 := by
  unfold withGuard
  cases there : r.guards.find? name with
  | some lock => exact known lock there
  | none => exact stepped_refused ..

theorem step_stepped (r : SleepRoom n) (task : TaskId) (event : Event n) :
    Stepped r task event (r.step task event).1 (r.step task event).2.1 (r.step task event).2.2 := by
  unfold step
  cases busy : r.isAsleep task with
  | true => exact stepped_refused ..
  | false =>
    have awake : r.asleep.find? task = none := by
      simpa [isAsleep, Registry.contains] using busy
    simp only [Bool.false_eq_true, if_false]
    cases event with
    | lock lock name suffix =>
      cases known : r.guards.find? name with
      | some other =>
        simp only [advance, known]
        exact stepped_refused ..
      | none =>
        cases held : r.locks[lock].holder with
        | none =>
          simp only [advance, known, enter_free ⟨lock, name, suffix⟩ held]
          have taken : Stepped r task _ _ _ (r.occupied task ⟨lock, name, suffix⟩) := .takes known held
          exact taken
        | some holder =>
          simp only [advance, known, enter_held ⟨lock, name, suffix⟩ held]
          have waiting : Stepped r task _ _ _ (r.joined task ⟨lock, name, suffix⟩) := .waits awake held
          exact waiting
    | tryLock lock name =>
      cases known : r.guards.find? name with
      | some other =>
        simp only [advance, known]
        exact stepped_refused ..
      | none =>
        cases held : r.locks[lock].holder with
        | none =>
          have taken : Stepped r task _ _ _ _ := .obtains known held
          simpa [advance, known, SleepLock.tryLock, held, occupied, update] using taken
        | some holder =>
          simp only [advance, known, SleepLock.tryLock, held]
          exact .stays (by intro l; rfl)
    | drop name => exact stepped_withGuard fun _ known => .drops known
    | forget name => exact stepped_withGuard fun _ known => .forgets known
    | append name suffix =>
      apply stepped_withGuard
      intro lock known
      exact .rewrites (r.locks[lock].data ++ suffix) known (by intro l; rfl)
    | replace lock data =>
      simp only [advance]
      split
      · exact .rewrites data rfl (by intro l; rfl)
      · exact stepped_refused ..
    | heldByCurrent name | get name | lockName name =>
      apply stepped_withGuard
      intro lock known
      exact .stays (by intro l; rfl)
    | holding lock | holder lock | record lock | name lock => exact .stays (by intro l; rfl)

end KernelResources.SleepRoom
