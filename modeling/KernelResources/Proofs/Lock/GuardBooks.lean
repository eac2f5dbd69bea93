import KernelResources.Lock.SleepRoom
import KernelResources.Proofs.RegistryCounts

namespace KernelResources.SleepRoom

variable {n : Nat}

structure Grasp (n : Nat) where
  lock : Fin n
  task : TaskId
  deriving DecidableEq, Repr

structure Ledger (n : Nat) where
  guards : Registry String (Grasp n)
  -- Not dropped and in nobody's hand: forgotten, or pushed aside when their name was used again.
  lost : List (Grasp n)
  -- Each task that waits, with the lock and with the name under which it wants the guard.
  waits : Registry TaskId (Fin n × String)
  -- All calls that ever had to wait, and those of them that got their lock, the earliest first.
  queued : List (Grasp n)
  served : List (Grasp n)

namespace Ledger

def empty : Ledger n := ⟨[], [], [], [], []⟩

def lose (l : Ledger n) (name : String) : Ledger n :=
  match l.guards.find? name with
  | some grasp => { l with guards := l.guards.erase name, lost := grasp :: l.lost }
  | none => l

def grant (l : Ledger n) (name : String) (grasp : Grasp n) : Ledger n :=
  { l.lose name with guards := (l.lose name).guards.put name grasp }

def note (l : Ledger n) (task : TaskId) : Event n → Reply → Ledger n
  | .lock lock name _, .done _ => l.grant name ⟨lock, task⟩
  | .lock lock name _, .asleep =>
    { l with waits := l.waits.put task (lock, name), queued := l.queued ++ [Grasp.mk lock task] }
  | .tryLock lock name, .done (.flag true) => l.grant name ⟨lock, task⟩
  | .drop name, .done _ => { l with guards := l.guards.erase name }
  | .forget name, .done _ => l.lose name
  | _, _ => l

def resume (l : Ledger n) : List (TaskId × Bool) → Ledger n
  | [] => l
  | (_, false) :: rest => l.resume rest
  | (task, true) :: rest =>
    match l.waits.find? task with
    | some (lock, name) =>
      { l.grant name ⟨lock, task⟩ with
        waits := l.waits.erase task
        served := l.served ++ [Grasp.mk lock task] }.resume rest
    | none => l.resume rest

def record (l : Ledger n) (task : TaskId) (event : Event n) (reply : Reply)
    (woken : List (TaskId × Bool)) : Ledger n :=
  (l.note task event reply).resume woken

def undropped (l : Ledger n) : List (Grasp n) := l.guards.map (·.2) ++ l.lost

def guardsOf (l : Ledger n) (lock : Fin n) : List (Grasp n) := l.undropped.filter (·.lock = lock)

def tasksAt (calls : List (Grasp n)) (lock : Fin n) : List TaskId :=
  (calls.filter (·.lock = lock)).map (·.task)

theorem tasksAt_append (calls more : List (Grasp n)) (lock : Fin n) :
    tasksAt (calls ++ more) lock = tasksAt calls lock ++ tasksAt more lock := by
  simp [tasksAt]

theorem tasksAt_single (grasp : Grasp n) (lock : Fin n) :
    tasksAt [grasp] lock = if grasp.lock = lock then [grasp.task] else [] := by
  by_cases here : grasp.lock = lock <;> simp [tasksAt, here]

variable {l : Ledger n} {name : String} {grasp : Grasp n}

theorem find?_lose (l : Ledger n) (name other : String) :
    (l.lose name).guards.find? other = if other == name then none else l.guards.find? other := by
  unfold lose
  cases known : l.guards.find? name with
  | some grasp => exact Registry.find?_erase l.guards name other
  | none =>
    by_cases same : other = name
    · subst same
      simpa using known
    · simp [same]

theorem find?_grant (l : Ledger n) (name other : String) (grasp : Grasp n) :
    (l.grant name grasp).guards.find? other =
      if other == name then some grasp else l.guards.find? other := by
  rw [grant, Registry.find?_put, find?_lose]
  by_cases same : other = name <;> simp [same]

theorem waits_lose (l : Ledger n) (name : String) : (l.lose name).waits = l.waits := by
  unfold lose
  split <;> rfl

theorem queued_lose (l : Ledger n) (name : String) : (l.lose name).queued = l.queued := by
  unfold lose
  split <;> rfl

theorem served_lose (l : Ledger n) (name : String) : (l.lose name).served = l.served := by
  unfold lose
  split <;> rfl

theorem waits_grant (l : Ledger n) (name : String) (grasp : Grasp n) :
    (l.grant name grasp).waits = l.waits :=
  waits_lose l name

theorem queued_grant (l : Ledger n) (name : String) (grasp : Grasp n) :
    (l.grant name grasp).queued = l.queued :=
  queued_lose l name

theorem served_grant (l : Ledger n) (name : String) (grasp : Grasp n) :
    (l.grant name grasp).served = l.served :=
  served_lose l name

theorem distinct_lose (distinct : l.guards.keys.Nodup) (name : String) :
    (l.lose name).guards.keys.Nodup := by
  unfold lose
  split
  · exact Registry.nodup_erase distinct name
  · exact distinct

theorem distinct_grant (distinct : l.guards.keys.Nodup) (name : String) (grasp : Grasp n) :
    (l.grant name grasp).guards.keys.Nodup :=
  Registry.nodup_put (distinct_lose distinct name) name grasp

theorem resume_asleep (l : Ledger n) (tasks : List TaskId) : l.resume (tasks.map (·, false)) = l := by
  induction tasks with
  | nil => rfl
  | cons task tasks ih => exact ih

theorem undropped_erase (distinct : l.guards.keys.Nodup) (known : l.guards.find? name = some grasp) :
    l.undropped.Perm (grasp :: { l with guards := l.guards.erase name }.undropped) :=
  ((Registry.perm_erase distinct known).map (·.2 : String × Grasp n → Grasp n)).append_right l.lost

theorem undropped_lose (distinct : l.guards.keys.Nodup) (name : String) :
    (l.lose name).undropped.Perm l.undropped := by
  unfold lose
  cases known : l.guards.find? name with
  | some grasp => exact List.perm_middle.trans (undropped_erase distinct known).symm
  | none => exact .refl _

theorem undropped_grant (distinct : l.guards.keys.Nodup) (name : String) (grasp : Grasp n) :
    (l.grant name grasp).undropped.Perm (grasp :: l.undropped) := by
  have free : (l.lose name).guards.find? name = none := by
    rw [find?_lose, if_pos (beq_self_eq_true name)]
  rw [undropped, grant, Registry.put, Registry.erase_absent free]
  exact (undropped_lose distinct name).cons grasp

theorem guardsOf_cons (more : Ledger n) (added : more.undropped.Perm (grasp :: l.undropped))
    (lock : Fin n) :
    (more.guardsOf lock).Perm ((if grasp.lock = lock then [grasp] else []) ++ l.guardsOf lock) := by
  have filtered := added.filter (·.lock = lock)
  rw [List.filter_cons] at filtered
  by_cases here : grasp.lock = lock <;> simpa [guardsOf, here] using filtered

end Ledger

structure Account (n : Nat) where
  room : SleepRoom n
  ledger : Ledger n

namespace Account

def start (names : Vector String n) : Account n := ⟨.start names, .empty⟩

def next (a : Account n) (task : TaskId) (event : Event n) : Account n :=
  ⟨(a.room.step task event).2.2,
    a.ledger.record task event (a.room.step task event).1 (a.room.step task event).2.1⟩

inductive Run : Account n → Account n → Prop where
  | refl {a : Account n} : Run a a
  | step {a b : Account n} (task : TaskId) (event : Event n) : Run a b → Run a (b.next task event)

end Account

end KernelResources.SleepRoom
