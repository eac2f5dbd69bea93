import KernelResources.Buffer.BucketBench
import KernelResources.Proofs.Buffer.BucketLists

-- A bucket as plain tables: any number may stand in them, and every access is checked against their length.
-- Indices of the pool are all that ever gets into the tables, which is why a bucket can have them as its type.

namespace KernelResources.Buffer

structure LinkTables (n : Nat) where
  head : Option Nat
  next : Vector (Option Nat) n
  prev : Vector (Option Nat) n

namespace LinkTables

variable {n : Nat} {σ : Type}

-- What runs on the tables, up to the first access that is out of bounds. Changes before it stay.
abbrev Access (n : Nat) (α : Type) := EStateM WordFault (LinkTables n) α

def entry (index : Nat) : Access n (Fin n) :=
  match position n index with
  | .ok i => pure i
  | .error fault => throw fault

def headOf : Access n (Option Nat) := do
  return (← get).head

def nextOf (index : Nat) : Access n (Option Nat) := do
  let i ← entry index
  return (← get).next[i]

def prevOf (index : Nat) : Access n (Option Nat) := do
  let i ← entry index
  return (← get).prev[i]

def setHead (head : Option Nat) : Access n Unit := modify fun t => { t with head }

def setNext (index : Nat) (next : Option Nat) : Access n Unit := do
  let i ← entry index
  modify fun t => { t with next := t.next.set i next i.isLt }

def setPrev (index : Nat) (prev : Option Nat) : Access n Unit := do
  let i ← entry index
  modify fun t => { t with prev := t.prev.set i prev i.isLt }

def setAfter (before next : Option Nat) : Access n Unit :=
  match before with
  | some index => setNext index next
  | none => setHead next

def setBefore (after prev : Option Nat) : Access n Unit :=
  match after with
  | some index => setPrev index prev
  | none => pure ()

def pushFront (index : Nat) : Access n Unit := do
  setPrev index none
  let old ← headOf
  setNext index old
  setBefore old (some index)
  setHead (some index)

def remove (index : Nat) : Access n Unit := do
  let prev ← prevOf index
  let next ← nextOf index
  setAfter prev next
  setBefore next prev
  setNext index none
  setPrev index none

inductive Call where
  | pushFront (index : Nat)
  | remove (index : Nat)
  deriving Repr

namespace Call

def index : Call → Nat
  | .pushFront index | .remove index => index

def run : Call → Access n Unit
  | .pushFront index => LinkTables.pushFront index
  | .remove index => LinkTables.remove index

end Call

def empty : LinkTables n := ⟨none, Vector.replicate n none, Vector.replicate n none⟩

def linkUp (t : LinkTables n) (i : Fin n) : LinkTables n where
  head := t.head
  next := if i.val + 1 < n then t.next.set i (some (i.val + 1)) i.isLt else t.next
  prev := if 0 < i.val then t.prev.set i (some (i.val - 1)) i.isLt else t.prev

def holdingAll : LinkTables n :=
  let linked := (List.finRange n).foldl linkUp empty
  if 0 < n then { linked with head := some 0 } else linked

inductive Reached : LinkTables n → Prop where
  | empty : Reached empty
  | holdingAll : Reached holdingAll
  | ran {t u : LinkTables n} {call : Call} (before : Reached t) (ran : call.run.run t = .ok () u) : Reached u
  | stopped {t u : LinkTables n} {call : Call} {fault : WordFault} (before : Reached t)
      (stopped : call.run.run t = .error fault u) : Reached u

structure InRange (t : LinkTables n) : Prop where
  head : ∀ index, t.head = some index → index < n
  next : ∀ (i : Fin n) index, t.next[i] = some index → index < n
  prev : ∀ (i : Fin n) index, t.prev[i] = some index → index < n

def item (t : LinkTables n) : Nat → Except WordFault (Option Nat)
  | 0 => .ok t.head
  | k + 1 => do
    match ← t.item k with
    | some index => return t.next[← position n index]
    | none => return none

-- Visits the members from `cursor` on, `steps` of them having been visited. Each has to have its predecessor
-- for its backward link, and there may be no more than `limit`.
def walkFrom (t : LinkTables n) (limit bucket : Nat) (visit : Nat → σ → Except AuditError Unit × σ)
    (steps : Nat) (before cursor : Option Nat) (s : σ) : Except WordFault (Except AuditError Unit) × σ :=
  match cursor with
  | none => (.ok (.ok ()), s)
  | some index =>
    if limit < steps + 1 then (.ok (.error (.brokenLinks bucket)), s)
    else match position n index with
      | .error fault => (.error fault, s)
      | .ok i =>
        if t.prev[i] ≠ before then (.ok (.error (.brokenLinks bucket)), s)
        else match visit index s with
          | (.ok (), s) => t.walkFrom limit bucket visit (steps + 1) (some index) t.next[i] s
          | (.error error, s) => (.ok (.error error), s)
termination_by limit - steps

def walk (t : LinkTables n) (bucket : Nat) (visit : Nat → σ → Except AuditError Unit × σ) (s : σ) :
    Except WordFault (Except AuditError Unit) × σ :=
  t.walkFrom n bucket visit 0 none t.head s

end LinkTables

def Bucket.tables {n : Nat} (b : Bucket n) : LinkTables n where
  head := b.head.map (·.val)
  next := b.next.map fun link => link.map (·.val)
  prev := b.prev.map fun link => link.map (·.val)

namespace LinkTables

variable {n : Nat} {α β : Type} {t u : LinkTables n}

theorem run_bind {x : Access n α} {f : α → Access n β} {a : α} (ran : x.run t = .ok a u) :
    (x >>= f).run t = (f a).run u := by
  change EStateM.bind x f t = _
  rw [EStateM.bind, show x t = .ok a u from ran]
  rfl

theorem run_stops {x : Access n α} {f : α → Access n β} {fault : WordFault} (failed : x.run t = .error fault u) :
    (x >>= f).run t = .error fault u := by
  change EStateM.bind x f t = _
  rw [EStateM.bind, show x t = .error fault u from failed]

theorem entry_inside (i : Fin n) : (entry i.val).run t = .ok i t := by
  rw [entry, position_ok.mpr rfl]
  rfl

theorem entry_outside {index : Nat} (outside : n ≤ index) :
    (entry index).run t = .error (.outOfBounds n index) t := by
  rw [entry, position_error.mpr ⟨outside, rfl⟩]
  rfl

section Tables

variable (b : Bucket n) (i : Fin n) (x y : Option (Fin n))

theorem next_tables : b.tables.next[i] = b.next[i].map (·.val) := entry_map ..

theorem prev_tables : b.tables.prev[i] = b.prev[i].map (·.val) := entry_map ..

theorem nextOf_tables : (nextOf i.val).run b.tables = .ok (b.next[i].map (·.val)) b.tables := by
  rw [nextOf, run_bind (entry_inside i), ← next_tables]
  rfl

theorem prevOf_tables : (prevOf i.val).run b.tables = .ok (b.prev[i].map (·.val)) b.tables := by
  rw [prevOf, run_bind (entry_inside i), ← prev_tables]
  rfl

theorem setHead_tables : (setHead (x.map (·.val))).run b.tables = .ok () (b.setHead x).tables := rfl

theorem setNext_tables : (setNext i.val (x.map (·.val))).run b.tables = .ok () (b.setNext i x).tables := by
  have mapped : (b.setNext i x).tables =
      { b.tables with next := b.tables.next.set i (x.map (·.val)) i.isLt } := by
    simp only [Bucket.tables, Bucket.setNext, Vector.map_set]
  rw [setNext, run_bind (entry_inside i), mapped]
  rfl

theorem setPrev_tables : (setPrev i.val (x.map (·.val))).run b.tables = .ok () (b.setPrev i x).tables := by
  have mapped : (b.setPrev i x).tables =
      { b.tables with prev := b.tables.prev.set i (x.map (·.val)) i.isLt } := by
    simp only [Bucket.tables, Bucket.setPrev, Vector.map_set]
  rw [setPrev, run_bind (entry_inside i), mapped]
  rfl

theorem setAfter_tables : (setAfter (x.map (·.val)) (y.map (·.val))).run b.tables =
    .ok () (b.setAfter x y).tables := by
  cases x with
  | none => exact setHead_tables b y
  | some p => exact setNext_tables b p y

theorem setBefore_tables : (setBefore (x.map (·.val)) (y.map (·.val))).run b.tables =
    .ok () (b.setBefore x y).tables := by
  cases x with
  | none => rfl
  | some q => exact setPrev_tables b q y

theorem pushFront_tables : (pushFront i.val).run b.tables = .ok () (b.pushFront i).tables := by
  have cleared : (setPrev i.val none).run b.tables = .ok () (b.setPrev i none).tables :=
    setPrev_tables b i none
  have old : headOf.run (b.setPrev i none).tables = .ok (b.head.map (·.val)) (b.setPrev i none).tables := rfl
  have back : (setBefore (b.head.map (·.val)) (some i.val)).run ((b.setPrev i none).setNext i b.head).tables =
      .ok () (((b.setPrev i none).setNext i b.head).setBefore b.head (some i)).tables :=
    setBefore_tables _ b.head (some i)
  rw [pushFront, run_bind cleared, run_bind old, run_bind (setNext_tables ..), run_bind back]
  exact setHead_tables _ (some i)

theorem remove_tables : (remove i.val).run b.tables = .ok () (b.remove i).tables := by
  have cleared (c : Bucket n) : (setNext i.val none).run c.tables = .ok () (c.setNext i none).tables :=
    setNext_tables c i none
  rw [remove, run_bind (prevOf_tables b i), run_bind (nextOf_tables b i), run_bind (setAfter_tables ..),
    run_bind (setBefore_tables ..), run_bind (cleared _)]
  exact setPrev_tables _ i none

end Tables

theorem run_outside {call : Call} (outside : n ≤ call.index) :
    call.run.run t = .error (.outOfBounds n call.index) t := by
  cases call with
  | pushFront index => exact run_stops (run_stops (entry_outside outside))
  | remove index => exact run_stops (run_stops (entry_outside outside))

theorem run_inside (b : Bucket n) {call : Call} (inside : call.index < n) :
    ∃ c : Bucket n, call.run.run b.tables = .ok () c.tables := by
  cases call with
  | pushFront index => exact ⟨_, pushFront_tables b ⟨index, inside⟩⟩
  | remove index => exact ⟨_, remove_tables b ⟨index, inside⟩⟩

theorem entries_ext {u : LinkTables n} (head : t.head = u.head) (next : ∀ i : Fin n, t.next[i] = u.next[i])
    (prev : ∀ i : Fin n, t.prev[i] = u.prev[i]) : t = u := by
  obtain ⟨_, _, _⟩ := t
  obtain ⟨_, _, _⟩ := u
  obtain rfl := head
  congr
  · exact Vector.ext fun i inside => next ⟨i, inside⟩
  · exact Vector.ext fun i inside => prev ⟨i, inside⟩

theorem empty_tables : (empty : LinkTables n) = (Bucket.empty : Bucket n).tables := by
  simp [empty, Bucket.empty, Bucket.tables]

theorem linkUp_foldl (l : List (Fin n)) (t : LinkTables n) :
    (l.foldl linkUp t).head = t.head ∧
      (∀ j : Fin n, (l.foldl linkUp t).next[j] =
        if j ∈ l ∧ j.val + 1 < n then some (j.val + 1) else t.next[j]) ∧
      ∀ j : Fin n, (l.foldl linkUp t).prev[j] =
        if j ∈ l ∧ 0 < j.val then some (j.val - 1) else t.prev[j] := by
  induction l generalizing t with
  | nil => simp
  | cons i l ih =>
    obtain ⟨head, next, prev⟩ := ih (t.linkUp i)
    refine ⟨head, ?_, ?_⟩
    · intro j
      rw [List.foldl_cons, next]
      by_cases here : i = j
      · subst here
        by_cases more : i.val + 1 < n <;> simp [linkUp, more]
      · by_cases more : i.val + 1 < n <;> simp [linkUp, more, entry_set, here, Ne.symm here]
    · intro j
      rw [List.foldl_cons, prev]
      by_cases here : i = j
      · subst here
        by_cases later : 0 < i.val <;> simp [linkUp, later]
      · by_cases later : 0 < i.val <;> simp [linkUp, later, entry_set, here, Ne.symm here]

theorem holdingAll_tables : (holdingAll : LinkTables n) = (Bucket.holdingAll : Bucket n).tables := by
  obtain ⟨-, next, prev⟩ := linkUp_foldl (List.finRange n) empty
  by_cases inhabited : 0 < n
  · rw [holdingAll, if_pos inhabited]
    refine entries_ext ?_ ?_ ?_
    · simp [Bucket.tables, Bucket.holdingAll, inhabited]
    · intro i
      rw [next_tables]
      refine (next i).trans ?_
      by_cases more : i.val + 1 < n <;> simp [Bucket.holdingAll, empty, more]
    · intro i
      rw [prev_tables]
      refine (prev i).trans ?_
      by_cases later : 0 < i.val <;> simp [Bucket.holdingAll, empty, later]
  · obtain rfl : n = 0 := Nat.eq_zero_of_not_pos inhabited
    exact entries_ext rfl (fun i => i.elim0) fun i => i.elim0

theorem tables_inRange (b : Bucket n) : b.tables.InRange := by
  refine ⟨?_, ?_, ?_⟩
  · intro index there
    obtain ⟨i, -, rfl⟩ := Option.map_eq_some_iff.mp there
    exact i.isLt
  · intro i index there
    rw [next_tables] at there
    obtain ⟨j, -, rfl⟩ := Option.map_eq_some_iff.mp there
    exact j.isLt
  · intro i index there
    rw [prev_tables] at there
    obtain ⟨j, -, rfl⟩ := Option.map_eq_some_iff.mp there
    exact j.isLt

def named (link : Option Nat) : Option (Fin n) := link.bind fun index => (position n index).toOption

theorem named_val {link : Option Nat} (inside : ∀ index, link = some index → index < n) :
    (named link : Option (Fin n)).map (·.val) = link := by
  cases link with
  | none => rfl
  | some index =>
    have here : position n index = .ok ⟨index, inside index rfl⟩ := position_ok.mpr rfl
    simp [named, here, Except.toOption]

theorem inRange_tables (inRange : t.InRange) : ∃ b : Bucket n, b.tables = t := by
  refine ⟨⟨named t.head, t.next.map named, t.prev.map named⟩, entries_ext ?_ ?_ ?_⟩
  · exact named_val inRange.head
  · intro i
    rw [next_tables, entry_map]
    exact named_val (inRange.next i)
  · intro i
    rw [prev_tables, entry_map]
    exact named_val (inRange.prev i)

theorem reached_inRange (reached : Reached t) : t.InRange := by
  induction reached with
  | empty => exact empty_tables ▸ tables_inRange _
  | holdingAll => exact holdingAll_tables ▸ tables_inRange _
  | @ran t u call before ran ih =>
    obtain ⟨b, rfl⟩ := inRange_tables ih
    by_cases inside : call.index < n
    · obtain ⟨c, done⟩ := run_inside b inside
      cases ran.symm.trans done
      exact tables_inRange c
    · cases ran.symm.trans (run_outside (Nat.le_of_not_lt inside))
  | @stopped t u call fault before stopped ih =>
    obtain ⟨b, rfl⟩ := inRange_tables ih
    by_cases inside : call.index < n
    · obtain ⟨c, done⟩ := run_inside b inside
      cases stopped.symm.trans done
    · cases stopped.symm.trans (run_outside (Nat.le_of_not_lt inside))
      exact ih

end LinkTables

end KernelResources.Buffer
