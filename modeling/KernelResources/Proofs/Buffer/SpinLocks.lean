import KernelResources.Buffer.Cache
import KernelResources.Proofs.Courses

namespace KernelResources.Buffer

open Effect

variable {n : Nat}

def Cache.Act.Outside : Cache.Act n → Prop
  | .takesLock _ | .sleepsOn _ | .transfers .. => True
  | .relinks _ | .counts _ | .stamps _ | .leavesLock _ | .tells _ => False

namespace PoolLock

-- Two buckets are locked at once under the pool lock only.
def Paired (held : List PoolLock) : Prop :=
  ∀ b c, b ≠ c → .bucket b ∈ held → .bucket c ∈ held → .pool ∈ held

structure Admits (held : List PoolLock) (lock : PoolLock) : Prop where
  fresh : lock ∉ held
  first : lock = .pool → ∀ b, .bucket b ∉ held
  paired : Paired (lock :: held)

def Permits (held : List PoolLock) : Effect PoolLock (Cache.Act n) → Prop
  | .acquire lock => Admits held lock
  | .release lock => lock ∈ held ∧ Paired (held.erase lock)
  | .act what => what.Outside → held = []
  | .mask | .unmask => True

def Quiet (held : List PoolLock) : Effect PoolLock (Cache.Act n) → Prop
  | .acquire _ | .release _ => False
  | .act what => what.Outside → held = []
  | .mask | .unmask => True

def Obeyed : List (Effect PoolLock (Cache.Act n)) → Prop
  | [] => True
  | effect :: past => Permits (locks past) effect ∧ Obeyed past

theorem paired_nil : Paired [] := nofun

theorem paired_pool {held : List PoolLock} (pool : .pool ∈ held) : Paired held :=
  fun _ _ _ _ _ => pool

theorem paired_single (b : Fin bucketCount) : Paired [.bucket b] := by
  intro c d differ here there
  cases List.mem_singleton.mp here
  cases List.mem_singleton.mp there
  exact absurd rfl differ

theorem admits_alone (lock : PoolLock) : Admits [] lock where
  fresh := List.not_mem_nil
  first := fun _ _ => List.not_mem_nil
  paired := match lock with
    | .pool => paired_pool (List.mem_cons_self ..)
    | .bucket b => paired_single b

theorem admits_bucket {held : List PoolLock} {b : Fin bucketCount} (pool : .pool ∈ held)
    (fresh : .bucket b ∉ held) : Admits held (.bucket b) where
  fresh := fresh
  first := nofun
  paired := paired_pool (List.mem_cons_of_mem _ pool)

theorem Admits.pool {held : List PoolLock} {lock : PoolLock} (admits : Admits held lock)
    (some : held ≠ []) : .pool ∈ held := by
  obtain ⟨other, more, rfl⟩ := List.exists_cons_of_ne_nil some
  have fresh : lock ≠ other ∧ lock ∉ more := by simpa using admits.fresh
  cases other with
  | pool => exact List.mem_cons_self ..
  | bucket c =>
    cases lock with
    | pool => exact absurd (List.mem_cons_self ..) (admits.first rfl c)
    | bucket b =>
      have both := admits.paired b c (fun same => fresh.1 (by rw [same])) (List.mem_cons_self ..)
        (List.mem_cons_of_mem _ (List.mem_cons_self ..))
      simpa using both

variable {held goal middle : List PoolLock} {past later : List (Effect PoolLock (Cache.Act n))}

theorem obeyed_quiet {made : List (Effect PoolLock (Cache.Act n))} (obeyed : Obeyed past)
    (quiet : ∀ effect ∈ made, Quiet (locks past) effect) :
    Obeyed (made ++ past) ∧ locks (made ++ past) = locks past := by
  induction made with
  | nil => exact ⟨obeyed, rfl⟩
  | cons effect made ih =>
    obtain ⟨so, same⟩ := ih fun other member => quiet other (List.mem_cons_of_mem _ member)
    have now := quiet effect (List.mem_cons_self ..)
    rw [← same] at now
    cases effect with
    | acquire lock => exact now.elim
    | release lock => exact now.elim
    | act what => exact ⟨⟨now, so⟩, same⟩
    | mask => exact ⟨⟨trivial, so⟩, same⟩
    | unmask => exact ⟨⟨trivial, so⟩, same⟩

theorem obeyed_append (free : locks past = []) (before : Obeyed past) (after : Obeyed later) :
    Obeyed (later ++ past) := by
  induction later with
  | nil => exact before
  | cons effect later ih =>
    refine ⟨?_, ih after.2⟩
    have permits : Permits (locks later) effect := after.1
    have same : locks (later ++ past) = locks later := locks_append free
    rwa [← same] at permits

theorem obeyed_suffix {moment : List (Effect PoolLock (Cache.Act n))} (obeyed : Obeyed past)
    (earlier : moment <:+ past) : Obeyed moment := by
  induction past with
  | nil => exact List.suffix_nil.mp earlier ▸ obeyed
  | cons effect past ih =>
    rcases List.suffix_cons_iff.mp earlier with rfl | before
    · exact obeyed
    · exact ih obeyed.2 before

theorem obeyed_paired (obeyed : Obeyed past) : Paired (locks past) := by
  induction past with
  | nil => exact paired_nil
  | cons effect past ih =>
    cases effect with
    | acquire lock => exact obeyed.1.paired
    | release lock => exact obeyed.1.2
    | act what => exact ih obeyed.2
    | mask => exact ih obeyed.2
    | unmask => exact ih obeyed.2

theorem obeyed_nodup (obeyed : Obeyed past) : (locks past).Nodup := by
  induction past with
  | nil => exact List.nodup_nil
  | cons effect past ih =>
    cases effect with
    | acquire lock => exact List.nodup_cons.mpr ⟨obeyed.1.fresh, ih obeyed.2⟩
    | release lock => exact (ih obeyed.2).erase _
    | act what => exact ih obeyed.2
    | mask => exact ih obeyed.2
    | unmask => exact ih obeyed.2

end PoolLock

namespace Cache

open Operation PoolLock

abbrev Script (n : Nat) (α : Type) : Type 1 :=
  Course PoolLock (Act n) (Cache n × Clock) CacheFault α

namespace Script

open Course

variable {α β : Type} {held goal middle : List PoolLock}

-- From the locks `held` on the course keeps to the order, whatever comes of its parts, and ends with the
-- locks `goal`.
def Lawful (goal : List PoolLock) : List PoolLock → Script n α → Prop
  | held, .ends _ => held = goal
  | held, .works part next => part.Makes (Quiet held) ∧ ∀ result, Lawful goal held (next result)
  | held, .takes lock next => Admits held lock ∧ Lawful goal (lock :: held) next
  | held, .gives lock next =>
    lock ∈ held ∧ Paired (held.erase lock) ∧ Lawful goal (held.erase lock) next

section Lawfulness

variable {script : Script n α}

theorem lawful_pure (value : α) : Lawful held held (pure value : Script n α) := rfl

theorem lawful_throw (fault : CacheFault) : Lawful held held (throw fault : Script n α) := rfl

theorem lawful_work {part : Cache.Run n α} (quiet : part.Makes (Quiet held)) :
    Lawful held held (work part) := ⟨quiet, fun _ => rfl⟩

theorem lawful_settle {next : Except CacheFault α → Script n β} (first : Lawful middle held script)
    (later : ∀ result, Lawful goal middle (next result)) : Lawful goal held (script.settle next) := by
  induction script generalizing held with
  | ends result =>
    rw [show held = middle from first]
    exact later result
  | works part rest ih => exact ⟨first.1, fun result => ih result (first.2 result)⟩
  | takes lock rest ih => exact ⟨first.1, ih first.2⟩
  | gives lock rest ih => exact ⟨first.1, first.2.1, ih first.2.2⟩

theorem lawful_bind {next : α → Script n β} (first : Lawful held held script)
    (later : ∀ value, Lawful held held (next value)) : Lawful held held (script >>= next) :=
  lawful_settle first fun
    | .ok value => later value
    | .error _ => rfl

theorem lawful_tryCatch {handler : CacheFault → Script n α} (first : Lawful held held script)
    (later : ∀ fault, Lawful held held (handler fault)) : Lawful held held (tryCatch script handler) :=
  lawful_settle first fun
    | .ok _ => rfl
    | .error fault => later fault

theorem lawful_holding {lock : PoolLock} (admits : Admits held lock) (paired : Paired held)
    (body : Lawful (lock :: held) (lock :: held) script) :
    Lawful held held (script.holding lock) := by
  refine ⟨admits, lawful_settle body fun result => ⟨List.mem_cons_self .., ?_⟩⟩
  rw [List.erase_cons_head]
  exact ⟨paired, rfl⟩

theorem lawful_takesAll {buckets : List (Fin bucketCount)} (pool : .pool ∈ held)
    (fresh : ∀ b ∈ buckets, .bucket b ∉ held) (nodup : buckets.Nodup)
    (rest : Lawful goal ((buckets.map .bucket).reverse ++ held) script) :
    Lawful goal held (takesAll (buckets.map .bucket) script) := by
  induction buckets generalizing held with
  | nil => exact rest
  | cons b buckets ih =>
    obtain ⟨new, nodup⟩ := List.nodup_cons.mp nodup
    refine ⟨admits_bucket pool (fresh b (List.mem_cons_self ..)),
      ih (List.mem_cons_of_mem _ pool) (fun c member => ?_) nodup ?_⟩
    · rintro (_ | ⟨_, held⟩)
      · exact new member
      · exact fresh c (List.mem_cons_of_mem _ member) held
    · rwa [List.map_cons, List.reverse_cons, List.append_assoc] at rest

theorem lawful_givesAll {buckets : List (Fin bucketCount)} (pool : .pool ∈ held)
    (nodup : buckets.Nodup) (rest : Lawful goal held script) :
    Lawful goal ((buckets.map .bucket).reverse ++ held) (givesAll (buckets.map .bucket) script) := by
  induction buckets with
  | nil => exact rest
  | cons b buckets ih =>
    obtain ⟨new, nodup⟩ := List.nodup_cons.mp nodup
    have taken : (((b :: buckets).map PoolLock.bucket).reverse ++ held).erase (.bucket b) =
        (buckets.map .bucket).reverse ++ held := by
      rw [List.map_cons, List.reverse_cons, List.append_assoc, List.erase_append_right _ (by simpa using new)]
      exact congrArg _ (List.erase_cons_head ..)
    refine ⟨by simp, ?_, ?_⟩
    · rw [taken]
      exact paired_pool (List.mem_append_right _ pool)
    · rw [taken]
      exact ih nodup

theorem lawful_holdingAll {buckets : List (Fin bucketCount)} (pool : .pool ∈ held)
    (fresh : ∀ b ∈ buckets, .bucket b ∉ held) (nodup : buckets.Nodup)
    (body : Lawful ((buckets.map .bucket).reverse ++ held) ((buckets.map .bucket).reverse ++ held) script) :
    Lawful held held (script.holdingAll (buckets.map .bucket)) :=
  lawful_takesAll pool fresh nodup (lawful_settle body fun _ => lawful_givesAll pool nodup rfl)

theorem lawful_masked (body : Lawful held held script) : Lawful held held script.masked := by
  refine ⟨fun e => ?_, fun
    | .error fault => rfl
    | .ok guard => lawful_settle body fun result => ⟨fun e => ?_, fun _ => rfl⟩⟩
  · dsimp only [Operation.takeGuard, Execution.takeGuard, Interrupts.Guard.take]
    split
    · exact ⟨[.mask], rfl, List.forall_mem_singleton.mpr trivial⟩
    · exact ⟨[], rfl, List.forall_mem_nil _⟩
  · dsimp only [Operation.dropGuard, Execution.dropGuard, Interrupts.Guard.drop]
    split
    · exact ⟨[.unmask], rfl, List.forall_mem_singleton.mpr trivial⟩
    · exact ⟨[], rfl, List.forall_mem_nil _⟩

theorem lawful_unless (wrong : Prop) [Decidable wrong] (fault : CacheFault)
    (body : Lawful held held script) :
    Lawful held held (do
      if wrong then throw fault
      script) := by
  split
  · exact rfl
  · exact body

end Lawfulness

theorem obeyed_run {script : Script n α} {e : Execution PoolLock (Act n) (Cache n × Clock)}
    (lawful : Lawful goal (locks e.past) script) (obeyed : Obeyed e.past) :
    Obeyed (script.run e).2.past ∧ locks (script.run e).2.past = goal := by
  induction script generalizing e with
  | ends result => exact ⟨obeyed, lawful⟩
  | works part rest ih =>
    obtain ⟨made, past, quiet⟩ := lawful.1 e
    obtain ⟨so, same⟩ := obeyed_quiet obeyed quiet
    rw [← past] at so same
    exact ih _ (by rw [same]; exact lawful.2 _) so
  | takes lock rest ih => exact ih (e := e.note (.acquire lock)) lawful.2 ⟨lawful.1, obeyed⟩
  | gives lock rest ih =>
    exact ih (e := e.note (.release lock)) lawful.2.2 ⟨⟨lawful.1, lawful.2.1⟩, obeyed⟩

end Script

end Cache

end KernelResources.Buffer
