import KernelResources.Proofs.Buffer.References
import KernelResources.Proofs.Buffer.Traces

namespace KernelResources.Buffer

variable {n m : Nat}

namespace Pool

inductive Claimed (p : Pool n) (b : BlockId) :
    Except CacheFault (Fin n) → Pool n → List (Cache.Act n) → Prop where
  -- A buffer carries the block, whichever list it may be on. It gets one reference more.
  | cached {i : Fin n} {q : Pool n} (holds : p.slots[i].holds b = true)
      (slots : ∀ j : Fin n, q.slots[j] =
        if j = i then { p.slots[i] with refs := p.slots[i].refs + 1 } else p.slots[j])
      (buckets : q.buckets = p.buckets) :
      Claimed p b (.ok i) q [.counts i]
  -- No buffer does, and one can be recycled. It leaves its list for the front of the list of `b`.
  | recycled {v : Fin n} {q : Pool n} (absent : ∀ j : Fin n, p.slots[j].holds b = false)
      (victim : p.Victim v)
      (slots : ∀ j : Fin n, q.slots[j] =
        if j = v then { p.slots[v] with block := b, mapped := true, valid := false, refs := 1 }
        else p.slots[j])
      (lists : ∀ d : Fin bucketCount, q.buckets[d].Represents
        (if d = b.bucket then v :: p.buckets[d].members.erase v else p.buckets[d].members.erase v)) :
      Claimed p b (.ok v) q
        [.relinks p.slots[v].home,
          .tells (if p.slots[v].mapped then .evicts b v p.slots[v].block else .takesUnused b v),
          .counts v, .relinks b.bucket]
  -- No buffer does, and all are referenced.
  | exhausted (absent : ∀ j : Fin n, p.slots[j].holds b = false)
      (referenced : ∀ j : Fin n, p.slots[j].refs ≠ 0) : Claimed p b (.error .noBuffers) p []

theorem represents_recycle {p : Pool n} (intact : p.Intact) (i : Fin n) (b : BlockId)
    (c : Fin bucketCount) : (p.recycle i b).buckets[c].Represents
      (if c = b.bucket then i :: p.buckets[c].members.erase i else p.buckets[c].members.erase i) := by
  rw [recycle, bucket_updateBucket, buckets_updateSlot]
  split
  · rename_i here
    subst here
    rw [if_pos rfl]
    exact Bucket.represents_pushFront (represents_unlink intact i _) (intact.represented _).2.not_mem_erase
  · rename_i elsewhere
    rw [if_neg (Ne.symm elsewhere)]
    exact represents_unlink intact i c

theorem claimed_found {p : Pool n} {b : BlockId} {i : Fin n} (found : p.find? b = some i) :
    p.Claimed b (.ok i) (p.updateSlot i .refer) [.counts i] := by
  refine .cached (find?_holds found) ?_ rfl
  intro j
  rw [slot_updateSlot]
  by_cases same : i = j
  · rw [if_pos same, if_pos same.symm]
    rfl
  · rw [if_neg same, if_neg (Ne.symm same)]

theorem claimed_recycle {p : Pool n} (intact : p.Intact) {b : BlockId} {v : Fin n}
    (absent : p.find? b = none) (chosen : p.leastRecentlyReleased = some v) :
    p.Claimed b (.ok v) (p.recycle v b)
      [.relinks p.slots[v].home,
        .tells (if p.slots[v].mapped then .evicts b v p.slots[v].block else .takesUnused b v),
        .counts v, .relinks b.bucket] := by
  refine .recycled ((find?_none p intact b).mp absent) (victim_leastRecentlyReleased chosen) ?_
    (represents_recycle intact v b)
  intro j
  rw [slot_recycle]
  by_cases same : v = j
  · rw [if_pos same, if_pos same.symm]
    rfl
  · rw [if_neg same, if_neg (Ne.symm same)]

theorem claimed_overtakes {p q : Pool n} {b : BlockId} {result : Except CacheFault (Fin n)}
    {acts : List (Cache.Act n)} (claimed : p.Claimed b result q acts) (i : Nat) :
    .tells (.overtaken i) ∉ acts := by
  cases claimed with
  | cached => simp
  | recycled =>
    split <;> simp
  | exhausted => exact List.not_mem_nil

theorem claimed_free {p q : Pool n} {b : BlockId} {result : Except CacheFault (Fin n)}
    {acts : List (Cache.Act n)} (claimed : p.Claimed b result q acts)
    (free : ∃ i : Fin n, p.slots[i].refs = 0) : result ≠ .error .noBuffers := by
  cases claimed with
  | cached => exact nofun
  | recycled => exact nofun
  | exhausted _ referenced =>
    obtain ⟨i, none⟩ := free
    exact absurd none (referenced i)

end Pool

namespace Cache

open Operation

theorem claim_claimed (e : Execution PoolLock (Act n) (Cache n × Clock)) (b : BlockId)
    (intact : e.state.1.pool.Intact) :
    ∃ result pool acts, (claim b).Ends e result ({ e.state.1 with pool }, e.state.2) acts ∧
      e.state.1.pool.Claimed b result pool acts := by
  cases found : e.state.1.pool.find? b with
  | some i => exact ⟨_, _, _, claim_found e found, Pool.claimed_found found⟩
  | none =>
    cases chosen : e.state.1.pool.leastRecentlyReleased with
    | some v => exact ⟨_, _, _, claim_recycles e found chosen, Pool.claimed_recycle intact found chosen⟩
    | none =>
      exact ⟨_, _, _, claim_exhausted e found chosen,
        .exhausted ((Pool.find?_none _ intact b).mp found) (Pool.referenced_of_none chosen)⟩

theorem takeVictim_first (b : BlockId) (rounds : Nat)
    (e : Execution PoolLock (Act n) (Cache n × Clock)) :
    (takeVictim b (rounds + 1)).run e = (takeVictim b 1).run e := by
  cases chosen : e.state.1.pool.leastRecentlyReleased with
  | none =>
    unfold takeVictim
    simp [chosen]
  | some v =>
    have unreferenced := Pool.refs_leastRecentlyReleased chosen
    unfold takeVictim unlinkUnreferenced
    by_cases here : e.state.1.pool.slots[v].home = b.bucket <;> simp [chosen, unreferenced, here]

end Cache

namespace Machine

-- Two machines that differ at most in the pool of cache `c` and in what they have done.
structure Beside (s t : Machine n m) (c : Fin m) : Prop where
  others : ∀ d : Fin m, d ≠ c → t.caches[d] = s.caches[d]
  disk : t.caches[c].disk = s.caches[c].disk
  clock : t.clock = s.clock
  cpu : ∀ task, t.cpu task = s.cpu task
  held : t.held = s.held
  pins : t.pins = s.pins
  asleep : t.asleep = s.asleep

variable {α : Type} {s : Machine n m} {task : TaskId} {c : Fin m}

theorem run_beside {op : Cache.Run n α} {result : Except CacheFault α} {pool : Pool n}
    {acts : List (Cache.Act n)}
    (ends : op.Ends (s.entry task c) result ({ s.caches[c] with pool }, s.clock) acts) :
    s.Beside (s.run task c op).2 c ∧ (s.run task c op).2.caches[c].pool = pool := by
  have traced := run_traced ends
  have state : (op.run (.start task (s.cpu task) (s.caches[c], s.clock))).2.state.1 =
      { s.caches[c] with pool } := congrArg Prod.fst ends.state
  refine ⟨⟨?_, ?_, traced.clock, traced.cpu, rfl, rfl, rfl⟩, ?_⟩
  · intro d other
    rw [cache_run, if_neg (Ne.symm other)]
  · rw [cache_run, if_pos rfl, state]
  · rw [cache_run, if_pos rfl, state]

theorem run_claim_claimed (s : Machine n m) (task : TaskId) (c : Fin m) (b : BlockId)
    (intact : s.caches[c].pool.Intact) (fresh : s.past = []) :
    s.caches[c].pool.Claimed b (s.run task c (Cache.claim b)).1
        (s.run task c (Cache.claim b)).2.caches[c].pool ((s.run task c (Cache.claim b)).2.actsAt c) ∧
      s.Beside (s.run task c (Cache.claim b)).2 c := by
  obtain ⟨result, pool, acts, ends, claimed⟩ := Cache.claim_claimed (s.entry task c) b intact
  obtain ⟨beside, left⟩ := run_beside ends
  have told : (s.run task c (Cache.claim b)).1 = result := ends.result
  have done := (run_traced ends).acts c
  rw [if_pos rfl] at done
  have nothing : s.actsAt c = [] := by
    rw [actsAt, fresh]
    rfl
  rw [nothing, List.nil_append] at done
  rw [told, left, done]
  exact ⟨claimed, beside⟩

theorem call_claims {s : Machine n m} {name : String} (unused : s.held.find? name = none) (task : TaskId)
    (c : Fin m) (b : BlockId) (loads : Bool) :
    (∀ i, (s.run task c (Cache.claim b)).1 = .ok i → s.call task c b loads name =
      (s.run task c (Cache.claim b)).2.enter task ⟨⟨c, i⟩, b, loads, name⟩) ∧
    ∀ fault, (s.run task c (Cache.claim b)).1 = .error fault → s.call task c b loads name =
      (.halted fault, (s.run task c (Cache.claim b)).2) := by
  unfold call
  rw [unused]
  dsimp only
  generalize s.run task c (Cache.claim b) = ran
  obtain ⟨result, t⟩ := ran
  constructor
  · rintro i rfl
    rfl
  · rintro fault rfl
    rfl

theorem run_isCached_answer (s : Machine n m) (task : TaskId) (c : Fin m) (b : BlockId)
    (intact : s.caches[c].pool.Intact) :
    ∃ answer, (s.run task c (Cache.isCached b)).1 = .ok answer ∧
      (answer = true ↔ ∃ i : Fin n, s.caches[c].pool.slots[i].holds b = true) ∧
      s.Beside (s.run task c (Cache.isCached b)).2 c ∧
      (s.run task c (Cache.isCached b)).2.caches[c].pool = s.caches[c].pool := by
  have ends := Cache.isCached_ends (s.entry task c) b
  refine ⟨(s.caches[c].pool.find? b).isSome, ends.result, ?_, run_beside ends⟩
  rw [Option.isSome_iff_exists]
  exact exists_congr fun i => Pool.find?_some _ intact b i

end Machine

namespace Account

open Machine

def outstanding (a : Account n m) (c : Fin m) : Nat :=
  (List.finRange n).foldl (fun total i => total + a.references ⟨c, i⟩) 0

theorem length_le_foldl {α : Type} (f : α → Nat) (l : List α) (total : Nat) (some : ∀ x ∈ l, 0 < f x) :
    total + l.length ≤ l.foldl (fun total x => total + f x) total := by
  induction l generalizing total with
  | nil => exact Nat.le_refl total
  | cons x l ih =>
    have here := some x List.mem_cons_self
    have rest := ih (total + f x) fun y member => some y (List.mem_cons_of_mem x member)
    rw [List.foldl_cons, List.length_cons]
    omega

theorem free_of_outstanding {a : Account n m} (sound : Sound a) {c : Fin m}
    (few : a.outstanding c < n) : ∃ i : Fin n, (a.machine.slot ⟨c, i⟩).refs = 0 := by
  by_contra taken
  have all : ∀ i ∈ List.finRange n, 0 < a.references ⟨c, i⟩ := by
    intro i _
    have balance : (a.machine.slot ⟨c, i⟩).refs.toNat = a.references ⟨c, i⟩ :=
      sound.accounted.balance ⟨c, i⟩
    rw [← balance]
    refine Nat.pos_of_ne_zero fun none => taken ⟨i, ?_⟩
    exact UInt32.toNat_inj.mp none
  have many := length_le_foldl (fun i => a.references ⟨c, i⟩) (List.finRange n) 0 all
  rw [List.length_finRange] at many
  rw [outstanding] at few
  omega

-- In every state that the tasks can bring about, whoever claims a block gets the one buffer of the pool
-- that carries it, or else the one to recycle, or is refused when all buffers are referenced; the pool
-- changes by this alone and the rest of the machine does not. A refusal needs as many references as there
-- are buffers, and the search for a buffer to recycle never goes on to a second round.
theorem claims_are_exact {disks : Vector Disk m} {a : Account n m}
    (path : Run Orderly (start n disks) a) (task : TaskId) (c : Fin m) (b : BlockId) :
    let s := a.machine.opened
    let ran := s.run task c (Cache.claim b)
    let asked := s.run task c (Cache.isCached b)
    (s.caches[c].pool.Claimed b ran.1 ran.2.caches[c].pool (ran.2.actsAt c) ∧ s.Beside ran.2 c) ∧
    (∀ i : Fin n, (s.slot ⟨c, i⟩).holds b = true → a.references ⟨c, i⟩ + 1 < UInt32.size →
      (ran.2.slot ⟨c, i⟩).refs.toNat = (s.slot ⟨c, i⟩).refs.toNat + 1) ∧
    (∀ loads name, s.held.find? name = none →
      (∀ i, ran.1 = .ok i →
        s.call task c b loads name = ran.2.enter task ⟨⟨c, i⟩, b, loads, name⟩) ∧
      ∀ fault, ran.1 = .error fault → s.call task c b loads name = (.halted fault, ran.2)) ∧
    CacheFault.noBuffers.message = "bget: no buffers" ∧
    (a.outstanding c < n → ran.1 ≠ .error .noBuffers) ∧
    (∃ answer, asked.1 = .ok answer ∧
      (answer = true ↔ ∃ i : Fin n, s.caches[c].pool.slots[i].holds b = true) ∧
      s.Beside asked.2 c ∧ asked.2.caches[c].pool = s.caches[c].pool) ∧
    (∀ i, .tells (.overtaken i) ∉ ran.2.actsAt c) ∧
    ∀ rounds e, (Cache.takeVictim (n := n) b (rounds + 1)).run e = (Cache.takeVictim b 1).run e := by
  have sound := run_sound path (sound_start disks)
  have claimed := run_claim_claimed a.machine.opened task c b (sound.intact c) rfl
  refine ⟨claimed, ?_, fun loads name unused => call_claims unused task c b loads, rfl, ?_,
    run_isCached_answer a.machine.opened task c b (sound.intact c),
    Pool.claimed_overtakes claimed.1, Cache.takeVictim_first b⟩
  · intro i holds room
    have balance : (a.machine.opened.slot ⟨c, i⟩).refs.toNat = a.references ⟨c, i⟩ :=
      sound.accounted.balance ⟨c, i⟩
    have found := (Pool.find?_some _ (sound.intact c) b i).mpr holds
    obtain ⟨t, ran, agrees⟩ := run_claim_found a.machine.opened task found
    have counted : (t.slot ⟨c, i⟩).refs = (a.machine.opened.slot ⟨c, i⟩).refs + 1 := by
      rw [agrees.slot, slot_updateSlot, if_pos rfl]
      rfl
    rw [ran]
    dsimp only
    rw [counted, UInt32.toNat_add, balance]
    exact Nat.mod_eq_of_lt room
  · intro few
    exact Pool.claimed_free claimed.1 (free_of_outstanding sound few)

-- One of two buffers is given back and the other is still out. The block that is claimed then belongs on
-- the list of the one that was given back.
theorem claims_are_exact_recycled :
    let a := (((start 2 #v[.zeroed]).next ⟨1⟩ (.read 0 ⟨1, 5⟩ "a")).next ⟨2⟩
      (.read 0 ⟨1, 6⟩ "b")).next ⟨1⟩ (.release "a")
    let ran := a.machine.opened.run ⟨1⟩ 0 (Cache.claim ⟨1, 18⟩)
    Run Orderly (start 2 #v[.zeroed]) a ∧ a.outstanding 0 = 1 ∧ ran.1 = .ok 0 ∧
      ran.1 ≠ .error .noBuffers := by
  have path : Run Orderly (start 2 #v[.zeroed]) ((((start 2 #v[.zeroed]).next ⟨1⟩
      (.read 0 ⟨1, 5⟩ "a")).next ⟨2⟩ (.read 0 ⟨1, 6⟩ "b")).next ⟨1⟩ (.release "a")) := by
    refine .step (.step (.step .refl ?_) ?_) ?_ <;> exact ⟨trivial, by decide +kernel⟩
  obtain ⟨-, -, -, -, available, -⟩ := claims_are_exact path ⟨1⟩ 0 ⟨1, 18⟩
  exact ⟨path, by decide +kernel, by decide +kernel, available (by decide +kernel)⟩

end Account

end KernelResources.Buffer
