import KernelResources.Proofs.Buffer.CacheStructure
import KernelResources.Proofs.Buffer.LockWaits

namespace KernelResources.Buffer

variable {n : Nat}

namespace Pool

variable {p q r : Pool n}

theorem find?_sameTags (same : p.SameTags q) (b : BlockId) : p.find? b = q.find? b := by
  obtain ⟨buckets, tags⟩ := same
  have holds : ∀ i : Fin n, p.slots[i].holds b = q.slots[i].holds b := fun i => by
    simp [Slot.holds, (tags i).1, (tags i).2]
  simp only [find?, buckets, holds]

theorem sameTags_updateBucket (same : p.SameTags q) (b : Fin bucketCount) (f : Bucket n → Bucket n) :
    (p.updateBucket b f).SameTags (q.updateBucket b f) := by
  refine ⟨?_, same.2⟩
  simp only [updateBucket, same.1]

theorem sameTags_unlink (same : p.SameTags q) (i : Fin n) : (p.unlink i).SameTags (q.unlink i) := by
  unfold unlink
  rw [(same.2 i).home]
  exact sameTags_updateBucket same _ _

theorem sameTags_retag (same : p.SameTags q) (i : Fin n) (b : BlockId) :
    (p.updateSlot i (·.retag b)).SameTags (q.updateSlot i (·.retag b)) := by
  refine ⟨same.1, fun j => ?_⟩
  simp only [slot_updateSlot]
  split
  · exact ⟨rfl, rfl⟩
  · exact same.2 j

-- From `p` to `q`, but for counts, stamps and what is behind the sleep locks, by one claim that nobody
-- interrupts.
def Claims (p q : Pool n) : Prop :=
  ∃ (e : Execution PoolLock (Cache.Act n) (Cache n × Clock)) (b : BlockId),
    p.SameTags e.state.1.pool ∧ ((Cache.claim b).run e).2.state.1.pool.SameTags q

theorem Claims.trans_same (claims : p.Claims q) (same : q.SameTags r) : p.Claims r := by
  obtain ⟨e, b, before, after⟩ := claims
  exact ⟨e, b, before, after.trans same⟩

theorem claims_recycle {seen : Pool n} {b : BlockId} {i : Fin n} (same : p.SameTags seen)
    (absent : p.find? b = none) (chosen : seen.leastRecentlyReleased = some i)
    (recycled : (p.recycle i b).SameTags q) : p.Claims q := by
  rw [find?_sameTags same] at absent
  let e : Execution PoolLock (Cache.Act n) (Cache n × Clock) :=
    .start ⟨0⟩ .fresh (⟨seen, .zeroed⟩, .start)
  have ends := Cache.claim_recycles e absent chosen
  have again := sameTags_updateBucket (sameTags_retag (sameTags_unlink same.symm i) i b) b.bucket
    (·.pushFront i)
  refine ⟨e, b, same, ?_⟩
  rw [ends.state]
  exact again.trans recycled

theorem Claims.intact (claims : p.Claims q) (intact : p.Intact) : q.Intact := by
  obtain ⟨e, b, before, after⟩ := claims
  have started := intact_sameTags intact before
  refine intact_sameTags ?_ after
  cases found : e.state.1.pool.find? b with
  | some i =>
    rw [(Cache.claim_found e found).state]
    exact intact_sameTags started (sameTags_updateSlot _ i ⟨rfl, rfl⟩)
  | none =>
    cases chosen : e.state.1.pool.leastRecentlyReleased with
    | some i =>
      rw [(Cache.claim_recycles e found chosen).state]
      exact intact_recycle started i ((find?_none _ started b).mp found)
    | none =>
      rw [(Cache.claim_exhausted e found chosen).state]
      exact started

-- While somebody has the pool lock who found the pool as `was`: it is that still, or a buffer is off its
-- list, or a whole claim was made.
inductive Midway (was now : Pool n) : Prop where
  | untouched (same : was.SameTags now)
  | unlinked (i : Fin n) (same : (was.unlink i).SameTags now)
  | claimed (claims : was.Claims now)

theorem Midway.trans_same (midway : p.Midway q) (same : q.SameTags r) : p.Midway r := by
  cases midway with
  | untouched before => exact .untouched (before.trans same)
  | unlinked i before => exact .unlinked i (before.trans same)
  | claimed claims => exact .claimed (claims.trans_same same)

end Pool

namespace Cache.Script

open Course Operation

-- A thread is without the pool lock, or has it since the pool was `was`, and has made it `now`.
inductive Stage (n : Nat) where
  | apart
  | alone (was now : Pool n)

variable {α β : Type} {goal : Stage n → Except CacheFault α → Prop} {stage : Stage n}
  {was now : Pool n} {script : Script n α}

-- The course changes lists and blocks under the pool lock only, gives the lock back with a whole claim
-- made or none, and ends as `goal` has it. Between its parts the others may change what is no list and no
-- block.
def Serial (goal : Stage n → Except CacheFault α → Prop) : Stage n → Script n α → Prop
  | stage, .ends result => goal stage result
  | .apart, .works part next => part.Keeps SameTags ∧ ∀ result, Serial goal .apart (next result)
  | .alone was now, .works part next => ∀ e, now.SameTags e.state.1.pool →
      was.Midway (part.run e).2.state.1.pool ∧
        Serial goal (.alone was (part.run e).2.state.1.pool) (next (part.run e).1)
  | .apart, .takes .pool next => ∀ was : Pool n, was.Intact → Serial goal (.alone was was) next
  | .alone .., .takes .pool _ => False
  | stage, .takes (.bucket _) next => Serial goal stage next
  | .alone was now, .gives .pool next => (was.SameTags now ∨ was.Claims now) ∧ Serial goal .apart next
  | .apart, .gives .pool _ => False
  | stage, .gives (.bucket _) next => Serial goal stage next

theorem serial_settle {middle : Stage n → Except CacheFault α → Prop}
    {goal : Stage n → Except CacheFault β → Prop} {next : Except CacheFault α → Script n β}
    (first : Serial middle stage script)
    (later : ∀ stage result, middle stage result → Serial goal stage (next result)) :
    Serial goal stage (script.settle next) := by
  induction script generalizing stage with
  | ends result => exact later stage result first
  | works part rest ih =>
    cases stage with
    | apart => exact ⟨first.1, fun result => ih result (first.2 result)⟩
    | alone was now => exact fun e same => ⟨(first e same).1, ih _ (first e same).2⟩
  | takes lock rest ih =>
    cases lock with
    | bucket b => cases stage <;> exact ih first
    | pool =>
      cases stage with
      | apart => exact fun was intact => ih (first was intact)
      | alone was now => exact first.elim
  | gives lock rest ih =>
    cases lock with
    | bucket b => cases stage <;> exact ih first
    | pool =>
      cases stage with
      | apart => exact first.elim
      | alone was now => exact ⟨first.1, ih first.2⟩

theorem serial_holding (b : Fin bucketCount) (body : Serial goal stage script) :
    Serial goal stage (script.holding (.bucket b)) := by
  have given : ∀ stage result, goal stage result → Serial goal stage (.gives (.bucket b) (.ends result)) :=
    fun stage result reached => by cases stage <;> exact reached
  cases stage <;> exact serial_settle body given

theorem serial_takesAll (buckets : List (Fin bucketCount)) (rest : Serial goal stage script) :
    Serial goal stage (takesAll (buckets.map .bucket) script) := by
  induction buckets with
  | nil => exact rest
  | cons b buckets ih => cases stage <;> exact ih

theorem serial_givesAll (buckets : List (Fin bucketCount)) (rest : Serial goal stage script) :
    Serial goal stage (givesAll (buckets.map .bucket) script) := by
  induction buckets with
  | nil => exact rest
  | cons b buckets ih => cases stage <;> exact ih

theorem serial_holdingAll (buckets : List (Fin bucketCount)) (body : Serial goal stage script) :
    Serial goal stage (script.holdingAll (buckets.map .bucket)) :=
  serial_takesAll buckets (serial_settle body fun _ _ reached => serial_givesAll buckets reached)

-- The course takes the pool lock and gives it back as often as it likes, and ends without it.
def Completes (script : Script n α) (stage : Stage n) : Prop :=
  Serial (fun stage _ => stage = .apart) stage script

theorem completes_sameTags {after : Pool n} (same : now.SameTags after)
    (serial : script.Completes (.alone was now)) : script.Completes (.alone was after) := by
  induction script with
  | ends result => cases serial
  | works part next ih => exact fun e still => serial e (same.trans still)
  | takes lock next ih =>
    cases lock with
    | pool => exact serial.elim
    | bucket b => exact ih serial
  | gives lock next ih =>
    cases lock with
    | pool => exact ⟨serial.1.imp (·.trans same) (·.trans_same same), serial.2⟩
    | bucket b => exact ih serial

section Apart

def Whole (script : Script n α) : Prop := script.Completes .apart

theorem whole_settle {next : Except CacheFault α → Script n β} (first : script.Whole)
    (later : ∀ result, (next result).Whole) : Whole (script.settle next) := by
  refine serial_settle first fun stage result apart => ?_
  rw [apart]
  exact later result

theorem whole_work {part : Cache.Run n α} (keeps : part.Keeps SameTags) : Whole (work part) :=
  ⟨keeps, fun _ => rfl⟩

theorem whole_bind {next : α → Script n β} (first : script.Whole) (later : ∀ value, (next value).Whole) :
    Whole (script >>= next) :=
  whole_settle first fun
    | .ok value => later value
    | .error _ => rfl

theorem whole_tryCatch {handler : CacheFault → Script n α} (first : script.Whole)
    (later : ∀ fault, (handler fault).Whole) : Whole (tryCatch script handler) :=
  whole_settle first fun
    | .ok _ => rfl
    | .error fault => later fault

theorem whole_masked (body : script.Whole) : Whole script.masked := by
  refine ⟨tags_still Execution.state_takeGuard, fun result => ?_⟩
  cases result with
  | error fault => exact rfl
  | ok guard =>
    exact whole_settle body fun _ => ⟨tags_still fun e => e.state_dropGuard guard, fun _ => rfl⟩

-- What is done under the pool lock.
def Returned : Stage n → Except CacheFault α → Prop
  | .apart, _ => False
  | .alone was now, _ => was.SameTags now ∨ was.Claims now

theorem whole_alone (body : ∀ was : Pool n, was.Intact → Serial Returned (.alone was was) script) :
    Whole (script.holding .pool) := by
  refine fun was intact => serial_settle (body was intact) fun stage result returned => ?_
  cases stage with
  | apart => exact returned.elim
  | alone was now => exact ⟨returned, rfl⟩

end Apart

section Alone

-- The lock is still that of the pool `was`.
def Left (was : Pool n) (left : Except CacheFault α → Pool n → Prop) (stage : Stage n)
    (result : Except CacheFault α) : Prop :=
  ∃ now, stage = .alone was now ∧ left result now

variable {left : Except CacheFault α → Pool n → Prop}

theorem alone_work {part : Cache.Run n α} (does : ∀ e, now.SameTags e.state.1.pool →
      was.Midway (part.run e).2.state.1.pool ∧ left (part.run e).1 (part.run e).2.state.1.pool) :
    Serial (Left was left) (.alone was now) (work part) :=
  fun e same => ⟨(does e same).1, _, rfl, (does e same).2⟩

theorem alone_bind {goal : Stage n → Except CacheFault β → Prop} {next : α → Script n β}
    (first : Serial (Left was left) (.alone was now) script)
    (later : ∀ value now, left (.ok value) now → Serial goal (.alone was now) (next value))
    (faults : ∀ fault now, left (.error fault) now → goal (.alone was now) (.error fault)) :
    Serial goal (.alone was now) (script >>= next) := by
  refine serial_settle first fun stage result reached => ?_
  obtain ⟨now, rfl, here⟩ := reached
  cases result with
  | ok value => exact later value now here
  | error fault => exact faults fault now here

def Tried (was : Pool n) (i : Fin n) (result : Except CacheFault Bool) (now : Pool n) : Prop :=
  match result with
  | .ok true => (was.unlink i).SameTags now
  | .ok false => was.SameTags now
  | .error _ => False

theorem alone_unlink {i : Fin n} {home : Fin bucketCount} (same : was.SameTags now)
    (belongs : was.slots[i].home = home) :
    Serial (Left was (Tried was i)) (.alone was now) (work (unlinkUnreferenced i home)) := by
  refine alone_work fun e seen => ?_
  have kept := same.trans seen
  by_cases free : e.state.1.pool.slots[i].refs = 0
  · have result : ((unlinkUnreferenced i home).run e).1 = .ok true := by
      simp [unlinkUnreferenced, free]
    have pool : ((unlinkUnreferenced i home).run e).2.state.1.pool = e.state.1.pool.unlink i := by
      simp [unlinkUnreferenced, free, ← belongs, (kept.2 i).home, Pool.unlink]
    rw [result, pool]
    exact ⟨.unlinked i (Pool.sameTags_unlink kept i), Pool.sameTags_unlink kept i⟩
  · have refused : (unlinkUnreferenced i home).run e = (.ok false, e) := by
      simp [unlinkUnreferenced, free]
    rw [refused]
    exact ⟨.untouched kept, kept⟩

-- The buffer was chosen in some state of the pool since the lock was taken, and is off its list.
def Emptied (was : Pool n) (result : Except CacheFault (Fin n)) (now : Pool n) : Prop :=
  match result with
  | .ok i => ∃ seen, was.SameTags seen ∧ seen.leastRecentlyReleased = some i ∧ (was.unlink i).SameTags now
  | .error _ => was.SameTags now

theorem alone_takeVictim (b : BlockId) (rounds : Nat) (same : was.SameTags now) :
    Serial (Left was (Emptied was)) (.alone was now) (takeVictim b rounds) := by
  induction rounds generalizing now with
  | zero => exact ⟨now, rfl, same⟩
  | succ rounds ih =>
    have looked : Serial (Left was fun result now =>
        result = .ok now.leastRecentlyReleased ∧ was.SameTags now) (.alone was now)
        (work (view (·.1.pool.leastRecentlyReleased)) : Script n _) :=
      alone_work fun e seen => ⟨.untouched (same.trans seen), rfl, same.trans seen⟩
    refine alone_bind looked (fun chosen seen found => ?_) fun _ _ found => nomatch found.1
    obtain ⟨result, before⟩ := found
    obtain rfl := Except.ok.inj result
    cases chosen : seen.leastRecentlyReleased with
    | none => exact ⟨seen, rfl, before⟩
    | some i =>
      have read : Serial (Left was fun result now =>
          result = .ok now.slots[i] ∧ was.SameTags now) (.alone was seen)
          (work (slot i) : Script n _) :=
        alone_work fun e still => ⟨.untouched (before.trans still), rfl, before.trans still⟩
      refine alone_bind read (fun slot now found => ?_) fun _ _ found => nomatch found.1
      obtain ⟨result, kept⟩ := found
      obtain rfl := Except.ok.inj result
      have later : ∀ unlinked after, Tried was i (.ok unlinked) after →
          Serial (Left was (Emptied was)) (.alone was after)
            (if unlinked = true then pure i else
              work (act (.tells (.overtaken i))) >>= fun _ => takeVictim b rounds : Script n (Fin n)) := by
        intro unlinked after tried
        cases unlinked with
        | true => exact ⟨after, rfl, seen, before, chosen, tried⟩
        | false =>
          have told : Serial (Left was fun result now => result = .ok () ∧ was.SameTags now)
              (.alone was after) (work (act (.tells (.overtaken i))) : Script n _) :=
            alone_work fun e still => ⟨.untouched (.trans tried still), rfl, .trans tried still⟩
          exact alone_bind told (fun _ _ found => ih found.2) fun _ _ found => nomatch found.1
      have tried := alone_unlink (i := i) kept (kept.2 i).home
      by_cases here : now.slots[i].home = b.bucket
      · dsimp only
        rw [if_pos here]
        exact alone_bind tried later fun _ _ fault => fault.elim
      · dsimp only
        rw [if_neg here]
        exact alone_bind (serial_holding _ tried) later fun _ _ fault => fault.elim

theorem tags_takeCached (b : BlockId) : (takeCached b : Cache.Run n _).Keeps SameTags := by
  refine tags_bind (tags_still fun _ => rfl) fun found => ?_
  cases found with
  | some i => exact tags_bind (tags_contents (contents_count i _)) fun _ => tags_still fun _ => rfl
  | none => exact tags_still fun _ => rfl

theorem alone_takeCached (b : BlockId) :
    Serial (Left was fun result now => result = .ok (was.find? b) ∧ was.SameTags now)
      (.alone was was) (work (takeCached b)) := by
  refine alone_work fun e seen => ?_
  have kept := seen.trans (tags_takeCached b e)
  have result : ((takeCached b).run e).1 = .ok (was.find? b) := by
    rw [Pool.find?_sameTags seen]
    cases found : e.state.1.pool.find? b <;> simp [takeCached, found]
  exact ⟨.untouched kept, result, kept⟩

theorem alone_retag {i : Fin n} {b : BlockId} {seen : Pool n} (absent : was.find? b = none)
    (before : was.SameTags seen) (chosen : seen.leastRecentlyReleased = some i)
    (unlinked : (was.unlink i).SameTags now) :
    Serial (Left was fun _ now => was.Claims now) (.alone was now) (work (retag i b)) := by
  refine alone_work fun e same => ?_
  have pool : ((retag i b).run e).2.state.1.pool =
      (e.state.1.pool.updateSlot i (·.retag b)).updateBucket b.bucket (·.pushFront i) := by
    simp [retag]
  have again := Pool.sameTags_updateBucket (Pool.sameTags_retag (unlinked.trans same) i b) b.bucket
    (·.pushFront i)
  have claims : was.Claims ((retag i b).run e).2.state.1.pool := by
    rw [pool]
    exact Pool.claims_recycle before absent chosen again
  exact ⟨.claimed claims, claims⟩

end Alone

theorem whole_claim (rounds : Nat) (b : BlockId) : Whole (claim rounds b : Script n (Fin n)) := by
  refine whole_masked (whole_bind (serial_holding _ (whole_work (tags_takeCached b))) fun found => ?_)
  cases found with
  | some i => exact rfl
  | none =>
    refine whole_alone fun was intact => serial_holding _ ?_
    refine alone_bind (alone_takeCached b) (fun again now found => ?_) fun _ _ found => nomatch found.1
    obtain ⟨result, same⟩ := found
    obtain rfl := Except.ok.inj result
    cases absent : was.find? b with
    | some i => exact .inl same
    | none =>
      refine alone_bind (alone_takeVictim b rounds same) (fun i now emptied => ?_) fun _ _ same => .inl same
      obtain ⟨seen, before, chosen, unlinked⟩ := emptied
      exact alone_bind (alone_retag absent before chosen unlinked) (fun _ _ claims => .inr claims)
        fun _ _ claims => .inr claims

theorem whole_underHome (i : Fin n) {body : Script n α} (whole : body.Whole) :
    Whole (underHome i body) :=
  whole_masked (whole_bind (whole_work (tags_still fun _ => rfl)) fun _ => serial_holding _ whole)

theorem whole_unless (wrong : Prop) [Decidable wrong] (fault : CacheFault) (body : script.Whole) :
    Whole (do
      if wrong then throw fault
      script) := by
  split
  · exact rfl
  · exact body

theorem whole_count (i : Fin n) (f : UInt32 → UInt32) : Whole (work (count i f)) :=
  whole_work (tags_contents (contents_count i f))

theorem whole_dropReleased (i : Fin n) : Whole (dropReleased i) :=
  whole_bind (whole_work fun _ => Pool.SameTags.refl _) fun _ => whole_underHome i <|
    whole_bind (whole_work (tags_still fun _ => rfl)) fun _ => whole_unless _ _ <|
      whole_bind (whole_count i _) fun _ => whole_bind (whole_work (tags_still fun _ => rfl)) fun _ =>
        whole_work (tags_updateSlot i fun _ => ⟨rfl, rfl⟩)

theorem whole_release (i : Fin n) : Whole (release i) :=
  whole_bind (whole_work (tags_still fun _ => rfl)) fun _ =>
    whole_bind (whole_work (tags_still fun _ => rfl)) fun _ => whole_unless _ _ <|
      whole_bind (whole_work (tags_still fun _ => rfl)) fun _ =>
        whole_bind (whole_work (tags_updateSlot i fun _ => ⟨rfl, rfl⟩)) fun _ => whole_dropReleased i

theorem whole_loadOrRelease (i : Fin n) (b : BlockId) : Whole (loadOrRelease i b) :=
  whole_tryCatch (whole_work (tags_load i b)) fun _ => whole_bind (whole_release i) fun _ => rfl

theorem whole_unpin (i : Fin n) (own : Bool) : Whole (unpin i own) :=
  whole_unless _ _ <| whole_underHome i <| whole_bind (whole_work (tags_still fun _ => rfl)) fun _ =>
    whole_unless _ _ (whole_count i _)

theorem whole_isCached (b : BlockId) : Whole (isCached b : Script n Bool) :=
  whole_masked (serial_holding _ (whole_work (tags_still fun _ => rfl)))

theorem whole_audit : Whole (audit : Script n _) := by
  refine whole_masked (whole_alone fun was intact => serial_holdingAll _ ?_)
  exact fun e same => ⟨.untouched same, .inl same⟩

end Cache.Script

theorem Cache.Call.script_whole (call : Cache.Call n) (rounds : Nat) :
    Cache.Script.Whole (call.script rounds) := by
  cases call with
  | claim b => exact Cache.Script.whole_claim rounds b
  | enter i => exact Cache.Script.whole_work (Cache.tags_enter i)
  | load i b => exact Cache.Script.whole_loadOrRelease i b
  | write i => exact Cache.Script.whole_work (Cache.tags_write i)
  | release i => exact Cache.Script.whole_release i
  | pin i => exact Cache.Script.whole_underHome i (Cache.Script.whole_count i _)
  | unpin i own => exact Cache.Script.whole_unpin i own
  | isCached b => exact Cache.Script.whole_isCached b
  | audit => exact Cache.Script.whole_audit

namespace Contention

open Cache.Script

variable {ι : Type} {x y : Contention ι n} {who : ι} {first was : Pool n}

-- The pool was `was` when the pool lock was last free, if it is not free now.
structure Sequenced (first was : Pool n) (x : Contention ι n) : Prop where
  claims : Relation.ReflTransGen Pool.Claims first was
  intact : was.Intact
  free : x.owner .pool = none → was.SameTags x.shared.1.pool
  midway : was.Midway x.shared.1.pool
  alone : ∀ who, x.owner .pool = some who →
    (x.threads who).rest.Completes (.alone was x.shared.1.pool)
  apart : ∀ who, x.owner .pool ≠ some who → (x.threads who).rest.Whole

theorem sequenced_start (shared : Cache n × Clock) (intact : shared.1.pool.Intact) :
    Sequenced shared.1.pool shared.1.pool (start ι shared) where
  claims := .refl
  intact := intact
  free := fun _ => .refl _
  midway := .untouched (.refl _)
  alone := nofun
  apart := fun _ _ => rfl

theorem sequenced_change (sequenced : Sequenced first was x) {shared : Cache n × Clock}
    (same : x.shared.1.pool.SameTags shared.1.pool) : Sequenced first was { x with shared } where
  claims := sequenced.claims
  intact := sequenced.intact
  free := fun free => (sequenced.free free).trans same
  midway := sequenced.midway.trans_same same
  alone := fun who mine => completes_sameTags same (sequenced.alone who mine)
  apart := sequenced.apart

variable [DecidableEq ι]

-- A thread goes on without the pool lock.
theorem sequenced_apart (sequenced : Sequenced first was x) {thread : Thread n}
    {owner : PoolLock → Option ι} (own : owner .pool = x.owner .pool) (other : x.owner .pool ≠ some who)
    (whole : thread.rest.Whole) : Sequenced first was
      { shared := x.shared, owner, threads := fun other => if other = who then thread else x.threads other } := by
  refine ⟨sequenced.claims, sequenced.intact, fun free => sequenced.free (own.symm.trans free),
    sequenced.midway, fun whom theirs => ?_, fun whom differs => ?_⟩
  · have held := own.symm.trans theirs
    have unlike : whom ≠ who := fun same => other (same ▸ held)
    dsimp only
    rw [if_neg unlike]
    exact sequenced.alone whom held
  · dsimp only
    split
    · exact whole
    · exact sequenced.apart whom fun held => differs (own.trans held)

-- A thread goes on that has the pool lock then.
theorem sequenced_alone (sequenced : Sequenced first was x) {thread : Thread n}
    {owner : PoolLock → Option ι} {shared : Cache n × Clock} (own : owner .pool = some who)
    (before : x.owner .pool = some who ∨ x.owner .pool = none) (midway : was.Midway shared.1.pool)
    (serial : thread.rest.Completes (.alone was shared.1.pool)) :
    Sequenced first was
      { shared, owner, threads := fun other => if other = who then thread else x.threads other } := by
  refine ⟨sequenced.claims, sequenced.intact, fun free => ?_, midway, fun whom mine => ?_,
    fun whom differs => ?_⟩
  · cases own.symm.trans free
  · have same : whom = who := Option.some.inj (mine.symm.trans own)
    dsimp only
    rwa [if_pos same]
  · have unlike : whom ≠ who := fun same => differs (same ▸ own)
    dsimp only
    rw [if_neg unlike]
    refine sequenced.apart whom fun held => ?_
    rw [held] at before
    exact before.elim (fun same => unlike (Option.some.inj same)) nofun

theorem sequenced_begin (sequenced : Sequenced first was x) (idle : (x.threads who).Idle) (task : TaskId)
    (cpu : Processor) (call : Cache.Call n) (rounds : Nat) : Sequenced first was
      (x.setThread who ⟨task, cpu, [], (call.script rounds).settle fun _ => .ends (.ok ())⟩) := by
  obtain ⟨result, ended⟩ := idle
  have other : x.owner .pool ≠ some who := by
    intro mine
    have serial := sequenced.alone who mine
    rw [ended] at serial
    cases serial
  exact sequenced_apart sequenced rfl other (whole_settle (call.script_whole rounds) fun _ => rfl)

theorem sequenced_work (sequenced : Sequenced first was x) {β : Type} {part : Cache.Run n β}
    {next : Except CacheFault β → Cache.Script n Unit} (here : (x.threads who).rest = .works part next) :
    Sequenced first was
      (x.resume who (part.run (x.execution who)).2 (next (part.run (x.execution who)).1)) := by
  by_cases mine : x.owner .pool = some who
  · have serial := sequenced.alone who mine
    rw [here] at serial
    obtain ⟨midway, later⟩ := serial (x.execution who) (.refl _)
    exact sequenced_alone sequenced mine (.inl mine) midway later
  · have whole := sequenced.apart who mine
    rw [here] at whole
    exact sequenced_apart (sequenced_change sequenced (whole.1 (x.execution who))) rfl mine (whole.2 _)

theorem sequenced_take (sequenced : Sequenced first was x) {lock : PoolLock} {next : Cache.Script n Unit}
    (here : (x.threads who).rest = .takes lock next) (free : x.owner lock = none) :
    Sequenced first was
      ((x.resume who ((x.execution who).note (.acquire lock)) next).setOwner lock (some who)) := by
  cases lock with
  | bucket b =>
    by_cases mine : x.owner .pool = some who
    · have serial := sequenced.alone who mine
      rw [here] at serial
      exact sequenced_alone sequenced mine (.inl mine) sequenced.midway serial
    · have whole := sequenced.apart who mine
      rw [here] at whole
      exact sequenced_apart sequenced rfl mine whole
  | pool =>
    have whole := sequenced.apart who fun mine => nomatch free.symm.trans mine
    rw [here] at whole
    exact sequenced_alone sequenced rfl (.inr free) sequenced.midway
      (completes_sameTags (sequenced.free free) (whole was sequenced.intact))

-- The pool lock is given back, and the pool is as it will be found by the next one who takes it.
theorem sequenced_return (sequenced : Sequenced first was x) (mine : x.owner .pool = some who)
    {thread : Thread n} {owner : PoolLock → Option ι} (free : owner .pool = none)
    (returned : was.SameTags x.shared.1.pool ∨ was.Claims x.shared.1.pool) (whole : thread.rest.Whole) :
    ∃ now, Sequenced first now
      { shared := x.shared, owner, threads := fun other => if other = who then thread else x.threads other } := by
  have nobody : ∀ whom, owner .pool ≠ some whom := fun whom held => nomatch free.symm.trans held
  have apart : ∀ whom, (if whom = who then thread else x.threads whom).rest.Whole := by
    intro whom
    split
    · exact whole
    · rename_i unlike
      exact sequenced.apart whom fun held => unlike (Option.some.inj (held.symm.trans mine))
  rcases returned with same | claims
  · exact ⟨was, sequenced.claims, sequenced.intact, fun _ => same, .untouched same,
      fun whom held => absurd held (nobody whom), fun whom _ => apart whom⟩
  · exact ⟨x.shared.1.pool, sequenced.claims.tail claims, claims.intact sequenced.intact, fun _ => .refl _,
      .untouched (.refl _), fun whom held => absurd held (nobody whom), fun whom _ => apart whom⟩

theorem sequenced_give (sequenced : Sequenced first was x) {lock : PoolLock} {next : Cache.Script n Unit}
    (here : (x.threads who).rest = .gives lock next) :
    ∃ now, Sequenced first now
      ((x.resume who ((x.execution who).note (.release lock)) next).setOwner lock none) := by
  by_cases mine : x.owner .pool = some who
  · have serial := sequenced.alone who mine
    rw [here] at serial
    cases lock with
    | bucket b =>
      exact ⟨was, sequenced_alone sequenced mine (.inl mine) sequenced.midway serial⟩
    | pool => exact sequenced_return sequenced mine rfl serial.1 serial.2
  · have whole := sequenced.apart who mine
    rw [here] at whole
    cases lock with
    | bucket b => exact ⟨was, sequenced_apart sequenced rfl mine whole⟩
    | pool => exact whole.elim

theorem sequenced_step (step : Step Cache.SameTags x y) (sequenced : Sequenced first was x) :
    ∃ now, Sequenced first now y := by
  cases step with
  | begins who idle task cpu call rounds => exact ⟨was, sequenced_begin sequenced idle task cpu call rounds⟩
  | works who here => exact ⟨was, sequenced_work sequenced here⟩
  | takes who here free => exact ⟨was, sequenced_take sequenced here free⟩
  | gives who here => exact sequenced_give sequenced here
  | changes shared allowed => exact ⟨was, sequenced_change sequenced allowed⟩

-- Operations that come in between each other at their locks and anywhere else: the lists and the blocks
-- are what claims make of them that are made one after the other, each of them uninterrupted, but for the
-- one under way, if there is one. For this a miss looks again once it has the pool lock.
theorem claims_are_made_one_by_one {shared : Cache n × Clock} (intact : shared.1.pool.Intact)
    (reached : Relation.ReflTransGen (Step Cache.SameTags) (start ι shared) x) :
    (∃ was, Relation.ReflTransGen Pool.Claims shared.1.pool was ∧ was.Intact ∧
      was.Midway x.shared.1.pool ∧ (x.owner .pool = none → was.SameTags x.shared.1.pool)) ∧
    (x.owner .pool = none → x.shared.1.pool.Intact) := by
  have run : ∃ was, Sequenced shared.1.pool was x := by
    induction reached with
    | refl => exact ⟨_, sequenced_start shared intact⟩
    | tail _ step ih =>
      obtain ⟨was, sequenced⟩ := ih
      exact sequenced_step step sequenced
  obtain ⟨was, sequenced⟩ := run
  exact ⟨⟨was, sequenced.claims, sequenced.intact, sequenced.midway, sequenced.free⟩,
    fun free => Pool.intact_sameTags sequenced.intact (sequenced.free free)⟩

-- Two tasks want one block and neither finds it cached. The second one has the pool lock after the first,
-- and finds the block in the buffer of the first, although there is another that was never used.
theorem claims_are_made_one_by_one_raced :
    ∃ x : Contention Bool 2, x.owner .pool = none ∧ (∀ who, (x.threads who).Idle) ∧
      x.shared.1.pool.slots[(0 : Fin 2)].refs = 2 ∧ x.shared.1.pool.slots[(1 : Fin 2)].mapped = false ∧
      x.shared.1.pool.Intact := by
  have called : Relation.ReflTransGen (Step Cache.SameTags) _ _ :=
    .single (.begins (x := .start Bool (.start 2 .zeroed, .start)) true ⟨_, rfl⟩ ⟨1⟩ .fresh (.claim ⟨0, 5⟩) 1)
  have masked := called.tail (.works true rfl)
  have locked := masked.tail (.takes true rfl rfl)
  have missed := (locked.tail (.works true rfl)).tail (.gives true rfl)
  have called := missed.tail (.begins false ⟨_, rfl⟩ ⟨2⟩ .fresh (.claim ⟨0, 5⟩) 1)
  have masked := called.tail (.works false rfl)
  have locked := masked.tail (.takes false rfl rfl)
  have missed := (locked.tail (.works false rfl)).tail (.gives false rfl)
  have locked := (missed.tail (.takes true rfl rfl)).tail (.takes true rfl rfl)
  have again := locked.tail (.works true rfl)
  have chosen := (again.tail (.works true rfl)).tail (.works true rfl)
  have taken := ((chosen.tail (.takes true rfl rfl)).tail (.works true rfl)).tail (.gives true rfl)
  have given := ((taken.tail (.works true rfl)).tail (.gives true rfl)).tail (.gives true rfl)
  have first := given.tail (.works true rfl)
  have locked := (first.tail (.takes false rfl rfl)).tail (.takes false rfl rfl)
  have found := locked.tail (.works false rfl)
  have given := (found.tail (.gives false rfl)).tail (.gives false rfl)
  have second := given.tail (.works false rfl)
  have intact := (claims_are_made_one_by_one (Pool.intact_start 2) second).2 rfl
  exact ⟨_, rfl, fun who => by cases who <;> exact ⟨_, rfl⟩, rfl, rfl, intact⟩

end Contention

end KernelResources.Buffer
