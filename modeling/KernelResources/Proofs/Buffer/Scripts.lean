import KernelResources.Proofs.Buffer.Calls
import KernelResources.Proofs.Buffer.SpinLocks

namespace KernelResources.Buffer

open Effect

variable {n : Nat}

namespace Cache

open Operation PoolLock

namespace Script

open Course

variable {α : Type} {held : List PoolLock}

-- A buffer that was claimed by others since it was chosen is passed over, as often as it happens, but no
-- more than `rounds` times.
def takeVictim (b : BlockId) : (rounds : Nat) → Script n (Fin n)
  | 0 => throw .noBuffers
  | rounds + 1 => do
    let some i ← work (view (·.1.pool.leastRecentlyReleased)) | throw .noBuffers
    let home := (← work (slot i)).home
    let unlinked ←
      if home = b.bucket then work (unlinkUnreferenced i home)
      else holding (.bucket home) (work (unlinkUnreferenced i home))
    if unlinked then return i
    work (act (.tells (.overtaken i)))
    takeVictim b rounds

def claim (rounds : Nat) (b : BlockId) : Script n (Fin n) :=
  masked do
    match ← holding (.bucket b.bucket) (work (takeCached b)) with
    | some i => return i
    | none =>
      holding .pool do
        holding (.bucket b.bucket) do
          match ← work (takeCached b) with
          | some i => return i
          | none =>
            let i ← takeVictim b rounds
            work (retag i b)
            return i

def underHome (i : Fin n) (body : Script n α) : Script n α :=
  masked do
    let home := (← work (slot i)).home
    holding (.bucket home) body

def dropReleased (i : Fin n) : Script n Unit := do
  let now ← work readClock
  underHome i do
    if (← work (slot i)).refs = 0 then throw (.releaseUnreferenced i)
    work (count i (· - 1))
    work (act (.stamps i))
    work (updateSlot i fun slot => { slot with released := Clock.stamp now })

def release (i : Fin n) : Script n Unit := do
  let task ← work currentTask
  if !(← work (slot i)).data.heldBy task then throw (.releaseUnheld i task)
  work (act (.leavesLock i))
  work (updateSlot i fun slot => { slot with data := slot.data.leave })
  dropReleased i

def loadOrRelease (i : Fin n) (b : BlockId) : Script n Unit :=
  tryCatch (work (load i b)) fun fault => do
    release i
    throw fault

def pin (i : Fin n) : Script n Unit := underHome i (work (count i (· + 1)))

def unpin (i : Fin n) (own : Bool) : Script n Unit := do
  if !own then throw (.unpinForeign i)
  underHome i do
    if (← work (slot i)).refs = 0 then throw (.unpinUnreferenced i)
    work (count i (· - 1))

def isCached (b : BlockId) : Script n Bool :=
  masked (holding (.bucket b.bucket) (work (view fun s => (s.1.pool.find? b).isSome)))

def audit : Script n (Except AuditError Unit) :=
  masked <| holding .pool <|
    holdingAll ((List.finRange bucketCount).map .bucket) (work (view (·.1.pool.audit)))

section Following

theorem follows_takeVictim (b : BlockId) (rounds : Nat) :
    (takeVictim b rounds : Script n (Fin n)).Follows (Cache.takeVictim b rounds) := by
  induction rounds with
  | zero => exact follows_throw _
  | succ rounds ih =>
    refine follows_bind (follows_work _) fun chosen => ?_
    cases chosen with
    | none => exact follows_throw _
    | some i =>
      refine follows_bind (follows_work _) fun slot => ?_
      have later : ∀ unlinked : Bool,
          (if unlinked = true then pure i else
            work (act (.tells (.overtaken i))) >>= fun _ => takeVictim b rounds : Script n (Fin n)).Follows
            (if unlinked = true then pure i else
              act (.tells (.overtaken i)) >>= fun _ => Cache.takeVictim b rounds) := by
        intro unlinked
        cases unlinked with
        | true => exact follows_pure _
        | false => exact follows_bind (follows_work _) fun _ => ih
      dsimp only
      by_cases here : slot.home = b.bucket
      · rw [if_pos here, if_pos here]
        exact follows_bind (follows_work _) later
      · rw [if_neg here, if_neg here]
        exact follows_bind (follows_holding _ (follows_work _)) later

theorem follows_claim (b : BlockId) :
    (claim (n + 1) b : Script n (Fin n)).Follows (Cache.claim b) := by
  refine follows_masked (follows_bind (follows_holding _ (follows_work _)) fun found => ?_)
  cases found with
  | some i => exact follows_pure _
  | none =>
    refine follows_holding _ (follows_holding _ (follows_bind (follows_work _) fun again => ?_))
    cases again with
    | some i => exact follows_pure _
    | none =>
      exact follows_bind (follows_takeVictim b (n + 1)) fun i =>
        follows_bind (follows_work _) fun _ => follows_pure _

theorem follows_underHome (i : Fin n) {body : Script n α} {op : Cache.Run n α}
    (follows : body.Follows op) : (underHome i body).Follows (Cache.underHome i op) :=
  follows_masked (follows_bind (follows_work _) fun _ => follows_holding _ follows)

theorem follows_unless (wrong : Prop) [Decidable wrong] (fault : CacheFault) {body : Script n α}
    {op : Cache.Run n α} (follows : body.Follows op) :
    (do if wrong then throw fault
        body : Script n α).Follows
      (do if wrong then throw fault
          op) := by
  by_cases so : wrong
  · rw [if_pos so, if_pos so]
    exact follows_bind (follows_throw _) fun _ => follows
  · rw [if_neg so, if_neg so]
    exact follows

theorem follows_dropReleased (i : Fin n) : (dropReleased i).Follows (Cache.dropReleased i) :=
  follows_bind (follows_work _) fun _ => follows_underHome i <|
    follows_bind (follows_work _) fun _ => follows_unless _ _ <|
      follows_bind (follows_work _) fun _ => follows_bind (follows_work _) fun _ => follows_work _

theorem follows_release (i : Fin n) : (release i).Follows (Cache.release i) :=
  follows_bind (follows_work _) fun _ => follows_bind (follows_work _) fun _ => follows_unless _ _ <|
    follows_bind (follows_work _) fun _ => follows_bind (follows_work _) fun _ => follows_dropReleased i

theorem follows_loadOrRelease (i : Fin n) (b : BlockId) :
    (loadOrRelease i b).Follows (Cache.loadOrRelease i b) :=
  follows_tryCatch (follows_work _) fun _ => follows_bind (follows_release i) fun _ => follows_throw _

theorem follows_unpin (i : Fin n) (own : Bool) : (unpin i own).Follows (Cache.unpin i own) :=
  follows_unless _ _ <| follows_underHome i <| follows_bind (follows_work _) fun _ =>
    follows_unless _ _ (follows_work _)

end Following

section Parts

theorem quiet_act {what : Act n} (inside : ¬what.Outside) :
    (act what : Cache.Run n Unit).Makes (Quiet held) := makes_act fun outside => absurd outside inside

theorem quiet_count (i : Fin n) (f : UInt32 → UInt32) : (count i f).Makes (Quiet held) :=
  makes_bind (quiet_act id) fun _ => makes_still fun _ => rfl

theorem quiet_relink (b : Fin bucketCount) (f : Bucket n → Bucket n) :
    (relink b f).Makes (Quiet held) :=
  makes_bind (quiet_act id) fun _ => makes_still fun _ => rfl

theorem quiet_takeCached (b : BlockId) : (takeCached b : Cache.Run n _).Makes (Quiet held) := by
  refine makes_bind (makes_still fun _ => rfl) fun found => ?_
  cases found with
  | some i => exact makes_bind (quiet_count i _) fun _ => makes_still fun _ => rfl
  | none => exact makes_still fun _ => rfl

theorem quiet_unlinkUnreferenced (i : Fin n) (home : Fin bucketCount) :
    (unlinkUnreferenced i home).Makes (Quiet held) := by
  refine makes_bind (makes_still fun _ => rfl) fun slot => ?_
  split
  · exact makes_bind (quiet_relink home _) fun _ => makes_still fun _ => rfl
  · exact makes_still fun _ => rfl

theorem quiet_retag (i : Fin n) (b : BlockId) : (retag i b).Makes (Quiet held) :=
  makes_bind (makes_still fun _ => rfl) fun _ => makes_bind (quiet_act id) fun _ =>
    makes_bind (quiet_act id) fun _ => makes_bind (makes_still fun _ => rfl) fun _ => quiet_relink _ _

theorem quiet_outside {what : Act n} : (act what : Cache.Run n Unit).Makes (Quiet []) :=
  makes_act fun _ => rfl

theorem quiet_enter (i : Fin n) : (enter i).Makes (Quiet []) :=
  makes_bind (makes_still fun _ => rfl) fun _ => makes_bind (makes_still fun _ => rfl) fun _ =>
    makes_bind quiet_outside fun _ => makes_bind (makes_still fun _ => rfl) fun _ =>
      makes_still fun _ => rfl

theorem quiet_transfer (direction : Direction) (b : BlockId) :
    (transfer direction b : Cache.Run n Unit).Makes (Quiet []) := by
  refine makes_bind (makes_still fun _ => rfl) fun _ => makes_bind quiet_outside fun _ =>
    makes_bind (makes_still fun _ => rfl) fun _ => makes_bind (makes_still fun _ => rfl) fun fails => ?_
  cases fails <;> exact makes_still fun _ => rfl

theorem quiet_load (i : Fin n) (b : BlockId) : (load i b).Makes (Quiet []) := by
  refine makes_bind (makes_still fun _ => rfl) fun slot => ?_
  split
  · exact makes_bind (quiet_act id) fun _ => makes_bind (quiet_transfer _ _) fun _ =>
      makes_bind (makes_still fun _ => rfl) fun _ => makes_still fun _ => rfl
  · exact makes_still fun _ => rfl

theorem quiet_write (i : Fin n) : (write i).Makes (Quiet []) := by
  refine makes_bind (makes_still fun _ => rfl) fun _ => makes_bind (makes_still fun _ => rfl) fun slot => ?_
  have written : ∀ b, ((transfer .write b : Cache.Run n Unit) >>= fun _ => change fun (s : Cache n × Clock) =>
      ({ s.1 with disk := s.1.disk.write slot.block slot.data.data }, s.2)).Makes (Quiet []) :=
    fun b => makes_bind (quiet_transfer _ _) fun _ => makes_still fun _ => rfl
  dsimp only
  split
  · exact makes_bind (makes_still fun _ => rfl) fun _ => written _
  · exact written _

end Parts

section Laws

theorem lawful_takeVictim (b : BlockId) (rounds : Nat) :
    Lawful [.bucket b.bucket, .pool] [.bucket b.bucket, .pool] (takeVictim b rounds : Script n (Fin n)) := by
  induction rounds with
  | zero => exact lawful_throw _
  | succ rounds ih =>
    refine lawful_bind (lawful_work (makes_still fun _ => rfl)) fun chosen => ?_
    cases chosen with
    | none => exact lawful_throw _
    | some i =>
      refine lawful_bind (lawful_work (makes_still fun _ => rfl)) fun slot => ?_
      have later : ∀ unlinked : Bool, Lawful [.bucket b.bucket, .pool] [.bucket b.bucket, .pool]
          (if unlinked = true then pure i else
            work (act (.tells (.overtaken i))) >>= fun _ => takeVictim b rounds : Script n (Fin n)) := by
        intro unlinked
        cases unlinked with
        | true => exact lawful_pure _
        | false => exact lawful_bind (lawful_work (quiet_act id)) fun _ => ih
      dsimp only
      by_cases here : slot.home = b.bucket
      · rw [if_pos here]
        exact lawful_bind (lawful_work (quiet_unlinkUnreferenced i _)) later
      · -- The victim is on another bucket, so its lock is the third.
        rw [if_neg here]
        exact lawful_bind (lawful_holding (admits_bucket (by simp) (by simpa using here))
          (paired_pool (by simp)) (lawful_work (quiet_unlinkUnreferenced i _))) later

theorem lawful_claim (rounds : Nat) (b : BlockId) : Lawful [] [] (claim rounds b : Script n (Fin n)) := by
  refine lawful_masked (lawful_bind (lawful_holding (admits_alone _) paired_nil
    (lawful_work (quiet_takeCached b))) fun found => ?_)
  cases found with
  | some i => exact lawful_pure _
  | none =>
    refine lawful_holding (admits_alone _) paired_nil (lawful_holding (admits_bucket (by simp) (by simp))
      (paired_pool (by simp)) (lawful_bind (lawful_work (quiet_takeCached b)) fun again => ?_))
    cases again with
    | some i => exact lawful_pure _
    | none =>
      exact lawful_bind (lawful_takeVictim b rounds) fun i =>
        lawful_bind (lawful_work (quiet_retag i b)) fun _ => lawful_pure _

theorem lawful_underHome (i : Fin n) {body : Script n α}
    (lawful : ∀ home, Lawful [.bucket home] [.bucket home] body) : Lawful [] [] (underHome i body) :=
  lawful_masked (lawful_bind (lawful_work (makes_still fun _ => rfl)) fun _ =>
    lawful_holding (admits_alone _) paired_nil (lawful _))

theorem lawful_dropReleased (i : Fin n) : Lawful [] [] (dropReleased i) :=
  lawful_bind (lawful_work (makes_still fun _ => rfl)) fun _ => lawful_underHome i fun _ =>
    lawful_bind (lawful_work (makes_still fun _ => rfl)) fun _ => lawful_unless _ _ <|
      lawful_bind (lawful_work (quiet_count i _)) fun _ =>
        lawful_bind (lawful_work (quiet_act id)) fun _ => lawful_work (makes_still fun _ => rfl)

theorem lawful_release (i : Fin n) : Lawful [] [] (release i) :=
  lawful_bind (lawful_work (makes_still fun _ => rfl)) fun _ =>
    lawful_bind (lawful_work (makes_still fun _ => rfl)) fun _ => lawful_unless _ _ <|
      lawful_bind (lawful_work (quiet_act id)) fun _ =>
        lawful_bind (lawful_work (makes_still fun _ => rfl)) fun _ => lawful_dropReleased i

theorem lawful_loadOrRelease (i : Fin n) (b : BlockId) : Lawful [] [] (loadOrRelease i b) :=
  lawful_tryCatch (lawful_work (quiet_load i b)) fun _ =>
    lawful_bind (lawful_release i) fun _ => lawful_throw _

theorem lawful_unpin (i : Fin n) (own : Bool) : Lawful [] [] (unpin i own) :=
  lawful_unless _ _ <| lawful_underHome i fun _ =>
    lawful_bind (lawful_work (makes_still fun _ => rfl)) fun _ =>
      lawful_unless _ _ (lawful_work (quiet_count i _))

theorem lawful_audit : Lawful [] [] (audit : Script n _) :=
  lawful_masked (lawful_holding (admits_alone _) paired_nil (lawful_holdingAll (by simp) (by simp)
    (List.nodup_finRange _) (lawful_work (makes_still fun _ => rfl))))

end Laws

end Script

namespace Call

def script (rounds : Nat) : (call : Call n) → Script n call.Result
  | .claim b => Script.claim rounds b
  | .enter i => Course.work (Cache.enter i)
  | .load i b => Script.loadOrRelease i b
  | .write i => Course.work (Cache.write i)
  | .release i => Script.release i
  | .pin i => Script.pin i
  | .unpin i own => Script.unpin i own
  | .isCached b => Script.isCached b
  | .audit => Script.audit

-- Uninterrupted, a search for a victim ends in its first round, so there are rounds to spare.
theorem script_follows (call : Call n) : (call.script (n + 1)).Follows call.operation := by
  cases call with
  | claim b => exact Script.follows_claim b
  | enter i => exact Course.follows_work _
  | load i b => exact Script.follows_loadOrRelease i b
  | write i => exact Course.follows_work _
  | release i => exact Script.follows_release i
  | pin i => exact Script.follows_underHome i (Course.follows_work _)
  | unpin i own => exact Script.follows_unpin i own
  | isCached b => exact Course.follows_masked (Course.follows_holding _ (Course.follows_work _))
  | audit =>
    exact Course.follows_masked
      (Course.follows_holding _ (Course.follows_holdingAll _ (Course.follows_work _)))

theorem script_lawful (call : Call n) (rounds : Nat) : Script.Lawful [] [] (call.script rounds) := by
  cases call with
  | claim b => exact Script.lawful_claim rounds b
  | enter i => exact Script.lawful_work (Script.quiet_enter i)
  | load i b => exact Script.lawful_loadOrRelease i b
  | write i => exact Script.lawful_work (Script.quiet_write i)
  | release i => exact Script.lawful_release i
  | pin i => exact Script.lawful_underHome i fun _ => Script.lawful_work (Script.quiet_count i _)
  | unpin i own => exact Script.lawful_unpin i own
  | isCached b =>
    exact Script.lawful_masked (Script.lawful_holding (admits_alone _) paired_nil
      (Script.lawful_work (makes_still fun _ => rfl)))
  | audit => exact Script.lawful_audit

theorem operation_obeyed (call : Call n) {e : Execution PoolLock (Act n) (Cache n × Clock)}
    (none : e.past = []) :
    Obeyed (call.operation.run e).2.past ∧ locks (call.operation.run e).2.past = [] := by
  rw [← call.script_follows e]
  refine Script.obeyed_run ?_ ?_
  · rw [none]
    exact call.script_lawful _
  · rw [none]
    trivial

end Call

end Cache

end KernelResources.Buffer
