import KernelResources.Proofs.Buffer.BucketWalks
import KernelResources.Proofs.Buffer.CacheEnds

namespace KernelResources.Buffer

variable {n : Nat}

namespace Pool

def Lists (p : Pool n) (b : Fin bucketCount) (i : Fin n) : Prop := ∃ k, p.buckets[b].nth k = some i

-- Every buffer occurs exactly once over all the lists, on its home bucket; the backward links are the
-- forward links reversed; and no block is carried twice.
structure Consistent (p : Pool n) : Prop where
  once : ∀ i : Fin n, ∃! place : Fin bucketCount × Nat, p.buckets[place.1].nth place.2 = some i
  home : ∀ (b : Fin bucketCount) (i : Fin n), p.Lists b i → p.slots[i].home = b
  mirrored : ∀ (b : Fin bucketCount) (stop : Nat), p.buckets[b].MirroredTo stop
  distinct : ∀ i j : Fin n, p.slots[i].mapped = true → p.slots[j].mapped = true →
    p.slots[i].block = p.slots[j].block → i = j

def Shows (p : Pool n) : AuditError → Prop
  | .brokenLinks bucket => ∃ (b : Fin bucketCount) (k : Nat) (i : Fin n), b.val = bucket ∧
      p.buckets[b].nth k = some i ∧ p.buckets[b].MirroredTo k ∧
      p.buckets[b].prev[i] ≠ p.buckets[b].beforeNth k
  -- The buffer occurs once on a first list, and it occurs on a second: the place meant is the first one
  -- there.
  | .duplicate index => ∃ (i : Fin n) (b c : Fin bucketCount) (k l : Nat), i.val = index ∧ b ≠ c ∧
      (∀ m, p.buckets[b].nth m = some i ↔ m = k) ∧
      p.buckets[c].nth l = some i ∧ ∀ m < l, p.buckets[c].nth m ≠ some i
  | .wrongBucket index bucket expected => ∃ (i : Fin n) (b : Fin bucketCount), i.val = index ∧
      b.val = bucket ∧ p.Lists b i ∧ p.slots[i].home.val = expected ∧ expected ≠ bucket
  | .missing index => ∃ i : Fin n, i.val = index ∧ (∀ b, ¬ p.Lists b i) ∧
      ∀ j < i, ∃ b, p.Lists b j
  | .aliased device number => ∃ i j : Fin n, i ≠ j ∧ p.slots[i].mapped = true ∧
      p.slots[j].mapped = true ∧ p.slots[j].block = p.slots[i].block ∧
      p.slots[i].block.device.toNat = device ∧ p.slots[i].block.number.toNat = number

theorem consistent_shows {p : Pool n} (consistent : p.Consistent) (error : AuditError) :
    ¬ p.Shows error := by
  cases error with
  | brokenLinks bucket =>
    rintro ⟨b, k, i, -, here, -, wrong⟩
    exact wrong (consistent.mirrored b (k + 1) k (Nat.lt_succ_self k) i here)
  | duplicate index =>
    rintro ⟨i, b, c, k, l, -, apart, first, second, -⟩
    exact apart ((consistent.home b i ⟨k, (first k).mpr rfl⟩).symm.trans (consistent.home c i ⟨l, second⟩))
  | wrongBucket index bucket expected =>
    rintro ⟨i, b, -, rfl, listed, rfl, other⟩
    exact other (congrArg Fin.val (consistent.home b i listed))
  | missing index =>
    rintro ⟨i, -, absent, -⟩
    obtain ⟨place, here, -⟩ := consistent.once i
    exact absent place.1 ⟨place.2, here⟩
  | aliased device number =>
    rintro ⟨i, j, apart, mapped, other, same, -⟩
    exact apart (consistent.distinct i j mapped other same.symm)

structure Clean (p : Pool n) (b : Fin bucketCount) : Prop where
  mirrored : ∀ stop, p.buckets[b].MirroredTo stop
  home : ∀ i : Fin n, p.Lists b i → p.slots[i].home = b

theorem clean_once {p : Pool n} {b : Fin bucketCount} (clean : p.Clean b) {i : Fin n} {k : Nat}
    (here : p.buckets[b].nth k = some i) (m : Nat) : p.buckets[b].nth m = some i ↔ m = k := by
  constructor
  · intro there
    exact Bucket.nth_once (clean.mirrored (max m k + 1)) (by omega) (by omega) there here
  · rintro rfl
    exact here

-- What the walk of bucket `c` knows at place `k`: the buffers seen are those on the buckets `before` and
-- those before the place, and these belong here.
structure Seen (p : Pool n) (before : List (Fin bucketCount)) (c : Fin bucketCount) (k : Nat)
    (seen : Vector Bool n) : Prop where
  marked : ∀ i : Fin n, seen[i] = true ↔
    (∃ b ∈ before, p.Lists b i) ∨ ∃ m < k, p.buckets[c].nth m = some i
  home : ∀ m < k, ∀ i : Fin n, p.buckets[c].nth m = some i → p.slots[i].home = c

section Walk

variable {p : Pool n} {before : List (Fin bucketCount)} {c : Fin bucketCount}

theorem auditMember_seen {k : Nat} {i : Fin n} {seen later : Vector Bool n}
    (here : p.buckets[c].nth k = some i) (kept : p.Seen before c k seen)
    (visited : p.auditMember c i seen = (.ok (), later)) : p.Seen before c (k + 1) later := by
  unfold auditMember at visited
  split at visited
  · cases visited
  · obtain ⟨belongs, rfl⟩ := Prod.mk.inj visited
    have home : p.slots[i].home = c := by
      by_contra other
      rw [if_neg other] at belongs
      cases belongs
    refine ⟨?_, ?_⟩
    · intro j
      rw [entry_set]
      split
      · rename_i same
        subst same
        exact ⟨fun _ => .inr ⟨k, Nat.lt_succ_self k, here⟩, fun _ => rfl⟩
      · rename_i other
        rw [kept.marked j]
        refine or_congr_right ⟨?_, ?_⟩
        · rintro ⟨m, earlier, there⟩
          exact ⟨m, Nat.lt_succ_of_lt earlier, there⟩
        · rintro ⟨m, within, there⟩
          rcases Nat.lt_succ_iff_lt_or_eq.mp within with earlier | rfl
          · exact ⟨m, earlier, there⟩
          · exact absurd (Option.some.inj (here.symm.trans there)) other
    · intro m within j there
      rcases Nat.lt_succ_iff_lt_or_eq.mp within with earlier | rfl
      · exact kept.home m earlier j there
      · obtain rfl : i = j := Option.some.inj (here.symm.trans there)
        exact home

-- A member is objected to as seen only for an earlier bucket, since its own has it once up to here.
theorem auditMember_shows {stop : Nat} {i : Fin n} {seen later : Vector Bool n} {error : AuditError}
    (clean : ∀ b ∈ before, p.Clean b) (fresh : c ∉ before) (here : p.buckets[c].nth stop = some i)
    (mirrored : p.buckets[c].MirroredTo (stop + 1)) (kept : p.Seen before c stop seen)
    (objected : p.auditMember c i seen = (.error error, later)) : p.Shows error := by
  have once : ∀ m < stop, p.buckets[c].nth m ≠ some i := by
    intro m earlier there
    exact absurd (Bucket.nth_once mirrored (Nat.lt_succ_of_lt earlier) (Nat.lt_succ_self stop) there here)
      (Nat.ne_of_lt earlier)
  unfold auditMember at objected
  split at objected
  · rename_i marked
    obtain ⟨told, -⟩ := Prod.mk.inj objected
    cases told
    rcases (kept.marked i).mp marked with ⟨b, member, k, first⟩ | ⟨m, earlier, there⟩
    · have apart : b ≠ c := fun same => fresh (same ▸ member)
      exact ⟨i, b, c, k, stop, rfl, apart, clean_once (clean b member) first, here, once⟩
    · exact absurd there (once m earlier)
  · obtain ⟨told, -⟩ := Prod.mk.inj objected
    split at told
    · cases told
    · rename_i other
      cases told
      exact ⟨i, c, rfl, rfl, ⟨stop, here⟩, rfl, fun same => other (Fin.ext same)⟩

theorem seen_clean {stop : Nat} {seen : Vector Bool n} (ended : p.buckets[c].nth stop = none)
    (mirrored : p.buckets[c].MirroredTo stop) (kept : p.Seen before c stop seen) :
    p.Clean c ∧ ∀ i : Fin n, seen[i] = true ↔ ∃ b ∈ before ++ [c], p.Lists b i := by
  have within : ∀ k i, p.buckets[c].nth k = some i → k < stop := by
    intro k i there
    by_contra past
    rw [Bucket.nth_past ended (Nat.le_of_not_lt past)] at there
    cases there
  refine ⟨⟨?_, ?_⟩, ?_⟩
  · intro _ k _ i there
    exact mirrored k (within k i there) i there
  · rintro i ⟨k, there⟩
    exact kept.home k (within k i there) i there
  · intro i
    rw [kept.marked i]
    constructor
    · rintro (⟨b, member, listed⟩ | ⟨m, -, there⟩)
      · exact ⟨b, List.mem_append_left _ member, listed⟩
      · exact ⟨c, by simp, m, there⟩
    · rintro ⟨b, member, k, there⟩
      rcases List.mem_append.mp member with earlier | last
      · exact .inl ⟨b, earlier, k, there⟩
      · obtain rfl := List.mem_singleton.mp last
        exact .inr ⟨k, within k i there, there⟩

end Walk

theorem auditBuckets_walked (p : Pool n) (before rest : List (Fin bucketCount)) (seen : Vector Bool n)
    (once : (before ++ rest).Nodup) (clean : ∀ b ∈ before, p.Clean b)
    (marked : ∀ i : Fin n, seen[i] = true ↔ ∃ b ∈ before, p.Lists b i) :
    (∃ error, p.auditBuckets rest seen = .error error ∧ p.Shows error) ∨
    ∃ later : Vector Bool n, p.auditBuckets rest seen = .ok later ∧
      (∀ b ∈ before ++ rest, p.Clean b) ∧
      ∀ i : Fin n, later[i] = true ↔ ∃ b ∈ before ++ rest, p.Lists b i := by
  induction rest generalizing before seen with
  | nil => exact .inr ⟨seen, rfl, by simpa using clean, by simpa using marked⟩
  | cons c rest ih =>
    have fresh : c ∉ before := fun member =>
      (List.nodup_append.mp once).2.2 c member c List.mem_cons_self rfl
    have walked : p.buckets[c].Walked c.val (p.auditMember c) (p.Seen before c)
        (p.buckets[c].walk c.val (p.auditMember c) seen) :=
      Bucket.walk_walked (fun k i s later _ here kept visited => auditMember_seen here kept visited)
        ⟨by simpa using marked, by simp⟩
    rw [auditBuckets]
    generalize p.buckets[c].walk c.val (p.auditMember c) seen = outcome at walked
    cases walked with
    | breaks here mirrored _ wrong => exact .inl ⟨_, rfl, c, _, _, rfl, here, mirrored, wrong⟩
    | objects here mirrored kept objected =>
      exact .inl ⟨_, rfl, auditMember_shows clean fresh here mirrored kept objected⟩
    | ends ended mirrored kept =>
      obtain ⟨here, all⟩ := seen_clean ended mirrored kept
      have more : ∀ b ∈ before ++ [c], p.Clean b := by
        intro b member
        rcases List.mem_append.mp member with earlier | last
        · exact clean b earlier
        · exact List.mem_singleton.mp last ▸ here
      have onward := ih (before ++ [c]) _ (by simpa using once) more all
      simpa using onward

theorem aliased?_shows {p : Pool n} {i : Fin n} (found : p.aliased? = some i) :
    p.Shows (.aliased p.slots[i].block.device.toNat p.slots[i].block.number.toNat) := by
  have shared := List.find?_some found
  simp only [Bool.and_eq_true, List.any_eq_true, decide_eq_true_eq] at shared
  obtain ⟨mapped, j, -, later, holds⟩ := shared
  obtain ⟨other, same⟩ := (Slot.holds_iff ..).mp holds
  exact ⟨i, j, ne_of_lt later, mapped, other, same, rfl, rfl⟩

theorem aliased?_none {p : Pool n} (absent : p.aliased? = none) (i j : Fin n)
    (mapped : p.slots[i].mapped = true) (other : p.slots[j].mapped = true)
    (same : p.slots[i].block = p.slots[j].block) : i = j := by
  have ordered : ∀ i j : Fin n, i < j → p.slots[i].mapped = true → p.slots[j].mapped = true →
      p.slots[i].block ≠ p.slots[j].block := by
    intro i j later mapped other same
    have alone := List.find?_eq_none.mp absent i (List.mem_finRange i)
    simp only [Bool.and_eq_true, List.any_eq_true, decide_eq_true_eq] at alone
    exact alone ⟨mapped, j, List.mem_finRange j, later, (Slot.holds_iff ..).mpr ⟨other, same.symm⟩⟩
  rcases lt_trichotomy i j with less | equal | greater
  · exact absurd same (ordered i j less mapped other)
  · exact equal
  · exact absurd same.symm (ordered j i greater other mapped)

theorem missing_shows {p : Pool n} {seen : Vector Bool n} {i : Fin n}
    (marked : ∀ i : Fin n, seen[i] = true ↔ ∃ b ∈ List.finRange bucketCount, p.Lists b i)
    (found : (List.finRange n).find? (fun i => !seen[i]) = some i) : p.Shows (.missing i) := by
  obtain ⟨unseen, front, back, split, earlier⟩ := List.find?_eq_some_iff_append.mp found
  refine ⟨i, rfl, ?_, ?_⟩
  · intro b listed
    rw [(marked i).mpr ⟨b, List.mem_finRange b, listed⟩] at unseen
    cases unseen
  · intro j before
    have sorted : (front ++ i :: back).Pairwise (· < ·) := split ▸ List.pairwise_lt_finRange n
    have member : j ∈ front := by
      have inside : j ∈ front ++ i :: back := split ▸ List.mem_finRange j
      rcases List.mem_append.mp inside with ahead | behind
      · exact ahead
      · rcases List.mem_cons.mp behind with rfl | past
        · exact absurd before (lt_irrefl j)
        · have after := (List.pairwise_cons.mp (List.pairwise_append.mp sorted).2.1).1 j past
          exact absurd after (lt_asymm before)
    have seenJ : seen[j] = true := by simpa using earlier j member
    obtain ⟨b, -, listed⟩ := (marked j).mp seenJ
    exact ⟨b, listed⟩

theorem clean_consistent {p : Pool n} (clean : ∀ b, p.Clean b) (listed : ∀ i, ∃ b, p.Lists b i)
    (alone : p.aliased? = none) : p.Consistent := by
  refine ⟨?_, fun b => (clean b).home, fun b => (clean b).mirrored, aliased?_none alone⟩
  intro i
  obtain ⟨b, k, here⟩ := listed i
  refine ⟨(b, k), here, ?_⟩
  rintro ⟨c, l⟩ there
  obtain rfl : c = b := ((clean c).home i ⟨l, there⟩).symm.trans ((clean b).home i ⟨k, here⟩)
  rw [(clean_once (clean c) here l).mp there]

theorem audit_right (p : Pool n) :
    (p.audit = .ok () ∧ p.Consistent) ∨ ∃ error, p.audit = .error error ∧ p.Shows error := by
  unfold audit
  rcases auditBuckets_walked p [] (List.finRange bucketCount) (Vector.replicate n false)
    (List.nodup_finRange _) (by simp) (by simp) with ⟨error, walked, shown⟩ | ⟨seen, walked, clean, marked⟩
  · exact .inr ⟨error, by rw [walked]; rfl, shown⟩
  · rw [walked]
    simp only [List.nil_append] at clean marked
    simp only [bind, Except.bind]
    cases absent : (List.finRange n).find? fun i => !seen[i] with
    | some i => exact .inr ⟨_, rfl, missing_shows marked absent⟩
    | none =>
      cases shared : p.aliased? with
      | some i => exact .inr ⟨_, rfl, aliased?_shows shared⟩
      | none =>
        refine .inl ⟨rfl, clean_consistent (fun b => clean b (List.mem_finRange b)) ?_ shared⟩
        intro i
        have all := List.find?_eq_none.mp absent i (List.mem_finRange i)
        obtain ⟨b, -, listed⟩ := (marked i).mp (by simpa using all)
        exact ⟨b, listed⟩

end Pool

-- Whatever the links and the fields of a pool say, its check ends, changes nothing, finds nothing just
-- when the pool is consistent, and names a defect that is there.
theorem audit_judges (e : Execution PoolLock (Cache.Act n) (Cache n × Clock)) :
    ∃ verdict : Except AuditError Unit, Cache.audit.Ends e (.ok verdict) e.state [] ∧
      (verdict = .ok () ↔ e.state.1.pool.Consistent) ∧
      ∀ error, verdict = .error error → e.state.1.pool.Shows error := by
  refine ⟨e.state.1.pool.audit, Cache.audit_ends e, ?_⟩
  rcases Pool.audit_right e.state.1.pool with ⟨accepted, consistent⟩ | ⟨error, told, shown⟩
  · rw [accepted]
    refine ⟨⟨fun _ => consistent, fun _ => rfl⟩, ?_⟩
    intro error told
    cases told
  · rw [told]
    refine ⟨⟨?_, ?_⟩, ?_⟩
    · intro accepted
      cases accepted
    · intro consistent
      exact absurd shown (Pool.consistent_shows consistent error)
    · intro other same
      cases same
      exact shown

end KernelResources.Buffer
