import KernelResources.Buffer.Audit
import KernelResources.Proofs.Buffer.BucketLists

namespace KernelResources.Buffer

variable {n : Nat}

namespace Slot

theorem holds_iff (s : Slot) (b : BlockId) : s.holds b = true ↔ s.mapped = true ∧ s.block = b := by
  simp [holds]

theorem home_of_holds {s : Slot} {b : BlockId} (holds : s.holds b = true) : s.home = b.bucket := by
  obtain ⟨mapped, rfl⟩ := (holds_iff s b).mp holds
  simp [home, mapped]

theorem holds_retag (s : Slot) (b : BlockId) : (s.retag b).holds b = true := by
  simp [holds, retag]

def SameTag (s t : Slot) : Prop := s.mapped = t.mapped ∧ s.block = t.block

theorem SameTag.home {s t : Slot} (same : s.SameTag t) : s.home = t.home := by
  simp [Slot.home, same.1, same.2]

end Slot

namespace Pool

-- Every buffer is on the list of its home bucket, exactly once, and on no other list; the backward
-- links are those of the lists; and no block is carried twice.
structure Intact (p : Pool n) : Prop where
  represented : ∀ b : Fin bucketCount, p.buckets[b].Represents p.buckets[b].members
  listed : ∀ (b : Fin bucketCount) (i : Fin n), i ∈ p.buckets[b].members ↔ p.slots[i].home = b
  distinct : ∀ i j : Fin n, p.slots[i].mapped = true → p.slots[j].mapped = true →
    p.slots[i].block = p.slots[j].block → i = j

theorem intact_lists {p : Pool n} (lists : Fin bucketCount → List (Fin n))
    (shown : ∀ b : Fin bucketCount, p.buckets[b].Represents (lists b))
    (listed : ∀ b i, i ∈ lists b ↔ p.slots[i].home = b)
    (distinct : ∀ i j : Fin n, p.slots[i].mapped = true → p.slots[j].mapped = true →
      p.slots[i].block = p.slots[j].block → i = j) : p.Intact := by
  have members : ∀ b : Fin bucketCount, p.buckets[b].members = lists b :=
    fun b => Bucket.members_represents (shown b)
  refine ⟨?_, ?_, distinct⟩
  · intro b
    rw [members b]
    exact shown b
  · intro b i
    rw [members b]
    exact listed b i

theorem slot_start (i : Fin n) : (start n).slots[i] = .fresh := by simp [start]

theorem intact_start (n : Nat) : (start n).Intact := by
  refine intact_lists (fun b => if b.val = 0 then List.finRange n else []) ?_ ?_ ?_
  · intro b
    by_cases first : b.val = 0
    · simpa [start, first] using Bucket.represents_holdingAll
    · simpa [start, first] using Bucket.represents_empty
  · intro b i
    rw [slot_start]
    by_cases first : b.val = 0 <;> simp [Slot.home, Slot.fresh, first, Fin.ext_iff, eq_comm]
  · intro i j mapped
    rw [slot_start] at mapped
    cases mapped

theorem find?_holds {p : Pool n} {b : BlockId} {i : Fin n} (found : p.find? b = some i) :
    p.slots[i].holds b = true := by
  simpa using List.find?_some found

theorem listed_once {p : Pool n} (intact : p.Intact) (i : Fin n) :
    ((List.finRange bucketCount).flatMap fun b => p.buckets[b].members).count i = 1 := by
  refine List.count_eq_one_of_mem ?_ ?_
  · refine List.nodup_flatMap.mpr ⟨fun b _ => (intact.represented b).2, ?_⟩
    refine (List.nodup_finRange bucketCount).imp ?_
    intro b c apart j inB inC
    exact apart (((intact.listed b j).mp inB).symm.trans ((intact.listed c j).mp inC))
  · exact List.mem_flatMap.mpr ⟨_, List.mem_finRange _, (intact.listed _ i).mpr rfl⟩

theorem find?_none (p : Pool n) (intact : p.Intact) (b : BlockId) :
    p.find? b = none ↔ ∀ i : Fin n, p.slots[i].holds b = false := by
  simp only [find?, List.find?_eq_none, Bool.not_eq_true]
  constructor
  · intro absent i
    by_contra holds
    have member := (intact.listed b.bucket i).mpr (Slot.home_of_holds (Bool.of_not_eq_false holds))
    exact holds (absent i member)
  · intro absent i _
    exact absent i

theorem find?_some (p : Pool n) (intact : p.Intact) (b : BlockId) (i : Fin n) :
    p.find? b = some i ↔ p.slots[i].holds b = true := by
  constructor
  · exact find?_holds
  · intro holds
    cases found : p.find? b with
    | none =>
      rw [(find?_none p intact b).mp found i] at holds
      cases holds
    | some j =>
      obtain ⟨mappedJ, blockJ⟩ := (Slot.holds_iff ..).mp (find?_holds found)
      obtain ⟨mapped, block⟩ := (Slot.holds_iff ..).mp holds
      rw [intact.distinct j i mappedJ mapped (blockJ.trans block.symm)]

-- Two pools that differ at most in counts, stamps, validity and what is behind the sleep locks.
def SameTags (p q : Pool n) : Prop :=
  p.buckets = q.buckets ∧ ∀ i : Fin n, p.slots[i].SameTag q.slots[i]

theorem SameTags.refl (p : Pool n) : p.SameTags p := ⟨rfl, fun _ => ⟨rfl, rfl⟩⟩

theorem SameTags.symm {p q : Pool n} (same : p.SameTags q) : q.SameTags p :=
  ⟨same.1.symm, fun i => ⟨(same.2 i).1.symm, (same.2 i).2.symm⟩⟩

theorem SameTags.trans {p q r : Pool n} (first : p.SameTags q) (second : q.SameTags r) :
    p.SameTags r :=
  ⟨first.1.trans second.1, fun i =>
    ⟨(first.2 i).1.trans (second.2 i).1, (first.2 i).2.trans (second.2 i).2⟩⟩

theorem sameTags_updateSlot (p : Pool n) (i : Fin n) {f : Slot → Slot}
    (same : p.slots[i].SameTag (f p.slots[i])) : p.SameTags (p.updateSlot i f) := by
  refine ⟨rfl, ?_⟩
  intro j
  rw [slot_updateSlot]
  split
  · rename_i here
    exact here ▸ same
  · exact ⟨rfl, rfl⟩

theorem intact_sameTags {p q : Pool n} (intact : p.Intact) (same : p.SameTags q) : q.Intact := by
  obtain ⟨buckets, tags⟩ := same
  refine ⟨?_, ?_, ?_⟩
  · rw [← buckets]
    exact intact.represented
  · intro b i
    rw [← buckets, ← (tags i).home]
    exact intact.listed b i
  · intro i j
    rw [← (tags i).1, ← (tags i).2, ← (tags j).1, ← (tags j).2]
    exact intact.distinct i j

def unlink (p : Pool n) (i : Fin n) : Pool n := p.updateBucket p.slots[i].home (·.remove i)

def recycle (p : Pool n) (i : Fin n) (b : BlockId) : Pool n :=
  ((p.unlink i).updateSlot i (·.retag b)).updateBucket b.bucket (·.pushFront i)

theorem slot_recycle (p : Pool n) (i j : Fin n) (b : BlockId) :
    (p.recycle i b).slots[j] = if i = j then p.slots[i].retag b else p.slots[j] := by
  simp only [recycle, slots_updateBucket, slot_updateSlot, unlink]

theorem represents_unlink {p : Pool n} (intact : p.Intact) (i : Fin n) (c : Fin bucketCount) :
    (p.unlink i).buckets[c].Represents (p.buckets[c].members.erase i) := by
  rw [unlink, bucket_updateBucket]
  split
  · rename_i home
    subst home
    exact Bucket.represents_remove (intact.represented _) ((intact.listed _ i).mpr rfl)
  · rename_i away
    rw [List.erase_of_not_mem fun member => away ((intact.listed c i).mp member)]
    exact intact.represented c

theorem absent_unlink {p : Pool n} (intact : p.Intact) (i : Fin n) (c : Fin bucketCount) :
    i ∉ (p.unlink i).buckets[c].members := by
  rw [Bucket.members_represents (represents_unlink intact i c)]
  exact (intact.represented c).2.not_mem_erase

theorem intact_recycle {p : Pool n} (intact : p.Intact) (i : Fin n) {b : BlockId}
    (absent : ∀ j : Fin n, p.slots[j].holds b = false) : (p.recycle i b).Intact := by
  have unlinked := represents_unlink intact i
  have gone : ∀ c : Fin bucketCount, i ∉ p.buckets[c].members.erase i := fun c =>
    (intact.represented c).2.not_mem_erase
  refine intact_lists (fun c =>
    if b.bucket = c then i :: p.buckets[c].members.erase i else p.buckets[c].members.erase i) ?_ ?_ ?_
  · intro c
    rw [recycle, bucket_updateBucket, buckets_updateSlot]
    split
    · rename_i here
      subst here
      exact Bucket.represents_pushFront (unlinked _) (gone _)
    · exact unlinked c
  · intro c j
    rw [slot_recycle]
    by_cases same : i = j
    · subst same
      have home : (p.slots[i].retag b).home = b.bucket := Slot.home_of_holds (Slot.holds_retag _ b)
      rw [if_pos rfl, home]
      by_cases here : b.bucket = c <;> simp [here, gone c]
    · have kept : j ∈ p.buckets[c].members.erase i ↔ p.slots[j].home = c := by
        rw [List.mem_erase_of_ne (Ne.symm same)]
        exact intact.listed c j
      simp only [if_neg same, ← kept]
      by_cases here : b.bucket = c <;> simp [here, Ne.symm same]
  · have fresh : ∀ j : Fin n, p.slots[j].mapped = true → b ≠ p.slots[j].block := by
      intro j mapped same
      have holds := (Slot.holds_iff p.slots[j] b).mpr ⟨mapped, same.symm⟩
      rw [absent j] at holds
      cases holds
    intro j k
    simp only [slot_recycle]
    by_cases hereJ : i = j <;> by_cases hereK : i = k
    · simp [← hereJ, ← hereK]
    · simp only [if_pos hereJ, if_neg hereK]
      intro _ mapped same
      exact absurd same (fresh k mapped)
    · simp only [if_neg hereJ, if_pos hereK]
      intro mapped _ same
      exact absurd same.symm (fresh j mapped)
    · simp only [if_neg hereJ, if_neg hereK]
      exact intact.distinct j k

end Pool

end KernelResources.Buffer
