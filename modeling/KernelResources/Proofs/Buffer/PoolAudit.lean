import KernelResources.Proofs.Buffer.PoolStructure

namespace KernelResources.Buffer.Pool

variable {n : Nat}

theorem auditMember_accepts (p : Pool n) {b : Fin bucketCount} {i : Fin n} {seen : Vector Bool n}
    (unseen : seen[i] = false) (home : p.slots[i].home = b) :
    p.auditMember b i seen = (.ok (), seen.set i true i.isLt) := by
  unfold auditMember
  rw [if_neg (by rw [unseen]; exact Bool.false_ne_true)]
  simp only [home, if_true]

theorem visitAll_auditMember (p : Pool n) (b : Fin bucketCount) (l : List (Fin n))
    (seen : Vector Bool n) (once : l.Nodup) (home : ∀ i ∈ l, p.slots[i].home = b)
    (unseen : ∀ i ∈ l, seen[i] = false) :
    ∃ later : Vector Bool n, Bucket.visitAll (p.auditMember b) l seen = (.ok (), later) ∧
      ∀ i : Fin n, later[i] = true ↔ seen[i] = true ∨ i ∈ l := by
  induction l generalizing seen with
  | nil => exact ⟨seen, rfl, by simp⟩
  | cons i l ih =>
    obtain ⟨first, once⟩ := List.nodup_cons.mp once
    have marked : ∀ j : Fin n, (seen.set i true i.isLt)[j] = if i = j then true else seen[j] := by
      intro j
      simp [entry_set]
    have ahead : ∀ j ∈ l, (seen.set i true i.isLt)[j] = false := by
      intro j member
      have other : i ≠ j := fun same => first (same ▸ member)
      rw [marked, if_neg other]
      exact unseen j (by simp [member])
    obtain ⟨later, visited, all⟩ := ih (seen.set i true i.isLt) once (fun j member => home j (by simp [member])) ahead
    refine ⟨later, ?_, ?_⟩
    · rw [Bucket.visitAll, auditMember_accepts p (unseen i (by simp)) (home i (by simp))]
      exact visited
    · intro j
      rw [all j, marked j]
      by_cases same : i = j
      · simp [same]
      · simp [same, Ne.symm same]

theorem auditBuckets_intact {p : Pool n} (intact : p.Intact) (rest : List (Fin bucketCount))
    (seen : Vector Bool n) (once : rest.Nodup)
    (before : ∀ i : Fin n, seen[i] = true → p.slots[i].home ∉ rest) :
    ∃ later : Vector Bool n, p.auditBuckets rest seen = .ok later ∧
      ∀ i : Fin n, later[i] = true ↔ seen[i] = true ∨ p.slots[i].home ∈ rest := by
  induction rest generalizing seen with
  | nil => exact ⟨seen, rfl, by simp⟩
  | cons b rest ih =>
    obtain ⟨first, once⟩ := List.nodup_cons.mp once
    have shown := intact.represented b
    have unseen : ∀ i ∈ p.buckets[b].members, seen[i] = false := by
      intro i member
      by_contra marked
      have home := (intact.listed b i).mp member
      exact before i (Bool.of_not_eq_false marked) (home ▸ List.mem_cons_self)
    obtain ⟨middle, visited, marked⟩ := visitAll_auditMember p b _ seen shown.2
      (fun i member => (intact.listed b i).mp member) unseen
    have onward : ∀ i : Fin n, middle[i] = true → p.slots[i].home ∉ rest := by
      intro i
      rw [marked i, intact.listed b i]
      rintro (earlier | here) later
      · exact before i earlier (List.mem_cons_of_mem b later)
      · exact first (here ▸ later)
    obtain ⟨later, audited, all⟩ := ih middle once onward
    refine ⟨later, ?_, ?_⟩
    · rw [auditBuckets, Bucket.walk_represents shown, visited]
      exact audited
    · intro i
      rw [all i, marked i, intact.listed b i, List.mem_cons, or_assoc]

theorem aliased?_intact {p : Pool n} (intact : p.Intact) : p.aliased? = none := by
  unfold aliased?
  rw [List.find?_eq_none]
  intro i _ shared
  simp only [Bool.and_eq_true, List.any_eq_true, decide_eq_true_eq] at shared
  obtain ⟨mapped, j, _, later, holds⟩ := shared
  obtain ⟨mappedJ, block⟩ := (Slot.holds_iff ..).mp holds
  rw [intact.distinct i j mapped mappedJ block.symm] at later
  exact absurd later (lt_irrefl j)

theorem audit_intact {p : Pool n} (intact : p.Intact) : p.audit = .ok () := by
  obtain ⟨seen, audited, all⟩ := auditBuckets_intact intact (List.finRange bucketCount)
    (Vector.replicate n false) (List.nodup_finRange _) (by simp)
  have complete : (List.finRange n).find? (fun i => !seen[i]) = none := by
    rw [List.find?_eq_none]
    intro i _
    rw [(all i).mpr (.inr (List.mem_finRange _))]
    decide
  unfold audit
  rw [audited]
  simp only [bind, Except.bind, complete, aliased?_intact intact]
  rfl

end KernelResources.Buffer.Pool
