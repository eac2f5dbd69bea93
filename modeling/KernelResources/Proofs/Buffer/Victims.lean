import KernelResources.Buffer.Pool
import Mathlib.Data.List.FinRange

namespace KernelResources.Buffer.Pool

variable {n : Nat}

-- The unreferenced buffer that was released before every other, or at the same time as some and then
-- with the lowest index.
def Victim (p : Pool n) (v : Fin n) : Prop :=
  p.slots[v].refs = 0 ∧ ∀ j : Fin n, p.slots[j].refs = 0 →
    p.slots[v].released < p.slots[j].released ∨ p.slots[v].released = p.slots[j].released ∧ v ≤ j

def Found (p : Pool n) (l : List (Fin n)) : Option (Fin n) → Prop
  | none => ∀ j ∈ l, p.slots[j].refs ≠ 0
  | some v => v ∈ l ∧ p.slots[v].refs = 0 ∧ ∀ j ∈ l, p.slots[j].refs = 0 →
      p.slots[v].released < p.slots[j].released ∨ p.slots[v].released = p.slots[j].released ∧ v ≤ j

section Found

variable {p : Pool n} {l : List (Fin n)} {best : Option (Fin n)} {v i : Fin n}

theorem found_past (found : p.Found l (some v)) (later : p.slots[i].refs = 0 →
    p.slots[v].released < p.slots[i].released ∨ p.slots[v].released = p.slots[i].released ∧ v ≤ i) :
    p.Found (l ++ [i]) (some v) := by
  obtain ⟨listed, free, least⟩ := found
  refine ⟨List.mem_append_left _ listed, free, ?_⟩
  intro j member freeJ
  rcases List.mem_append.mp member with earlier | last
  · exact least j earlier freeJ
  · obtain rfl := List.mem_singleton.mp last
    exact later freeJ

theorem found_new (free : p.slots[i].refs = 0)
    (least : ∀ j ∈ l, p.slots[j].refs = 0 → p.slots[i].released < p.slots[j].released) :
    p.Found (l ++ [i]) (some i) := by
  refine ⟨List.mem_append_right _ (List.mem_singleton_self i), free, ?_⟩
  intro j member freeJ
  rcases List.mem_append.mp member with earlier | last
  · exact .inl (least j earlier freeJ)
  · rw [List.mem_singleton.mp last]
    exact .inr ⟨rfl, le_refl i⟩

theorem found_older (found : p.Found l best) (behind : ∀ j ∈ l, j < i) :
    p.Found (l ++ [i]) (p.older best i) := by
  unfold older
  by_cases unreferenced : p.slots[i].refs = 0
  · rw [if_neg (not_not.mpr unreferenced)]
    cases best with
    | none => exact found_new unreferenced fun j earlier free => absurd free (found j earlier)
    | some oldest =>
      dsimp only
      split
      · rename_i older
        refine found_new unreferenced fun j earlier free => ?_
        rcases found.2.2 j earlier free with less | ⟨same, -⟩
        · exact UInt64.lt_trans older less
        · exact same ▸ older
      · rename_i younger
        refine found_past found fun _ => ?_
        rcases UInt64.le_iff_lt_or_eq.mp (UInt64.not_lt.mp younger) with less | same
        · exact .inl less
        · exact .inr ⟨same, le_of_lt (behind oldest found.1)⟩
  · rw [if_pos unreferenced]
    cases best with
    | none =>
      intro j member
      rcases List.mem_append.mp member with earlier | last
      · exact found j earlier
      · rw [List.mem_singleton.mp last]
        exact unreferenced
    | some oldest => exact found_past found fun free => absurd free unreferenced

end Found

theorem found_foldl (p : Pool n) (l rest : List (Fin n)) (best : Option (Fin n))
    (ascending : (l ++ rest).Pairwise (· < ·)) (found : p.Found l best) :
    p.Found (l ++ rest) (rest.foldl p.older best) := by
  induction rest generalizing l best with
  | nil => simpa using found
  | cons i rest ih =>
    have behind : ∀ j ∈ l, j < i := fun j member =>
      (List.pairwise_append.mp ascending).2.2 j member i List.mem_cons_self
    have onward := ih (l ++ [i]) (p.older best i) (by simpa using ascending) (found_older found behind)
    simpa using onward

theorem found_leastRecentlyReleased (p : Pool n) : p.Found (List.finRange n) p.leastRecentlyReleased := by
  have nothing : p.Found [] none := by
    intro j member
    cases member
  exact found_foldl p [] (List.finRange n) none (List.pairwise_lt_finRange n) nothing

theorem victim_leastRecentlyReleased {p : Pool n} {v : Fin n}
    (chosen : p.leastRecentlyReleased = some v) : p.Victim v := by
  have found := p.found_leastRecentlyReleased
  rw [chosen] at found
  exact ⟨found.2.1, fun j => found.2.2 j (List.mem_finRange j)⟩

theorem referenced_of_none {p : Pool n} (nothing : p.leastRecentlyReleased = none) (j : Fin n) :
    p.slots[j].refs ≠ 0 := by
  have found := p.found_leastRecentlyReleased
  rw [nothing] at found
  exact found j (List.mem_finRange j)

-- Only a buffer without references is recycled, so the first round of the search ends it.
theorem refs_leastRecentlyReleased {p : Pool n} {v : Fin n} (chosen : p.leastRecentlyReleased = some v) :
    p.slots[v].refs = 0 := (victim_leastRecentlyReleased chosen).1

theorem leastRecentlyReleased_le {p : Pool n} {v : Fin n} (chosen : p.leastRecentlyReleased = some v)
    (j : Fin n) (unreferenced : p.slots[j].refs = 0) : p.slots[v].released ≤ p.slots[j].released := by
  rcases (victim_leastRecentlyReleased chosen).2 j unreferenced with earlier | ⟨same, -⟩
  · exact UInt64.le_of_lt earlier
  · exact UInt64.le_of_eq same

end KernelResources.Buffer.Pool
