import KernelResources.Buffer.Block
import Mathlib.Data.List.Dedup

namespace KernelResources.Buffer

def recent (past : List BlockId) : List BlockId := past.dedup.reverse

-- How many accesses of `rest`, which follow those of `past`, were to none of the `n` blocks that were the
-- most recently accessed just before.
def misses (n : Nat) : (past rest : List BlockId) → Nat
  | _, [] => 0
  | past, b :: rest => (if b ∈ (recent past).take n then 0 else 1) + misses n (past ++ [b]) rest

theorem dedup_concat (past : List BlockId) (b : BlockId) :
    (past ++ [b]).dedup = past.dedup.erase b ++ [b] := by
  induction past with
  | nil => rfl
  | cons x past ih =>
    rw [List.cons_append]
    by_cases known : x ∈ past
    · rw [List.dedup_cons_of_mem (List.mem_append_left _ known), ih, List.dedup_cons_of_mem known]
    · rw [List.dedup_cons_of_notMem known]
      by_cases same : x = b
      · subst same
        rw [List.dedup_cons_of_mem (by simp), ih, List.erase_cons_head,
          List.erase_of_not_mem (by simpa using known)]
      · rw [List.dedup_cons_of_notMem (by simp [known, same]), ih,
          List.erase_cons_tail (by simpa using same), List.cons_append]

theorem recent_concat (past : List BlockId) (b : BlockId) :
    recent (past ++ [b]) = b :: (recent past).erase b := by
  have distinct := past.nodup_dedup
  rw [recent, dedup_concat, List.reverse_append, List.reverse_singleton, List.singleton_append, recent,
    distinct.erase_eq_filter, (List.nodup_reverse.mpr distinct).erase_eq_filter, List.filter_reverse]

theorem nodup_recent (past : List BlockId) : (recent past).Nodup :=
  List.nodup_reverse.mpr past.nodup_dedup

theorem length_recent (past : List BlockId) : (recent past).length = past.dedup.length :=
  List.length_reverse

theorem take_erase_hit {b : BlockId} {l : List BlockId} {k : Nat} (hit : b ∈ l.take (k + 1)) :
    (l.erase b).take k = (l.take (k + 1)).erase b := by
  induction l generalizing k with
  | nil => simp
  | cons x l ih =>
    by_cases same : x = b
    · subst same
      rw [List.erase_cons_head, List.take_succ_cons, List.erase_cons_head]
    · have unlike : ¬(x == b) = true := by simpa using same
      have later : b ∈ l.take k := by simpa [Ne.symm same] using hit
      cases k with
      | zero => simp at later
      | succ k =>
        rw [List.erase_cons_tail unlike, List.take_succ_cons, ih later, List.take_succ_cons,
          List.erase_cons_tail unlike]

theorem take_erase_miss {b : BlockId} {l : List BlockId} {k : Nat} (miss : b ∉ l.take (k + 1)) :
    (l.erase b).take k = l.take k := by
  induction l generalizing k with
  | nil => rfl
  | cons x l ih =>
    rw [List.take_succ_cons, List.mem_cons, not_or] at miss
    rw [List.erase_cons_tail (by simpa using Ne.symm miss.1)]
    cases k with
    | zero => rfl
    | succ k => rw [List.take_succ_cons, List.take_succ_cons, ih miss.2]

theorem misses_antitone {n m : Nat} (larger : n ≤ m) (past rest : List BlockId) :
    misses m past rest ≤ misses n past rest := by
  induction rest generalizing past with
  | nil => exact Nat.le_refl _
  | cons b rest ih =>
    have later := ih (past ++ [b])
    have wider : b ∈ (recent past).take n → b ∈ (recent past).take m :=
      fun known => List.take_subset_take_left _ larger known
    unfold misses
    split
    · omega
    · rename_i missing
      rw [if_neg fun known => missing (wider known)]
      omega

example : misses 2 [] [⟨1, 5⟩, ⟨1, 18⟩, ⟨1, 5⟩, ⟨1, 31⟩, ⟨1, 18⟩] = 4 := by decide

end KernelResources.Buffer
