import KernelResources.Buffer.Bucket
import Mathlib.Data.Fintype.Card

namespace KernelResources.Buffer.Bucket

variable {n : Nat}

@[simp] theorem head_setHead (b : Bucket n) (x : Option (Fin n)) : (b.setHead x).head = x := rfl
@[simp] theorem next_setHead (b : Bucket n) (x : Option (Fin n)) : (b.setHead x).next = b.next := rfl
@[simp] theorem prev_setHead (b : Bucket n) (x : Option (Fin n)) : (b.setHead x).prev = b.prev := rfl
@[simp] theorem head_setNext (b : Bucket n) (i : Fin n) (x : Option (Fin n)) :
    (b.setNext i x).head = b.head := rfl
@[simp] theorem prev_setNext (b : Bucket n) (i : Fin n) (x : Option (Fin n)) :
    (b.setNext i x).prev = b.prev := rfl
@[simp] theorem head_setPrev (b : Bucket n) (i : Fin n) (x : Option (Fin n)) :
    (b.setPrev i x).head = b.head := rfl
@[simp] theorem next_setPrev (b : Bucket n) (i : Fin n) (x : Option (Fin n)) :
    (b.setPrev i x).next = b.next := rfl

@[simp] theorem next_setNext (b : Bucket n) (i j : Fin n) (x : Option (Fin n)) :
    (b.setNext i x).next[j] = if i = j then x else b.next[j] := by
  simp [setNext, entry_set]

@[simp] theorem prev_setPrev (b : Bucket n) (i j : Fin n) (x : Option (Fin n)) :
    (b.setPrev i x).prev[j] = if i = j then x else b.prev[j] := by
  simp [setPrev, entry_set]

theorem next_pushFront (b : Bucket n) (i j : Fin n) :
    (b.pushFront i).next[j] = if i = j then b.head else b.next[j] := by
  unfold pushFront setBefore
  cases b.head <;> simp

theorem prev_pushFront (b : Bucket n) (i j : Fin n) :
    (b.pushFront i).prev[j] =
      if b.head = some j then some i else if i = j then none else b.prev[j] := by
  unfold pushFront setBefore
  cases b.head <;> simp

theorem head_remove (b : Bucket n) (i : Fin n) :
    (b.remove i).head = if b.prev[i] = none then b.next[i] else b.head := by
  unfold remove setAfter setBefore
  cases b.prev[i] <;> cases b.next[i] <;> simp

theorem next_remove (b : Bucket n) (i j : Fin n) :
    (b.remove i).next[j] =
      if i = j then none else if b.prev[i] = some j then b.next[i] else b.next[j] := by
  unfold remove setAfter setBefore
  cases b.prev[i] <;> cases b.next[i] <;> simp

theorem prev_remove (b : Bucket n) (i j : Fin n) :
    (b.remove i).prev[j] =
      if i = j then none else if b.next[i] = some j then b.prev[i] else b.prev[j] := by
  unfold remove setAfter setBefore
  cases b.prev[i] <;> cases b.next[i] <;> simp

-- The links go from `cursor` through `l` to `stop`, and `last` is the member before `stop`.
def Leads (b : Bucket n) :
    (before cursor : Option (Fin n)) → (l : List (Fin n)) → (last stop : Option (Fin n)) → Prop
  | before, cursor, [], last, stop => last = before ∧ stop = cursor
  | before, cursor, i :: rest, last, stop =>
    cursor = some i ∧ b.prev[i] = before ∧ b.Leads (some i) b.next[i] rest last stop

theorem linked_leads (b : Bucket n) (before cursor : Option (Fin n)) (l : List (Fin n)) :
    b.Linked before cursor l ↔ ∃ last, b.Leads before cursor l last none := by
  induction l generalizing before cursor with
  | nil => simp [Linked, Leads, eq_comm]
  | cons i l ih => simp [Linked, Leads, ih]

theorem leads_append (b : Bucket n) (l rest : List (Fin n))
    (before cursor last stop : Option (Fin n)) :
    b.Leads before cursor (l ++ rest) last stop ↔
      ∃ middle next, b.Leads before cursor l middle next ∧ b.Leads middle next rest last stop := by
  induction l generalizing before cursor with
  | nil =>
    constructor
    · intro leads
      exact ⟨before, cursor, ⟨rfl, rfl⟩, leads⟩
    · rintro ⟨_, _, ⟨rfl, rfl⟩, leads⟩
      exact leads
  | cons i l ih =>
    simp only [List.cons_append, Leads, ih]
    constructor
    · rintro ⟨here, back, middle, next, leads, more⟩
      exact ⟨middle, next, ⟨here, back, leads⟩, more⟩
    · rintro ⟨middle, next, ⟨here, back, leads⟩, more⟩
      exact ⟨here, back, middle, next, leads, more⟩

theorem leads_congr {b c : Bucket n} {l : List (Fin n)} {before cursor last stop : Option (Fin n)}
    (agree : ∀ i ∈ l, c.prev[i] = b.prev[i] ∧ c.next[i] = b.next[i])
    (leads : b.Leads before cursor l last stop) : c.Leads before cursor l last stop := by
  induction l generalizing before cursor with
  | nil => exact leads
  | cons i l ih =>
    obtain ⟨here, back, rest⟩ := leads
    obtain ⟨samePrev, sameNext⟩ := agree i (by simp)
    refine ⟨here, samePrev.trans back, ?_⟩
    rw [sameNext]
    exact ih (fun j member => agree j (by simp [member])) rest

theorem leads_last {b : Bucket n} {l : List (Fin n)} {before cursor last stop : Option (Fin n)}
    (leads : b.Leads before cursor l last stop) : last = before ∨ ∃ i ∈ l, last = some i := by
  induction l generalizing before cursor with
  | nil => exact .inl leads.1
  | cons i l ih =>
    obtain ⟨_, _, rest⟩ := leads
    rcases ih rest with here | ⟨j, member, there⟩
    · exact .inr ⟨i, by simp, here⟩
    · exact .inr ⟨j, by simp [member], there⟩

theorem linked_congr {b c : Bucket n} {l : List (Fin n)} {before cursor : Option (Fin n)}
    (agree : ∀ i ∈ l, c.prev[i] = b.prev[i] ∧ c.next[i] = b.next[i])
    (linked : b.Linked before cursor l) : c.Linked before cursor l := by
  obtain ⟨last, leads⟩ := (linked_leads ..).mp linked
  exact (linked_leads ..).mpr ⟨last, leads_congr agree leads⟩

theorem leads_redirect {b c : Bucket n} {l : List (Fin n)} {cursor last stop target : Option (Fin n)}
    (distinct : l.Nodup) (leads : b.Leads none cursor l last stop)
    (samePrev : ∀ i ∈ l, c.prev[i] = b.prev[i])
    (turned : ∀ i ∈ l, c.next[i] = if last = some i then target else b.next[i]) :
    c.Leads none (if last = none then target else cursor) l last target := by
  rcases List.eq_nil_or_concat' l with rfl | ⟨front, a, rfl⟩
  · obtain ⟨rfl, rfl⟩ := leads
    simp [Leads]
  · obtain ⟨middle, next, opening, here, back, rfl, rfl⟩ := (leads_append ..).mp leads
    have unlike : ∀ i ∈ front, a ≠ i := by
      rintro i member rfl
      simp [List.nodup_append] at distinct
      exact distinct.2 _ member rfl
    simp only [leads_append, reduceCtorEq, if_false]
    refine ⟨middle, next, leads_congr ?_ opening, here, ?_, rfl, ?_⟩
    · intro i member
      refine ⟨samePrev i (by simp [member]), ?_⟩
      simp [turned i (by simp [member]), unlike i member]
    · exact (samePrev a (by simp)).trans back
    · simp [turned a (by simp)]

theorem represents_empty : (empty : Bucket n).Represents [] := ⟨rfl, List.nodup_nil⟩

theorem represents_pushFront {b : Bucket n} {l : List (Fin n)} (shown : b.Represents l) {i : Fin n}
    (absent : i ∉ l) : (b.pushFront i).Represents (i :: l) := by
  obtain ⟨linked, distinct⟩ := shown
  refine ⟨⟨rfl, ?_, ?_⟩, List.nodup_cons.mpr ⟨absent, distinct⟩⟩
  · rw [prev_pushFront]
    split
    · rename_i onList
      cases l with
      | nil => simp [Linked] at linked; simp [linked] at onList
      | cons j l => simp_all [Linked]
    · simp
  · rw [next_pushFront, if_pos rfl]
    cases l with
    | nil => exact linked
    | cons j l =>
      obtain ⟨here, back, rest⟩ := linked
      have other : i ≠ j := fun same => absent (by simp [same])
      refine ⟨here, by rw [prev_pushFront, if_pos here], ?_⟩
      rw [next_pushFront, if_neg other]
      refine linked_congr ?_ rest
      intro k member
      have fresh : i ≠ k := fun same => absent (by simp [same, member])
      have later : j ≠ k := fun same => (List.nodup_cons.mp distinct).1 (same ▸ member)
      rw [prev_pushFront, next_pushFront, here]
      simp [fresh, later]

theorem represents_remove {b : Bucket n} {l : List (Fin n)} (shown : b.Represents l) {i : Fin n}
    (member : i ∈ l) : (b.remove i).Represents (l.erase i) := by
  obtain ⟨linked, distinct⟩ := shown
  obtain ⟨front, back, ahead, rfl, erased⟩ := List.exists_erase_eq member
  have kept : (front ++ back).Nodup := erased ▸ distinct.erase i
  rw [erased]
  obtain ⟨last, leads⟩ := (linked_leads ..).mp linked
  obtain ⟨before, _, opening, rfl, here, closing⟩ := (leads_append ..).mp leads
  obtain ⟨frontDistinct, backDistinct, apart⟩ := List.nodup_append.mp distinct
  have behind : i ∉ back := (List.nodup_cons.mp backDistinct).1
  have frontLast : ∀ j ∈ back, before ≠ some j := by
    rintro j inBack rfl
    rcases leads_last opening with none | ⟨k, inFront, same⟩
    · cases none
    · exact apart k inFront j (by simp [inBack]) (Option.some.inj same).symm
  have frontNext : ∀ j ∈ front, b.next[i] ≠ some j := by
    intro j inFront toward
    cases back with
    | nil => simp [Leads, toward] at closing
    | cons k back =>
      have same := closing.1.symm.trans toward
      exact apart j inFront k (by simp) (Option.some.inj same).symm
  refine ⟨(linked_leads ..).mpr ?_, kept⟩
  have turned : (b.remove i).Leads none (b.remove i).head front before b.next[i] := by
    rw [head_remove, here]
    refine leads_redirect frontDistinct opening ?_ ?_
    · intro j inFront
      have other : i ≠ j := fun same => ahead (same ▸ inFront)
      rw [prev_remove, if_neg other, if_neg (frontNext j inFront)]
    · intro j inFront
      have other : i ≠ j := fun same => ahead (same ▸ inFront)
      rw [next_remove, if_neg other, here]
  cases back with
  | nil =>
    obtain ⟨-, ended⟩ := closing
    rw [← ended] at turned
    exact ⟨before, by simpa using turned⟩
  | cons k back =>
    obtain ⟨toward, -, rest⟩ := closing
    have other : i ≠ k := fun same => behind (by simp [same])
    have more := (List.nodup_cons.mp (List.nodup_cons.mp backDistinct).2).1
    refine ⟨last, (leads_append ..).mpr ⟨before, b.next[i], turned, toward, ?_, ?_⟩⟩
    · rw [prev_remove, if_neg other, if_pos toward, here]
    · rw [next_remove, if_neg other, here, if_neg (frontLast k (by simp))]
      refine leads_congr ?_ rest
      intro j inBack
      have unlike : i ≠ j := fun same => behind (by simp [same, inBack])
      have later : k ≠ j := fun same => more (same ▸ inBack)
      constructor
      · rw [prev_remove, if_neg unlike, toward, if_neg (by simpa using later)]
      · rw [next_remove, if_neg unlike, here, if_neg (frontLast j (by simp [inBack]))]

theorem linked_holdingAll (k : Nat) :
    (holdingAll : Bucket n).Linked (if inside : 0 < k ∧ k ≤ n then some ⟨k - 1, by omega⟩ else none)
      (if more : k < n then some ⟨k, more⟩ else none) ((List.finRange n).drop k) := by
  by_cases more : k < n
  · have rest := linked_holdingAll (k + 1)
    rw [List.drop_eq_getElem_cons (by simpa using more)]
    simp only [List.getElem_finRange, dif_pos more, Fin.cast_mk]
    refine ⟨rfl, ?_, ?_⟩
    · by_cases later : 0 < k <;> simp [holdingAll, more.le, later]
    · simpa [holdingAll, Nat.succ_le_of_lt more] using rest
  · rw [List.drop_eq_nil_of_le (by simpa using more), dif_neg more]
    rfl
termination_by n - k

theorem represents_holdingAll : (holdingAll : Bucket n).Represents (List.finRange n) := by
  refine ⟨?_, List.nodup_finRange n⟩
  simpa [holdingAll] using linked_holdingAll (n := n) 0

theorem chain_linked {b : Bucket n} {l : List (Fin n)} {before cursor : Option (Fin n)}
    (linked : b.Linked before cursor l) {limit : Nat} (enough : l.length ≤ limit) :
    b.chain limit cursor = l := by
  induction l generalizing before cursor limit with
  | nil =>
    cases linked
    cases limit <;> rfl
  | cons i l ih =>
    obtain ⟨rfl, -, rest⟩ := linked
    obtain ⟨limit, rfl⟩ := Nat.exists_eq_add_one_of_ne_zero (n := limit) (by simp at enough; omega)
    rw [chain, ih rest (by simpa using enough)]

theorem length_le_of_nodup {l : List (Fin n)} (distinct : l.Nodup) : l.length ≤ n := by
  simpa using distinct.length_le_card

theorem members_represents {b : Bucket n} {l : List (Fin n)} (shown : b.Represents l) :
    b.members = l :=
  chain_linked shown.1 (length_le_of_nodup shown.2)

def visitAll {σ : Type} (visit : Fin n → σ → Except AuditError Unit × σ) :
    List (Fin n) → σ → Except AuditError Unit × σ
  | [], s => (.ok (), s)
  | i :: rest, s =>
    match visit i s with
    | (.ok (), s) => visitAll visit rest s
    | (.error error, s) => (.error error, s)

theorem walkFrom_linked {σ : Type} {b : Bucket n} {l : List (Fin n)}
    {before cursor : Option (Fin n)} (linked : b.Linked before cursor l) (bucket : Nat)
    (visit : Fin n → σ → Except AuditError Unit × σ) {left : Nat} (enough : l.length ≤ left) (s : σ) :
    b.walkFrom bucket visit left before cursor s = visitAll visit l s := by
  induction l generalizing before cursor left s with
  | nil =>
    cases linked
    cases left <;> rfl
  | cons i l ih =>
    obtain ⟨rfl, back, rest⟩ := linked
    obtain ⟨left, rfl⟩ := Nat.exists_eq_add_one_of_ne_zero (n := left) (by simp at enough; omega)
    rw [walkFrom, if_neg (by simpa using back), visitAll]
    obtain ⟨result, next⟩ := visit i s
    cases result with
    | ok => exact ih rest (by simpa using enough) next
    | error => rfl

theorem walk_represents {σ : Type} {b : Bucket n} {l : List (Fin n)} (shown : b.Represents l)
    (bucket : Nat) (visit : Fin n → σ → Except AuditError Unit × σ) (s : σ) :
    b.walk bucket visit s = visitAll visit l s :=
  walkFrom_linked shown.1 bucket visit (length_le_of_nodup shown.2) s

end KernelResources.Buffer.Bucket
