import KernelResources.Registry
import Mathlib.Data.List.Nodup

namespace KernelResources.Registry

variable {Key α β : Type} [BEq Key]

def update (r : Registry Key α) (key : Key) (f : α → α) : Registry Key α :=
  r.map fun pair => if pair.1 == key then (pair.1, f pair.2) else pair

def tally [DecidableEq β] (r : Registry Key α) (f : α → β) (x : β) : Nat :=
  r.countP fun pair => f pair.2 = x

theorem find?_cons (first key : Key) (value : α) (rest : Registry Key α) :
    find? ((first, value) :: rest) key = if key == first then some value else rest.find? key := by
  rw [find?, List.lookup_cons]
  cases key == first <;> rfl

theorem keys_erase (r : Registry Key α) (key : Key) : (r.erase key).keys = r.keys.filter (· != key) := by
  rw [keys, keys, List.filter_map]
  rfl

theorem nodup_erase {r : Registry Key α} (distinct : r.keys.Nodup) (key : Key) :
    (r.erase key).keys.Nodup :=
  (List.Sublist.map _ List.filter_sublist).nodup distinct

theorem put_erase (r : Registry Key α) (key : Key) (value : α) :
    (r.erase key).put key value = r.put key value := by
  simp [put, erase]

@[simp] theorem keys_update (r : Registry Key α) (key : Key) (f : α → α) :
    (r.update key f).keys = r.keys := by
  simp only [keys, update, List.map_map]
  apply List.map_congr_left
  intro pair _
  by_cases same : pair.1 == key <;> simp [same]

theorem tally_put [DecidableEq β] (r : Registry Key α) (key : Key) (value : α) (f : α → β) (x : β) :
    (r.put key value).tally f x = (r.erase key).tally f x + if f value = x then 1 else 0 := by
  simp [put, tally, List.countP_cons]

theorem tally_update [DecidableEq β] (r : Registry Key α) (key : Key) (change : α → α) (f : α → β)
    (x : β) (kept : ∀ value, f (change value) = f value) :
    (r.update key change).tally f x = r.tally f x := by
  rw [tally, update, List.countP_map]
  apply List.countP_congr
  intro pair _
  by_cases same : pair.1 == key <;> simp [same, kept]

variable [LawfulBEq Key]

theorem mem_erase (r : Registry Key α) (key : Key) (pair : Key × α) :
    pair ∈ r.erase key ↔ pair ∈ r ∧ pair.1 ≠ key := by
  simp [erase]

theorem find?_known {r : Registry Key α} {key : Key} (known : key ∈ r.keys) :
    ∃ value, r.find? key = some value :=
  Option.isSome_iff_exists.mp ((contains_iff r key).mpr known)

theorem find?_mem {r : Registry Key α} {key : Key} {value : α} (found : r.find? key = some value) :
    (key, value) ∈ r := by
  induction r with
  | nil => cases found
  | cons pair rest ih =>
    obtain ⟨first, held⟩ := pair
    rw [find?_cons] at found
    split at found
    · rename_i same
      cases found
      rw [eq_of_beq same]
      exact List.mem_cons_self
    · exact List.mem_cons_of_mem _ (ih found)

theorem find?_absent {r : Registry Key α} {key : Key} (absent : r.find? key = none) {value : α} :
    (key, value) ∉ r := by
  intro member
  have known : key ∈ r.keys := List.mem_map.mpr ⟨_, member, rfl⟩
  rw [← contains_iff, contains, absent] at known
  cases known

theorem mem_find? {r : Registry Key α} (distinct : r.keys.Nodup) {key : Key} {value : α}
    (member : (key, value) ∈ r) : r.find? key = some value := by
  cases found : r.find? key with
  | none => exact absurd member (find?_absent found)
  | some other =>
    have same := List.inj_on_of_nodup_map distinct (find?_mem found) member rfl
    exact congrArg some (Prod.mk.inj same).2

theorem erase_absent {r : Registry Key α} {key : Key} (absent : r.find? key = none) :
    r.erase key = r := by
  apply List.filter_eq_self.mpr
  rintro ⟨other, value⟩ member
  have unlike : other ≠ key := by
    rintro rfl
    exact find?_absent absent member
  simpa using unlike

theorem erase_put {r : Registry Key α} {key : Key} (absent : r.find? key = none) (value : α) :
    (r.put key value).erase key = r := by
  rw [put, erase_absent absent, erase, List.filter_cons_of_neg (by simp)]
  exact erase_absent absent

theorem find?_update (r : Registry Key α) (key other : Key) (f : α → α) :
    (r.update key f).find? other = if other == key then (r.find? other).map f else r.find? other := by
  induction r with
  | nil => simp [update, find?]
  | cons pair rest ih =>
    obtain ⟨first, value⟩ := pair
    have ahead : update ((first, value) :: rest) key f =
        (first, if first == key then f value else value) :: update rest key f := by
      by_cases same : first == key <;> simp [update, same]
    rw [ahead, find?_cons, find?_cons, ih]
    by_cases here : other = first
    · subst here
      by_cases same : other = key <;> simp [same]
    · simp [here]

theorem mem_update {r : Registry Key α} (distinct : r.keys.Nodup) {key : Key} {f : α → α}
    {pair : Key × α} (member : pair ∈ r.update key f) :
    pair ∈ r ∨ ∃ value, r.find? key = some value ∧ pair = (key, f value) := by
  obtain ⟨⟨other, value⟩, known, rfl⟩ := List.mem_map.mp member
  by_cases same : other = key
  · subst same
    exact .inr ⟨value, mem_find? distinct known, by simp⟩
  · exact .inl (by simpa [same] using known)

theorem update_mem {r : Registry Key α} {key : Key} {value : α} (found : r.find? key = some value)
    (f : α → α) : (key, f value) ∈ r.update key f :=
  List.mem_map.mpr ⟨_, find?_mem found, by simp⟩

theorem find?_filter_keys (r : Registry Key α) (keep : Key → Bool) (key : Key) :
    find? (r.filter fun pair => keep pair.1) key = if keep key then r.find? key else none := by
  induction r with
  | nil => simp [find?]
  | cons pair rest ih =>
    obtain ⟨first, value⟩ := pair
    by_cases same : key = first
    · subst same
      cases kept : keep key with
      | true => simp [kept, find?_cons]
      | false =>
        rw [List.filter_cons_of_neg (by simp [kept])]
        simpa [kept] using ih
    · have unlike : (key == first) = false := by simpa using same
      have further : find? ((first, value) :: rest) key = find? rest key := by
        rw [find?_cons, unlike, if_neg Bool.false_ne_true]
      rw [further, ← ih]
      cases kept : keep first with
      | true => rw [List.filter_cons_of_pos (by simp [kept]), find?_cons, unlike, if_neg Bool.false_ne_true]
      | false => rw [List.filter_cons_of_neg (by simp [kept])]

theorem tally_erase [DecidableEq β] {r : Registry Key α} (distinct : r.keys.Nodup) {key : Key}
    {value : α} (found : r.find? key = some value) (f : α → β) (x : β) :
    r.tally f x = (r.erase key).tally f x + if f value = x then 1 else 0 := by
  induction r with
  | nil => cases found
  | cons pair rest ih =>
    obtain ⟨first, held⟩ := pair
    obtain ⟨fresh, distinct⟩ := List.nodup_cons.mp (show (first :: keys rest).Nodup from distinct)
    rw [find?_cons] at found
    by_cases same : key = first
    · subst same
      have here : held = value := by simpa using found
      have absent : find? rest key = none := by
        cases there : find? rest key with
        | none => rfl
        | some other => exact absurd (List.mem_map.mpr ⟨_, find?_mem there, rfl⟩) fresh
      have kept : erase ((key, held) :: rest) key = rest := by
        have unchanged := erase_absent absent
        simpa [erase] using unchanged
      rw [kept, tally, List.countP_cons, here]
      simp [tally]
    · have kept : erase ((first, held) :: rest) key = (first, held) :: erase rest key := by
        simp [erase, Ne.symm same]
      have later := ih distinct (by simpa [same] using found)
      simp only [tally] at later
      rw [kept, tally, tally, List.countP_cons, List.countP_cons, later]
      omega

theorem perm_erase {r : Registry Key α} (distinct : r.keys.Nodup) {key : Key} {value : α}
    (found : r.find? key = some value) : r.Perm ((key, value) :: r.erase key) := by
  induction r with
  | nil => cases found
  | cons pair rest ih =>
    obtain ⟨first, held⟩ := pair
    obtain ⟨fresh, distinct⟩ := List.nodup_cons.mp (show (first :: keys rest).Nodup from distinct)
    rw [find?_cons] at found
    by_cases same : key = first
    · subst same
      have here : held = value := by simpa using found
      have gone : ∀ pair ∈ rest, pair.1 ≠ key := by
        rintro pair member rfl
        exact fresh (List.mem_map.mpr ⟨pair, member, rfl⟩)
      have kept : erase ((key, held) :: rest) key = rest := by
        simpa [erase] using gone
      rw [kept, here]
    · have kept : erase ((first, held) :: rest) key = (first, held) :: erase rest key := by
        simp [erase, Ne.symm same]
      rw [kept]
      exact ((ih distinct (by simpa [same] using found)).cons _).trans (.swap ..)

theorem tally_pos [DecidableEq β] {r : Registry Key α} {key : Key} {value : α}
    (found : r.find? key = some value) (f : α → β) : 0 < r.tally f (f value) :=
  List.countP_pos_iff.mpr ⟨_, find?_mem found, by simp⟩

end KernelResources.Registry
