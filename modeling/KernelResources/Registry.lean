namespace KernelResources

-- At most one thing under each key, the newest in front.
abbrev Registry (Key α : Type) := List (Key × α)

namespace Registry

variable {Key α : Type} [BEq Key]

def find? (r : Registry Key α) (key : Key) : Option α := r.lookup key

def contains (r : Registry Key α) (key : Key) : Bool := (r.find? key).isSome

def erase (r : Registry Key α) (key : Key) : Registry Key α := r.filter (·.1 != key)

def put (r : Registry Key α) (key : Key) (value : α) : Registry Key α := (key, value) :: r.erase key

def keys (r : Registry Key α) : List Key := r.map (·.1)

variable [LawfulBEq Key]

theorem find?_erase (r : Registry Key α) (key other : Key) :
    (r.erase key).find? other = if other == key then none else r.find? other := by
  induction r with
  | nil => simp [erase, find?]
  | cons pair rest ih =>
    obtain ⟨first, value⟩ := pair
    simp only [find?, erase] at ih ⊢
    by_cases same : first = key
    · subst same
      simp only [List.filter_cons, bne_self_eq_false, Bool.false_eq_true, if_false, ih,
        List.lookup_cons]
      by_cases found : other = first
      · simp [found]
      · have unlike : (other == first) = false := by simpa using found
        simp [unlike]
    · have kept : (first != key) = true := by simpa using same
      simp only [List.filter_cons, kept, if_true, List.lookup_cons, ih]
      by_cases found : other = first
      · subst found
        simp [same]
      · have unlike : (other == first) = false := by simpa using found
        simp [unlike]

theorem find?_put (r : Registry Key α) (key other : Key) (value : α) :
    (r.put key value).find? other = if other == key then some value else r.find? other := by
  have rest := find?_erase r key other
  simp only [find?, put, List.lookup_cons] at rest ⊢
  cases same : other == key with
  | true => rfl
  | false => simp [same, rest]

theorem contains_iff (r : Registry Key α) (key : Key) : r.contains key = true ↔ key ∈ r.keys := by
  induction r with
  | nil => simp [contains, find?, keys]
  | cons pair rest ih =>
    obtain ⟨first, value⟩ := pair
    simp only [contains, find?, keys, List.lookup_cons, List.map_cons, List.mem_cons] at ih ⊢
    by_cases same : key = first
    · simp [same]
    · have unlike : (key == first) = false := by simpa using same
      simp [same, unlike, ih]

theorem nodup_put {r : Registry Key α} (distinct : r.keys.Nodup) (key : Key) (value : α) :
    (r.put key value).keys.Nodup := by
  have rest : (r.erase key).keys.Nodup :=
    (List.Sublist.map _ List.filter_sublist).nodup distinct
  simp only [put, keys, List.map_cons, List.nodup_cons]
  refine ⟨?_, rest⟩
  simp [erase]

end Registry

end KernelResources
