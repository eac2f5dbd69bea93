import KernelResources.Proofs.Page.Chains

namespace KernelResources

def Ram.Full (ram : Ram) (page : Nat) (byte : UInt8) : Prop :=
  ∀ k, k < pageSize → ram.byte (page + k) = byte

theorem Ram.Full.bytes {ram : Ram} {page : Nat} {byte : UInt8} (full : ram.Full page byte) :
    ram.bytes page pageSize = List.replicate pageSize byte := by
  apply List.eq_replicate_iff.mpr
  refine ⟨bytes_length _, fun b member => ?_⟩
  obtain ⟨k, small, rfl⟩ := List.mem_map.mp member
  exact full k (List.mem_range.mp small)

namespace Page

variable {cores : Nat}

def Frames.Covers (f : Frames) (address : Nat) : Prop :=
  f.InTable address ∨ ∃ p, f.Manages p ∧ p ≤ address ∧ address < p + pageSize

namespace Allocator

variable {a b c : Allocator cores} {s t u : Stock cores} {f : Frames} {i : UInt32} {p : Nat}

-- Pages that the stock `s` has and `t` has not are handed out, pages that only `t` has are taken back,
-- and all others are left alone.
structure Treats (f : Frames) (a : Allocator cores) (s : Stock cores) (b : Allocator cores)
    (t : Stock cores) : Prop where
  spared : ∀ p, f.Manages p → s.has p = t.has p →
    ∀ k, k < pageSize → b.ram.byte (p + k) = a.ram.byte (p + k)
  taken : ∀ p, f.Manages p → s.has p = false → t.has p = true → b.ram.Full p freeFill
  handed : ∀ p, f.Manages p → s.has p = true → t.has p = false → b.ram.Full p allocFill
  words : s.managed = some f → t.managed = some f ∧ ∀ i : UInt32, i.toNat < f.count →
    s.has (f.page i) = t.has (f.page i) → f.linkWord b.ram i = f.linkWord a.ram i
  outside : ∀ address, ¬ f.Covers address → b.ram.byte address = a.ram.byte address

theorem Treats.refl (f : Frames) (a : Allocator cores) (s : Stock cores) : Treats f a s a s := by
  refine ⟨fun _ _ _ _ _ => rfl, ?_, ?_, fun managed => ⟨managed, fun _ _ _ => rfl⟩, fun _ _ => rfl⟩
  · intro p _ out known
    rw [out] at known
    cases known
  · intro p _ known out
    rw [out] at known
    cases known

theorem Treats.trans (first : Treats f a s b t) (later : Treats f b t c u)
    (steady : ∀ p, s.has p = u.has p → s.has p = t.has p) : Treats f a s c u := by
  refine ⟨?_, ?_, ?_, ?_, fun address beyond =>
    (later.outside address beyond).trans (first.outside address beyond)⟩
  · intro p managed same k small
    have before := steady p same
    exact (later.spared p managed (before.symm.trans same) k small).trans
      (first.spared p managed before k small)
  · intro p managed out known
    cases between : t.has p with
    | false => exact later.taken p managed between known
    | true =>
      intro k small
      rw [later.spared p managed (between.trans known.symm) k small]
      exact first.taken p managed out between k small
  · intro p managed known out
    cases between : t.has p with
    | true => exact later.handed p managed between out
    | false =>
      intro k small
      rw [later.spared p managed (between.trans out.symm) k small]
      exact first.handed p managed known between k small
  · intro managed
    obtain ⟨middle, firstWords⟩ := first.words managed
    obtain ⟨final, laterWords⟩ := later.words middle
    refine ⟨final, fun i known same => ?_⟩
    have before := steady _ same
    exact (laterWords i known (before.symm.trans same)).trans (firstWords i known before)

theorem treats_one (lies : f.Lies a.ram) (known : i.toNat < f.count) (managed : t.managed = s.managed)
    (moved : s.has (f.page i) ≠ t.has (f.page i)) (others : ∀ q, q ≠ f.page i → s.has q = t.has q)
    (elsewhere : ∀ address, (address < f.linkAddress i ∨ f.linkAddress i + 4 ≤ address) →
      (address < f.page i ∨ f.page i + pageSize ≤ address) → b.ram.byte address = a.ram.byte address)
    (full : b.ram.Full (f.page i) (if t.has (f.page i) = true then freeFill else allocFill)) :
    Treats f a s b t := by
  have here := Frames.manages_page known
  have link : ∀ address, ¬ f.InTable address →
      address < f.linkAddress i ∨ f.linkAddress i + 4 ≤ address := by
    intro address beyond
    apply Ram.beside_of_ne
    rintro k small rfl
    exact beyond (Frames.link_inTable known small)
  have alone : ∀ p, s.has p ≠ t.has p → p = f.page i := by
    intro p unlike
    by_cases same : p = f.page i
    · exact same
    · exact absurd (others p same) unlike
  refine ⟨?_, ?_, ?_, fun before => ⟨managed.trans before, ?_⟩, ?_⟩
  · intro p inside same k small
    have unlike : p ≠ f.page i := by
      rintro rfl
      exact moved same
    have apart := Frames.pages_apart inside here unlike
    refine elsewhere _ (link _ fun word => ?_) (by omega)
    have below := Frames.page_outside_table lies inside word
    omega
  · intro p _ out present
    have same := alone p (by simp [out, present])
    rw [← same, if_pos present] at full
    exact full
  · intro p _ present out
    have same := alone p (by simp [out, present])
    rw [← same, if_neg (by simp [out])] at full
    exact full
  · intro j knownJ same
    have unlike : i ≠ j := by
      rintro rfl
      exact moved same
    have apart := Frames.links_apart (f := f) unlike
    apply Ram.word_congr
    intro k small
    have below := Frames.page_outside_table lies here (Frames.link_inTable knownJ small)
    exact elsewhere _ (by omega) (.inl below)
  · intro address beyond
    refine elsewhere address (link address fun word => beyond (.inl word)) (Ram.beside_of_ne ?_)
    rintro k small rfl
    exact beyond (.inr ⟨_, here, Nat.le_add_right .., Nat.add_lt_add_left small _⟩)

section Memory

variable (lies : f.Lies a.ram)

include lies

theorem filled_full (managed : f.Manages p) (byte : UInt8) : (a.filled p byte).ram.Full p byte := by
  intro k small
  unfold Allocator.filled
  rw [Ram.byte_fillPage (Frames.page_inside lies managed) (Frames.page_aligned lies managed),
    if_pos (by omega)]

theorem filled_elsewhere (managed : f.Manages p) (byte : UInt8) {address : Nat}
    (beside : address < p ∨ p + pageSize ≤ address) :
    (a.filled p byte).ram.byte address = a.ram.byte address := by
  unfold Allocator.filled
  rw [Ram.byte_fillPage (Frames.page_inside lies managed) (Frames.page_aligned lies managed),
    if_neg (by omega)]

end Memory

end Allocator

end Page

end KernelResources
