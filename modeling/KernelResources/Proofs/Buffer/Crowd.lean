import KernelResources.Proofs.Buffer.ClientBooks

namespace KernelResources.Buffer

open Machine Stage

variable {n : Nat}

theorem Booked.asks {s : Machine n 1} {l : Ledger 1} (booked : Booked s l) {task : TaskId}
    {call : SleepingCall n 1} (slept : s.asleep.find? task = some call) :
    l.requests.find? task = some call.request := by
  rw [← booked.asked, slept]
  rfl

namespace Account

def inUse (a : Account n 1) : List (String × Spot 1) :=
  a.ledger.grants.map (fun pair => (pair.1, pair.2.spot)) ++
    a.machine.asleep.map fun pair => (nameOf pair.1, pair.2.place.spot)

variable {a : Account n 1} {disks : Vector Disk 1} {clients before after : List Client} {c : Client}

theorem references_inUse (books : Books disks a.ledger clients) (p : Place n 1) :
    a.references p = a.inUse.countP (·.2 = p.spot) := by
  rw [inUse, List.countP_append, List.countP_map, List.countP_map]
  simp only [references, Ledger.pinsAt, Ledger.leakedAt, Ledger.lostBuffersAt, books.unpinned,
    books.keptBuffers, books.keptPins]
  simp [Ledger.buffersAt, sleepersAt, Registry.tally, Function.comp_def, spot_inj]

theorem inUse_client (sound : Sound a) (books : Books disks a.ledger clients) {name : String}
    {spot : Spot 1} (used : (name, spot) ∈ a.inUse) :
    ∃ c ∈ clients, c.name = name ∧ c.phase ≠ .asking ∧
      ∃ (p : Place n 1) (b : BlockId), p.spot = spot ∧ (a.machine.slot p).holds b = true ∧ b ∈ c.todo := by
  obtain ⟨booked, _, _, fits, waits⟩ := sound.accounted
  rcases List.mem_append.mp used with granted | asleep
  · obtain ⟨⟨holder, g⟩, member, same⟩ := List.mem_map.mp granted
    cases same
    have known := Registry.mem_find? booked.grantsDistinct member
    obtain ⟨c, present, rest, rfl, holds, knows⟩ := books.holder known
    obtain ⟨p, spot, fit⟩ := fits g (Ledger.named_unreleased known)
    refine ⟨c, present, rfl, ?_, p, g.block, spot, fit.holds, ?_⟩
    · intro asking
      rw [asking] at knows
      exact knows
    · rw [holds.todo]
      exact List.mem_cons_self
  · obtain ⟨⟨task, call⟩, member, same⟩ := List.mem_map.mp asleep
    cases same
    have slept := Registry.mem_find? booked.callsDistinct member
    obtain ⟨c, present, b, rest, rfl, waiting, same⟩ := books.asker (booked.asks slept)
    have block : call.block = b := congrArg Request.block same
    refine ⟨c, present, rfl, by simp [waiting.phase], call.place, call.block, rfl,
      waits c.task call slept, ?_⟩
    rw [waiting.todo, block]
    exact List.mem_cons_self

theorem inUse_distinct (sound : Sound a) (books : Books disks a.ledger clients) :
    (a.inUse.map (·.1)).Nodup := by
  obtain ⟨booked, _, _, _, _⟩ := sound.accounted
  rw [inUse, List.map_append, List.map_map, List.map_map]
  refine List.Nodup.append booked.grantsDistinct ?_ ?_
  · have calls := booked.callsDistinct.map (f := nameOf) fun _ _ same => nameOf_inj.mp same
    rw [Registry.keys, List.map_map] at calls
    exact calls
  · -- Who sleeps has nothing yet.
    intro name granted slept
    obtain ⟨⟨holder, g⟩, member, rfl⟩ := List.mem_map.mp granted
    obtain ⟨⟨task, call⟩, asleep, same⟩ := List.mem_map.mp slept
    have known := Registry.mem_find? booked.grantsDistinct member
    have asked := booked.asks (Registry.mem_find? booked.callsDistinct asleep)
    obtain ⟨c, _, b, rest, rfl, waiting, _⟩ := books.asker asked
    have unheld : a.ledger.grants.find? (nameOf c.task) = none := waiting.unheld
    simp only [Function.comp_apply] at same
    rw [same, known] at unheld
    cases unheld

theorem others_bound (sound : Sound a) (books : Books disks a.ledger (before ++ c :: after))
    (asking : c.phase = .asking) (chosen : String × Spot 1 → Bool) (wanted : Client → Bool)
    (owner : ∀ d ∈ before ++ c :: after, ∀ spot, (d.name, spot) ∈ a.inUse → chosen (d.name, spot) = true →
      wanted d = true) :
    a.inUse.countP chosen ≤ (before ++ after).countP wanted := by
  have distinct : ((a.inUse.filter chosen).map (·.1)).Nodup :=
    (List.Sublist.map _ List.filter_sublist).nodup (inUse_distinct sound books)
  have owned : (a.inUse.filter chosen).map (·.1) ⊆ ((before ++ after).filter wanted).map (·.name) := by
    intro name member
    obtain ⟨⟨holder, spot⟩, kept, rfl⟩ := List.mem_map.mp member
    obtain ⟨used, picked⟩ := List.mem_filter.mp kept
    obtain ⟨d, present, same, busy, _⟩ := inUse_client sound books used
    dsimp only at same ⊢
    subst same
    have other : d ∈ before ++ after := by
      rcases List.mem_append.mp present with early | late
      · exact List.mem_append_left _ early
      · rcases List.mem_cons.mp late with rfl | late
        · exact absurd asking busy
        · exact List.mem_append_right _ late
    exact List.mem_map.mpr ⟨d, List.mem_filter.mpr ⟨other, owner d present spot used picked⟩, rfl⟩
  have bound := (List.subperm_of_subset distinct owned).length_le
  rw [List.length_map, List.length_map] at bound
  rw [List.countP_eq_length_filter, List.countP_eq_length_filter]
  exact bound

theorem room_left (sound : Sound a) (books : Books disks a.ledger (before ++ c :: after))
    (asking : c.phase = .asking) {b : BlockId} (wants : b ∈ c.todo) {p : Place n 1}
    (holds : (a.machine.slot p).holds b = true) :
    a.references p + 1 ≤ (before ++ c :: after).countP (b ∈ ·.todo) := by
  have others := others_bound sound books asking (·.2 = p.spot) (b ∈ ·.todo) ?_
  · rw [references_inUse books p, List.countP_append, List.countP_cons_of_pos (by simpa using wants)]
    rw [List.countP_append] at others
    omega
  · -- Whoever refers to the buffer wants the block that it carries.
    intro d present spot used here
    obtain ⟨e, member, same, _, q, other, place, carries, listed⟩ := inUse_client sound books used
    have client : e = d := List.inj_on_of_nodup_map books.distinct member present (nameOf_inj.mp same)
    have here : q = p := spot_inj.mp (place.trans (by simpa using here))
    rw [here] at carries
    have block : other = b :=
      ((Slot.holds_iff ..).mp carries).2.symm.trans ((Slot.holds_iff ..).mp holds).2
    rw [client, block] at listed
    simpa using listed

theorem buffer_left (sound : Sound a) (books : Books disks a.ledger (before ++ c :: after))
    (asking : c.phase = .asking) (few : (before ++ c :: after).length ≤ n) :
    a.machine.caches[(0 : Fin 1)].pool.leastRecentlyReleased ≠ none := by
  intro nothing
  have others := others_bound sound books asking (fun _ => true) (fun _ => true) fun _ _ _ _ _ => rfl
  rw [List.countP_true, List.countP_true] at others
  have used : (List.finRange n).map (fun i => (⟨0, i⟩ : Place n 1).spot) ⊆ a.inUse.map (·.2) := by
    intro spot member
    obtain ⟨i, _, rfl⟩ := List.mem_map.mp member
    have referenced : (a.machine.slot ⟨0, i⟩).refs ≠ 0 := Pool.referenced_of_none nothing i
    have balance : (a.machine.slot ⟨0, i⟩).refs.toNat = a.references ⟨0, i⟩ :=
      sound.accounted.balance ⟨0, i⟩
    have some : 0 < a.inUse.countP (·.2 = (⟨0, i⟩ : Place n 1).spot) := by
      rw [← references_inUse books, ← balance]
      exact Nat.pos_of_ne_zero fun zero => referenced (UInt32.toNat_inj.mp zero)
    obtain ⟨entry, present, here⟩ := List.countP_pos_iff.mp some
    exact List.mem_map.mpr ⟨entry, present, by simpa using here⟩
  have distinct : ((List.finRange n).map fun i => (⟨0, i⟩ : Place n 1).spot).Nodup :=
    (List.nodup_finRange n).map fun i j same => (Place.mk.inj (spot_inj.mp same)).2
  have crowded := (List.subperm_of_subset distinct used).length_le
  simp only [List.length_map, List.length_finRange, List.length_append, List.length_cons]
    at crowded others few
  omega

end Account

end KernelResources.Buffer
