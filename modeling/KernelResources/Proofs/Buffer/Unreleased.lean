import KernelResources.Proofs.Buffer.Ledger

namespace KernelResources.Buffer

open Machine

variable {n m : Nat}

theorem count_singular {α : Type} {l : List α} {f : α → Bool} (once : l.countP f ≤ 1) {x y : α}
    (hereX : x ∈ l) (hereY : y ∈ l) (isX : f x = true) (isY : f y = true) : x = y := by
  induction l with
  | nil => cases hereX
  | cons head rest ih =>
    rw [List.countP_cons] at once
    rcases List.mem_cons.mp hereX with rfl | laterX <;> rcases List.mem_cons.mp hereY with rfl | laterY
    · rfl
    · have more : 0 < rest.countP f := List.countP_pos_iff.mpr ⟨y, laterY, isY⟩
      rw [if_pos isX] at once
      omega
    · have more : 0 < rest.countP f := List.countP_pos_iff.mpr ⟨x, laterX, isX⟩
      rw [if_pos isY] at once
      omega
    · exact ih (by omega) laterX laterY

structure Grant.Alike (g h : Grant m) : Prop where
  task : g.task = h.task
  spot : g.spot = h.spot
  block : g.block = h.block

theorem Grant.alike_refl (g : Grant m) : g.Alike g := ⟨rfl, rfl, rfl⟩

theorem Grant.Alike.symm {g h : Grant m} (alike : g.Alike h) : h.Alike g :=
  ⟨alike.task.symm, alike.spot.symm, alike.block.symm⟩

namespace Ledger

variable {l : Ledger m} {name : String} {g : Grant m}

theorem count_unreleased (l : Ledger m) (spot : Spot m) :
    l.unreleased.countP (·.spot = spot) = l.buffersAt spot + l.lostBuffersAt spot := by
  simp only [unreleased, List.countP_append, List.countP_map]
  rfl

theorem find?_lose (l : Ledger m) (name : String) : (l.lose name).grants.find? name = none := by
  unfold lose
  cases known : l.grants.find? name with
  | none => exact known
  | some g => exact (Registry.find?_erase l.grants name name).trans (by simp)

theorem requests_lose (l : Ledger m) (name : String) : (l.lose name).requests = l.requests := by
  unfold lose
  cases l.grants.find? name <;> rfl

theorem unreleased_losePin (l : Ledger m) (pinName : String) :
    (l.losePin pinName).unreleased = l.unreleased := by
  unfold losePin
  cases l.pins.find? pinName <;> rfl

theorem distinct_lose (distinct : l.grants.keys.Nodup) (name : String) :
    (l.lose name).grants.keys.Nodup := by
  unfold lose
  cases l.grants.find? name with
  | none => exact distinct
  | some g => exact Registry.nodup_erase distinct name

theorem unreleased_pos (member : g ∈ l.unreleased) :
    0 < l.buffersAt g.spot + l.lostBuffersAt g.spot := by
  rw [← count_unreleased]
  exact List.countP_pos_iff.mpr ⟨g, member, by simp⟩

theorem unreleased_singular {spot : Spot m} (once : l.buffersAt spot + l.lostBuffersAt spot ≤ 1)
    {h : Grant m} (hereG : g ∈ l.unreleased) (hereH : h ∈ l.unreleased) (atG : g.spot = spot)
    (atH : h.spot = spot) : g = h := by
  rw [← count_unreleased] at once
  exact count_singular once hereG hereH (by simpa using atG) (by simpa using atH)

theorem named_unreleased (known : l.grants.find? name = some g) : g ∈ l.unreleased :=
  List.mem_append_left _ (List.mem_map.mpr ⟨_, Registry.find?_mem known, rfl⟩)

theorem unreleased_erase (member : g ∈ { l with grants := l.grants.erase name }.unreleased) :
    g ∈ l.unreleased :=
  List.Sublist.mem member (List.Sublist.append_right (List.Sublist.map _ List.filter_sublist) _)

theorem unreleased_put {h : Grant m}
    (member : h ∈ { l with grants := l.grants.put name g }.unreleased) :
    h = g ∨ h ∈ l.unreleased := by
  rcases List.mem_cons.mp member with same | other
  · exact .inl same
  · exact .inr (unreleased_erase other)

def revise (l : Ledger m) (name : String) (f : Grant m → Grant m) : Ledger m :=
  { l with grants := l.grants.update name f }

theorem unreleased_revise (distinct : l.grants.keys.Nodup) {f : Grant m → Grant m} {h : Grant m}
    (member : h ∈ (l.revise name f).unreleased) :
    h ∈ l.unreleased ∨ ∃ g, l.grants.find? name = some g ∧ h = f g := by
  rcases List.mem_append.mp member with named | lost
  · obtain ⟨pair, known, rfl⟩ := List.mem_map.mp named
    rcases Registry.mem_update distinct known with old | ⟨g, found, rfl⟩
    · exact .inl (List.mem_append_left _ (List.mem_map.mpr ⟨pair, old, rfl⟩))
    · exact .inr ⟨g, found, rfl⟩
  · exact .inl (List.mem_append_right _ lost)

theorem revise_unreleased (known : l.grants.find? name = some g) (f : Grant m → Grant m) :
    f g ∈ (l.revise name f).unreleased :=
  List.mem_append_left _ (List.mem_map.mpr ⟨_, Registry.update_mem known f, rfl⟩)

theorem mem_lose (l : Ledger m) (name : String) (distinct : l.grants.keys.Nodup) (h : Grant m) :
    h ∈ (l.lose name).unreleased ↔ h ∈ l.unreleased := by
  unfold lose
  cases known : l.grants.find? name with
  | none => rfl
  | some g =>
    simp only [unreleased, List.mem_append, List.mem_cons, List.mem_map]
    constructor
    · rintro (⟨pair, member, rfl⟩ | rfl | lost)
      · exact .inl ⟨pair, ((Registry.mem_erase l.grants name pair).mp member).1, rfl⟩
      · exact .inl ⟨_, Registry.find?_mem known, rfl⟩
      · exact .inr lost
    · rintro (⟨pair, member, rfl⟩ | lost)
      · by_cases here : pair.1 = name
        · subst here
          have same := known.symm.trans (Registry.mem_find? distinct member)
          exact .inr (.inl (Option.some.inj same).symm)
        · exact .inl ⟨pair, (Registry.mem_erase l.grants name pair).mpr ⟨member, here⟩, rfl⟩
      · exact .inr (.inr lost)

theorem revise_keeps (distinct : l.grants.keys.Nodup) (member : g ∈ l.unreleased)
    (f : Grant m → Grant m) :
    g ∈ (l.revise name f).unreleased ∨ l.grants.find? name = some g := by
  rcases List.mem_append.mp member with named | lost
  · obtain ⟨⟨other, held⟩, known, rfl⟩ := List.mem_map.mp named
    by_cases here : other = name
    · subst here
      exact .inr (Registry.mem_find? distinct known)
    · have kept : (other, held) ∈ l.grants.update name f :=
        List.mem_map.mpr ⟨_, known, by simp [here]⟩
      exact .inl (List.mem_append_left _ (List.mem_map.mpr ⟨_, kept, rfl⟩))
  · exact .inl (List.mem_append_right _ lost)

theorem erase_keeps (distinct : l.grants.keys.Nodup) (member : g ∈ l.unreleased) (name : String) :
    g ∈ { l with grants := l.grants.erase name }.unreleased ∨ l.grants.find? name = some g := by
  rcases List.mem_append.mp member with named | lost
  · obtain ⟨⟨other, held⟩, known, rfl⟩ := List.mem_map.mp named
    by_cases here : other = name
    · subst here
      exact .inr (Registry.mem_find? distinct known)
    · have kept := (Registry.mem_erase l.grants name (other, held)).mpr ⟨known, here⟩
      exact .inl (List.mem_append_left _ (List.mem_map.mpr ⟨_, kept, rfl⟩))
  · exact .inl (List.mem_append_right _ lost)

variable {task : TaskId} {request : Request m} {reply : Reply}

theorem unreleased_grant (index : Nat) (bytes : Block) :
    (l.grant task request index bytes).unreleased =
      request.granted task index bytes :: (l.lose request.name).unreleased := by
  simp only [grant, unreleased, Registry.put, Registry.erase_absent (l.find?_lose request.name)]
  rfl

theorem distinct_grant (distinct : l.grants.keys.Nodup) {index : Nat} {bytes : Block} :
    (l.grant task request index bytes).grants.keys.Nodup :=
  Registry.nodup_put (distinct_lose distinct request.name) request.name _

theorem grant_keeps (distinct : l.grants.keys.Nodup) (member : g ∈ l.unreleased) {index : Nat}
    {bytes : Block} : g ∈ (l.grant task request index bytes).unreleased := by
  rw [unreleased_grant]
  exact List.mem_cons_of_mem _ ((l.mem_lose request.name distinct g).mpr member)

theorem distinct_hear (distinct : l.grants.keys.Nodup) :
    (l.hear task request reply).grants.keys.Nodup := by
  unfold hear
  split
  · exact distinct_grant (l := { l with requests := l.requests.erase task }) distinct
  · exact distinct
  · exact distinct
  · exact distinct

theorem hear_keeps (distinct : l.grants.keys.Nodup) (member : g ∈ l.unreleased) :
    g ∈ (l.hear task request reply).unreleased := by
  unfold hear
  split
  · exact grant_keeps (l := { l with requests := l.requests.erase task }) distinct member
  · exact member
  · exact member
  · exact member

theorem resume_keeps {woken : List Woken} (distinct : l.grants.keys.Nodup) (member : g ∈ l.unreleased) :
    g ∈ (l.resume woken).unreleased := by
  induction woken generalizing l with
  | nil => exact member
  | cons first rest ih =>
    unfold resume
    split
    · exact ih (distinct_hear distinct) (hear_keeps distinct member)
    · exact ih distinct member

theorem hear_grants (info : BufferInfo) (bytes : Block) :
    request.granted task info.index bytes ∈
      (l.hear task request (.done (.buffer info bytes))).unreleased := by
  rw [hear, unreleased_grant]
  exact List.mem_cons_self

-- What the answer to a step does to what is out. Buffers are told apart by task, spot and block here.
inductive Noted (l : Ledger m) (task : TaskId) (event : Event m) (reply : Reply) : Ledger m → Prop where
  | asked (c : Fin m) (b : BlockId) (loads : Bool) (name : String)
      (call : event = if loads then .read c b name else .acquire c b name) :
      Noted l task event reply (l.hear task ⟨c, b, loads, name⟩ reply)
  | released {name : String} {answer : Answer} (gives : event = .release name)
      (done : reply = .done answer) :
      Noted l task event reply { l with grants := l.grants.erase name }
  | lost (name : String) : Noted l task event reply (l.lose name)
  | revised {k : Ledger m} (name : String) (f : Grant m → Grant m) (alike : ∀ h : Grant m, h.Alike (f h))
      (same : k.unreleased = (l.revise name f).unreleased) : Noted l task event reply k
  | kept {k : Ledger m} (same : k.unreleased = l.unreleased) : Noted l task event reply k

theorem noted_edit {event : Event m} (name : String) (f : Block → Block) :
    Noted l task event reply (l.edit name f) :=
  .revised name (fun grant => { grant with bytes := f grant.bytes, edited := true })
    (fun _ => ⟨rfl, rfl, rfl⟩) rfl

theorem noted (l : Ledger m) (task : TaskId) (event : Event m) (reply : Reply) :
    Noted l task event reply (l.note task event reply) := by
  unfold note
  split
  · exact .asked _ _ true _ rfl
  · exact .asked _ _ false _ rfl
  · rename_i name _
    unfold write
    split
    · exact .revised name (fun grant => { grant with edited := false }) (fun _ => ⟨rfl, rfl, rfl⟩) rfl
    · exact .kept rfl
  · exact .released rfl rfl
  · exact .lost _
  · exact .lost _
  · split <;> exact .kept rfl
  · exact .kept rfl
  · exact .kept (unreleased_losePin l _)
  · exact .kept (unreleased_losePin l _)
  · exact noted_edit _ _
  · exact noted_edit _ _
  · exact .kept rfl

theorem note_keeps (distinct : l.grants.keys.Nodup) (member : g ∈ l.unreleased) (event : Event m) :
    (∃ name answer, event = .release name ∧ reply = .done answer ∧ l.grants.find? name = some g) ∨
      ∃ h ∈ (l.note task event reply).unreleased, g.Alike h := by
  have noted := noted l task event reply
  generalize l.note task event reply = k at noted ⊢
  cases noted with
  | asked => exact .inr ⟨g, hear_keeps distinct member, g.alike_refl⟩
  | released gives done =>
    rcases erase_keeps distinct member _ with still | known
    · exact .inr ⟨g, still, g.alike_refl⟩
    · exact .inl ⟨_, _, gives, done, known⟩
  | lost name => exact .inr ⟨g, (l.mem_lose name distinct g).mpr member, g.alike_refl⟩
  | revised name f alike same =>
    rw [same]
    rcases revise_keeps distinct member f with still | known
    · exact .inr ⟨g, still, g.alike_refl⟩
    · exact .inr ⟨f g, revise_unreleased known f, alike g⟩
  | kept same => exact .inr ⟨g, same ▸ member, g.alike_refl⟩

theorem hear_unreleased (distinct : l.grants.keys.Nodup)
    (member : g ∈ (l.hear task request reply).unreleased) :
    g ∈ l.unreleased ∨
      ∃ info bytes, reply = .done (.buffer info bytes) ∧ g = request.granted task info.index bytes := by
  unfold hear at member
  split at member
  · rename_i info bytes
    rw [unreleased_grant] at member
    rcases List.mem_cons.mp member with same | before
    · exact .inr ⟨info, bytes, rfl, same⟩
    · exact .inl ((mem_lose { l with requests := l.requests.erase task } request.name distinct g).mp before)
  · exact .inl member
  · exact .inl member
  · exact .inl member

theorem note_unreleased (distinct : l.grants.keys.Nodup) {event : Event m}
    (member : g ∈ (l.note task event reply).unreleased) :
    (∃ h ∈ l.unreleased, g.Alike h) ∨
      ∃ c b loads name, event = (if loads then .read c b name else .acquire c b name) ∧
        g ∈ (l.hear task ⟨c, b, loads, name⟩ reply).unreleased := by
  have noted := noted l task event reply
  generalize l.note task event reply = k at noted member
  cases noted with
  | asked c b loads name call => exact .inr ⟨c, b, loads, name, call, member⟩
  | released => exact .inl ⟨g, unreleased_erase member, g.alike_refl⟩
  | lost name => exact .inl ⟨g, (l.mem_lose name distinct g).mp member, g.alike_refl⟩
  | revised name f alike same =>
    rw [same] at member
    rcases unreleased_revise distinct member with old | ⟨h, known, rfl⟩
    · exact .inl ⟨g, old, g.alike_refl⟩
    · exact .inl ⟨h, named_unreleased known, (alike h).symm⟩
  | kept same => exact .inl ⟨g, same ▸ member, g.alike_refl⟩

theorem asked_hear (asked : l.requests.find? task = some request) {other : TaskId} {later : Request m}
    (waits : (l.hear task request reply).requests.find? other = some later) :
    l.requests.find? other = some later := by
  unfold hear at waits
  split at waits
  · simp only [grant, requests_lose, Registry.find?_erase] at waits
    split at waits
    · cases waits
    · exact waits
  · simp only [Registry.find?_put] at waits
    split at waits
    · rename_i same
      rw [eq_of_beq same, ← waits]
      exact asked
    · exact waits
  · simp only [Registry.find?_erase] at waits
    split at waits
    · cases waits
    · exact waits
  · exact waits

theorem resume_unreleased {woken : List Woken} (distinct : l.grants.keys.Nodup)
    (member : g ∈ (l.resume woken).unreleased) :
    g ∈ l.unreleased ∨ ∃ told ∈ woken, ∃ request info bytes, l.requests.find? told.task = some request ∧
      told.reply = .done (.buffer info bytes) ∧ g = request.granted told.task info.index bytes := by
  induction woken generalizing l with
  | nil => exact .inl member
  | cons first rest ih =>
    unfold resume at member
    split at member
    · rename_i request asked
      rcases ih (distinct_hear distinct) member with heard | ⟨told, later, other, info, bytes, waits, last⟩
      · rcases hear_unreleased distinct heard with before | ⟨info, bytes, last⟩
        · exact .inl before
        · exact .inr ⟨first, List.mem_cons_self, request, info, bytes, asked, last⟩
      · exact .inr ⟨told, List.mem_cons_of_mem _ later, other, info, bytes, asked_hear asked waits, last⟩
    · rcases ih distinct member with before | ⟨told, later, last⟩
      · exact .inl before
      · exact .inr ⟨told, List.mem_cons_of_mem _ later, last⟩

end Ledger

end KernelResources.Buffer
