import Mathlib.Data.List.Nodup
import KernelResources.Proofs.Page.Account

namespace KernelResources.Page

open Holder (Event Reply handed faults)

variable {cores : Nat}

namespace Frames

def follow (f : Frames) (ram : Ram) : (length : Nat) → (link : UInt32) →
    Except WordFault (List UInt32 × UInt32)
  | 0, link => .ok ([], link)
  | length + 1, link => do
    let next ← f.link ram link
    let (rest, last) ← f.follow ram length next
    return (link :: rest, last)

def handedOut (f : Frames) (ram : Ram) : List Nat :=
  ((List.range f.count).filter fun k => f.linkWord ram (UInt32.ofNat k) = allocated).map fun k =>
    f.page (UInt32.ofNat k)

variable {f : Frames} {ram : Ram} {head : UInt32} {pages : List Nat} {p : Nat}

theorem follow_chained (chained : f.Chained ram head pages) :
    ∃ indices, f.follow ram pages.length head = .ok (indices, listEnd) ∧
      indices.map f.page = pages := by
  induction pages generalizing head with
  | nil => exact ⟨[], by rw [show head = listEnd from chained]; rfl, rfl⟩
  | cons page rest ih =>
    obtain ⟨known, rfl, further⟩ := chained
    obtain ⟨indices, followed, same⟩ := ih further
    refine ⟨head :: indices, ?_, by rw [List.map_cons, same]⟩
    rw [List.length_cons, follow, link_known known]
    simp only [bind, Except.bind, followed]
    rfl

theorem toNat_ofNat_index (few : f.count < listEnd.toNat) {k : Nat} (known : k < f.count) :
    (UInt32.ofNat k).toNat = k :=
  UInt32.toNat_ofNat_of_lt' (Nat.lt_trans (Nat.lt_trans known few) (by decide))

theorem mem_handedOut (few : f.count < listEnd.toNat) : p ∈ f.handedOut ram ↔
    ∃ i : UInt32, i.toNat < f.count ∧ p = f.page i ∧ f.linkWord ram i = allocated := by
  simp only [handedOut, List.mem_map, List.mem_filter, List.mem_range, decide_eq_true_eq]
  constructor
  · rintro ⟨k, ⟨known, marked⟩, rfl⟩
    exact ⟨.ofNat k, by rwa [toNat_ofNat_index few known], rfl, marked⟩
  · rintro ⟨i, known, rfl, marked⟩
    refine ⟨i.toNat, ⟨known, ?_⟩, ?_⟩ <;> rw [UInt32.ofNat_toNat]
    exact marked

theorem nodup_pages (few : f.count < listEnd.toNat) {indices : List Nat} (once : indices.Nodup)
    (known : ∀ k ∈ indices, k < f.count) : (indices.map fun k => f.page (UInt32.ofNat k)).Nodup := by
  refine once.map_on ?_
  intro j memberJ k memberK same
  have index := congrArg UInt32.toNat (page_inj same)
  rwa [toNat_ofNat_index few (known j memberJ), toNat_ofNat_index few (known k memberK)] at index

end Frames

namespace Stock

variable {s : Stock cores} {p : Nat}

def stacked (s : Stock cores) : List Nat := s.stack.toList.flatten

theorem mem_stacked : p ∈ s.stacked ↔ ∃ core : Fin cores, p ∈ s.stack[core] := by
  simp only [stacked, List.mem_flatten, Vector.mem_toList_iff]
  constructor
  · rintro ⟨stack, member, inside⟩
    obtain ⟨i, bound, rfl⟩ := Vector.mem_iff_getElem.mp member
    exact ⟨⟨i, bound⟩, inside⟩
  · rintro ⟨core, inside⟩
    exact ⟨_, Vector.getElem_mem core.isLt, inside⟩

end Stock

namespace Allocator

variable {a : Allocator cores} {f : Frames} {s : Stock cores}

def listed (a : Allocator cores) : Nat :=
  a.lists.toList.foldr (fun list total => list.length + total) 0

theorem Kept.nodup_stacked (kept : a.Kept f s) : s.stacked.Nodup := by
  refine List.nodup_flatten.mpr ⟨?_, List.pairwise_iff_getElem.mpr ?_⟩
  · intro stack member
    obtain ⟨i, bound, rfl⟩ := Vector.mem_iff_getElem.mp (Vector.mem_toList_iff.mp member)
    exact kept.single ⟨i, bound⟩
  · intro i j boundI boundJ less p memberI memberJ
    rw [Vector.length_toList] at boundI boundJ
    have same := kept.apart ⟨i, boundI⟩ ⟨j, boundJ⟩ p memberI memberJ
    exact absurd (Fin.mk.inj same) (Nat.ne_of_lt less)

theorem Kept.partition (kept : a.Kept f s) :
    (s.stacked ++ (s.lost ++ f.handedOut a.ram)).Perm
      ((List.range f.count).map fun k => f.page (UInt32.ofNat k)) := by
  have few := kept.lies.few
  have marked : ∀ p, p ∈ f.handedOut a.ram → s.has p = false := by
    intro p member
    obtain ⟨i, known, rfl, word⟩ := (Frames.mem_handedOut few).mp member
    exact (kept.marked i known).mp word
  have once : (f.handedOut a.ram).Nodup :=
    Frames.nodup_pages few (List.nodup_range.filter _) fun k member =>
      List.mem_range.mp (List.mem_of_mem_filter member)
  refine (List.perm_ext_iff_of_nodup ?_ ?_).mpr ?_
  · refine List.nodup_append.mpr ⟨kept.nodup_stacked, List.nodup_append.mpr ⟨kept.once, once, ?_⟩, ?_⟩
    · rintro p lost _ member rfl
      exact (Stock.not_has_iff.mp (marked p member)).1 lost
    · rintro p member _ other rfl
      obtain ⟨core, here⟩ := Stock.mem_stacked.mp member
      rcases List.mem_append.mp other with lost | out
      · exact kept.unlost core p here lost
      · exact (Stock.not_has_iff.mp (marked p out)).2 core here
  · exact Frames.nodup_pages few List.nodup_range fun k member => List.mem_range.mp member
  · intro p
    rw [List.mem_append, List.mem_append, Stock.mem_stacked, Frames.mem_handedOut few, List.mem_map]
    constructor
    · intro somewhere
      have managed : f.Manages p := by
        rcases somewhere with stacked | lost | ⟨i, known, rfl, _⟩
        · exact kept.manages (Stock.has_iff.mpr (.inr stacked))
        · exact kept.managed p lost
        · exact Frames.manages_page known
      obtain ⟨i, known, rfl⟩ := managed
      exact ⟨i.toNat, List.mem_range.mpr known, by rw [UInt32.ofNat_toNat]⟩
    · rintro ⟨k, member, rfl⟩
      have known : (UInt32.ofNat k).toNat < f.count := by
        rw [Frames.toNat_ofNat_index few (List.mem_range.mp member)]
        exact List.mem_range.mp member
      cases has : s.has (f.page (UInt32.ofNat k)) with
      | true =>
        rcases Stock.has_iff.mp has with lost | stacked
        · exact .inr (.inl lost)
        · exact .inl stacked
      | false => exact .inr (.inr ⟨_, known, rfl, (kept.marked _ known).mpr has⟩)

theorem Kept.listing (kept : a.Kept f s) : ∃ lists : Vector (List UInt32) cores,
    (∀ core : Fin cores, f.follow a.ram a.lists[core].length a.lists[core].head =
      .ok (lists[core], listEnd)) ∧ lists.toList.flatten.map f.page = s.stacked := by
  choose indices followed pages using fun core : Fin cores => Frames.follow_chained (kept.chained core)
  refine ⟨Vector.ofFn indices, ?_, ?_⟩
  · intro core
    rw [kept.lengths core, entry_ofFn]
    exact followed core
  · have each : (Vector.ofFn indices).map (List.map f.page) = s.stack := by
      ext1 core inside
      rw [Vector.getElem_map, Vector.getElem_ofFn]
      exact pages ⟨core, inside⟩
    rw [List.map_flatten, ← Vector.toList_map, each]
    rfl

theorem mem_listing {indices : List UInt32}
    (listing : indices.map f.page = s.stacked) {i : UInt32} :
    i ∈ indices ↔ ∃ core : Fin cores, f.page i ∈ s.stack[core] := by
  rw [← Stock.mem_stacked, ← listing, List.mem_map]
  constructor
  · exact fun member => ⟨i, member, rfl⟩
  · rintro ⟨j, member, same⟩
    rwa [← Frames.page_inj same]

theorem Kept.place (kept : a.Kept f s) {indices : List UInt32} (listing : indices.map f.page = s.stacked)
    {i : UInt32} (known : i.toNat < f.count) :
    indices.count i = 1 ∧ f.linkWord a.ram i ≠ allocated ∧ f.page i ∉ s.lost ∨
      indices.count i = 0 ∧ f.linkWord a.ram i = allocated ∧ f.page i ∉ s.lost ∨
      indices.count i = 0 ∧ f.linkWord a.ram i ≠ allocated ∧ f.page i ∈ s.lost := by
  have listed := mem_listing (i := i) listing
  have once : indices.Nodup := List.Nodup.of_map f.page (listing ▸ kept.nodup_stacked)
  rw [List.Nodup.count once]
  cases has : s.has (f.page i) with
  | false =>
    obtain ⟨unlost, unstacked⟩ := Stock.not_has_iff.mp has
    have out : i ∉ indices := fun member => by
      obtain ⟨core, here⟩ := listed.mp member
      exact unstacked core here
    exact .inr (.inl ⟨if_neg out, (kept.marked i known).mpr has, unlost⟩)
  | true =>
    have word := (kept.unmarked known).mpr has
    by_cases member : i ∈ indices
    · obtain ⟨core, here⟩ := listed.mp member
      exact .inl ⟨if_pos member, word, kept.unlost core _ here⟩
    · rcases Stock.has_iff.mp has with lost | stacked
      · exact .inr (.inr ⟨if_neg member, word, lost⟩)
      · exact absurd (listed.mpr stacked) member

theorem foldr_flatten {lists : List FreeList} {piles : List (List Nat)}
    (lengths : lists.map (·.length) = piles.map (·.length)) :
    lists.foldr (fun list total => list.length + total) 0 = piles.flatten.length := by
  induction lists generalizing piles with
  | nil =>
    cases List.map_eq_nil_iff.mp lengths.symm
    rfl
  | cons list rest ih =>
    cases piles with
    | nil => cases lengths
    | cons stack others =>
      obtain ⟨first, later⟩ := List.cons.inj lengths
      rw [List.foldr_cons, List.flatten_cons, List.length_append, ih later]
      exact congrArg (· + others.flatten.length) first

theorem Shows.listed (shows : Shows a s) : a.listed = s.stacked.length := by
  apply foldr_flatten
  rw [← Vector.toList_map, ← Vector.toList_map, shows.lengths]

end Allocator

-- Every managed page is in exactly one place. `lists` is what the links tell to be on each list.
structure Partition (h : Holder cores) (f : Frames) (lost : List Nat)
    (lists : Vector (List UInt32) cores) : Prop where
  -- The links lead from the head of a list over as many pages as it counts, and to the end.
  followed : ∀ core : Fin cores, f.follow h.allocator.ram h.allocator.lists[core].length
    h.allocator.lists[core].head = .ok (lists[core], listEnd)
  -- On one list once, or handed out, or lost.
  places : ∀ i : UInt32, i.toNat < f.count →
    lists.toList.flatten.count i = 1 ∧ f.linkWord h.allocator.ram i ≠ allocated ∧ f.page i ∉ lost ∨
      lists.toList.flatten.count i = 0 ∧ f.linkWord h.allocator.ram i = allocated ∧ f.page i ∉ lost ∨
      lists.toList.flatten.count i = 0 ∧ f.linkWord h.allocator.ram i ≠ allocated ∧ f.page i ∈ lost
  managed : ∀ page ∈ lost, f.Manages page
  once : lost.Nodup
  freePages : ∀ core : Fin cores,
    (h.step (.freePages core)).1.reply = .done (.number h.allocator.lists[core].length)
  capacity : (h.step .capacity).1.reply = .done (.number f.count)
  counted : h.allocator.listed + (f.handedOut h.allocator.ram).length + lost.length = f.count
  isFree : ∀ page, (h.step (.isFree page)).1.reply = .done (.flag true) ↔
    ∃ i : UInt32, i.toNat < f.count ∧ page = f.page i ∧ f.linkWord h.allocator.ram i ≠ allocated

namespace Account

variable {ram : Ram} {a : Account cores} {f : Frames}

theorem sound_isFree (sound : Sound a) (page : Nat) :
    (a.holder.step (.isFree page)).1.reply = .done (.flag (a.stock.has page)) :=
  (Holder.step_serves sound.shows (show _ = some (.isFree page) from rfl)).1

theorem sound_partition (sound : Sound a) (frames : a.holder.allocator.frames = ⟨some f⟩) :
    ∃ lists, Partition a.holder f a.lost lists := by
  obtain ⟨managed, kept⟩ := sound.shows.of_frames frames
  obtain ⟨lists, followed, listing⟩ := kept.listing
  refine ⟨lists, followed, ?_, ?_, ?_, ?_, ?_, ?_, ?_⟩
  · intro i known
    rw [sound.lost]
    exact kept.place listing known
  · rw [sound.lost]
    exact kept.managed
  · rw [sound.lost]
    exact kept.once
  · intro core
    have served : (a.holder.step (.freePages core)).1.reply = _ :=
      (Holder.step_serves sound.shows rfl).1
    simp only [Stock.serve, Stock.freePages, core.isLt, dif_pos] at served
    rw [kept.lengths core]
    exact served
  · have served : (a.holder.step .capacity).1.reply = _ := (Holder.step_serves sound.shows rfl).1
    simp only [Stock.serve, Stock.capacity, managed] at served
    exact served
  · have all := kept.partition.length_eq
    rw [List.length_append, List.length_append, List.length_map, List.length_range] at all
    rw [sound.shows.listed, sound.lost]
    omega
  · intro page
    rw [sound_isFree sound]
    simp only [Outcome.done.injEq, Holder.Answer.flag.injEq]
    constructor
    · intro has
      obtain ⟨i, known, rfl⟩ := kept.manages has
      exact ⟨i, known, rfl, (kept.unmarked known).mpr has⟩
    · rintro ⟨i, known, rfl, word⟩
      exact (kept.unmarked known).mp word

theorem sound_unmanaged (sound : Sound a) (none : a.holder.allocator.frames = ⟨none⟩) :
    a.lost = [] ∧ ∀ page, (a.holder.step (.isFree page)).1.reply = .done (.flag false) := by
  cases sound.shows with
  | running f frames =>
    rw [none] at frames
    cases frames
  | idle _ _ _ stock =>
    refine ⟨by rw [sound.lost, stock]; rfl, fun page => ?_⟩
    rw [sound_isFree sound, Stock.not_has_iff.mpr (by simp [stock, Stock.empty])]

theorem sound_hands (sound : Sound a) (event : Event) :
    (handed (a.holder.step event).1.reply).Nodup ∧
      (∀ page ∈ handed (a.holder.step event).1.reply,
        (a.holder.step (.isFree page)).1.reply = .done (.flag true) ∧ page ∉ a.lost ∧
          ((a.next event).holder.step (.isFree page)).1.reply = .done (.flag false)) ∧
      ∀ fault, .word fault ∈ faults (a.holder.step event).1.reply → fault = .addOverflow := by
  cases asks : a.holder.call? event with
  | none =>
    obtain ⟨_, handed, faults⟩ := Holder.step_writes asks
    rw [handed, faults]
    exact ⟨.nil, by simp, by simp⟩
  | some call =>
    obtain ⟨reply, follows⟩ := Holder.step_serves sound.shows asks
    obtain ⟨stock, pages⟩ := next_served asks
    obtain ⟨once, hands⟩ := Allocator.serve_hands sound.shows a.holder.cpu.core call
    have serves := Stock.serve_serves a.stock a.holder.cpu.core call
    rw [reply]
    refine ⟨once, ?_, fun fault member => serves.ordinary _ member⟩
    intro page member
    obtain ⟨⟨c, stacked⟩, gone⟩ := hands page member
    refine ⟨?_, ?_, ?_⟩
    · rw [sound_isFree sound, Stock.has_iff.mpr (.inr ⟨c, stacked⟩)]
    · rw [sound.lost]
      exact sound.shows.unlost stacked
    · rw [sound_isFree (served_sound sound asks), stock, gone]

-- In every state that the calls can bring about, whatever the client writes beside the links: each page is
-- in one place, the lost pages are those that the replies told of, only free pages are handed out, and
-- neither a look at the links nor a count ends a call.
theorem pages_stay_in_one_place (aligned : ram.base % pageSize = 0)
    (path : Run Spares (start cores ram) a) :
    (∀ f, a.holder.allocator.frames = ⟨some f⟩ → ∃ lists, Partition a.holder f a.lost lists) ∧
      (a.holder.allocator.frames = ⟨none⟩ → a.lost = [] ∧
        ∀ page, (a.holder.step (.isFree page)).1.reply = .done (.flag false)) ∧
      ∀ event, (handed (a.holder.step event).1.reply).Nodup ∧
        (∀ page ∈ handed (a.holder.step event).1.reply,
          (a.holder.step (.isFree page)).1.reply = .done (.flag true) ∧ page ∉ a.lost ∧
            ((a.next event).holder.step (.isFree page)).1.reply = .done (.flag false)) ∧
        ∀ fault, .word fault ∈ faults (a.holder.step event).1.reply → fault = .addOverflow := by
  have sound := run_sound path (sound_start aligned)
  exact ⟨fun f => sound_partition sound, sound_unmanaged sound, sound_hands sound⟩

-- A page is freed where there is no core, and is lost; the other two stay on the list of core 0.
theorem pages_stay_in_one_place_lost :
    let a := ((((start 2 (.zeroed 0x80000000 4)).next (.init 0x80000000 0x80004000)).next
      (.alloc "p")).next (.moveTo 9)).next (.free "p")
    Run Spares (start 2 (.zeroed 0x80000000 4)) a ∧ a.lost = [0x80003000] ∧ a.holder.allocator.listed = 2 ∧
      ∃ lists, Partition a.holder ⟨0x80000000, 1, 3, 0x80001000, 0x80004000⟩ a.lost lists := by
  have path : Run Spares (start 2 (.zeroed 0x80000000 4))
      (((((start 2 (.zeroed 0x80000000 4)).next (.init 0x80000000 0x80004000)).next
        (.alloc "p")).next (.moveTo 9)).next (.free "p")) :=
    .step (.step (.step (.step .refl (spares_silent rfl)) (spares_silent rfl)) (spares_silent rfl))
      (spares_silent rfl)
  refine ⟨path, by decide +kernel, by decide +kernel, ?_⟩
  exact (pages_stay_in_one_place (by decide) path).1 _ (by decide +kernel)

end Account

end KernelResources.Page
