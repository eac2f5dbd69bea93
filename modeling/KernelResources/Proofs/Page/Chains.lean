import KernelResources.Proofs.Page.Geometry
import KernelResources.Proofs.Page.Stock

namespace KernelResources.Page

variable {cores : Nat}

namespace Frames

variable {f : Frames} {ram other : Ram} {i j head : UInt32} {pages : List Nat} {p : Nat}

def linkWord (f : Frames) (ram : Ram) (i : UInt32) : UInt32 := ram.word (f.linkAddress i)

theorem link_known (known : i.toNat < f.count) : f.link ram i = .ok (f.linkWord ram i) :=
  if_pos known

theorem linkWord_congr (known : i.toNat < f.count)
    (same : ∀ address, f.InTable address → other.byte address = ram.byte address) :
    f.linkWord other i = f.linkWord ram i :=
  Ram.word_congr fun _ small => same _ (link_inTable known small)

theorem linkWord_setLink (lies : f.Lies ram) (known : i.toNat < f.count) (word : UInt32) :
    f.linkWord (f.setLink ram i word) j = if i = j then word else f.linkWord ram j := by
  unfold linkWord setLink
  split
  · rename_i same
    subst same
    exact Ram.word_setWord (link_inside lies known) word
  · rename_i unlike
    exact Ram.word_setWord_of_disjoint (links_apart unlike)

theorem linkWord_fillPage (lies : f.Lies ram) (managed : f.Manages p) (known : j.toNat < f.count)
    (byte : UInt8) : f.linkWord (ram.fillPage p byte) j = f.linkWord ram j := by
  apply linkWord_congr known
  intro address word
  have below := page_outside_table lies managed word
  rw [Ram.byte_fillPage (page_inside lies managed) (page_aligned lies managed), if_neg (by omega)]

theorem linkWord_mark (lies : f.Lies ram) (known : i.toNat < f.count) :
    f.linkWord (f.mark ram) i = allocated := by
  refine Ram.word_setWords ?_ known allocated
  obtain ⟨_, above, below, table, _, extent, _⟩ := lies
  unfold linkSize at table
  rw [Ram.covers_iff]
  omega

-- The links lead from `head` through these pages, and then to the end.
def Chained (f : Frames) (ram : Ram) : UInt32 → List Nat → Prop
  | head, [] => head = listEnd
  | head, page :: rest =>
    head.toNat < f.count ∧ page = f.page head ∧ f.Chained ram (f.linkWord ram head) rest

theorem chained_congr (chained : f.Chained ram head pages)
    (same : ∀ j : UInt32, j.toNat < f.count → f.page j ∈ pages →
      f.linkWord other j = f.linkWord ram j) : f.Chained other head pages := by
  induction pages generalizing head with
  | nil => exact chained
  | cons page rest ih =>
    obtain ⟨known, rfl, further⟩ := chained
    refine ⟨known, rfl, ?_⟩
    rw [same head known List.mem_cons_self]
    exact ih further fun j known later => same j known (List.mem_cons_of_mem _ later)

theorem chained_manages (chained : f.Chained ram head pages) : ∀ page ∈ pages, f.Manages page := by
  induction pages generalizing head with
  | nil => simp
  | cons page rest ih =>
    obtain ⟨known, rfl, further⟩ := chained
    intro other member
    rcases List.mem_cons.mp member with rfl | later
    · exact manages_page known
    · exact ih further other later

theorem ne_allocated (few : f.count < listEnd.toNat) (known : i.toNat < f.count) : i ≠ allocated := by
  rintro rfl
  exact absurd (Nat.lt_trans known few) (by decide)

theorem ne_listEnd (few : f.count < listEnd.toNat) (known : i.toNat < f.count) : i ≠ listEnd := by
  rintro rfl
  exact absurd (Nat.lt_trans known few) (Nat.lt_irrefl _)

theorem chained_head (few : f.count < listEnd.toNat) (chained : f.Chained ram head pages) :
    head ≠ allocated := by
  cases pages with
  | nil =>
    rw [show head = listEnd from chained]
    decide
  | cons page rest => exact ne_allocated few chained.1

end Frames

namespace Allocator

def claimed (a : Allocator cores) (f : Frames) (i : UInt32) : Allocator cores :=
  ⟨f.setLink a.ram i listEnd, a.frames, a.lists⟩

def filled (a : Allocator cores) (address : Nat) (byte : UInt8) : Allocator cores :=
  ⟨a.ram.fillPage address byte, a.frames, a.lists⟩

def pushed (a : Allocator cores) (f : Frames) (core : Fin cores) (i : UInt32) : Allocator cores :=
  ⟨f.setLink a.ram i a.lists[core].head, a.frames,
    a.lists.set core ⟨i, a.lists[core].length + 1⟩ core.isLt⟩

def popped (a : Allocator cores) (f : Frames) (core : Fin cores) : Allocator cores :=
  ⟨f.setLink a.ram a.lists[core].head allocated, a.frames,
    a.lists.set core ⟨f.linkWord a.ram a.lists[core].head, a.lists[core].length - 1⟩ core.isLt⟩

def founded (a : Allocator cores) (f : Frames) : Allocator cores :=
  ⟨f.mark a.ram, ⟨some f⟩, a.lists⟩

section Moved

variable (a : Allocator cores) (f : Frames) (core : Fin cores) (i : UInt32) (address : Nat) (byte : UInt8)

@[simp] theorem frames_claimed : (a.claimed f i).frames = a.frames := by simp only [claimed]

@[simp] theorem frames_filled : (a.filled address byte).frames = a.frames := by simp only [filled]

@[simp] theorem frames_pushed : (a.pushed f core i).frames = a.frames := by simp only [pushed]

@[simp] theorem frames_popped : (a.popped f core).frames = a.frames := by simp only [popped]

theorem ram_claimed : (a.claimed f i).ram = f.setLink a.ram i listEnd := by simp only [claimed]

theorem ram_pushed : (a.pushed f core i).ram = f.setLink a.ram i a.lists[core].head := by
  simp only [pushed]

theorem ram_popped : (a.popped f core).ram = f.setLink a.ram a.lists[core].head allocated := by
  simp only [popped]

end Moved

-- The lists are chained as the stacks are, and the table marks the pages that are on no stack and not
-- lost. No page is in two places.
structure Kept (a : Allocator cores) (f : Frames) (s : Stock cores) : Prop where
  lies : f.Lies a.ram
  chained : ∀ core : Fin cores, f.Chained a.ram a.lists[core].head s.stack[core]
  lengths : ∀ core : Fin cores, a.lists[core].length = s.stack[core].length
  marked : ∀ i : UInt32, i.toNat < f.count →
    (f.linkWord a.ram i = allocated ↔ s.has (f.page i) = false)
  managed : ∀ page ∈ s.lost, f.Manages page
  once : s.lost.Nodup
  single : ∀ core : Fin cores, s.stack[core].Nodup
  apart : ∀ (core other : Fin cores) (page : Nat),
    page ∈ s.stack[core] → page ∈ s.stack[other] → core = other
  unlost : ∀ (core : Fin cores) (page : Nat), page ∈ s.stack[core] → page ∉ s.lost

variable {a : Allocator cores} {f : Frames} {s : Stock cores} {i : UInt32} {core : Fin cores} {p : Nat}

theorem Kept.manages (kept : a.Kept f s) (known : s.has p = true) : f.Manages p := by
  rcases Stock.has_iff.mp known with lost | ⟨core, member⟩
  · exact kept.managed p lost
  · exact Frames.chained_manages (kept.chained core) p member

theorem Kept.unmarked (kept : a.Kept f s) (known : i.toNat < f.count) :
    f.linkWord a.ram i ≠ allocated ↔ s.has (f.page i) = true := by
  rw [Ne, kept.marked i known, Bool.not_eq_false]

theorem Kept.same_links (kept : a.Kept f s) {ram : Ram} (base : ram.base = a.ram.base)
    (limit : ram.limit = a.ram.limit)
    (same : ∀ j : UInt32, j.toNat < f.count → f.linkWord ram j = f.linkWord a.ram j) :
    Kept ⟨ram, a.frames, a.lists⟩ f s := by
  refine ⟨kept.lies.of_extent base limit, ?_, kept.lengths, ?_, kept.managed, kept.once, kept.single,
    kept.apart, kept.unlost⟩
  · intro core
    exact Frames.chained_congr (kept.chained core) fun j known _ => same j known
  · intro j known
    dsimp only
    rw [same j known]
    exact kept.marked j known

theorem Kept.filled (kept : a.Kept f s) (managed : f.Manages p) (byte : UInt8) :
    (a.filled p byte).Kept f s :=
  kept.same_links (Ram.base_fillPage byte) (Ram.limit_fillPage byte) fun _ known =>
    Frames.linkWord_fillPage kept.lies managed known byte

theorem Kept.claimed (kept : a.Kept f s) (known : i.toNat < f.count)
    (out : s.has (f.page i) = false) : (a.claimed f i).Kept f (s.lose (f.page i)) := by
  obtain ⟨lies, chained, lengths, marked, managed, once, single, apart, unlost⟩ := kept
  obtain ⟨kept, unstacked⟩ := Stock.not_has_iff.mp out
  have words : ∀ j, f.linkWord (a.claimed f i).ram j =
      if i = j then listEnd else f.linkWord a.ram j := fun j =>
    Frames.linkWord_setLink lies known listEnd
  refine ⟨lies.of_extent (Ram.base_setWord _) (Ram.limit_setWord _), ?_, lengths, ?_, ?_, ?_, single,
    apart, ?_⟩
  · intro core
    refine Frames.chained_congr (chained core) fun j _ member => ?_
    rw [words, if_neg]
    rintro rfl
    exact unstacked core member
  · intro j knownJ
    rw [words, Stock.has_lose]
    split
    · rename_i same
      subst same
      simp only [decide_true, Bool.true_or, reduceCtorEq, iff_false]
      decide
    · rename_i unlike
      rw [decide_eq_false fun same => unlike (Frames.page_inj same).symm, Bool.false_or]
      exact marked j knownJ
  · intro page member
    rcases List.mem_cons.mp member with rfl | old
    · exact Frames.manages_page known
    · exact managed page old
  · exact List.nodup_cons.mpr ⟨kept, once⟩
  · intro core page member lost
    rcases List.mem_cons.mp lost with rfl | old
    · exact unstacked core member
    · exact unlost core page member old

theorem Kept.pushed (kept : a.Kept f (s.lose (f.page i))) (known : i.toNat < f.count)
    (core : Fin cores) : (a.pushed f core i).Kept f (s.push core (f.page i)) := by
  obtain ⟨lies, chained, lengths, marked, managed, once, single, apart, unlost⟩ := kept
  obtain ⟨found, once⟩ := List.nodup_cons.mp once
  have unstacked : ∀ c : Fin cores, f.page i ∉ s.stack[c] := fun c member =>
    unlost c _ member List.mem_cons_self
  have words : ∀ j, f.linkWord (a.pushed f core i).ram j =
      if i = j then a.lists[core].head else f.linkWord a.ram j := fun j =>
    Frames.linkWord_setLink lies known _
  -- The word that is written belongs to a page that was on no list.
  have older : ∀ c : Fin cores, f.Chained (a.pushed f core i).ram a.lists[c].head s.stack[c] := by
    intro c
    refine Frames.chained_congr (chained c) fun j _ member => ?_
    rw [words, if_neg]
    rintro rfl
    exact unstacked c member
  refine ⟨lies.of_extent (Ram.base_setWord _) (Ram.limit_setWord _), ?_, ?_, ?_, ?_, once, ?_, ?_, ?_⟩
  · intro c
    rw [Stock.stack_push]
    simp only [Allocator.pushed, entry_set]
    split
    · refine ⟨known, rfl, ?_⟩
      have first := words i
      rw [if_pos rfl] at first
      rw [show f.setLink a.ram i a.lists[core].head = (a.pushed f core i).ram from rfl, first]
      exact older core
    · exact older c
  · intro c
    rw [Stock.stack_push]
    simp only [Allocator.pushed, entry_set]
    split
    · exact congrArg (· + 1) (lengths core)
    · exact lengths c
  · intro j knownJ
    rw [words, Stock.has_push]
    split
    · rename_i same
      subst same
      simp only [decide_true, Bool.true_or, reduceCtorEq, iff_false]
      exact Frames.chained_head lies.few (chained core)
    · rename_i unlike
      have before := marked j knownJ
      rw [Stock.has_lose] at before
      exact before
  · intro page member
    exact managed page (List.mem_cons_of_mem _ member)
  · intro c
    rw [Stock.stack_push]
    split
    · exact List.nodup_cons.mpr ⟨unstacked core, single core⟩
    · exact single c
  · intro c other page
    rw [Stock.mem_push, Stock.mem_push]
    rintro (⟨here, rfl⟩ | old) (⟨there, same⟩ | beside)
    · exact here.symm.trans there
    · exact absurd beside (unstacked other)
    · rw [same] at old
      exact absurd old (unstacked c)
    · exact apart c other page old beside
  · intro c page
    rw [Stock.mem_push]
    rintro (⟨_, rfl⟩ | member) lost
    · exact found lost
    · exact unlost c page member (List.mem_cons_of_mem _ lost)

theorem Kept.mem_pop (kept : a.Kept f s) {rest : List Nat} (stack : s.stack[core] = p :: rest)
    (c : Fin cores) (q : Nat) : q ∈ (s.pop core).stack[c] ↔ q ∈ s.stack[c] ∧ q ≠ p := by
  rw [Stock.stack_pop]
  split
  · rename_i same
    subst same
    have alone := kept.single core
    rw [stack] at alone ⊢
    obtain ⟨gone, _⟩ := List.nodup_cons.mp alone
    rw [List.tail_cons, List.mem_cons]
    constructor
    · intro member
      exact ⟨.inr member, fun same => gone (same ▸ member)⟩
    · rintro ⟨same | member, unlike⟩
      · exact absurd same unlike
      · exact member
  · rename_i away
    refine ⟨fun member => ⟨member, ?_⟩, fun both => both.1⟩
    rintro rfl
    refine away (kept.apart core c q ?_ member)
    rw [stack]
    exact List.mem_cons_self

theorem Kept.has_pop (kept : a.Kept f s) {rest : List Nat} (stack : s.stack[core] = p :: rest) (q : Nat) :
    (s.pop core).has q = (s.has q && decide (q ≠ p)) := by
  rw [Bool.eq_iff_iff, Bool.and_eq_true, decide_eq_true_iff, Stock.has_iff, Stock.has_iff]
  simp only [kept.mem_pop stack]
  constructor
  · rintro (lost | ⟨c, member, unlike⟩)
    · refine ⟨.inl lost, ?_⟩
      rintro rfl
      refine kept.unlost core q ?_ lost
      rw [stack]
      exact List.mem_cons_self
    · exact ⟨.inr ⟨c, member⟩, unlike⟩
  · rintro ⟨lost | ⟨c, member⟩, unlike⟩
    · exact .inl lost
    · exact .inr ⟨c, member, unlike⟩

theorem Kept.gone (kept : a.Kept f s) {rest : List Nat} (stack : s.stack[core] = p :: rest) :
    s.has p = true ∧ (s.pop core).has p = false := by
  have here : p ∈ s.stack[core] := by
    rw [stack]
    exact List.mem_cons_self
  refine ⟨Stock.has_iff.mpr (.inr ⟨core, here⟩), ?_⟩
  rw [kept.has_pop stack]
  simp

theorem Kept.popped (kept : a.Kept f s) {rest : List Nat} (stack : s.stack[core] = p :: rest) :
    (a.popped f core).Kept f (s.pop core) := by
  have head := kept.chained core
  rw [stack] at head
  obtain ⟨known, rfl, further⟩ := head
  have tails := kept.mem_pop stack
  have words : ∀ j, f.linkWord (a.popped f core).ram j =
      if a.lists[core].head = j then allocated else f.linkWord a.ram j := fun j =>
    Frames.linkWord_setLink kept.lies known allocated
  refine ⟨kept.lies.of_extent (Ram.base_setWord _) (Ram.limit_setWord _), ?_, ?_, ?_, kept.managed,
    kept.once, ?_, ?_, ?_⟩
  · intro c
    -- The word that is written belongs to a page that is on no list any more.
    have unwritten : ∀ j : UInt32, j.toNat < f.count → f.page j ∈ (s.pop core).stack[c] →
        f.linkWord (a.popped f core).ram j = f.linkWord a.ram j := by
      intro j _ member
      rw [words, if_neg]
      rintro rfl
      exact ((tails c _).mp member).2 rfl
    refine Frames.chained_congr ?_ unwritten
    simp only [Stock.stack_pop, Allocator.popped, entry_set]
    split
    · rw [stack]
      exact further
    · exact kept.chained c
  · intro c
    simp only [Stock.stack_pop, Allocator.popped, entry_set]
    split
    · rw [kept.lengths core, stack]
      rfl
    · exact kept.lengths c
  · intro j knownJ
    rw [words, kept.has_pop stack]
    split
    · rename_i same
      subst same
      simp
    · rename_i unlike
      have other : f.page j ≠ f.page a.lists[core].head := fun same => unlike (Frames.page_inj same).symm
      rw [decide_eq_true other, Bool.and_true]
      exact kept.marked j knownJ
  · intro c
    rw [Stock.stack_pop]
    split
    · exact (kept.single core).tail
    · exact kept.single c
  · intro c other page member beside
    exact kept.apart c other page ((tails c page).mp member).1 ((tails other page).mp beside).1
  · intro c page member
    exact kept.unlost c page ((tails c page).mp member).1

end Allocator

end KernelResources.Page
