import KernelResources.Proofs.Buffer.BucketWalks

namespace KernelResources.Buffer

variable {n : Nat} {ι σ : Type}

namespace Bucket

theorem visitAll_noting {visit : Fin n → σ → Except AuditError Unit × σ} (accepting : Accepting visit)
    (l : List (Fin n)) (s : σ) (seen : List (Fin n)) :
    ∃ after, visitAll visit l s = (.ok (), after) ∧
      visitAll (noting visit) l (s, seen) = (.ok (), after, seen ++ l) := by
  induction l generalizing s seen with
  | nil => exact ⟨s, rfl, by rw [visitAll, List.append_nil]⟩
  | cons i l ih =>
    have accepted : visit i s = (.ok (), (visit i s).2) := Prod.ext (accepting i s) rfl
    have noted : noting visit i (s, seen) = (.ok (), (visit i s).2, seen ++ [i]) :=
      Prod.ext (accepting i s) rfl
    obtain ⟨after, plain, told⟩ := ih (visit i s).2 (seen ++ [i])
    refine ⟨after, ?_, ?_⟩
    · rw [visitAll, accepted]
      exact plain
    · rw [visitAll, noted]
      simpa using told

theorem walk_accepted {b : Bucket n} {l : List (Fin n)} (shown : b.Represents l) (bucket : Nat)
    {visit : Fin n → σ → Except AuditError Unit × σ} (accepting : Accepting visit) (s : σ) :
    ∃ after, b.walk bucket visit s = (.ok (), after) ∧
      b.walk bucket (noting visit) (s, []) = (.ok (), after, l) := by
  rw [walk_represents shown, walk_represents shown]
  exact visitAll_noting accepting l s []

theorem represents_filter {b : Bucket n} {l : List (Fin n)} (shown : b.Represents l) {i : Fin n}
    (member : i ∈ l) : (b.remove i).Represents (l.filter (· != i)) := by
  have removed := represents_remove shown member
  rwa [shown.2.erase_eq_filter] at removed

inductive Move (ι : Type) (n : Nat) where
  | pushFront (which : ι) (i : Fin n)
  | remove (which : ι) (i : Fin n)
  deriving DecidableEq, Repr

namespace Move

variable [DecidableEq ι]

def onBuckets (bs : ι → Bucket n) : Move ι n → ι → Bucket n
  | .pushFront which i => Function.update bs which ((bs which).pushFront i)
  | .remove which i => Function.update bs which ((bs which).remove i)

def onLists (ls : ι → List (Fin n)) : Move ι n → ι → List (Fin n)
  | .pushFront which i => Function.update ls which (i :: ls which)
  | .remove which i => Function.update ls which ((ls which).filter (· != i))

-- Nobody is pushed twice, and nobody removed who is not there.
def Allowed (ls : ι → List (Fin n)) : Move ι n → Prop
  | .pushFront which i => i ∉ ls which
  | .remove which i => i ∈ ls which

def AllowedAll (ls : ι → List (Fin n)) : List (Move ι n) → Prop
  | [] => True
  | move :: rest => move.Allowed ls ∧ AllowedAll (move.onLists ls) rest

variable {bs : ι → Bucket n} {ls : ι → List (Fin n)} {move : Move ι n}

theorem represents_move (shown : ∀ which, (bs which).Represents (ls which)) (allowed : move.Allowed ls)
    (which : ι) : (move.onBuckets bs which).Represents (move.onLists ls which) := by
  cases move with
  | pushFront on i =>
    by_cases here : which = on
    · subst here
      simpa [onBuckets, onLists] using represents_pushFront (shown which) allowed
    · simpa [onBuckets, onLists, here] using shown which
  | remove on i =>
    by_cases here : which = on
    · subst here
      simpa [onBuckets, onLists] using represents_filter (shown which) allowed
    · simpa [onBuckets, onLists, here] using shown which

theorem represents_moves (shown : ∀ which, (bs which).Represents (ls which)) (moves : List (Move ι n))
    (allowed : AllowedAll ls moves) (which : ι) :
    (moves.foldl onBuckets bs which).Represents (moves.foldl onLists ls which) := by
  induction moves generalizing bs ls with
  | nil => exact shown which
  | cons move rest ih => exact ih (represents_move shown allowed.1) allowed.2

end Move

-- To stand for a list is to give it along the forward links, with the backward links to match. An empty and
-- a full bucket do, every allowed move keeps it, and it is what a walk visits.
theorem buckets_refine_lists (n : Nat) :
    (∀ (b : Bucket n) (l : List (Fin n)), b.Represents l ↔
      l.Nodup ∧ (∀ k, b.nth k = l[k]?) ∧ ∀ k i, l[k]? = some i → b.prev[i] = b.beforeNth k) ∧
    (empty : Bucket n).Represents [] ∧ (holdingAll : Bucket n).Represents (List.finRange n) ∧
    (∀ (b : Bucket n) (l : List (Fin n)), b.Represents l → b.members = l ∧
      (∀ i, i ∉ l → (b.pushFront i).Represents (i :: l)) ∧
      (∀ i, i ∈ l → (b.remove i).Represents (l.filter (· != i))) ∧
      ∀ (σ : Type) (bucket : Nat) (visit : Fin n → σ → Except AuditError Unit × σ) (s : σ),
        Accepting visit → ∃ after, b.walk bucket visit s = (.ok (), after) ∧
          b.walk bucket (noting visit) (s, []) = (.ok (), after, l)) ∧
    ∀ (ι : Type) [DecidableEq ι] (bs : ι → Bucket n) (ls : ι → List (Fin n)) (moves : List (Move ι n)),
      (∀ which, (bs which).Represents (ls which)) → Move.AllowedAll ls moves →
        ∀ which, (moves.foldl Move.onBuckets bs which).Represents (moves.foldl Move.onLists ls which) ∧
          (moves.foldl Move.onBuckets bs which).members = moves.foldl Move.onLists ls which := by
  refine ⟨fun b l => represents_nth, represents_empty, represents_holdingAll, ?_, ?_⟩
  · intro b l shown
    exact ⟨members_represents shown, fun i absent => represents_pushFront shown absent,
      fun i member => represents_filter shown member,
      fun σ bucket visit s accepting => walk_accepted shown bucket accepting s⟩
  · intro ι _ bs ls moves shown allowed which
    have represents := Move.represents_moves shown moves allowed which
    exact ⟨represents, members_represents represents⟩

-- Buffers change between a full bucket (`true`) and an empty one, and one of them comes back with the links
-- still in the tables that it had there at first.
theorem buckets_refine_lists_returned :
    let bs : Bool → Bucket 5 := fun which => if which then holdingAll else empty
    let ls : Bool → List (Fin 5) := fun which => if which then List.finRange 5 else []
    let moves : List (Move Bool 5) := [.remove true 0, .remove true 2, .remove true 4, .pushFront false 2,
      .pushFront false 0, .remove false 2, .pushFront true 2]
    (∀ which, (bs which).Represents (ls which)) ∧ Move.AllowedAll ls moves ∧
      (moves.foldl Move.onBuckets bs true).members = [2, 1, 3] ∧
      (moves.foldl Move.onBuckets bs false).Represents [0] := by
  intro bs ls moves
  obtain ⟨-, fresh, full, -, moved⟩ := buckets_refine_lists 5
  have shown : ∀ which, (bs which).Represents (ls which) := by
    intro which
    cases which with
    | true => exact full
    | false => exact fresh
  have allowed : Move.AllowedAll ls moves := by
    simp [moves, ls, Move.AllowedAll, Move.Allowed, Move.onLists, List.finRange]
  exact ⟨shown, allowed, (moved Bool bs ls moves shown allowed true).2,
    (moved Bool bs ls moves shown allowed false).1⟩

end Bucket

end KernelResources.Buffer
