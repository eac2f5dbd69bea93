import KernelResources.Page.Frames

-- One core's free pages: a chain through the link table, newest page first, and its length. The list
-- trusts the links; a page pushed twice, or a link that is overwritten, is followed as it stands.

namespace KernelResources.Page

structure FreeList where
  head : UInt32
  length : Nat
  deriving DecidableEq, Repr

namespace FreeList

def empty : FreeList := ⟨listEnd, 0⟩

def push (list : FreeList) (f : Frames) (ram : Ram) (index : UInt32) :
    Except WordFault Unit × FreeList × Ram :=
  match f.link ram index with
  | .error fault => (.error fault, list, ram)
  | .ok _ => (.ok (), ⟨index, list.length + 1⟩, f.setLink ram index list.head)

-- Takes the first page off. The page is off the chain before the length is counted down, so a chain
-- that is longer than its length faults with the page gone.
def pop (list : FreeList) (f : Frames) (ram : Ram) :
    Except WordFault (Option UInt32) × FreeList × Ram :=
  if list.head = listEnd then (.ok none, list, ram)
  else match f.link ram list.head with
    | .error fault => (.error fault, list, ram)
    | .ok next =>
      let ram := f.setLink ram list.head allocated
      match predWord list.length with
      | .error fault => (.error fault, ⟨next, list.length⟩, ram)
      | .ok length => (.ok (some list.head), ⟨next, length⟩, ram)

end FreeList

end KernelResources.Page
