import KernelResources.Fault
import KernelResources.Text.Hex
import KernelResources.Text.Record

namespace KernelResources.Page

inductive FreeError where
  | misaligned (address : Nat)
  | belowRange (address start : Nat)
  | aboveRange (address limit : Nat)
  | doubleFree (address : Nat)
  | uninitialized
  deriving DecidableEq, Repr

namespace FreeError

open Text

def message : FreeError → String
  | misaligned address => s!"{hex address} is not page-aligned"
  | belowRange address start =>
    s!"{hex address} lies below the managed range starting at {hex start}"
  | aboveRange address limit =>
    s!"{hex address} lies at or above the end of physical memory {hex limit}"
  | doubleFree address => s!"page {hex address} is already free"
  | uninitialized => "page allocator is not initialized"

def name : FreeError → String
  | misaligned .. => "Misaligned"
  | belowRange .. => "BelowRange"
  | aboveRange .. => "AboveRange"
  | doubleFree .. => "DoubleFree"
  | uninitialized => "Uninitialized"

def fields : FreeError → List (String × String)
  | misaligned address => [("addr", toString address)]
  | belowRange address start => [("addr", toString address), ("start", toString start)]
  | aboveRange address limit => [("addr", toString address), ("end", toString limit)]
  | doubleFree address => [("addr", toString address)]
  | uninitialized => []

def record (e : FreeError) : String := Text.record e.name e.fields

end FreeError

inductive InitError where
  | empty (start stop : Nat)
  | tooLarge (pages : Nat)
  | alreadyInitialized
  deriving DecidableEq, Repr

namespace InitError

open Text

def message : InitError → String
  | empty start stop => s!"range [{hex start}, {hex stop}) holds no usable page"
  | tooLarge pages => s!"{pages} pages exceed what the link table can index"
  | alreadyInitialized => "page allocator is already initialized"

def name : InitError → String
  | empty .. => "Empty"
  | tooLarge .. => "TooLarge"
  | alreadyInitialized => "AlreadyInitialized"

def fields : InitError → List (String × String)
  | empty start stop => [("start", toString start), ("end", toString stop)]
  | tooLarge pages => [("pages", toString pages)]
  | alreadyInitialized => []

def record (e : InitError) : String := Text.record e.name e.fields

end InitError

inductive Caller where
  | alloc
  | free
  | freePages
  deriving DecidableEq, Repr

def Caller.text : Caller → String
  | .alloc => "kalloc"
  | .free => "kfree"
  | .freePages => "free_pages"

inductive Fault where
  | word (fault : WordFault)
  | freeRejected (error : FreeError)
  | coreOutside (caller : Caller) (core cores : Nat)
  deriving DecidableEq, Repr

def Fault.message : Fault → String
  | .word fault => fault.message
  | .freeRejected error => s!"kfree: {error.message}"
  | .coreOutside caller core cores => s!"{caller.text}: core id {core} outside 0..{cores}"

end KernelResources.Page
