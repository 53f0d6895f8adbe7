import Mathlib.Data.Multiset.AddSub
import Mathlib.Data.List.Sort

namespace AstraCore.PriorityQueue

-- A heap as its library documents it: an item with the smallest key comes first, and which one of several is left open.
structure Heap (key : α → Nat) where
  Store : Type
  empty : Store
  push : α → Store → Store
  pop : Store → Option (α × Store)
  items : Store → Multiset α
  items_empty : items empty = 0
  items_push : ∀ item store, items (push item store) = item ::ₘ items store
  pop_none : ∀ store, pop store = none → items store = 0
  pop_items : ∀ store item rest, pop store = some (item,rest) → items store = item ::ₘ items rest
  pop_first : ∀ store item rest, pop store = some (item,rest) → ∀ other ∈ items rest, key item ≤ key other

variable {key : α → Nat} (heap : Heap key)

def Heap.peek (store : heap.Store) : Option α := (heap.pop store).map Prod.fst
def Heap.len (store : heap.Store) : Nat := (heap.items store).card

variable {heap}

theorem Heap.peek_some (top : heap.peek store = some item) : ∃ rest, heap.pop store = some (item,rest) := by
  obtain ⟨⟨found,rest⟩,popped,rfl⟩ := Option.map_eq_some_iff.mp top
  exact ⟨rest,popped⟩

theorem Heap.peek_mem (member : item ∈ heap.items store) :
    ∃ top rest, heap.pop store = some (top,rest) ∧ heap.items store = top ::ₘ heap.items rest ∧ key top ≤ key item := by
  cases popped : heap.pop store with
  | none =>
    rw [heap.pop_none store popped] at member
    exact absurd member (Multiset.notMem_zero item)
  | some result =>
    obtain ⟨top,rest⟩ := result
    have items := heap.pop_items store top rest popped
    refine ⟨top,rest,rfl,items,?_⟩
    rw [items] at member
    rcases Multiset.mem_cons.mp member with rfl | later
    · exact Nat.le_refl _
    · exact heap.pop_first store top rest popped item later

section Listed
variable (key)

def Ahead (first second : α) : Prop := key first ≤ key second

instance : DecidableRel (Ahead key) := fun first second => inferInstanceAs (Decidable (key first ≤ key second))
instance : IsTrans α (Ahead key) := ⟨fun _ _ _ => Nat.le_trans⟩
instance : Std.Total (Ahead key) := ⟨fun first second => Nat.le_total (key first) (key second)⟩

structure Listed where
  items : List α
  ordered : items.Pairwise (Ahead key)

def Listed.push (item : α) (store : Listed key) : Listed key := ⟨store.items.orderedInsert (Ahead key) item,store.ordered.orderedInsert item store.items⟩

theorem ordered_tail (ordered : (first :: rest).Pairwise (Ahead key)) : rest.Pairwise (Ahead key) :=
  (List.pairwise_cons.mp ordered).2

def Listed.pop : Listed key → Option (α × Listed key)
  | ⟨[],_⟩ => none
  | ⟨first :: rest,ordered⟩ => some (first,⟨rest,ordered_tail key ordered⟩)

theorem Listed.pop_none (store : Listed key) (empty : store.pop = none) : store.items = [] := by
  obtain ⟨items,ordered⟩ := store
  cases items with
  | nil => rfl
  | cons first rest => cases empty

theorem Listed.pop_some {store : Listed key} (popped : store.pop = some (item,rest)) :
    store.items = item :: rest.items ∧ ∀ other ∈ rest.items, key item ≤ key other := by
  obtain ⟨items,ordered⟩ := store
  cases items with
  | nil => cases popped
  | cons first later =>
    cases popped
    exact ⟨rfl,(List.pairwise_cons.mp ordered).1⟩

def listed : Heap key where
  Store := Listed key
  empty := ⟨[],List.Pairwise.nil⟩
  push := Listed.push key
  pop := Listed.pop key
  items store := store.items
  items_empty := rfl
  items_push item store := Multiset.coe_eq_coe.mpr (List.perm_orderedInsert (Ahead key) item store.items)
  pop_none store empty := congrArg _ (Listed.pop_none key store empty)
  pop_items _ _ _ popped := congrArg _ (Listed.pop_some key popped).1
  pop_first _ _ _ popped := (Listed.pop_some key popped).2

end Listed

end AstraCore.PriorityQueue
