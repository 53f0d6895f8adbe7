import Mathlib.Data.List.Basic

namespace AstraCore.FirstServed
open List
variable {α β : Type}

-- A walk along a list that acts on the first so many that are due and leaves the others as they are.
def serve (due : α → Bool) (act : α → α) : Nat → List α → List α
  | 0,l => l
  | _+1,[] => []
  | k+1,x :: rest => if due x then act x :: serve due act k rest else x :: serve due act (k + 1) rest

def served (due : α → Bool) (k : Nat) (l : List α) : List α := (l.filter due).take k

variable {due : α → Bool} {act : α → α}

theorem serve_zero (l) : serve due act 0 l = l := by rw [serve]

theorem serve_nil (k) : serve due act k [] = [] := by
  cases k with
  | zero | succ k => rfl

theorem served_nil (k) : served due k [] = [] := take_nil

theorem serve_due (here : due x = true) (k rest) : serve due act (k + 1) (x :: rest) = act x :: serve due act k rest := if_pos here

theorem serve_skips (skipped : due x = false) (k rest) : serve due act (k + 1) (x :: rest) = x :: serve due act (k + 1) rest := by
  rw [serve,skipped,if_neg Bool.false_ne_true]

theorem served_due (here : due x = true) (k rest) : served due (k + 1) (x :: rest) = x :: served due k rest := by
  rw [served,filter_cons_of_pos here]
  rfl

theorem served_skips (skipped : due x = false) (k rest) : served due k (x :: rest) = served due k rest := by
  simp [served,skipped]

theorem serve_map (view : α → β) (same : ∀ x, due x = shown (view x)) (follows : ∀ x, view (act x) = change (view x)) (k l) :
    (serve due act k l).map view = serve shown change k (l.map view) ∧ (served due k l).map view = served shown k (l.map view) := by
  have filtered : (l.map view).filter shown = (l.filter due).map view := by
    rw [filter_map]
    congr 2
    funext x
    exact (same x).symm
  refine ⟨?_,by rw [served,served,filtered,map_take]⟩
  clear filtered
  induction l generalizing k with
  | nil => rw [serve_nil,map_nil,serve_nil]
  | cons x rest ih =>
    cases k with
    | zero => rfl
    | succ k =>
      rw [serve,map_cons,serve,← same x]
      split
      · rw [map_cons,follows,ih]
      · rw [map_cons,ih]

def reached (due : α → Bool) : Nat → List α → List α
  | 0,_ => []
  | _+1,[] => []
  | k+1,x :: rest => x :: reached due (if due x then k else k + 1) rest

theorem mem_of_reached (found : x ∈ reached due k l) : x ∈ l := by
  induction l generalizing k with
  | nil =>
    cases k with
    | zero | succ k => exact absurd found not_mem_nil
  | cons first rest ih =>
    cases k with
    | zero => exact absurd found not_mem_nil
    | succ k =>
      rcases mem_cons.mp found with same | later
      · exact mem_cons.mpr (.inl same)
      · exact mem_cons_of_mem _ (ih later)

theorem reached_served (agree : ∀ x ∈ reached other k l, due x = other x) : served due k l = served other k l := by
  induction l generalizing k with
  | nil => rfl
  | cons x rest ih =>
    cases k with
    | zero => rfl
    | succ k =>
      obtain ⟨same,later⟩ := forall_mem_cons.mp agree
      cases here : other x with
      | true =>
        rw [here,if_pos rfl] at later
        rw [served_due (same.trans here),served_due here,ih later]
      | false =>
        rw [here,if_neg Bool.false_ne_true] at later
        rw [served_skips (same.trans here),served_skips here,ih later]

theorem serve_forall {property : α → Prop} (before : ∀ x ∈ l, property x) (made : ∀ x, property (act x)) (k) : ∀ x ∈ serve due act k l, property x := by
  induction l generalizing k with
  | nil =>
    rw [serve_nil]
    exact before
  | cons x rest ih =>
    obtain ⟨first,later⟩ := forall_mem_cons.mp before
    cases k with
    | zero =>
      exact before
    | succ k =>
      grind [serve]

-- Two ways to tell what is due. An action that changes what a view shows of its element shows where the walks differ.
theorem serve_view_iff (changes : ∀ x, view (act x) ≠ view x) (k l) :
    (serve due act k l).map view = (serve other act k l).map view ↔ ∀ x ∈ reached other k l, due x = other x := by
  induction l generalizing k with
  | nil =>
    rw [serve_nil,serve_nil]
    refine iff_of_true rfl ?_
    cases k with
    | zero | succ k => exact fun _ found => absurd found not_mem_nil
  | cons x rest ih =>
    cases k with
    | zero => exact iff_of_true (by rw [serve_zero,serve_zero]) fun _ found => absurd found not_mem_nil
    | succ k =>
      rw [serve,serve,reached,forall_mem_cons]
      cases first : due x with
      | true =>
        cases second : other x with
        | true => simp [ih]
        | false => simp [changes x]
      | false =>
        cases second : other x with
        | true => simp [(changes x).symm]
        | false => simp [ih]

end AstraCore.FirstServed
