import AstraCore.Routing
import Mathlib.Data.List.Rotate
import Mathlib.Data.List.Count

namespace AstraCore.Routing
open List

-- The picks of all threads in the order of their steps on the counter.
def Balancer.picks (balancer : Balancer) : List UInt32 → List (Option String)
  | [] => []
  | nanos :: rest => (balancer.pick nanos).2 :: (balancer.pick nanos).1.picks rest

def turns (candidates : List String) (start count : Nat) : List (Option String) :=
  (range count).map fun i => candidates[(start + i) % candidates.length]?

theorem turns_add (candidates start) (k l : Nat) : turns candidates start (k + l) = turns candidates start k ++ turns candidates (start + k) l := by
  simp [turns,range_add,Nat.add_assoc]

theorem turns_round (candidates start) : turns candidates start candidates.length = (candidates.rotate start).map some := by
  apply ext_getElem
  · simp [turns]
  · intro i inside _
    simp [turns,getElem_rotate,Nat.add_comm]

theorem turns_fair (distinct : candidates.Nodup) (member : tag ∈ candidates) (start m) :
    (turns candidates start (m * candidates.length)).count (some tag) = m := by
  induction m generalizing start with
  | zero => simp [turns]
  | succ m ih =>
    have once : ((candidates.rotate start).map some).count (some tag) = 1 := by
      rw [count_map_of_injective _ _ (Option.some_injective _),(rotate_perm ..).count_eq,count_eq_one_of_mem distinct member]
    rw [Nat.succ_mul,Nat.add_comm,turns_add,count_append,turns_round,once,ih]
    exact Nat.add_comm ..

variable {balancer : Balancer}

theorem picks_idle (nobody : balancer.candidates = []) (nanos) : balancer.picks nanos = replicate nanos.length balancer.fallbackTag := by
  induction nanos with
  | nil => rfl
  | cons first rest ih => simp [Balancer.picks,Balancer.pick,nobody,ih,replicate_succ]

theorem picks_turns (strategy : balancer.strategy = .roundRobin) (someone : balancer.candidates ≠ [])
    (fits : balancer.counter.toNat + nanos.length < 2 ^ 64) :
    balancer.picks nanos = turns balancer.candidates balancer.counter.toNat nanos.length := by
  induction nanos generalizing balancer with
  | nil => rfl
  | cons first rest ih =>
    rw [length_cons] at fits
    have step : balancer.pick first = ({balancer with counter := balancer.counter + 1},
        balancer.candidates[balancer.counter.toNat % balancer.candidates.length]?) := by
      cases shape : balancer.candidates with
      | nil => exact absurd shape someone
      | cons tag more => simp [Balancer.pick,shape,strategy]
    have moved : (balancer.counter + 1).toNat = balancer.counter.toNat + 1 := by
      rw [UInt64.toNat_add]
      exact Nat.mod_eq_of_lt (by rw [UInt64.toNat_one]; omega)
    have later := @ih {balancer with counter := balancer.counter + 1} strategy someone (by rw [moved]; omega)
    rw [moved] at later
    rw [Balancer.picks,step,length_cons,Nat.add_comm,turns_add]
    exact congrArg _ later

theorem turns_window (candidates) (start : Nat) (inside : start + k ≤ total) :
    ((turns candidates first total).drop start).take k = turns candidates (first + start) k := by
  obtain ⟨rest,rfl⟩ := Nat.exists_eq_add_of_le inside
  have width (a k : Nat) : (turns candidates a k).length = k := by simp [turns]
  rw [Nat.add_assoc,turns_add,drop_left' (width ..),turns_add,take_left' (width ..)]

theorem round_robin_fair {balancer : Balancer} (strategy : balancer.strategy = .roundRobin) (distinct : balancer.selector.Nodup)
    (fits : balancer.counter.toNat + nanos.length < 2 ^ 64) :
    (∀ pick ∈ balancer.picks nanos, if balancer.candidates = [] then pick = balancer.fallbackTag else ∃ tag ∈ balancer.candidates, pick = some tag) ∧
      ∀ start m, start + m * balancer.candidates.length ≤ nanos.length → ∀ tag ∈ balancer.candidates,
        (((balancer.picks nanos).drop start).take (m * balancer.candidates.length)).count (some tag) = m := by
  by_cases someone : balancer.candidates = []
  · simp [picks_idle someone,someone]
  · rw [picks_turns strategy someone fits]
    constructor
    · intro pick member
      obtain ⟨i,-,rfl⟩ := mem_map.mp member
      have bound := Nat.mod_lt (balancer.counter.toNat + i) (length_pos_iff.mpr someone)
      rw [if_neg someone]
      exact ⟨_,getElem_mem bound,getElem?_eq_getElem bound⟩
    · intro start m inside tag member
      have apart : balancer.candidates.Nodup := by
        rw [Balancer.candidates]
        split
        · exact distinct.filter _
        · exact distinct
      rw [turns_window _ start inside,turns_fair apart member]

def threeOutbounds : Balancer := .new "b" ["a","c","d"] .roundRobin none

theorem round_robin_six : (((threeOutbounds.picks (replicate 7 0)).drop 1).take (2 * 3)).count (some "c") = 2 :=
  (@round_robin_fair _ threeOutbounds rfl (by decide) (by decide)).2 1 2 (by decide) "c" (by decide)

end AstraCore.Routing
