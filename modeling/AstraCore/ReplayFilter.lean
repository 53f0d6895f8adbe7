import Mathlib.Data.Finset.Insert
import Mathlib.Data.List.Induction

namespace AstraCore.Replay
open List
variable {T : Type}

-- Times are in nanoseconds.
structure ReplayFilter (T : Type) where
  poolA : Finset T
  poolB : Finset T
  interval : Nat
  lastClean : Nat

def new (intervalSecs : Int64) (now : Nat) : ReplayFilter T := ⟨∅,∅,intervalSecs.toUInt64.toNat * 1000000000,now⟩

def ReplayFilter.rotate (filter : ReplayFilter T) (now : Nat) : ReplayFilter T :=
  if filter.interval ≤ now - filter.lastClean then {filter with poolA := ∅, poolB := filter.poolA, lastClean := now} else filter

-- What has become by `now` of a value accepted at `time`: it is in a pool until the interval is over.
def Remembers (filter : ReplayFilter T) (time now : Nat) (value : T) : Prop :=
  value ∈ filter.poolA ∨ (value ∈ filter.poolB ∧ time ≤ filter.lastClean) ∨ time + filter.interval ≤ now

-- The filter holds only values that were checked.
structure Follows (interval : Nat) (history : List (Nat × T)) (filter : ReplayFilter T) : Prop where
  values : ∀ value, value ∈ filter.poolA ∨ value ∈ filter.poolB → value ∈ history.map Prod.snd
  interval : filter.interval = interval

variable {filter : ReplayFilter T}

theorem rotate_remembers (kept : Remembers filter time now value) (early : time ≤ now) (ordered : now ≤ later) :
    Remembers (filter.rotate later) time later value := by
  rw [ReplayFilter.rotate]
  split
  · rcases kept with current | ⟨_,previous⟩ | gone
    · exact .inr (.inl ⟨current,early.trans ordered⟩)
    · exact .inr (.inr (by dsimp only; omega))
    · exact .inr (.inr (gone.trans ordered))
  · exact kept.imp_right (.imp_right fun gone => gone.trans ordered)

theorem rotate_follows (follows : Follows interval history filter) (now) : Follows interval history (filter.rotate now) := by
  have ⟨values,interval⟩ := follows
  rw [ReplayFilter.rotate]
  split <;> refine ⟨?_,interval⟩ <;> grind

variable [DecidableEq T]

section
variable (filter : ReplayFilter T)

def ReplayFilter.check (now : Nat) (value : T) : ReplayFilter T × Bool :=
  let filter := filter.rotate now
  if value ∈ filter.poolA ∨ value ∈ filter.poolB then (filter,false)
  else ({filter with poolA := insert value filter.poolA},true)

def ReplayFilter.after (checks : List (Nat × T)) : ReplayFilter T :=
  checks.foldl (fun filter check => (filter.check check.1 check.2).1) filter

def ReplayFilter.accepts (before : List (Nat × T)) (now : Nat) (value : T) : Prop :=
  ((filter.after before).check now value).2 = true

theorem accepted_iff (now value) : (filter.check now value).2 = true ↔ value ∉ (filter.rotate now).poolA ∧ value ∉ (filter.rotate now).poolB := by
  rw [ReplayFilter.check]
  split <;> simp_all [or_iff_not_imp_left]

end

theorem check_accepted (accepted : (filter.check now value).2 = true) : Remembers (filter.check now value).1 now now value := by
  rw [ReplayFilter.check,if_neg (not_or.mpr ((accepted_iff ..).mp accepted))]
  exact .inl (Finset.mem_insert_self ..)

theorem check_remembers (kept : Remembers filter time now value) (early : time ≤ now) (ordered : now ≤ later) (other) :
    Remembers (filter.check later other).1 time later value := by
  have rotated := rotate_remembers kept early ordered
  rw [ReplayFilter.check]
  split
  · exact rotated
  · exact rotated.imp_left Finset.mem_insert_of_mem

theorem check_follows (follows : Follows interval history filter) (now) (value : T) :
    Follows interval (history ++ [(now,value)]) (filter.check now value).1 := by
  have ⟨values,interval⟩ := rotate_follows follows now
  rw [ReplayFilter.check]
  split <;> refine ⟨?_,interval⟩ <;> grind

theorem after_follows (secs start) (history : List (Nat × T)) : Follows (secs.toUInt64.toNat * 1000000000) history ((new secs start).after history) := by
  induction history using reverseRecOn with
  | nil => exact ⟨by simp [new,ReplayFilter.after],rfl⟩
  | append_singleton history check ih =>
    rw [ReplayFilter.after,foldl_concat]
    exact check_follows ih check.1 check.2

theorem after_remembers (kept : Remembers filter time now value) (early : time ≤ now)
    (ordered : (now :: (checks ++ [(later,value)]).map Prod.fst).Pairwise (· ≤ ·)) : Remembers ((filter.after checks).rotate later) time later value := by
  induction checks generalizing filter now with
  | nil => exact rotate_remembers kept early (by simpa using ordered)
  | cons check rest ih =>
    have ⟨first,others⟩ := pairwise_cons.mp ordered
    have soon : now ≤ check.1 := first _ mem_cons_self
    exact ih (check_remembers kept early soon check.2) (early.trans soon) others

theorem replays_refused (secs start) (before between) (value : T)
    (ordered : (start :: (before ++ (time,value) :: between ++ [(later,value)]).map Prod.fst).Pairwise (· ≤ ·)) :
    ((new secs start).accepts before time value → (new secs start).accepts (before ++ (time,value) :: between) later value →
        time + secs.toUInt64.toNat * 1000000000 ≤ later) ∧
      (value ∉ before.map Prod.snd → (new secs start).accepts before time value) := by
  have follows (history : List (Nat × T)) (now) := rotate_follows (after_follows secs start history) now
  constructor
  · intro first again
    rw [append_assoc,map_append] at ordered
    have behind := (pairwise_append.mp (pairwise_cons.mp ordered).2).2.1
    have whole : (new secs start).after (before ++ (time,value) :: between) =
        (((new secs start).after before).check time value).1.after between := foldl_append
    have remembered := after_remembers (check_accepted first) (Nat.le_refl _) behind
    rw [← whole] at remembered
    have ⟨current,previous⟩ := (accepted_iff ..).mp again
    rcases remembered with inside | ⟨inside,_⟩ | gone
    · exact absurd inside current
    · exact absurd inside previous
    · rwa [(follows ..).interval] at gone
  · intro unseen
    exact (accepted_iff ..).mpr (not_or.mp fun inside => unseen ((follows ..).values value inside))

theorem replays_refused_at_once : (new 1 0).accepts [] 5 'a' ∧ ¬ (new 1 0).accepts [(5,'a')] 6 'a' := by
  have ⟨early,fresh⟩ := @replays_refused _ _ 5 6 1 0 [] [] 'a' (by decide)
  exact ⟨fresh (by decide),fun again => absurd (early (fresh (by decide)) again) (by decide)⟩

end AstraCore.Replay
