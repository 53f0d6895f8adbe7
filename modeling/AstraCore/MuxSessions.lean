import AstraCore.MuxServer

namespace AstraCore.MuxSessions
open MuxServer Machine

-- A manager, how many sessions were made so far, and how many of them `allocate` returned. A session made next is known
-- by the number of those before it.
structure Managed where
  manager : SessionManager
  created : Nat
  allocated : Nat

def Managed.new : Managed := ⟨.new,0,0⟩

inductive Event where
  | allocate (strategy : MuxClientStrategy)
  | add (id : UInt16)
  | remove (id : UInt16)
  | close

-- `close` marks the sessions as well, which the manager does not look at again.
def advance (s : Managed) : Event → Option Managed
  | .allocate strategy =>
    match s.manager.allocate strategy s.created with
    | some (manager,_) => some ⟨manager,s.created + 1,s.allocated + 1⟩
    | none => some s
  | .add id => some {s with manager := (s.manager.add id s.created).1,created := s.created + 1}
  | .remove id => some {s with manager := s.manager.remove id}
  | .close => some {s with manager := {s.manager with closed := true}}

structure Fresh (manager : SessionManager) (strategy : MuxClientStrategy) (next : SessionManager) (id : UInt16) : Prop where
  unused : id ∉ manager.sessions
  nonzero : id ≠ 0
  kept : ∀ other reference, manager.sessions.lookup other = some reference → next.sessions.lookup other = some reference
  room : manager.size < strategy.maxConcurrency.toNat

def Allocates (s : Managed) : Event → Prop
  | .allocate strategy => 0 < strategy.maxConcurrency →
    ∀ next id, s.manager.allocate strategy s.created = some (next,id) → Fresh s.manager strategy next id
  | _ => True

def Free (s : Managed) : Event → Prop
  | .allocate strategy => 0 < strategy.maxConcurrency → (s.manager.allocate strategy s.created).isSome →
    (s.allocated + 1) % 2^16 ≠ 0 ∧ UInt16.ofNat (s.allocated + 1) ∉ s.manager.sessions
  | _ => True

def opened (manager : SessionManager) (reference : Nat) : SessionManager :=
  {manager with nextId := manager.nextId + 1,sessions := manager.sessions.insert (manager.nextId + 1) reference}

theorem allocate_cases {id : UInt16} (allocated : manager.allocate strategy reference = some (next,id)) :
    id = manager.nextId + 1 ∧ next = opened manager reference ∧ (0 < strategy.maxConcurrency → manager.size < strategy.maxConcurrency.toNat) := by
  rw [SessionManager.allocate] at allocated
  split at allocated
  · cases allocated
  · split at allocated
    · cases allocated
    · rename_i admitted
      cases allocated
      refine ⟨rfl,rfl,fun limited => ?_⟩
      apply Classical.byContradiction
      intro full
      exact admitted (.inl ⟨limited,by omega⟩)

theorem advance_allocate (step : advance s (.allocate strategy) = some next) :
    next = s ∨ next = ⟨opened s.manager s.created,s.created + 1,s.allocated + 1⟩ := by
  rw [advance] at step
  cases allocated : s.manager.allocate strategy s.created with
  | none =>
    rw [allocated] at step
    cases step
    exact .inl rfl
  | some made =>
    obtain ⟨manager,id⟩ := made
    obtain ⟨-,rfl,-⟩ := allocate_cases allocated
    rw [allocated] at step
    cases step
    exact .inr rfl

def Counted (s : Managed) : Prop := s.manager.nextId = UInt16.ofNat s.allocated

theorem next_id (counted : Counted s) : s.manager.nextId + 1 = UInt16.ofNat (s.allocated + 1) := by
  rw [counted,UInt16.ofNat_add]
  rfl

theorem advance_counted (s event next) (counted : Counted s) (step : advance s event = some next) : Counted next := by
  cases event with
  | allocate strategy =>
    obtain rfl | rfl := advance_allocate step
    · exact counted
    · exact next_id counted
  | add id =>
    cases step
    rw [SessionManager.add]
    split
    · exact counted
    · exact counted
  | remove id =>
    cases step
    exact counted
  | close =>
    cases step
    exact counted

theorem ofNat_zero_iff : UInt16.ofNat n = 0 ↔ n % 2^16 = 0 := by
  rw [← UInt16.toNat_inj]
  rfl

theorem fresh_iff {id : UInt16} (counted : Counted s) (limited : 0 < strategy.maxConcurrency)
    (allocated : s.manager.allocate strategy s.created = some (next,id)) :
    Fresh s.manager strategy next id ↔ (s.allocated + 1) % 2^16 ≠ 0 ∧ UInt16.ofNat (s.allocated + 1) ∉ s.manager.sessions := by
  obtain ⟨rfl,rfl,room⟩ := allocate_cases allocated
  rw [ne_eq,← ofNat_zero_iff,← next_id counted]
  constructor
  · intro fresh
    exact ⟨fresh.nonzero,fresh.unused⟩
  · rintro ⟨nonzero,unused⟩
    refine ⟨unused,nonzero,?_,room limited⟩
    intro other reference found
    have apart : other ≠ s.manager.nextId + 1 := by
      rintro rfl
      exact unused (AList.lookup_isSome.mp (by rw [found]; rfl))
    rw [← found]
    exact AList.lookup_insert_ne apart

theorem allocates_iff (counted : Counted s) (event) : Allocates s event ↔ Free s event := by
  cases event with
  | allocate strategy =>
    refine forall_congr' fun limited => ?_
    cases allocated : s.manager.allocate strategy s.created with
    | none => exact iff_of_true (fun _ _ absent => by cases absent) (fun absent => by cases absent)
    | some done =>
      obtain ⟨next,id⟩ := done
      have fresh := fresh_iff counted limited allocated
      constructor
      · exact fun each _ => fresh.mp (each next id rfl)
      · intro free other otherId same
        cases same
        exact fresh.mpr (free rfl)
  | add id | remove id | close => exact Iff.rfl

theorem meets_iff (counted : Counted s) : Meets advance Allocates s events ↔ Meets advance Free s events :=
  meets_congr Counted advance_counted (fun _ event counted => allocates_iff counted event) counted

theorem new_counted : Counted .new := rfl

theorem session_ids_iff (events : List Event) : Meets advance Allocates .new events ↔ Meets advance Free .new events :=
  meets_iff new_counted

-- The peer opens a session under the id 1 on a manager that also allocates. The first allocation takes that id from it.
theorem added_replaced : ¬ Meets advance Allocates .new [.add 1,.allocate .default] := by
  rw [meets_iff new_counted]
  intro free
  have second := (free.2 _ rfl).1 (by decide) (by decide)
  exact second.2 (by decide)

end AstraCore.MuxSessions
