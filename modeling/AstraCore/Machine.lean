import Mathlib.Logic.Relation

namespace AstraCore.Machine
variable {State Event Abstract : Type}

-- A machine refuses an event by `none`. Nondeterminism of the environment is in the events.
def run (advance : State → Event → Option State) : State → List Event → Option State
  | s,[] => some s
  | s,event :: rest => (advance s event).bind (run advance · rest)

variable {advance : State → Event → Option State}

theorem run_cons (path : run advance s (event :: rest) = some last) : ∃ next, advance s event = some next ∧ run advance next rest = some last :=
  Option.bind_eq_some_iff.mp path

theorem run_concat (path : run advance s history = some middle) (step : advance middle event = some last) :
    run advance s (history ++ [event]) = some last := by
  induction history generalizing s with
  | nil =>
    cases path
    exact Option.bind_eq_some_iff.mpr ⟨last,step,rfl⟩
  | cons first rest ih =>
    obtain ⟨next,taken,path⟩ := run_cons path
    exact Option.bind_eq_some_iff.mpr ⟨next,taken,ih path⟩

theorem run_join (early : run advance s front = some middle) (late : run advance middle back = some last) : run advance s (front ++ back) = some last := by
  induction front generalizing s with
  | nil =>
    cases early
    exact late
  | cons first rest ih =>
    obtain ⟨next,taken,early⟩ := run_cons early
    exact Option.bind_eq_some_iff.mpr ⟨next,taken,ih early⟩

theorem run_split (path : run advance s (front ++ back) = some last) : ∃ middle, run advance s front = some middle ∧
    run advance middle back = some last := by
  induction front generalizing s with
  | nil => exact ⟨s,rfl,path⟩
  | cons first rest ih =>
    obtain ⟨next,taken,path⟩ := run_cons path
    obtain ⟨middle,early,late⟩ := ih path
    exact ⟨middle,Option.bind_eq_some_iff.mpr ⟨next,taken,early⟩,late⟩

theorem run_invariant (invariant : State → Prop) (preserved : ∀ s event next, invariant s → advance s event = some next → invariant next)
    (start : invariant s) (path : run advance s events = some last) : invariant last := by
  induction events generalizing s with
  | nil => cases path; exact start
  | cons event rest ih =>
    obtain ⟨next,step,path⟩ := run_cons path
    exact ih (preserved s event next start step) path

theorem run_returns (invariant : State → Prop)
    (taken : ∀ s event, invariant s → ∃ next, advance s event = some next ∧ invariant next) (start : invariant s) (events) :
    ∃ last, run advance s events = some last ∧ invariant last := by
  induction events generalizing s with
  | nil => exact ⟨s,rfl,start⟩
  | cons event rest ih =>
    obtain ⟨next,step,kept⟩ := taken s event start
    obtain ⟨last,path,held⟩ := ih kept
    exact ⟨last,by rw [run,step]; exact path,held⟩

-- An invariant that may also speak about the events consumed so far.
theorem run_history (invariant : List Event → State → Prop)
    (preserved : ∀ history s event next, invariant history s → advance s event = some next → invariant (history ++ [event]) next)
    (start : invariant [] s) (path : run advance s events = some last) : invariant events last := by
  have longer : ∀ history s, invariant history s → run advance s events = some last → invariant (history ++ events) last := by
    clear start path
    induction events with
    | nil => intro history s start path; cases path; simpa using start
    | cons event rest ih =>
      intro history s start path
      obtain ⟨next,step,path⟩ := run_cons path
      have whole := ih (history ++ [event]) next (preserved history s event next start step) path
      simpa only [List.append_assoc,List.singleton_append] using whole
  exact longer [] s start path

def Meets (advance : State → Event → Option State) (condition : State → Event → Prop) :
    State → List Event → Prop
  | _,[] => True
  | s,event :: rest => condition s event ∧ ∀ next, advance s event = some next → Meets advance condition next rest

theorem meets_cons (allowed : condition s event) (step : advance s event = some next)
    (rest : Meets advance condition next events) : Meets advance condition s (event :: events) := by
  refine ⟨allowed,?_⟩
  intro other same
  cases Option.some.inj (step.symm.trans same)
  exact rest

theorem meets_mono (weaker : ∀ s event, first s event → second s event) (all : Meets advance first s events) : Meets advance second s events := by
  induction events generalizing s with
  | nil => trivial
  | cons event rest ih => exact ⟨weaker s event all.1,fun next step => ih (all.2 next step)⟩

theorem meets_behind (all : Meets advance condition s (front ++ back)) (path : run advance s front = some middle) :
    Meets advance condition middle back := by
  induction front generalizing s with
  | nil =>
    cases path
    exact all
  | cons event rest ih =>
    obtain ⟨next,step,path⟩ := run_cons path
    exact ih (all.2 next step) path

section
variable (invariant : State → Prop)

theorem meets_congr (preserved : ∀ s event next, invariant s → advance s event = some next → invariant next)
    (same : ∀ s event, invariant s → (first s event ↔ second s event)) (start : invariant s) :
    Meets advance first s events ↔ Meets advance second s events := by
  induction events generalizing s with
  | nil => exact Iff.rfl
  | cons event rest ih =>
    refine and_congr (same s event start) ?_
    exact forall_congr' fun next => forall_congr' fun step => ih (preserved s event next start step)

theorem run_invariant_where (preserved : ∀ s event next, invariant s → condition s event → advance s event = some next → invariant next)
    (start : invariant s) (allowed : Meets advance condition s events) (path : run advance s events = some last) : invariant last := by
  induction events generalizing s with
  | nil => cases path; exact start
  | cons event rest ih =>
    obtain ⟨next,step,path⟩ := run_cons path
    exact ih (preserved s event next start allowed.1 step) (allowed.2 next step) path

def Always (advance : State → Event → Option State) (property : State → Prop) : State → List Event → Prop
  | s,[] => property s
  | s,event :: rest => property s ∧ ∀ next, advance s event = some next → Always advance property next rest

theorem always_start (always : Always advance property s events) : property s := by
  cases events with
  | nil => exact always
  | cons event rest => exact always.1

theorem always_last (always : Always advance property s events) (path : run advance s events = some last) : property last := by
  induction events generalizing s with
  | nil =>
    cases path
    exact always
  | cons event rest ih =>
    obtain ⟨next,step,path⟩ := run_cons path
    exact ih (always.2 next step) path

theorem always_congr (preserved : ∀ s event next, invariant s → advance s event = some next → invariant next)
    (same : ∀ s, invariant s → (first s ↔ second s)) (start : invariant s) : Always advance first s events ↔ Always advance second s events := by
  induction events generalizing s with
  | nil => exact same s start
  | cons event rest ih =>
    refine and_congr (same s start) ?_
    exact forall_congr' fun next => forall_congr' fun step => ih (preserved s event next start step)

end

-- Where a step keeps the property exactly under the condition, a run keeps it exactly when every step meets the condition.
theorem always_iff_meets (total : ∀ s event, property s → ∃ next, advance s event = some next)
    (kept : ∀ s event next, property s → advance s event = some next → (property next ↔ condition s event))
    (start : property s) : Always advance property s events ↔ Meets advance condition s events := by
  induction events generalizing s with
  | nil => exact iff_of_true start trivial
  | cons event rest ih =>
    constructor
    · rintro ⟨-,later⟩
      obtain ⟨next,step⟩ := total s event start
      refine ⟨(kept s event next start step).mp (always_start (later next step)),?_⟩
      intro next step
      have held := always_start (later next step)
      exact (ih held).mp (later next step)
    · rintro ⟨allowed,later⟩
      refine ⟨start,?_⟩
      intro next step
      exact (ih ((kept s event next start step).mpr allowed)).mpr (later next step)

theorem run_keeps_iff (property broken : State → Prop) (taken : ∀ s event, property s → condition s event → ∃ next, advance s event = some next ∧ property next)
    (breaks : ∀ s event next, property s → ¬ condition s event → advance s event = some next → broken next)
    (stays : ∀ s event next, broken s → advance s event = some next → broken next) (apart : ∀ s, broken s → ¬ property s) (start : property s) :
    (∃ last, run advance s events = some last ∧ property last) ↔ Meets advance condition s events := by
  induction events generalizing s with
  | nil => exact iff_of_true ⟨s,rfl,start⟩ trivial
  | cons event rest ih =>
    constructor
    · rintro ⟨last,path,held⟩
      obtain ⟨next,step,path⟩ := run_cons path
      have allowed : condition s event := by
        apply Classical.byContradiction
        intro forbidden
        have lost := run_invariant broken stays (breaks s event next start forbidden step) path
        exact apart last lost held
      obtain ⟨other,same,kept⟩ := taken s event start allowed
      cases Option.some.inj (step.symm.trans same)
      exact meets_cons allowed step ((ih kept).mp ⟨last,path,held⟩)
    · rintro ⟨allowed,later⟩
      obtain ⟨next,step,kept⟩ := taken s event start allowed
      obtain ⟨last,path,held⟩ := (ih kept).mpr (later next step)
      exact ⟨last,Option.bind_eq_some_iff.mpr ⟨next,step,path⟩,held⟩

-- Forward simulation: every concrete step is matched by some abstract steps, possibly none.
theorem run_simulates {related : State → Abstract → Prop} (matched : ∀ s event next a, related s a → advance s event = some next →
      ∃ b, Relation.ReflTransGen step a b ∧ related next b)
    (start : related s a) (path : run advance s events = some last) : ∃ b, Relation.ReflTransGen step a b ∧ related last b := by
  induction events generalizing s a with
  | nil => cases path; exact ⟨a,.refl,start⟩
  | cons event rest ih =>
    obtain ⟨next,taken,path⟩ := run_cons path
    obtain ⟨middle,first,joined⟩ := matched s event next a start taken
    obtain ⟨b,second,final⟩ := ih joined path
    exact ⟨b,first.trans second,final⟩

end AstraCore.Machine
