import Mathlib.Data.List.Infix

namespace AstraCore.CacheLog
open List
variable {Key Value : Type} [DecidableEq Key]

inductive Entry (Key Value : Type) where
  | looked (time : Nat) (key : Key) (hit : Option Value)
  | kept (stamp : Nat) (key : Key) (value : Value)
deriving DecidableEq

def latest (key : Key) : List (Entry Key Value) → Option (Nat × Value)
  | [] => none
  | .looked _ _ _ :: rest => latest key rest
  | .kept stamp other value :: rest => (latest key rest).or (if key = other then some (stamp,value) else none)

def serves (life : Nat) (log : List (Entry Key Value)) (time : Nat) (key : Key) : Option Value :=
  (latest key log).bind fun last => if time < last.1 + life then some last.2 else none

def Explained (life : Nat) (log : List (Entry Key Value)) : Prop :=
  ∀ front back time key hit, log = front ++ .looked time key hit :: back → hit = serves life front time key

def Good (good : Nat → Value → Prop) (log : List (Entry Key Value)) : Prop :=
  ∀ time key value, .looked time key (some value) ∈ log → good time value

def Timely (life : Nat) (good : Nat → Value → Prop) (log : List (Entry Key Value)) : Prop :=
  ∀ front back time key hit stamp value, log = front ++ .looked time key hit :: back →
    latest key front = some (stamp,value) → time < stamp + life → good time value

theorem latest_looked (log : List (Entry Key Value)) (time other hit key) : latest key (log ++ [.looked time other hit]) = latest key log := by
  induction log with
  | nil => rfl
  | cons entry rest ih => cases entry <;> simp [latest,ih]

theorem latest_kept (log : List (Entry Key Value)) (stamp other value key) :
    latest key (log ++ [.kept stamp other value]) = if key = other then some (stamp,value) else latest key log := by
  induction log with
  | nil => simp [latest]
  | cons entry rest ih =>
    cases entry with
    | looked time asked hit => simpa [latest] using ih
    | kept earlier asked old =>
      rw [cons_append,latest,ih,latest]
      split <;> simp

theorem split_concat (same : log ++ [last] = front ++ entry :: back) : (front = log ∧ entry = last) ∨ ∃ less, log = front ++ entry :: less := by
  rcases eq_nil_or_concat back with rfl | ⟨less,final,rfl⟩
  · obtain ⟨whole,final⟩ := append_inj' same rfl
    exact .inl ⟨whole.symm,(singleton_inj.mp final).symm⟩
  · rw [concat_eq_append,← cons_append,← append_assoc] at same
    exact .inr ⟨less,(append_inj' same rfl).1⟩

variable {log : List (Entry Key Value)}

section
variable (explained : Explained life log)
include explained

theorem explained_looked (served : hit = serves life log time key) : Explained life (log ++ [.looked time key hit]) := by
  intro front back later asked found same
  rcases split_concat same with ⟨rfl,last⟩ | ⟨less,earlier⟩
  · cases last
    exact served
  · exact explained front less later asked found earlier

theorem explained_kept (stamp) (key : Key) (value : Value) : Explained life (log ++ [.kept stamp key value]) := by
  intro front back later asked found same
  rcases split_concat same with ⟨-,last⟩ | ⟨less,earlier⟩
  · cases last
  · exact explained front less later asked found earlier

theorem good_iff_timely (good) : Good good log ↔ Timely life good log := by
  constructor
  · intro holds front back time key hit stamp value same last early
    have served := explained front back time key hit same
    rw [serves,last,Option.bind_some,if_pos early] at served
    apply holds time key value
    simp [same,served]
  · intro timely time key value inside
    obtain ⟨front,back,same⟩ := append_of_mem inside
    have served := explained front back time key (some value) same
    obtain ⟨⟨stamp,kept⟩,last,early⟩ := Option.bind_eq_some_iff.mp served.symm
    split at early
    · rename_i within
      cases early
      exact timely front back time key _ stamp kept same last within
    · cases early

end

end AstraCore.CacheLog
