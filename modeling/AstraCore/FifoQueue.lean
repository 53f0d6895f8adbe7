import Mathlib.Data.List.Infix
import Mathlib.Logic.Relation

namespace AstraCore.FifoQueue
variable {α : Type}

-- A reliable stream seen from outside: what went in, what came out, and that the
-- output is always the front of the input. Order and multiplicity are both in the field.
structure Fifo (α : Type) where
  accepted : List α
  delivered : List α
  inOrder : delivered <+: accepted

def Fifo.empty : Fifo α := ⟨[],[],List.prefix_rfl⟩

inductive Fifo.Step : Fifo α → Fifo α → Prop where
  | accept (item : α) (grown : after.accepted = before.accepted ++ [item])
      (kept : after.delivered = before.delivered) : Step before after
  | deliver (item : α) (kept : after.accepted = before.accepted)
      (grown : after.delivered = before.delivered ++ [item]) : Step before after

def Fifo.push (queue : Fifo α) (item : α) : Fifo α :=
  ⟨queue.accepted ++ [item],queue.delivered,queue.inOrder.trans (List.prefix_append _ _)⟩

theorem Fifo.push_step (queue : Fifo α) (item) : Step queue (queue.push item) :=
  .accept item rfl rfl

theorem Fifo.deliver_many (queue : Fifo α) (items) (front : queue.delivered ++ items <+: queue.accepted) :
    Relation.ReflTransGen Step queue ⟨queue.accepted,queue.delivered ++ items,front⟩ := by
  induction items generalizing queue with
  | nil =>
    have same : (⟨queue.accepted,queue.delivered ++ [],front⟩ : Fifo α) = queue := by simp
    rw [same]
  | cons item rest ih =>
    have shorter : queue.delivered ++ [item] <+: queue.accepted :=
      List.IsPrefix.trans ⟨rest,by simp⟩ front
    let next : Fifo α := ⟨queue.accepted,queue.delivered ++ [item],shorter⟩
    have one : Step queue next := .deliver item rfl rfl
    have more := ih next (by simpa [next] using front)
    apply Relation.ReflTransGen.head one
    simpa [next] using more

end AstraCore.FifoQueue
