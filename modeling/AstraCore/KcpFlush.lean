import AstraCore.FirstServed
import AstraCore.KcpSending

namespace AstraCore.KcpFlush
open KcpSegment KcpSending FirstServed

def isDue (current : UInt32) (seg : DataSegment) : Bool := !decide (current - seg.timeout ≥ 0x7FFFFFFF)

def resend (current rto : UInt32) (seg : DataSegment) : DataSegment :=
  {seg with timeout := current + rto,timestamp := current,transmit := seg.transmit + 1}

theorem resend_changes (current rto seg) : resend current rto seg ≠ seg := by
  intro same
  have counted := congrArg (fun seg : DataSegment => seg.transmit.toNat) same
  change (seg.transmit.toNat + 1) % 2^32 = seg.transmit.toNat at counted
  omega

-- How many more the loop sends when it has sent `inFlight`. One goes out before the limit is looked at.
def allowance (maxInFlightSize inFlight : UInt32) : Nat := max 1 (maxInFlightSize.toNat - inFlight.toNat)

theorem next_toNat (room : n.toNat + 1 < 2^32) : (n + 1 : UInt32).toNat = n.toNat + 1 := by
  exact Nat.mod_eq_of_lt room

def Going (limit inFlight : UInt32) : Prop := inFlight = 0 ∨ inFlight < limit

section
variable (going : Going limit inFlight)
include going

theorem going_room : inFlight.toNat + 1 < 2^32 := by
  rcases going with rfl | less
  · decide
  · have smaller := UInt32.lt_iff_toNat_lt.mp less
    have bounded := limit.toNat_lt
    omega

theorem allowance_last (reached : inFlight + 1 ≥ limit) : allowance limit inFlight = 1 := by
  have least := UInt32.le_iff_toNat_le.mp reached
  rw [next_toNat (going_room going)] at least
  rw [allowance]
  omega

theorem allowance_more (below : ¬ inFlight + 1 ≥ limit) : Going limit (inFlight + 1) ∧ allowance limit inFlight = allowance limit (inFlight + 1) + 1 := by
  have less := mt UInt32.le_iff_toNat_le.mpr below
  have next := next_toNat (going_room going)
  refine ⟨.inr (UInt32.lt_iff_toNat_lt.mpr (Nat.lt_of_not_le less)),?_⟩
  rw [allowance,allowance]
  omega

end

theorem allowance_positive (limit inFlight) : ∃ k, allowance limit inFlight = k + 1 :=
  Nat.exists_eq_succ_of_ne_zero (by rw [allowance]; omega)

theorem flushCache_serves (current rto) (cache) (going : Going limit inFlight) (total) :
    (flushCache current rto limit cache inFlight total).cache = serve (isDue current) (resend current rto) (allowance limit inFlight) cache ∧
      (flushCache current rto limit cache inFlight total).sent = (served (isDue current) (allowance limit inFlight) cache).map (resend current rto) := by
  induction cache generalizing inFlight total with
  | nil =>
    rw [serve_nil]
    exact ⟨rfl,by simp [flushCache,served]⟩
  | cons seg rest ih =>
    obtain ⟨k,positive⟩ := allowance_positive limit inFlight
    rw [flushCache,positive]
    dsimp only
    split
    · rename_i later
      have skipped : isDue current seg = false := by simp [isDue,later]
      obtain ⟨cache,sent⟩ := ih going total
      rw [positive] at cache sent
      rw [serve_skips skipped,served_skips skipped,cache,sent]
      exact ⟨rfl,rfl⟩
    · rename_i here
      have due : isDue current seg = true := by simp [isDue,here]
      rw [serve_due due,served_due due]
      split
      · rename_i reached
        have one := allowance_last going reached
        obtain rfl : k = 0 := by omega
        rw [serve_zero]
        exact ⟨rfl,by simp [served,resend]⟩
      · rename_i below
        obtain ⟨still,more⟩ := allowance_more going below
        obtain ⟨cache,sent⟩ := ih still (if seg.transmit = 0 then total + 1 else total)
        obtain rfl : k = allowance limit (inFlight + 1) := by omega
        rw [cache,sent]
        exact ⟨rfl,rfl⟩

theorem window_flush (window : SendingWindow) (current rto limit) :
    (window.flush current rto limit).1.cache = serve (isDue current) (resend current rto) (allowance limit 0) window.cache ∧
      (window.flush current rto limit).2 = (served (isDue current) (allowance limit 0) window.cache).map (resend current rto) := by
  rw [SendingWindow.flush]
  split
  · rename_i empty
    have none : window.cache = [] := by simpa [SendingWindow.isEmpty] using empty
    rw [none,serve_nil,served_nil]
    exact ⟨rfl,rfl⟩
  · exact flushCache_serves current rto window.cache (.inl rfl) window.totalInFlightSize

end AstraCore.KcpFlush
