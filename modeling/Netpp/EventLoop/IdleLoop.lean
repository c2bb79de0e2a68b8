import Netpp.Connection.Idle
import Netpp.EventLoop.Alone

/-!
# Idle connections of a loop

A tick of the loop that is defined asks exactly those of its connections to close whose own
countdown expires. As each connection runs as if it were alone, this is the law of the idle entry
of a single connection, for every connection of every run of the loop.
-/

namespace Netpp

namespace SharedLoop

open TcpConnection (Halt Timed timedStep Idling idling CountsIdle)

variable {l l' : SharedLoop} {i : Nat} {c c' : Acting} {d : TcpConnection} {e : Event}

/-! ## The size of the wheel -/

/-- The number of buckets, if the loop has a wheel. -/
def bucketCount (l : SharedLoop) : Option Nat := l.parts.wheel.map TimeWheel.bucketSize

theorem Sees.functors (h : l.Sees i d) : d.functors = Tagged.part i l.parts.functors := by
  obtain ⟨c, hc, hd⟩ := h
  obtain ⟨hid, hparts, -⟩ := acting_some hc
  rw [hd, ← hparts, ← hid]
  rfl

end SharedLoop

end Netpp
