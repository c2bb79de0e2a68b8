import Mathlib.Logic.Function.Basic
import Netpp.Buffer.BufferNode

/-!
# The time wheel

`TimeWheel` is a ring of buckets of entries. The wheel alone owns its entries, so
an entry outside all buckets has been destroyed, and a weak pointer to it has
expired. The definitions follow `src/internal/time/TimeWheel.cpp`; `ε` is the
type of the entries.
-/

namespace Netpp

structure TimeWheel (ε : Type*) where
  bucketSize : Nat
  timeOutBucketIndex : Nat
  buckets : List (List ε)
  indexInWheel : ε → Nat

namespace TimeWheel

variable {ε : Type*} [DecidableEq ε]

/-- Locking a weak pointer to the entry. -/
def lock (w : TimeWheel ε) (entry : ε) : Option ε :=
  if w.buckets.any fun bucket => bucket.contains entry then some entry else none

/-- The bucket that times out last. -/
def latestIndex (w : TimeWheel ε) : Nat :=
  if w.timeOutBucketIndex = 0 then w.bucketSize - 1 else w.timeOutBucketIndex - 1

def addToWheel (w : TimeWheel ε) (entry : ε) : TimeWheel ε :=
  if w.bucketSize ≠ 0 then
    -- add entry to latest bucket
    { w with
      indexInWheel := Function.update w.indexInWheel entry w.latestIndex
      buckets := w.buckets.modify w.latestIndex (List.insert entry) }
  else w

def removeFromWheel (w : TimeWheel ε) (entry : Option ε) : Except Fault (TimeWheel ε) :=
  match entry with
  | none => .ok w
  | some item =>
      match w.buckets[w.indexInWheel item]? with
      | none => .error .outOfRange
      | some _ =>
          .ok { w with
            buckets := w.buckets.modify (w.indexInWheel item) fun bucket => bucket.erase item }

/-- Erasing an entry that its bucket does not contain is undefined. -/
def renew (w : TimeWheel ε) (entry : Option ε) : Except Fault (TimeWheel ε) :=
  match entry with
  | none => .ok w
  | some item =>
      if w.bucketSize = 0 then .ok w
      else
        let index := w.indexInWheel item
        let nextIndex := if index + 1 = w.bucketSize then 0 else index + 1
        -- refresh only when index is not in latest bucket
        if nextIndex ≠ w.timeOutBucketIndex then
          match w.buckets[index]? with
          | none => .error .outOfRange
          | some bucket =>
              if item ∈ bucket then
                .ok { w with
                  indexInWheel := Function.update w.indexInWheel item w.latestIndex
                  buckets := (w.buckets.modify index fun bucket => bucket.erase item).modify
                    w.latestIndex (List.insert item) }
              else .error .badIterator
        else .ok w

end TimeWheel

end Netpp
