import Rsx.Matching.Wire

/-!
# The dedup window

`dedup.rs`: the order keys accepted within the last hour.  Instants are nanoseconds since the host
booted, so an instant before the boot cannot be named.
-/

namespace Rsx.Matching

open Function

def dedupWindow : Nat := 3600000000000

def dedupCleanupInterval : Nat := 10000000000

structure DedupTracker where
  seen : OrderKey → Bool := fun _ => false
  pruningQueue : List (OrderKey × Nat) := []
  lastCleanup : Nat := 0
  now : Nat := 0

namespace DedupTracker

def refreshClock (d : DedupTracker) (now : Nat) : DedupTracker :=
  { d with now := now }

def checkAndInsert (d : DedupTracker) (key : OrderKey) : Bool × DedupTracker :=
  if d.seen key then (true, d)
  else
    (false, { d with
      seen := update d.seen key true
      pruningQueue := d.pruningQueue ++ [(key, d.now)] })

/-- `seed`: a key that was inserted `insertedAgo` before the instant `sampled`. -/
def seed (d : DedupTracker) (sampled : Nat) (key : OrderKey) (insertedAgo : Nat) : DedupTracker :=
  if dedupWindow ≤ insertedAgo then d
  else if d.seen key then d
  else
    let insertedAt := if insertedAgo ≤ sampled then sampled - insertedAgo else sampled
    { d with
      seen := update d.seen key true
      pruningQueue := d.pruningQueue ++ [(key, insertedAt)] }

def evictFrom (cutoff : Nat) : List (OrderKey × Nat) → (OrderKey → Bool) →
    List (OrderKey × Nat) × (OrderKey → Bool)
  | [], seen => ([], seen)
  | (key, ts) :: queue, seen =>
    if cutoff ≤ ts then ((key, ts) :: queue, seen)
    else evictFrom cutoff queue (update seen key false)

def evict (d : DedupTracker) (cutoff : Nat) : DedupTracker :=
  let (queue, seen) := evictFrom cutoff d.pruningQueue d.seen
  { d with pruningQueue := queue, seen := seen }

def maybeCleanup (d : DedupTracker) : DedupTracker :=
  if d.now - d.lastCleanup < dedupCleanupInterval then d
  else
    let d := if dedupWindow ≤ d.now then d.evict (d.now - dedupWindow) else d
    { d with lastCleanup := d.now }

end DedupTracker

end Rsx.Matching
