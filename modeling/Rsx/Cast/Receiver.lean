import Mathlib

/-!
# The cast receiver

`cast.rs`: in-order delivery of a stream of UDP datagrams.  A record ahead of the expected sequence
number waits in a ring indexed by the number; a gap is requested again by NAKs, and a gap that stays
open, or a ring that overflows, ends in a sticky state that only a replay clears.  The clock is an
input of every datagram read; the socket is the list of datagrams that are ready.
-/

namespace Rsx.Cast

open Function

def reorderCapacity : Nat := 2048

def reorderFrameBytes : Nat := 256

def maxU16 : Nat := 65535

/-- A datagram after the length, header and checksum checks.  `discarded` failed one of them, is a
`Nak`, or has no sequence number; `total` is the length of the frame. -/
inductive Datagram (α : Type)
  | discarded
  | heartbeat (highestSeq : Nat)
  | data (seq total : Nat) (record : α)
  deriving Repr

structure Arrival (α : Type) where
  datagram : Datagram α
  nowNs : Nat
  deriving Repr

inductive CastRecvWith (α : Type)
  | empty
  | data (seq : Nat) (record : α)
  | faulted (lastDeliveredSeq gapStart gapEndInclusive : Nat)
  | reconnect (lastDeliveredSeq : Nat)
  deriving DecidableEq, Repr

/-- `naks` are the NAKs sent so far, as first sequence number and count. -/
structure CastReceiver (α : Type) where
  expectedSeq : Nat := 0
  highestSeen : Nat := 0
  faulted : Bool := false
  faultLastDeliveredSeq : Nat := 0
  faultGapStart : Nat := 0
  faultGapEndInclusive : Nat := 0
  needsReconnect : Bool := false
  reconnectLastDeliveredSeq : Nat := 0
  nakSentAt : Nat → Nat := fun _ => 0
  nakRetriesOnOldest : Nat := 0
  nakDebounceNs : Nat := 50000000
  maxNakRetries : Nat := 8
  reorderSeqs : Nat → Nat := fun _ => 0
  reorderFrames : Nat → Option α := fun _ => none
  naks : List (Nat × Nat) := []

namespace CastReceiver

variable {α : Type} (r : CastReceiver α)

def slotOf (seq : Nat) : Nat :=
  seq % reorderCapacity

def resetAfterReplay (newTip : Nat) : CastReceiver α :=
  { r with
    faulted := false
    faultLastDeliveredSeq := 0
    faultGapStart := 0
    faultGapEndInclusive := 0
    needsReconnect := false
    reconnectLastDeliveredSeq := 0
    nakRetriesOnOldest := 0
    expectedSeq := newTip + 1
    highestSeen := if r.highestSeen < newTip then newTip else r.highestSeen
    reorderSeqs := fun _ => 0
    nakSentAt := fun _ => 0 }

def fault (gapStart gapEndInclusive : Nat) : CastReceiver α :=
  if r.faulted then r
  else
    { r with
      faulted := true
      faultLastDeliveredSeq := r.expectedSeq - 1
      faultGapStart := gapStart
      faultGapEndInclusive := gapEndInclusive }

/-- `oldest_missing_run`: the first missing number and the length of the run that starts there. -/
def oldestMissingRun : Option (Nat × Nat) :=
  if r.expectedSeq = 0 ∨ r.highestSeen < r.expectedSeq then none
  else
    let start := r.expectedSeq
    let upper := min r.highestSeen (start + reorderCapacity)
    let stop := ((List.range' start (upper + 1 - start)).find? fun seq =>
      r.reorderSeqs (slotOf seq) = seq).getD (upper + 1)
    if stop = start then none else some (start, stop - start)

def maybeNak (nowNs : Nat) : CastReceiver α :=
  if r.faulted ∨ r.needsReconnect then r
  else
    match r.oldestMissingRun with
    | none => r
    | some (start, count) =>
      let last := r.nakSentAt (slotOf start)
      if last ≠ 0 ∧ nowNs - last < r.nakDebounceNs then r
      else
        let r := { r with
          naks := r.naks ++ [(start, count)]
          nakSentAt := update r.nakSentAt (slotOf start) nowNs
          nakRetriesOnOldest := min (r.nakRetriesOnOldest + 1) maxU16 }
        if r.maxNakRetries < r.nakRetriesOnOldest then r.fault start (start + count - 1) else r

def see (seq : Nat) : CastReceiver α :=
  { r with highestSeen := max r.highestSeen seq }

def faultedResult : CastRecvWith α :=
  .faulted r.faultLastDeliveredSeq r.faultGapStart r.faultGapEndInclusive

/-- Put a record into its ring slot; one that is too long for a frame is dropped. -/
def keep (seq total : Nat) (record : α) : CastReceiver α :=
  if total ≤ reorderFrameBytes then
    { r with
      reorderSeqs := update r.reorderSeqs (slotOf seq) seq
      reorderFrames := update r.reorderFrames (slotOf seq) (some record) }
  else r

/-- A record ahead of the expected one: keep it in the ring, unless its slot holds another one. -/
def buffer (seq total : Nat) (record : α) (nowNs : Nat) :
    CastReceiver α × Option (CastRecvWith α) :=
  let existing := r.reorderSeqs (slotOf seq)
  if total ≤ reorderFrameBytes ∧ existing ≠ 0 ∧ existing ≠ seq then
    let r :=
      if r.needsReconnect then r
      else { r with needsReconnect := true, reconnectLastDeliveredSeq := r.expectedSeq - 1 }
    (r, some (.reconnect r.reconnectLastDeliveredSeq))
  else
    let r := (r.keep seq total record).maybeNak nowNs
    (r, if r.faulted then some r.faultedResult else none)

/-- The first record starts the stream; one that trails by more than 100 is taken for a restart of
the sender. -/
def sync (seq : Nat) : CastReceiver α :=
  let r := if r.expectedSeq = 0 then { r with expectedSeq := seq } else r
  if seq < r.expectedSeq ∧ 100 < r.expectedSeq - seq then
    { r with reorderSeqs := fun _ => 0, expectedSeq := seq }
  else r

/-- A data record; `none` reads on. -/
def onData (seq total : Nat) (record : α) (nowNs : Nat) :
    CastReceiver α × Option (CastRecvWith α) :=
  if seq = 0 then (r, none)
  else
    let r := r.sync seq
    if seq < r.expectedSeq then (r, none)
    else
      let r := r.see seq
      if seq = r.expectedSeq then
        ({ r with
          expectedSeq := r.expectedSeq + 1
          nakRetriesOnOldest := 0
          nakSentAt := update r.nakSentAt (slotOf seq) 0 }, some (.data seq record))
      else r.buffer seq total record nowNs

def onDatagram (a : Arrival α) : CastReceiver α × Option (CastRecvWith α) :=
  match a.datagram with
  | .discarded => (r, none)
  | .heartbeat highestSeq => ((r.see highestSeq).maybeNak a.nowNs, none)
  | .data seq total record => r.onData seq total record a.nowNs

def drain : CastReceiver α × CastRecvWith α :=
  let slot := slotOf r.expectedSeq
  if r.expectedSeq ≠ 0 ∧ r.reorderSeqs slot = r.expectedSeq then
    match r.reorderFrames slot with
    | some record =>
      ({ r with
        reorderSeqs := update r.reorderSeqs slot 0
        nakSentAt := update r.nakSentAt slot 0
        expectedSeq := r.expectedSeq + 1
        nakRetriesOnOldest := 0 }, .data r.expectedSeq record)
    | none => (r, .empty)
  else (r, .empty)

/-- The receive loop: the receiver, the datagrams left in the socket, and the result. -/
def recvLoop : CastReceiver α → List (Arrival α) →
    CastReceiver α × List (Arrival α) × CastRecvWith α
  | r, [] => (r.drain.1, [], r.drain.2)
  | r, a :: socket =>
    match (r.onDatagram a).2 with
    | some result => ((r.onDatagram a).1, socket, result)
    | none => recvLoop (r.onDatagram a).1 socket

def tryRecvWith (socket : List (Arrival α)) : CastReceiver α × List (Arrival α) × CastRecvWith α :=
  if r.needsReconnect then (r, socket, .reconnect r.reconnectLastDeliveredSeq)
  else if r.faulted then (r, socket, r.faultedResult)
  else r.recvLoop socket

end CastReceiver

end Rsx.Cast
