import Mathlib.Data.List.Sort
import Pui.Latest
import Pui.Rows
import Pui.Usage

/-!
# The usage queue of a node

A node appends the cumulative readings of its meters to a durable queue of numbered batches.
-/

namespace Pui

open Guard Table

structure MeterKey where
  grantID : String
  clientID : String
  termID : String
  meterID : String
  meterIncarnation : String
  deriving DecidableEq

def UsageCheckpoint.meter (c : UsageCheckpoint) : MeterKey :=
  ⟨c.grantID, c.clientID, c.termID, c.meterID, c.meterIncarnation⟩

def UsageCheckpoint.reading (c : UsageCheckpoint) : Nat × Nat := (c.uploaded, c.downloaded)

def maxBatchBytes : Nat := 2 ^ 20

def maxSpoolBytes : Nat := 2 ^ 26

def UsageCheckpoint.meterKey (c : UsageCheckpoint) : Except NodeError MeterKey := do
  refuse (!validID c.grantID ∨ !validID c.clientID ∨ !validID c.termID ∨ !validID c.meterIncarnation ∨ c.meterID = "" ∨
    c.meterID.utf8ByteSize > 128 ∨ c.observedUnixMilli ≤ 0 ∨ c.size > 4096) .usage
  return c.meter

structure UsageStore where
  nodeID : String
  installationID : String
  meters : Table MeterKey UsageCheckpoint := ∅
  queue : Table Nat UsageBatch := ∅
  sequence : Nat := 0
  index : Table MeterKey Nat := ∅
  exposedUsage : Nat := 0
  durableUsage : Nat := 0
  accountedUsage : Nat := 0
  spooledBytes : Nat := 0

structure UsageEdit where
  batch : UsageBatch
  size : Nat
  previousBytes : Nat
  deriving DecidableEq

structure UsageEdits where
  edits : Table Nat UsageEdit
  index : Table MeterKey Nat
  sequence : Nat

def checkpointSize (c : UsageCheckpoint) : Nat := sizeBytes c.size

def replaceCheckpoint (c : UsageCheckpoint) : List UsageCheckpoint → Option (UsageCheckpoint × List UsageCheckpoint)
  | [] => none
  | d :: ds =>
    if d.meter = c.meter then some (d, c :: ds)
    else (replaceCheckpoint c ds).map fun (old, ds) => (old, d :: ds)

namespace UsageStore

def checkBatch : List UsageCheckpoint → Except NodeError Unit
  | [] => .ok ()
  | c :: cs => do
    let k ← c.meterKey
    refuse (cs.any fun d => d.meter = k) .usage
    checkBatch cs

def load (s : UsageStore) (w : UsageEdits) (sequence : Nat) : Except NodeError UsageEdit :=
  match w.edits.get? sequence with
  | some edit => .ok edit
  | none => do
    let batch ← found (s.queue.get? sequence) .usage
    refuse (batch.sequence ≠ sequence ∨ batch.nodeID ≠ s.nodeID ∨ batch.installationID ≠ s.installationID) .identity
    checkBatch batch.checkpoints
    return ⟨batch, batch.size, batch.size⟩

def newBatch (s : UsageStore) (w : UsageEdits) : Except NodeError (UsageEdit × UsageEdits) := do
  refuse (w.sequence = maxUint64) .usage
  let batch : UsageBatch := ⟨s.nodeID, s.installationID, w.sequence + 1, []⟩
  return (⟨batch, batch.size, 0⟩, { w with sequence := w.sequence + 1 })

def tailBatch (s : UsageStore) (c : UsageCheckpoint) (w : UsageEdits) : Except NodeError (UsageEdit × UsageEdits) :=
  if w.sequence > s.exposedUsage then do
    let tail ← s.load w w.sequence
    if tail.batch.checkpoints.length ≥ 4096 ∨ tail.size + checkpointSize c > maxBatchBytes / 2 then
      s.newBatch { w with edits := w.edits.put w.sequence tail }
    else return (tail, w)
  else s.newBatch w

def replaceUsage (s : UsageStore) (c : UsageCheckpoint) (previous : Nat) (w : UsageEdits) : Except NodeError UsageEdits := do
  let edit ← s.load w previous
  let (old, checkpoints) ← found (replaceCheckpoint c edit.batch.checkpoints) .usage
  let size := edit.size + checkpointSize c - checkpointSize old
  refuse (size > maxBatchBytes) .usage
  let edit := { edit with batch := { edit.batch with checkpoints := checkpoints }, size := size }
  return { w with edits := w.edits.put previous edit }

def appendTail (s : UsageStore) (c : UsageCheckpoint) (w : UsageEdits) : Except NodeError UsageEdits := do
  let (tail, w) ← s.tailBatch c w
  let edit := { tail with
    batch := { tail.batch with checkpoints := tail.batch.checkpoints ++ [c] }, size := tail.size + checkpointSize c }
  return { w with edits := w.edits.put tail.batch.sequence edit, index := w.index.put c.meter tail.batch.sequence }

def queueCheckpoint (s : UsageStore) (c : UsageCheckpoint) (w : UsageEdits) : Except NodeError UsageEdits := do
  let meter ← c.meterKey
  if (w.index.get? meter).getD 0 > s.exposedUsage then s.replaceUsage c ((w.index.get? meter).getD 0) w
  else s.appendTail c w

def queueCheckpoints (s : UsageStore) : List UsageCheckpoint → UsageEdits → Except NodeError UsageEdits
  | [], w => .ok w
  | c :: cs, w => do
    let w ← s.queueCheckpoint c w
    queueCheckpoints s cs w

/-- Queue the checkpoints, within the bounds on a batch and on the queue. -/
def queueUsage (s : UsageStore) (checkpoints : List UsageCheckpoint) : Except NodeError UsageStore := do
  let w ← s.queueCheckpoints checkpoints ⟨∅, s.index, s.sequence⟩
  refuse (s.spooledBytes > maxSpoolBytes) .spoolFull
  refuse (w.edits.entries.any fun e => e.2.batch.size > maxBatchBytes) .usage
  let replaced := w.edits.total fun _ e => e.previousBytes
  let added := w.edits.total fun _ e => e.batch.size
  refuse (replaced > s.spooledBytes) .usage
  refuse (added > maxSpoolBytes - (s.spooledBytes - replaced)) .spoolFull
  return { s with
    queue := s.queue.overlay (w.edits.mapRows fun _ e => e.batch)
    index := w.index
    sequence := w.sequence
    spooledBytes := s.spooledBytes - replaced + added }

def readMeters : List UsageCheckpoint → List MeterKey → Table MeterKey UsageCheckpoint →
    Except NodeError (Table MeterKey UsageCheckpoint)
  | [], _, meters => .ok meters
  | c :: cs, seen, meters => do
    let k ← c.meterKey
    refuse (k ∈ seen) .usage
    refuse ((meters.get? k).any fun old => c.uploaded < old.uploaded || c.downloaded < old.downloaded) .usage
    readMeters cs (k :: seen) (meters.put k c)

def appendUsage (checkpoints : List UsageCheckpoint) (s : UsageStore) : Except NodeError UsageStore := do
  refuse (checkpoints = [] ∨ checkpoints.length > 4096 ∨
    (⟨s.nodeID, s.installationID, 0, checkpoints⟩ : UsageBatch).size > maxBatchBytes - 16) .usage
  let meters ← readMeters checkpoints [] s.meters
  queueUsage { s with meters := meters } checkpoints

def numbers (s : UsageStore) : List Nat := s.queue.keys.mergeSort fun a b => decide (a ≤ b)

def readQueue (s : UsageStore) : List Nat → Except NodeError (List UsageBatch)
  | [] => .ok []
  | n :: ns => do
    let b ← found (s.queue.get? n) .usage
    refuse (b.sequence ≠ n ∨ b.nodeID ≠ s.nodeID ∨ b.installationID ≠ s.installationID) .usage
    let bs ← s.readQueue ns
    return b :: bs

def pendingUsage (limit : Nat) (s : UsageStore) : Except NodeError (List UsageBatch × UsageStore) := do
  refuse (limit < 1 ∨ limit > 128) .usage
  let batches ← s.readQueue (s.numbers.take limit)
  match batches.getLast? with
  | none => return ([], s)
  | some last => return (batches, { s with exposedUsage := max s.exposedUsage last.sequence })

def acknowledge (r : UsageReceipt) (s : UsageStore) : Except NodeError UsageStore := do
  refuse (r.accountedSequence > r.durableSequence) .usage
  refuse (r.durableSequence > s.sequence) .usage
  refuse (r.durableSequence > s.exposedUsage) .usage
  let durable := max r.durableSequence s.durableUsage
  let accounted := max r.accountedSequence s.accountedUsage
  let reclaimed := (s.queue.keep fun n _ => n ≤ durable).total fun _ b => b.size
  refuse (reclaimed > s.spooledBytes) .usage
  return { s with
    queue := s.queue.keep fun n _ => !(n ≤ durable)
    spooledBytes := s.spooledBytes - reclaimed
    durableUsage := durable
    accountedUsage := accounted }

end UsageStore

end Pui
