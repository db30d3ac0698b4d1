import Mathlib.Data.Multiset.Basic
import Pui.Configuration
import Pui.Counter
import Pui.Spool

/-!
# Counters in the node's store

The node's store keeps a checkpoint of each counter beside the usage queue.
-/

namespace Pui

open Guard Table

def maxDeploymentBytes : Nat := 2 ^ 25

def jsonChar (c : Char) : Nat :=
  if c ∈ ['"', '\\', '\x08', '\x0c', '\n', '\r', '\t'] then 2
  else if c.val < 0x20 ∨ c ∈ ['<', '>', '&', '\u2028', '\u2029'] then 6
  else c.utf8Size

def jsonText (s : String) : Nat := 2 + (s.toList.map jsonChar).sum

def jsonNumber (n : Int) : Nat := if n < 0 then 1 + (Nat.toDigits 10 n.natAbs).length else (Nat.toDigits 10 n.natAbs).length

def jsonObject (t : Table String Int) : Nat :=
  2 + (t.entries.length - 1) + (t.entries.map fun e => jsonText e.1 + 1 + jsonNumber e.2).sum

namespace Counter

def jsonSize (c : Counter) : Nat :=
  38 + jsonText c.epoch + (if c.primed then 4 else 5) + jsonObject c.last + jsonObject c.absent

def same (a b : Counter) : Bool :=
  a.epoch = b.epoch && a.primed = b.primed && decide (a.last.entries.Perm b.last.entries) &&
    decide (a.absent.entries.Perm b.absent.entries)

def encodeCheckpoint (c : Counter) : Except NodeError Counter := do
  let counter ← c.fromCheckpoint
  refuse (counter.jsonSize > maxDeploymentBytes) .counterCheckpoint
  return counter

theorem encodeCheckpoint_eq_ok {c d : Counter} :
    c.encodeCheckpoint = .ok d ↔ c.Valid ∧ c.jsonSize ≤ maxDeploymentBytes ∧ c = d := by
  simp only [encodeCheckpoint, bind_eq_ok, fromCheckpoint_eq_ok, refuse_eq_ok, pure_eq_ok, Nat.not_lt, gt_iff_lt]
  constructor
  · rintro ⟨_, ⟨hv, rfl⟩, -, hsize, rfl⟩
    exact ⟨hv, hsize, rfl⟩
  · rintro ⟨hv, hsize, rfl⟩
    exact ⟨c, ⟨hv, rfl⟩, (), hsize, rfl⟩

end Counter

structure MeterDelta where
  identity : UsageCheckpoint
  uploaded : Nat
  downloaded : Nat
  deriving DecidableEq

def validCounterSource (source : String) : Bool :=
  source != "" && source.utf8ByteSize ≤ 128 && !source.toList.contains '\x00'

structure CounterStore where
  usage : UsageStore
  counters : Table String Counter := ∅
  digests : Table String Digest := ∅

def MeterDelta.digested (d : MeterDelta) : UsageCheckpoint :=
  { d.identity with uploaded := d.uploaded, downloaded := d.downloaded, observedUnixMilli := 1 }

def MeterDelta.check (d : MeterDelta) : Except NodeError Unit := do
  let _ ← d.identity.meterKey
  refuse (d.identity.uploaded ≠ 0 ∨ d.identity.downloaded ≠ 0) .usage

def deltaDigest (sha256 : Multiset UsageCheckpoint → Digest) (deltas : List MeterDelta) : Except NodeError Digest := do
  deltas.forM MeterDelta.check
  let checkpoints := deltas.map MeterDelta.digested
  refuse (¬(checkpoints.map UsageCheckpoint.meter).Nodup) .usage
  refuse ((⟨"", "", 0, checkpoints⟩ : UsageBatch).size > maxDeploymentBytes) .usage
  return sha256 checkpoints

namespace CounterStore

def cumulative (s : UsageStore) (d : MeterDelta) : Except NodeError UsageCheckpoint := do
  let key ← d.identity.meterKey
  refuse (d.identity.uploaded ≠ 0 ∨ d.identity.downloaded ≠ 0) .usage
  let (uploaded, downloaded) := match s.meters.get? key with
    | some previous => (previous.uploaded, previous.downloaded)
    | none => (d.identity.uploaded, d.identity.downloaded)
  refuse (d.uploaded > maxUint64 - uploaded ∨ d.downloaded > maxUint64 - downloaded) .usage
  return { d.identity with uploaded := uploaded + d.uploaded, downloaded := downloaded + d.downloaded }

def slices (n : Nat) (cs : List UsageCheckpoint) : List (List UsageCheckpoint) :=
  (List.range ((cs.length + (n - 1)) / n)).map fun i => (cs.drop (n * i)).take n

def appendSlices (cs : List UsageCheckpoint) (s : UsageStore) : Except NodeError UsageStore :=
  (slices 1024 cs).foldlM (fun s cs => s.appendUsage cs) s

def prepareCommit (sha256 : Multiset UsageCheckpoint → Digest) (source : String) (previous checkpoint : Counter)
    (deltas : List MeterDelta) (s : CounterStore) : Except NodeError (Option (List UsageCheckpoint × Digest)) := do
  refuse (!validCounterSource source ∨ deltas.length > 131072) .counterCheckpoint
  let before ← previous.encodeCheckpoint
  let encoded ← checkpoint.encodeCheckpoint
  let digest ← deltaDigest sha256 deltas
  let current := (s.counters.get? source).getD {}
  if current.same encoded then do
    refuse (deltas ≠ [] ∧ s.digests.get? source ≠ some digest) .counterCheckpoint
    return none
  else do
    refuse (!current.same before) .counterCheckpoint
    let checkpoints ← deltas.mapM (cumulative s.usage)
    return some (checkpoints, digest)

def commitCounterUsage (sha256 : Multiset UsageCheckpoint → Digest) (source : String) (previous checkpoint : Counter)
    (deltas : List MeterDelta) (s : CounterStore) : Except NodeError CounterStore := do
  match ← prepareCommit sha256 source previous checkpoint deltas s with
  | none => return s
  | some (checkpoints, digest) =>
    let usage ← appendSlices checkpoints s.usage
    return ⟨usage, s.counters.put source checkpoint, s.digests.put source digest⟩

def loadCounter (source : String) (s : CounterStore) : Except NodeError Counter := do
  refuse (!validCounterSource source) .counterCheckpoint
  ((s.counters.get? source).getD {}).fromCheckpoint

def openStore (nodeID installationID : String) : Except NodeError CounterStore := do
  refuse (!validID nodeID ∨ !validID installationID) .identity
  return ⟨{ nodeID := nodeID, installationID := installationID }, ∅, ∅⟩

inductive UsageOp where
  | append (checkpoints : List UsageCheckpoint)
  | commit (source : String) (previous checkpoint : Counter) (deltas : List MeterDelta)
  | pending (limit : Nat)
  | acknowledge (receipt : UsageReceipt)

namespace UsageOp

def run (sha256 : Multiset UsageCheckpoint → Digest) : UsageOp → CounterStore → Except NodeError CounterStore
  | append checkpoints, s => do
    let usage ← s.usage.appendUsage checkpoints
    return { s with usage := usage }
  | commit source previous checkpoint deltas, s => commitCounterUsage sha256 source previous checkpoint deltas s
  | pending limit, s => do
    let (_, usage) ← s.usage.pendingUsage limit
    return { s with usage := usage }
  | acknowledge receipt, s => do
    let usage ← s.usage.acknowledge receipt
    return { s with usage := usage }

def step (sha256 : Multiset UsageCheckpoint → Digest) (s : CounterStore) (op : UsageOp) : CounterStore :=
  match op.run sha256 s with
  | .ok s' => s'
  | .error _ => s

end UsageOp

def after (sha256 : Multiset UsageCheckpoint → Digest) (s : CounterStore) (ops : List UsageOp) : CounterStore :=
  Run.after (UsageOp.step sha256) s ops

end CounterStore

end Pui
