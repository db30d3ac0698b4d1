import Mathlib.Algebra.Ring.Nat
import Pui.Limits

/-!
# Usage messages

What a node tells the control plane about forwarded bytes.
-/

namespace Pui

structure UsageCheckpoint where
  clientID : String
  termID : String
  meterID : String
  meterIncarnation : String
  uploaded : Nat
  downloaded : Nat
  observedUnixMilli : Int
  grantID : String
  deriving DecidableEq

structure UsageBatch where
  nodeID : String
  installationID : String
  sequence : Nat
  checkpoints : List UsageCheckpoint
  deriving DecidableEq

structure UsageReceipt where
  durableSequence : Nat
  accountedSequence : Nat
  deriving DecidableEq

def UsageCheckpoint.key (c : UsageCheckpoint) : String × String × String := (c.grantID, c.meterID, c.meterIncarnation)

def sizeVarint (n : Nat) : Nat := 1 + n.log2 / 7

def sizeBytes (n : Nat) : Nat := 1 + sizeVarint n + n

def sizeString (s : String) : Nat := if s = "" then 0 else sizeBytes s.utf8ByteSize

def sizeUint64 (n : Nat) : Nat := if n = 0 then 0 else 1 + sizeVarint n

def sizeInt64 (n : Int) : Nat := if n < 0 then 11 else sizeUint64 n.toNat

def UsageCheckpoint.size (c : UsageCheckpoint) : Nat :=
  sizeString c.clientID + sizeString c.termID + sizeString c.meterID + sizeString c.meterIncarnation +
    sizeUint64 c.uploaded + sizeUint64 c.downloaded + sizeInt64 c.observedUnixMilli + sizeString c.grantID

def UsageBatch.size (b : UsageBatch) : Nat :=
  sizeString b.nodeID + sizeString b.installationID + sizeUint64 b.sequence +
    (b.checkpoints.map fun c => sizeBytes c.size).sum

end Pui
