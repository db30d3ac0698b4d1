import Pui.Fleet

/-!
# Requests to the control plane

The requests that carry an operation id.
-/

namespace Pui

structure ReserveRequest where
  operationID : String
  grantID : String
  nodeID : String
  installationID : String
  runtimeID : String
  clientID : String
  termID : String
  budgetIDs : List String
  bytes : Int
  unlimited : Bool
  deriving DecidableEq

structure ClientCreditRequest where
  operationID : String
  placementID : String
  expectedPlacementRevision : Nat
  expectedRevision : Nat
  expectedCredentialGeneration : Nat
  termID : String
  sourcePolicyDigest : Digest
  parentBudgetIDs : List String
  parentLimitBytes : Table String Int
  bytes : Int
  authorityCeiling : Int
  allowPartial : Bool

structure TermSpec where
  quotaBytes : Int
  unlimited : Bool
  openingUsedBytes : Int
  openingUploaded : Int
  openingDownloaded : Int
  durationMillis : Int
  expiresUnixMilli : Int
  rates : Rates
  deriving DecidableEq

structure TransitionRequest where
  operationID : String
  clientID : String
  expectedRevision : Nat
  expectedCredentialGeneration : Nat
  expectedTermID : String
  sourcePolicyDigest : Digest
  kind : TermKind
  spec : TermSpec
  deriving DecidableEq

structure CompleteTransitionRequest where
  operationID : String
  clientID : String
  pendingTermID : String
  expectedRevision : Nat
  expectedCredentialGeneration : Nat
  sourcePolicyDigest : Digest
  deriving DecidableEq

structure CancelTransitionRequest where
  operationID : String
  clientID : String
  pendingTermID : String
  expectedRevision : Nat
  expectedCredentialGeneration : Nat
  deriving DecidableEq

structure RateRequest where
  operationID : String
  grantID : String
  budgetID : String
  nodeID : String
  installationID : String
  runtimeID : String
  desired : Rates
  deriving DecidableEq

structure StopConfigurationRequest where
  operationID : String
  expectedBaseRevision : Nat
  expectedBaseSHA256 : Digest
  grantIDs : List String
  deriving DecidableEq

structure Digests extends Hashes where
  reserve : ReserveRequest → Digest
  clientCredit : ClientCreditRequest → Digest
  transition : TransitionRequest → Digest
  complete : CompleteTransitionRequest → Digest
  cancel : CancelTransitionRequest → Digest
  rateShare : RateRequest → Digest
  stopConfiguration : String → String → StopConfigurationRequest → Digest
  batch : UsageBatch → Digest

end Pui
