import Pui.Json
import Pui.Table

/-!
# Compiling routing rules

Operator intent is a list of rules: each names the inbounds it is about, criteria and a destination.
-/

namespace Pui

open Table

namespace Routing

abbrev Body := Table String Json

inductive DestKind where
  | outbound
  | balancer
  | exit
  | direct
  | block
  | other (kind : String)
  deriving DecidableEq

structure Dest where
  kind : DestKind
  tag : String := ""
  exitID : Int := 0
  deriving DecidableEq

inductive Scope where
  | selected
  | all
  | other (scope : String)
  deriving DecidableEq

structure IngressHandle where
  tag : String
  blockedKey : String := ""
  deriving DecidableEq

structure Subject where
  inboundID : Int
  tag : String
  handle : IngressHandle
  bridged : Bool := false
  criteriaMask : Option (List String) := none
  deriving DecidableEq

structure Rule where
  id : Int
  sortIndex : Int
  enable : Bool
  scope : Scope
  ingressIDs : List Int := []
  dest : Dest
  criteria : Body := ∅
  inspect : Bool := false

inductive ExitHandleKind where
  | none
  | device
  | socksPort
  | xrayOutbound
  | other (kind : String)
  deriving DecidableEq

inductive SourceOwner where
  | daemon
  | panel
  | other (owner : String)
  deriving DecidableEq

structure ExitHandle where
  device : String := ""
  socksPort : Int := 0
  xrayTag : String := ""
  source : SourceOwner := .daemon
  tcpOnly : Bool := false
  deriving DecidableEq

structure ResolvedExit where
  id : Int
  label : String
  kind : ExitHandleKind
  handle : ExitHandle
  contained : Bool := false
  deriving DecidableEq

structure FrontSpec where
  id : Int
  sniff : Bool
  deriving DecidableEq

structure Input where
  rules : List Rule
  subjects : List Subject
  exits : List ResolvedExit
  blackhole : String
  direct : String
  frontIDFor : Int → Option Int

inductive Pattern where
  | proxy
  | inspected
  | marked
  | inert
  deriving DecidableEq

inductive Severity where
  | ok
  | warn
  | inert
  | blocked
  deriving DecidableEq

structure Diag where
  ruleID : Int
  subjectTag : String
  pattern : Pattern
  severity : Severity
  messageKey : String := ""
  args : List (String × String) := []
  deriving DecidableEq

def keyNoFront : String := "pages.xray.routing.refuse.noFront"

def keyCriterionUnsupported : String := "pages.xray.routing.refuse.criterionUnsupported"

def keyExitMissing : String := "pages.xray.routing.refuse.exitMissing"

def keyNoExitDriver : String := "pages.xray.routing.refuse.noExitDriver"

def keyNoSnat : String := "pages.xray.routing.refuse.noSnat"

def keyNoDefaultOutbound : String := "pages.xray.routing.refuse.noDefaultOutbound"

def keyExitTCPOnly : String := "pages.xray.routing.refuse.exitTcpOnly"

def keyExitTCPNarrowed : String := "pages.xray.routing.warn.exitTcpNarrowed"

def keyExitContained : String := "pages.xray.routing.warn.exitContained"

structure FinalRule where
  action : String
  ip : List String := []
  deriving DecidableEq

inductive OutboundSettings where
  | blackhole
  | freedom (domainStrategy : String) (finalRules : List FinalRule) (mark : Nat)
  | socks (address : String) (port : Int)
  deriving DecidableEq

structure Outbound where
  tag : String
  settings : OutboundSettings
  deriving DecidableEq

def exitOutboundTag (id : Int) : String := "pex" ++ toString id

def synthBlockTag : String := "pexblock"

def blackholeOutbound (tag : String) : Outbound := ⟨tag, .blackhole⟩

def markedOutbound (tag : String) (mark : Nat) : Outbound :=
  ⟨tag, .freedom "AsIs" [⟨"block", ["geoip:private"]⟩, ⟨"allow", []⟩] mark⟩

def socksOutbound (tag : String) (port : Int) : Outbound := ⟨tag, .socks "127.0.0.1" port⟩

def egressMark (id : Int) : Nat := 0x0e000000 ||| (id % 2 ^ 32).toNat

def validEgressID (id : Int) : Bool := 1 ≤ id && id ≤ 999

def egressDevice (id : Int) : String := "peg" ++ toString id

def isSpace (c : Char) : Bool :=
  [0x09, 0x0a, 0x0b, 0x0c, 0x0d, 0x20, 0x85, 0xa0, 0x1680, 0x2028, 0x2029, 0x202f, 0x205f, 0x3000].contains c.toNat ||
    (0x2000 ≤ c.toNat && c.toNat ≤ 0x200a)

def trimSpace (s : List Char) : List Char := ((s.dropWhile isSpace).reverse.dropWhile isSpace).reverse

def networkParts (network : String) : List String :=
  (network.toList.splitOn ',').map fun part => String.ofList (trimSpace (part.map Char.toLower))

inductive NarrowResult where
  | silent
  | warned
  | refused
  deriving DecidableEq

def narrowToTCP (body : Body) : NarrowResult × Body :=
  let narrowed := body.put "network" (.string "tcp")
  let parsed (network : String) :=
    let hasTCP := (networkParts network).contains "tcp"
    let hasUDP := (networkParts network).contains "udp"
    if hasUDP && !hasTCP then (.refused, body)
    else if hasUDP then (.warned, narrowed)
    else (.silent, body)
  match body.get? "network" with
  | none => (.warned, narrowed)
  | some (.string network) => parsed network
  -- a null leaves the string empty
  | some .null => parsed ""
  | some _ => (.warned, narrowed)

def forbiddenCriterion (rule : Rule) (subject : Subject) : Option String :=
  match subject.criteriaMask with
  | none => none
  | some mask => (rule.criteria.keys.mergeSort fun a b => decide (a ≤ b)).find? fun key => !mask.contains key

def findExit (exits : List ResolvedExit) (id : Int) : Option ResolvedExit := exits.find? fun exit => exit.id = id

def blockDest (input : Input) (body : Body) : Body × Option Outbound :=
  if input.blackhole ≠ "" then (body.put "outboundTag" (.string input.blackhole), none)
  else (body.put "outboundTag" (.string synthBlockTag), some (blackholeOutbound synthBlockTag))

def Diag.refused (diag : Diag) (key : String) (args : List (String × String)) : Diag :=
  { diag with severity := .inert, pattern := .inert, messageKey := key, args := args }

def compileExit (exit : ResolvedExit) (input : Input) (body : Body) (diag : Diag) : Option Body × Diag × Option Outbound :=
  match exit.kind with
  | .xrayOutbound => (some (body.put "outboundTag" (.string exit.handle.xrayTag)), { diag with pattern := .proxy }, none)
  | .socksPort =>
    let name := exitOutboundTag exit.id
    let outbound := socksOutbound name exit.handle.socksPort
    if exit.handle.tcpOnly then
      match narrowToTCP body with
      | (.refused, _) => (none, diag.refused keyExitTCPOnly [("exit", exit.label)], none)
      | (.warned, body) => (some (body.put "outboundTag" (.string name)),
          { diag with severity := .warn, messageKey := keyExitTCPNarrowed, args := [("exit", exit.label)], pattern := .proxy }, some outbound)
      | (.silent, body) => (some (body.put "outboundTag" (.string name)), { diag with pattern := .proxy }, some outbound)
    else (some (body.put "outboundTag" (.string name)), { diag with pattern := .proxy }, some outbound)
  | .device =>
    if exit.handle.source = .panel ∨ exit.handle.device = "" then
      (none, diag.refused (if exit.handle.device = "" then keyNoExitDriver else keyNoSnat) [("exit", exit.label)], none)
    else if exit.contained then
      let (body, outbound) := blockDest input body
      (some body, { diag with severity := .warn, pattern := .marked, messageKey := keyExitContained, args := [("exit", exit.label)] },
        outbound)
    else
      let name := exitOutboundTag exit.id
      (some (body.put "outboundTag" (.string name)), { diag with pattern := .marked }, some (markedOutbound name (egressMark exit.id)))
  | _ => (none, diag.refused keyExitMissing [], none)

def compileRule (input : Input) (rule : Rule) (subject : Subject) (tag : String) (pattern : Pattern) :
    Option Body × Diag × Option Outbound :=
  let diag : Diag := { ruleID := rule.id, subjectTag := subject.tag, pattern := pattern, severity := .ok }
  match forbiddenCriterion rule subject with
  | some bad => (none, diag.refused keyCriterionUnsupported [("criterion", bad), ("subject", subject.tag)], none)
  | none =>
    let body := (rule.criteria.put "type" (.string "field")).put "inboundTag" (.strings [tag])
    match rule.dest.kind with
    | .outbound => (some (body.put "outboundTag" (.string rule.dest.tag)), diag, none)
    | .balancer => (some (body.put "balancerTag" (.string rule.dest.tag)), diag, none)
    | .direct =>
      if input.direct = "" then (none, diag.refused keyNoDefaultOutbound [("protocol", "freedom")], none)
      else (some (body.put "outboundTag" (.string input.direct)), diag, none)
    | .block =>
      let (body, outbound) := blockDest input body
      (some body, diag, outbound)
    | .exit =>
      match findExit input.exits rule.dest.exitID with
      | none => (none, diag.refused keyExitMissing [], none)
      | some exit => compileExit exit input body diag
    | .other _ => (none, diag.refused keyExitMissing [], none)

def udpCompanion (narrowed : Body) (blackhole : String) : Body :=
  (narrowed.put "network" (.string "udp")).put "outboundTag" (.string blackhole)

def guardRule (tag blackhole : String) : Body :=
  ((((∅ : Body).put "type" (.string "field")).put "inboundTag" (.strings [tag])).put "ip" (.strings ["geoip:private"])).put "outboundTag"
    (.string blackhole)

def payloadCriteria : List String := ["domain", "protocol", "attrs"]

def Rule.needsInspection (rule : Rule) : Bool := rule.inspect || rule.criteria.keys.any payloadCriteria.contains

def inspectedBy (rules : List Rule) (subject : Subject) : Bool :=
  rules.any fun rule => rule.enable && rule.needsInspection && (forbiddenCriterion rule subject).isNone

def groupRules (input : Input) : Table Int (List Rule) :=
  let rules := input.rules.mergeSort fun a b => decide (a.sortIndex ≤ b.sortIndex)
  rules.foldl (fun out rule =>
    if !rule.enable then out
    else
      let ids := if rule.scope = .all then input.subjects.map Subject.inboundID else rule.ingressIDs
      ids.foldl (fun out id => out.put id ((out.get? id).getD [] ++ [rule])) out) ∅

structure Compiled where
  xrayRules : List Body := []
  outbounds : List Outbound := []
  fronts : List FrontSpec := []
  inspectTags : List String := []
  diags : List Diag := []

structure Compiling where
  out : Compiled := {}
  emitted : List String := []

namespace Compiling

def emit (c : Compiling) (outbound : Outbound) : Compiling :=
  if outbound.tag ∈ c.emitted then c
  else { out := { c.out with outbounds := c.out.outbounds ++ [outbound] }, emitted := outbound.tag :: c.emitted }

def addRule (c : Compiling) (body : Body) : Compiling := { c with out := { c.out with xrayRules := c.out.xrayRules ++ [body] } }

def addDiag (c : Compiling) (diag : Diag) : Compiling := { c with out := { c.out with diags := c.out.diags ++ [diag] } }

def addFront (c : Compiling) (front : FrontSpec) : Compiling := { c with out := { c.out with fronts := c.out.fronts ++ [front] } }

def addInspectTag (c : Compiling) (tag : String) : Compiling :=
  { c with out := { c.out with inspectTags := c.out.inspectTags ++ [tag] } }

def blackholeTag (input : Input) (c : Compiling) : String × Compiling :=
  if input.blackhole ≠ "" then (input.blackhole, c) else (synthBlockTag, c.emit (blackholeOutbound synthBlockTag))

def planRule (input : Input) (subject : Subject) (tag : String) (pattern : Pattern) (c : Compiling) (rule : Rule) : Compiling :=
  let (xrayRule, diag, outbound) := compileRule input rule subject tag pattern
  let c := c.addDiag diag
  let c := xrayRule.elim c c.addRule
  let c := if diag.messageKey = keyExitTCPNarrowed then
      let (blackhole, c) := c.blackholeTag input
      c.addRule (udpCompanion (xrayRule.getD ∅) blackhole)
    else c
  outbound.elim c c.emit

def addGuard (input : Input) (tag : String) (c : Compiling) : Compiling :=
  let (blackhole, c) := c.blackholeTag input
  c.addRule (guardRule tag blackhole)

def planSubject (input : Input) (bySubject : Table Int (List Rule)) (c : Compiling) (subject : Subject) : Compiling :=
  let rules := (bySubject.get? subject.inboundID).getD []
  if rules = [] then c
  else if subject.handle.blockedKey ≠ "" then
    rules.foldl (fun c rule => c.addDiag ⟨rule.id, subject.tag, .inert, .blocked, subject.handle.blockedKey, []⟩) c
  else
    let c := if subject.handle.tag ≠ "" ∧ inspectedBy rules subject then c.addInspectTag subject.handle.tag else c
    if subject.handle.tag = "" then
      match (input.frontIDFor subject.inboundID).filter validEgressID with
      | none => rules.foldl (fun c rule => c.addDiag ⟨rule.id, subject.tag, .inert, .inert, keyNoFront, [("subject", subject.tag)]⟩) c
      | some frontID =>
        let c := c.addFront ⟨frontID, inspectedBy rules subject⟩
        let c := c.addGuard input (egressDevice frontID)
        rules.foldl (planRule input subject (egressDevice frontID) .inspected) c
    else
      let c := if subject.bridged then c.addGuard input subject.handle.tag else c
      rules.foldl (planRule input subject subject.handle.tag .proxy) c

end Compiling

def relaxScopeAll (input : Input) (out : Compiled) : Compiled :=
  let all := (input.rules.filter fun rule => rule.scope = .all).map Rule.id
  let compiled := (out.diags.filter fun diag => all.contains diag.ruleID && (diag.severity = .ok || diag.severity = .warn)).map Diag.ruleID
  let relax (diag : Diag) : Diag :=
    if compiled.contains diag.ruleID && (diag.severity = .inert || diag.severity = .blocked) then { diag with severity := .warn }
    else diag
  { out with diags := out.diags.map relax }

def sortSubjects (subjects : List Subject) : List Subject := subjects.mergeSort fun a b => decide (a.inboundID ≤ b.inboundID)

def plan (input : Input) : Compiled :=
  relaxScopeAll input ((sortSubjects input.subjects).foldl (Compiling.planSubject input (groupRules input)) {}).out

end Routing

end Pui
