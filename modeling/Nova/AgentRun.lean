-- The run and its entitlement snapshot as both planes store them
-- (agents/agent-enums.ts, the AgentRun and AgentRunEntitlement entities), and
-- the hash that pins a snapshot (auth/entitlement-snapshot.ts and
-- nova_orchestrator/authz/snapshot.py).
import Mathlib.Data.List.Dedup
import Mathlib.Data.List.Lex
import Mathlib.Data.List.Sort
import Mathlib.Tactic.Common

namespace nova.agent_run

/-! ## The run -/

inductive AgentRunStatus where
  | queued
  | accepted
  | planning
  | running
  | waiting_for_agent
  | waiting_for_tool
  | waiting_for_input
  | retrying
  | partially_completed
  | completed
  | failed
  | canceled
  | expired
deriving DecidableEq

/-- Statuses from which no further work happens. -/
def TERMINAL_AGENT_RUN_STATUSES : List AgentRunStatus := [.completed, .failed, .canceled, .expired]

def AgentRunStatus.isTerminal (s : AgentRunStatus) : Bool := TERMINAL_AGENT_RUN_STATUSES.contains s

/-- The status as it stands in the text column. -/
def AgentRunStatus.text : AgentRunStatus → String
  | .queued => "queued"
  | .accepted => "accepted"
  | .planning => "planning"
  | .running => "running"
  | .waiting_for_agent => "waiting_for_agent"
  | .waiting_for_tool => "waiting_for_tool"
  | .waiting_for_input => "waiting_for_input"
  | .retrying => "retrying"
  | .partially_completed => "partially_completed"
  | .completed => "completed"
  | .failed => "failed"
  | .canceled => "canceled"
  | .expired => "expired"

/-- The columns of `agent_runs` that the code here reads or writes. -/
structure AgentRun where
  id : String
  ownerSubject : String
  ownerUserId : String
  conversationId : Option String
  status : AgentRunStatus
  promptRef : String
  responseRef : Option String
  entitlementSnapshotId : String
  cancelRequested : Bool
deriving DecidableEq

/-- The immutable snapshot; times are milliseconds since the epoch. -/
structure AgentRunEntitlement where
  id : String
  ownerSubject : String
  ownerUserId : String
  roles : List String
  permissions : List String
  capabilityAllowlist : List String
  snapshotHash : String
  issuedAt : Int
  expiresAt : Int
deriving DecidableEq

structure RunWithEntitlement where
  run : AgentRun
  entitlement : AgentRunEntitlement
deriving DecidableEq

/-! ## The hash of a snapshot -/

/-- The hex SHA-256 digest of the UTF-8 bytes of a text. -/
abbrev Digest := String → String

structure SnapshotHashPayload where
  ownerSubject : String
  roles : List String
  permissions : List String
  capabilityAllowlist : List String
  issuedAtEpochS : Int
  expiresAtEpochS : Int

def hexDigit (n : Nat) : Char := Char.ofNat (if n < 10 then 48 + n else 87 + n)

/-- A character inside a JSON string, as `JSON.stringify` and `json.dumps` write it. -/
def escapeChar (c : Char) : List Char :=
  if c = '"' then ['\\', '"']
  else if c = '\\' then ['\\', '\\']
  else if c.toNat = 8 then ['\\', 'b']
  else if c.toNat = 9 then ['\\', 't']
  else if c.toNat = 10 then ['\\', 'n']
  else if c.toNat = 12 then ['\\', 'f']
  else if c.toNat = 13 then ['\\', 'r']
  else if c.toNat < 32 then
    ['\\', 'u', '0', '0', hexDigit (c.toNat / 16), hexDigit (c.toNat % 16)]
  else [c]

def quote (s : String) : String :=
  "\"" ++ String.ofList (s.toList.flatMap escapeChar) ++ "\""

def quoteAll (values : List String) : String := "[" ++ ",".intercalate (values.map quote) ++ "]"

/-- The UTF-16 code units of a text, by which JavaScript sorts. -/
def utf16Units (s : String) : List Nat :=
  s.toList.flatMap fun c =>
    if c.toNat < 0x10000 then [c.toNat]
    else [0xD800 + (c.toNat - 0x10000) / 0x400, 0xDC00 + (c.toNat - 0x10000) % 0x400]

/-- The code points of a text, by which Python sorts. -/
def codePoints (s : String) : List Nat := s.toList.map Char.toNat

theorem codePoints_injective : Function.Injective codePoints := by
  intro s t h
  apply String.toList_inj.mp
  exact List.map_injective_iff.mpr (fun _ _ hc => Char.toNat_inj.mp hc) h

/-- Sorted ascending by a key and without duplicates. -/
def sortedUniqueBy (key : String → List Nat) (values : List String) : List String :=
  (values.dedup).insertionSort fun a b => key a ≤ key b

/-- `[...new Set(values)].sort()` -/
def sortedUnique (values : List String) : List String := sortedUniqueBy utf16Units values

/-- `sorted(set(values))` -/
def sorted_unique (values : List String) : List String := sortedUniqueBy codePoints values

/-- The canonical form that both planes hash. -/
def canonicalWith (sort : List String → List String) (payload : SnapshotHashPayload) : String :=
  "\x7b\"ownerSubject\":" ++ quote payload.ownerSubject ++
    ",\"roles\":" ++ quoteAll (sort payload.roles) ++
    ",\"permissions\":" ++ quoteAll (sort payload.permissions) ++
    ",\"capabilityAllowlist\":" ++ quoteAll (sort payload.capabilityAllowlist) ++
    ",\"issuedAtEpochS\":" ++ toString payload.issuedAtEpochS ++
    ",\"expiresAtEpochS\":" ++ toString payload.expiresAtEpochS ++ "\x7d"

/-- `computeSnapshotHash` of the Node planes. -/
def computeSnapshotHash (sha256 : Digest) (payload : SnapshotHashPayload) : String :=
  "sha256:" ++ sha256 (canonicalWith sortedUnique payload)

/-- `compute_snapshot_hash` of the Python planes. -/
def compute_snapshot_hash (sha256 : Digest) (payload : SnapshotHashPayload) : String :=
  "sha256:" ++ sha256 (canonicalWith sorted_unique payload)

/-- The payload that the Node planes hash: `Math.floor(ms / 1000)`. -/
def payloadOf (entitlement : AgentRunEntitlement) : SnapshotHashPayload :=
  ⟨entitlement.ownerSubject, entitlement.roles, entitlement.permissions,
    entitlement.capabilityAllowlist, entitlement.issuedAt / 1000, entitlement.expiresAt / 1000⟩

/-- The payload that the Python planes hash: `int(value.timestamp())`. -/
def payload_of (entitlement : AgentRunEntitlement) : SnapshotHashPayload :=
  ⟨entitlement.ownerSubject, entitlement.roles, entitlement.permissions,
    entitlement.capabilityAllowlist, entitlement.issuedAt.tdiv 1000,
    entitlement.expiresAt.tdiv 1000⟩

/-! ## The verification of the worker -/

/-- `verify_snapshot`; the error is the text of the exception. -/
def verify_snapshot (sha256 : Digest) (entitlement : AgentRunEntitlement) (expected_hash : String)
    (now : Int) : Except String Unit :=
  let recomputed := compute_snapshot_hash sha256 (payload_of entitlement)
  if recomputed ≠ entitlement.snapshotHash then
    .error "snapshot hash does not match stored hash"
  else if recomputed ≠ expected_hash then
    .error "snapshot hash does not match the enqueued run hash"
  else if entitlement.expiresAt ≤ now then
    .error "entitlement snapshot has expired"
  else .ok ()

/-! ## The laws -/

theorem mem_sortedUniqueBy (key : String → List Nat) (values : List String) (v : String) :
    v ∈ sortedUniqueBy key values ↔ v ∈ values := by
  unfold sortedUniqueBy
  rw [List.mem_insertionSort, List.mem_dedup]

theorem sortedUniqueBy_nodup (key : String → List Nat) (values : List String) :
    (sortedUniqueBy key values).Nodup := by
  unfold sortedUniqueBy
  exact ((List.perm_insertionSort _ _).nodup_iff).mpr (List.nodup_dedup values)

theorem verify_snapshot_ok_iff (sha256 : Digest) (entitlement : AgentRunEntitlement)
    (expected_hash : String) (now : Int) :
    verify_snapshot sha256 entitlement expected_hash now = .ok () ↔
      compute_snapshot_hash sha256 (payload_of entitlement) = entitlement.snapshotHash ∧
        entitlement.snapshotHash = expected_hash ∧ now < entitlement.expiresAt := by
  unfold verify_snapshot
  simp only
  split
  · rename_i h
    simp [h]
  · rename_i h
    rw [not_ne_iff] at h
    rw [h]
    split
    · rename_i h2
      simp [h2]
    · rename_i h2
      rw [not_ne_iff] at h2
      split
      · rename_i h3
        simp [h2]
        omega
      · rename_i h3
        simp [h2]
        omega

end nova.agent_run
