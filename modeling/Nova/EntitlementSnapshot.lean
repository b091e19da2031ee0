-- The snapshot that the API captures for a run
-- (api/agent-runs/entitlement-snapshot.ts), from the roles and permissions of the
-- caller and the registry in force. The laws say that a snapshot pins its own hash
-- and that both Node and Python find the whole seconds in it that were hashed.
import Nova.AgentRun

namespace nova.entitlement_snapshot

open nova.agent_run

/-! ## The capture -/

structure EntitlementSnapshot where
  ownerSubject : String
  ownerUserId : String
  roles : List String
  permissions : List String
  capabilityAllowlist : List String
  snapshotHash : String
  issuedAt : Int
  expiresAt : Int
deriving DecidableEq

structure BuildEntitlementSnapshotInput where
  ownerSubject : String
  ownerUserId : String
  roles : List String
  permissions : List String
  resolveCapabilityAllowlist : List String → List String
  ttlSeconds : Nat
  /-- Milliseconds since the epoch. -/
  now : Int

def issuedAtEpochS (input : BuildEntitlementSnapshotInput) : Int := input.now / 1000

def expiresAtEpochS (input : BuildEntitlementSnapshotInput) : Int :=
  issuedAtEpochS input + input.ttlSeconds

/-- The payload of the hash, over lists that are sorted and unique already. -/
def builtPayload (input : BuildEntitlementSnapshotInput) : SnapshotHashPayload :=
  ⟨input.ownerSubject, sortedUnique input.roles, sortedUnique input.permissions,
    sortedUnique (input.resolveCapabilityAllowlist input.permissions), issuedAtEpochS input,
    expiresAtEpochS input⟩

def buildEntitlementSnapshot (sha256 : Digest) (input : BuildEntitlementSnapshotInput) :
    EntitlementSnapshot where
  ownerSubject := input.ownerSubject
  ownerUserId := input.ownerUserId
  roles := sortedUnique input.roles
  permissions := sortedUnique input.permissions
  capabilityAllowlist := sortedUnique (input.resolveCapabilityAllowlist input.permissions)
  snapshotHash := computeSnapshotHash sha256 (builtPayload input)
  issuedAt := issuedAtEpochS input * 1000
  expiresAt := expiresAtEpochS input * 1000

/-- The row of `agent_run_entitlements` that `createRun` stores. -/
def EntitlementSnapshot.row (snapshot : EntitlementSnapshot) (id : String) : AgentRunEntitlement :=
  ⟨id, snapshot.ownerSubject, snapshot.ownerUserId, snapshot.roles, snapshot.permissions,
    snapshot.capabilityAllowlist, snapshot.snapshotHash, snapshot.issuedAt, snapshot.expiresAt⟩

/-! ## The laws -/

variable (sha256 : Digest) (input : BuildEntitlementSnapshotInput) (id : String)

theorem payloadOf_row :
    payloadOf ((buildEntitlementSnapshot sha256 input).row id) = builtPayload input := by
  unfold payloadOf EntitlementSnapshot.row buildEntitlementSnapshot builtPayload
  simp

theorem payload_of_row :
    payload_of ((buildEntitlementSnapshot sha256 input).row id) = builtPayload input := by
  unfold payload_of EntitlementSnapshot.row buildEntitlementSnapshot builtPayload
  simp [Int.mul_tdiv_cancel]

/-- The API finds in the row the hash that it pinned. -/
theorem computeSnapshotHash_row :
    computeSnapshotHash sha256 (payloadOf ((buildEntitlementSnapshot sha256 input).row id)) =
      ((buildEntitlementSnapshot sha256 input).row id).snapshotHash := by
  rw [payloadOf_row]
  rfl

end nova.entitlement_snapshot
