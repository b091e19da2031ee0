-- The gate of the tool gateway beside the gate of the agent (auth/policy.py):
-- both read one policy and one snapshot, and the laws say where the gateway runs
-- a capability that the agent would not have allowed.
import Nova.ToolGateway

namespace nova.gateway_policy

open json_tree nova.agent_run nova.rbac_registry nova.tool_gateway

variable {β : Type}

/-! ## The two gates -/

/-- The decision of the agent on the snapshot of the run, with the policy that
the API serves it. -/
def agentDecision (data : RbacRegistryData) (entitlement : AgentRunEntitlement)
    (capabilityId : String) (has_approval : Bool) : PolicyDecision :=
  authorize (registry_from_payload data) entitlement.capabilityAllowlist entitlement.permissions
    capabilityId has_approval

/-- The gateway is no weaker than the agent for a call: it runs the executor only
where the agent allows the capability. -/
def NoWeaker (env : GatewayEnv) (executor : Executor β) (f : RunWithEntitlement)
    (input : ExecuteCapabilityInput) (s : β) (has_approval : Bool) : Prop :=
  (executeCapability env executor (some f) input s).invoked ≠ none →
    (agentDecision env.registry f.entitlement input.capabilityId has_approval).allowed = true

/-! ## The laws -/

/-- On a verified snapshot the gateway runs the executor exactly when the active
policy admits the capability. -/
theorem invoked_iff_admits (env : GatewayEnv) (executor : Executor β) (f : RunWithEntitlement)
    (input : ExecuteCapabilityInput) (s : β) (hv : VerifiedLoad env f.entitlement) :
    (executeCapability env executor (some f) input s).invoked ≠ none ↔
      Admits env.registry f.entitlement.permissions input.capabilityId := by
  rw [Option.ne_none_iff_exists']
  constructor
  · rintro ⟨admission, h⟩
    obtain ⟨g, hg, -, ha, -⟩ := (admitCapability_ok_iff env _ input admission).mp
      ((invoked_iff env executor _ input s admission).mp h)
    cases hg
    exact ha
  · intro ha
    exact ⟨_, (invoked_iff env executor _ input s _).mpr
      ((admitCapability_ok_iff env _ input _).mpr ⟨f, rfl, hv, ha, rfl⟩)⟩

/-- The gateway is no weaker than the agent exactly where its own check of
permissions refuses, or the allowlist of the snapshot holds the capability and
an approval that it asks for is recorded. -/
theorem the_gateway_is_no_weaker_within_the_allowlist (env : GatewayEnv) (executor : Executor β)
    (f : RunWithEntitlement) (input : ExecuteCapabilityInput) (s : β) (has_approval : Bool)
    (hv : VerifiedLoad env f.entitlement) :
    NoWeaker env executor f input s has_approval ↔
      ¬ Admits env.registry f.entitlement.permissions input.capabilityId ∨
        (input.capabilityId ∈ f.entitlement.capabilityAllowlist ∧
          (NeedsApproval env.registry input.capabilityId → has_approval = true)) := by
  unfold NoWeaker agentDecision
  rw [invoked_iff_admits env executor f input s hv, authorize_allowed_iff]
  constructor
  · intro h
    by_cases ha : Admits env.registry f.entitlement.permissions input.capabilityId
    · exact Or.inr ⟨(h ha).1, (h ha).2.2⟩
    · exact Or.inl ha
  · rintro (hn | ⟨hl, hp⟩) ha
    · exact absurd ha hn
    · exact ⟨hl, ha, hp⟩

/-! ## A capability enabled after the snapshot -/

/-- `issues.create`, enabled and asking for an approval. -/
def createIssues (requiresApproval : Bool) : CapabilityView :=
  ⟨"issues.create", "agent-skill", "write", "low", false, true, true, requiresApproval, true,
    ["create-issues"]⟩

/-- A policy in which `issues.create` is the one capability. -/
def createPolicy (requiresApproval : Bool) : RbacRegistryData :=
  ⟨2, ["customer-support"], [createIssues requiresApproval]⟩

/-- The SHA-256 digests of the two snapshots below. -/
def supportDigest : Digest := fun text =>
  if text = "\x7b\"ownerSubject\":\"alice\",\"roles\":[\"customer-support\"],\"permissions\":[\"create-issues\"],\"capabilityAllowlist\":[],\"issuedAtEpochS\":0,\"expiresAtEpochS\":900\x7d" then
    "8310f248e402d5f29a54a49174585532b2951bba782a0ee05cb9382959efec5c"
  else
    "5c087f54bcf32139d75d8746473ff91e8c66582f4d2b656aac828a99f5ad6158"

/-- A snapshot with the permission, captured with this allowlist. -/
def supportSnapshot (allowlist : List String) : AgentRunEntitlement where
  id := "ent-1"
  ownerSubject := "alice"
  ownerUserId := "user-1"
  roles := ["customer-support"]
  permissions := ["create-issues"]
  capabilityAllowlist := allowlist
  snapshotHash := if allowlist = [] then
      "sha256:8310f248e402d5f29a54a49174585532b2951bba782a0ee05cb9382959efec5c"
    else "sha256:5c087f54bcf32139d75d8746473ff91e8c66582f4d2b656aac828a99f5ad6158"
  issuedAt := 0
  expiresAt := 900000

def supportRun (allowlist : List String) : RunWithEntitlement :=
  ⟨⟨"run-1", "alice", "user-1", some "conv-1", .running, "nova-msg://conv-1/m1", none, "ent-1", false⟩,
    supportSnapshot allowlist⟩

/-- The limit of the configuration, for a client that writes no long bodies. -/
def hundredKilobytes : BodyLimit := ⟨fun _ => 1000, 102400⟩

def supportEnv (requiresApproval : Bool) : GatewayEnv :=
  ⟨supportDigest, 1000, createPolicy requiresApproval, none, hundredKilobytes⟩

/-- A database that gives the new issue the next number. -/
def createIssue : Executor (List Json) := fun capabilityId input _ issues =>
  (.ok ⟨capabilityId, "Issue created.", .num issues.length, []⟩, issues ++ [input])

def createInput : ExecuteCapabilityInput := ⟨"run-1", "issues.create", .obj []⟩

theorem support_verified (requiresApproval : Bool) :
    VerifiedLoad (supportEnv requiresApproval) (supportSnapshot []) ∧
      VerifiedLoad (supportEnv requiresApproval) (supportSnapshot ["issues.create"]) := by
  cases requiresApproval <;>
    exact ⟨⟨by decide +kernel, by decide⟩, by decide +kernel, by decide⟩

theorem create_admitted (requiresApproval : Bool) :
    Admits (createPolicy requiresApproval) ["create-issues"] "issues.create" :=
  ⟨createIssues requiresApproval, rfl, rfl, by simp [createIssues], by simp [createIssues]⟩

/-- The gateway runs a capability outside the allowlist, and one without the
approval that it asks for. -/
theorem the_gateway_runs_what_the_agent_denies :
    ¬ NoWeaker (supportEnv false) createIssue (supportRun []) createInput [] false ∧
      ¬ NoWeaker (supportEnv true) createIssue (supportRun ["issues.create"]) createInput []
        false := by
  refine ⟨fun h => ?_, fun h => ?_⟩
  · have hrun := (invoked_iff_admits (supportEnv false) createIssue (supportRun []) createInput []
      (support_verified false).1).mpr (create_admitted false)
    exact absurd (h hrun) (by decide)
  · have hrun := (invoked_iff_admits (supportEnv true) createIssue (supportRun ["issues.create"])
      createInput [] (support_verified true).2).mpr (create_admitted true)
    exact absurd (h hrun) (by decide)

theorem the_gateway_on_the_support_snapshot :
    NoWeaker (supportEnv false) createIssue (supportRun []) createInput [] false ↔
      ¬ Admits (createPolicy false) ["create-issues"] "issues.create" ∨
        ("issues.create" ∈ ([] : List String) ∧
          (NeedsApproval (createPolicy false) "issues.create" → false = true)) :=
  the_gateway_is_no_weaker_within_the_allowlist (supportEnv false) createIssue (supportRun [])
    createInput [] false (support_verified false).1

end nova.gateway_policy
