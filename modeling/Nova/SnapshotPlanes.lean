-- The planes that verify the snapshot of a run: the API before it hands the snapshot
-- out, the DB MCP server (db-mcp-server/auth/snapshot-client.ts) and the agent
-- (at_sql_analyser/auth/snapshot.py) on what it hands out, and the worker on its row. The
-- law says exactly when all four take the same instant for the end of the snapshot.
import Mathlib.Tactic.NormNum.NatLog
import Nova.Binary64
import Nova.CanonicalText
import Nova.EntitlementSnapshot
import Nova.IsoTime
import Nova.RunSelectQuery
import Nova.ToolGateway

namespace nova.snapshot_planes

open binary64 json_tree nova.agent_run nova.canonical_text nova.entitlement_snapshot
  nova.rbac_registry nova.run_select_query nova.tool_gateway

/-! ## Clocks -/

/-- `Date.now()` at an instant in seconds since the epoch: whole milliseconds. -/
def dateNow (t : ℚ) : Int := ⌊t * 1000⌋

/-- `datetime.now(UTC)`: whole microseconds. -/
def datetime_now (t : ℚ) : Int := ⌊t * 1000000⌋

/-- `value.timestamp()` of an aware `datetime` in microseconds: a float of seconds. -/
def timestamp (value : Int) : ℚ := toDouble (value / 1000000)

/-! ## The read-back of the API -/

structure EntitlementView where
  runId : String
  ownerSubject : String
  roles : List String
  permissions : List String
  capabilityAllowlist : List String
  snapshotHash : String
  issuedAt : String
  expiresAt : String

def toISOString (ms : Int) : String := iso_time.write "Z" ms

def viewOf (runId : String) (entitlement : AgentRunEntitlement) : EntitlementView :=
  ⟨runId, entitlement.ownerSubject, entitlement.roles, entitlement.permissions,
    entitlement.capabilityAllowlist, entitlement.snapshotHash, toISOString entitlement.issuedAt,
    toISOString entitlement.expiresAt⟩

def getEntitlement (env : GatewayEnv) (runId : String) (found : Option RunWithEntitlement) :
    Except GatewayError EntitlementView × List ToolAudit :=
  match loadVerified env found with
  | (.error error, audit) => (.error error, audit)
  | (.ok f, audit) => (.ok (viewOf runId f.entitlement), audit)

/-- The body of the answer. -/
def EntitlementView.body (view : EntitlementView) : Json :=
  .obj [("runId", .str view.runId), ("ownerSubject", .str view.ownerSubject),
    ("roles", .arr (view.roles.map .str)), ("permissions", .arr (view.permissions.map .str)),
    ("capabilityAllowlist", .arr (view.capabilityAllowlist.map .str)),
    ("snapshotHash", .str view.snapshotHash), ("issuedAt", .str view.issuedAt),
    ("expiresAt", .str view.expiresAt)]

/-! ## The DB MCP server -/

/-- `Math.floor(Date.parse(iso) / 1000)`; `none` is `NaN`. -/
def epochSecondsOf (iso : String) : Option Int := (iso_time.read "Z" iso).map fun ms => ms / 1000

/-- `JSON.stringify` of a number; `none` is `NaN`. -/
def stringifyNumber : Option Int → String
  | none => "null"
  | some n => toString n

/-- The text that `computeSnapshotHash` hashes of the body. -/
def canonicalOf (body : EntitlementView) : String :=
  "\x7b\"ownerSubject\":" ++ quote body.ownerSubject ++
    ",\"roles\":" ++ quoteAll (sortedUnique body.roles) ++
    ",\"permissions\":" ++ quoteAll (sortedUnique body.permissions) ++
    ",\"capabilityAllowlist\":" ++ quoteAll (sortedUnique body.capabilityAllowlist) ++
    ",\"issuedAtEpochS\":" ++ stringifyNumber (epochSecondsOf body.issuedAt) ++
    ",\"expiresAtEpochS\":" ++ stringifyNumber (epochSecondsOf body.expiresAt) ++ "\x7d"

/-- `verify` of the DB MCP server. -/
def verify (sha256 : Digest) (body : EntitlementView) (now : Int) :
    Except McpError VerifiedSnapshot :=
  if "sha256:" ++ sha256 (canonicalOf body) ≠ body.snapshotHash then
    .error ⟨.forbidden, "Entitlement snapshot failed integrity verification."⟩
  else match epochSecondsOf body.expiresAt with
    | none => .error ⟨.forbidden, "Entitlement snapshot has expired."⟩
    | some expiresAtEpochS =>
      if expiresAtEpochS * 1000 ≤ now then
        .error ⟨.forbidden, "Entitlement snapshot has expired."⟩
      else .ok ⟨body.runId, body.ownerSubject, body.roles, body.permissions,
        body.capabilityAllowlist, expiresAtEpochS⟩

/-! ## The worker -/

/-- `verify_snapshot` at a time in microseconds, the resolution of `datetime`. -/
def verify_snapshot_at (sha256 : Digest) (entitlement : AgentRunEntitlement)
    (expected_hash : String) (now : Int) : Except String Unit :=
  let recomputed := compute_snapshot_hash sha256 (payload_of entitlement)
  if recomputed ≠ entitlement.snapshotHash then
    .error "snapshot hash does not match stored hash"
  else if recomputed ≠ expected_hash then
    .error "snapshot hash does not match the enqueued run hash"
  else if entitlement.expiresAt * 1000 ≤ now then
    .error "entitlement snapshot has expired"
  else .ok ()

/-! ## The agent -/

structure AgentSnapshot where
  run_id : String
  owner_subject : String
  roles : List String
  permissions : List String
  capability_allowlist : List String
  /-- Seconds since the epoch. -/
  expires_at : Int

/-- `str(value)`; `repr` writes the values that are no text. -/
def str (repr : Json → String) : Json → String
  | .str s => s
  | v => repr v

/-- `iso.replace("Z", "+00:00")` -/
def replaceZone (iso : String) : String :=
  String.ofList (iso.toList.flatMap fun c => if c = 'Z' then "+00:00".toList else [c])

/-- `int(value)` of a float. -/
def int (value : ℚ) : Int := value.num.tdiv value.den

/-- `_epoch_seconds`; a text without an offset is taken for UTC. -/
def epoch_seconds (iso : String) : Option Int :=
  let iso := replaceZone iso
  let parsed := (iso_time.read "+00:00" iso).or (iso_time.read "" iso)
  parsed.map fun ms => int (timestamp (ms * 1000))

/-- The payload and the hash that `_verify` reads in the body. -/
def readBody (repr : Json → String) (body : Json) : Option (SnapshotHashPayload × String) := do
  let roles_raw ← (body.get "roles").bind Json.items?
  let permissions_raw ← (body.get "permissions").bind Json.items?
  let allowlist_raw ← (body.get "capabilityAllowlist").bind Json.items?
  let owner_subject ← body.get "ownerSubject"
  let snapshot_hash ← body.get "snapshotHash"
  let issued_at ← body.get "issuedAt"
  let expires_at ← body.get "expiresAt"
  let issued_at_epoch_s ← epoch_seconds (str repr issued_at)
  let expires_at_epoch_s ← epoch_seconds (str repr expires_at)
  return (⟨str repr owner_subject, roles_raw.map (str repr), permissions_raw.map (str repr),
    allowlist_raw.map (str repr), issued_at_epoch_s, expires_at_epoch_s⟩, str repr snapshot_hash)

/-- `_verify` of the agent; the error is the text of the exception. -/
def _verify (sha256 : Digest) (repr : Json → String) (body : Json) (now : Int) :
    Except String AgentSnapshot :=
  match readBody repr body with
  | none => .error "malformed entitlement snapshot"
  | some (payload, snapshot_hash) =>
    if "sha256:" ++ sha256 (canonical payload) ≠ snapshot_hash then
      .error "snapshot failed integrity verification"
    else if (payload.expiresAtEpochS : ℚ) ≤ timestamp now then
      .error "entitlement snapshot has expired"
    else .ok ⟨((body.get "runId").map (str repr)).getD "", payload.ownerSubject, payload.roles,
      payload.permissions, payload.capabilityAllowlist, payload.expiresAtEpochS⟩

/-! ## The laws of the clocks -/

theorem le_dateNow {E : Int} {t : ℚ} : E * 1000 ≤ dateNow t ↔ (E : ℚ) ≤ t := by
  unfold dateNow
  rw [Int.le_floor]
  push_cast
  constructor
  · intro h
    linarith
  · intro h
    linarith

theorem le_datetime_now {E : Int} {t : ℚ} : E * 1000000 ≤ datetime_now t ↔ (E : ℚ) ≤ t := by
  unfold datetime_now
  rw [Int.le_floor]
  push_cast
  constructor
  · intro h
    linarith
  · intro h
    linarith

/-- The worker's check at a microsecond is its check at the millisecond of it. -/
theorem verify_snapshot_at_eq (sha256 : Digest) (entitlement : AgentRunEntitlement)
    (expected_hash : String) (now : Int) :
    verify_snapshot_at sha256 entitlement expected_hash now =
      verify_snapshot sha256 entitlement expected_hash (now / 1000) := by
  have hunit : entitlement.expiresAt * 1000 ≤ now ↔ entitlement.expiresAt ≤ now / 1000 := by omega
  unfold verify_snapshot_at verify_snapshot
  simp only [hunit]

/-- A float of seconds is below a whole second when the clock is more than half of a last
bit below it. -/
theorem timestamp_lt_iff {E : ℕ} (hE : E ≤ 2 ^ 52) (us : Int) :
    timestamp us < E ↔ (us : ℚ) / 1000000 < E - halfGapBelow E := by
  unfold timestamp
  have hgap := halfGapBelow_pos E
  by_cases hx : (us : ℚ) / 1000000 < E
  · by_cases hpos : 0 < E
    · rw [← not_le, ← not_le, natCast_le_toDouble hpos hE hx]
    · have hzero : E = 0 := by omega
      subst hzero
      rw [Nat.cast_zero] at hx ⊢
      have hneg : us < 0 := by
        have hus : (us : ℚ) < 0 := by linarith
        exact_mod_cast hus
      have hstep : (us : ℚ) ≤ -1 := by exact_mod_cast Int.le_sub_one_of_lt hneg
      have hsmall : halfGapBelow 0 < 1 / 1000000 := by norm_num [halfGapBelow]
      constructor
      · intro _
        linarith
      · intro _
        exact toDouble_neg hx
  · rw [not_lt] at hx
    have hdouble := natCast_le_toDouble_of_le (n := E) (by omega) hx
    constructor
    · intro h
      linarith
    · intro h
      linarith

theorem int_natCast (n : ℕ) : int n = n := by simp [int]

/-- A whole second before the year 10000 goes through the float unchanged. -/
theorem int_timestamp {n : ℕ} (h : n < 2 ^ 53) : int (timestamp (n * 1000 * 1000)) = n := by
  have hseconds : (((n * 1000 * 1000 : ℤ)) : ℚ) / 1000000 = n := by
    push_cast
    field_simp
    norm_num
  unfold timestamp
  rw [hseconds, toDouble_natCast h, int_natCast]

/-! ## The laws of the texts -/

/-- The zone is the only `Z` of a text. -/
theorem replaceZone_toISOString (ms : Int) :
    replaceZone (toISOString ms) = iso_time.write "+00:00" ms := by
  have hchars : ∀ cs : List Char, (∀ c ∈ cs, c ≠ 'Z') →
      (cs.flatMap fun c => if c = 'Z' then "+00:00".toList else [c]) = cs := by
    intro cs hcs
    induction cs with
    | nil => rfl
    | cons c cs ih =>
      have hhead := hcs c List.mem_cons_self
      have htail := ih fun d hd => hcs d (List.mem_cons_of_mem c hd)
      rw [List.flatMap_cons, if_neg hhead, htail, List.singleton_append]
  have htext : ∀ c ∈ (iso_time.fieldsOf ms).text, c ≠ 'Z' := by
    rintro c hc rfl
    have := iso_time.mem_text hc
    revert this
    decide
  unfold replaceZone toISOString iso_time.write
  rw [String.toList_ofList (l := (iso_time.fieldsOf ms).text ++ "Z".toList), List.flatMap_append,
    hchars _ htext]
  rfl

theorem epochSecondsOf_toISOString {n : Int} (hfrom : 0 ≤ n) (hto : n ≤ 253402300799) :
    epochSecondsOf (toISOString (n * 1000)) = some n := by
  unfold epochSecondsOf toISOString
  rw [iso_time.read_write _ (by omega) (by unfold iso_time.lastInstant; omega), Option.map_some,
    Int.mul_ediv_cancel n (by norm_num)]

theorem epoch_seconds_toISOString {n : Int} (hfrom : 0 ≤ n) (hto : n ≤ 253402300799) :
    epoch_seconds (toISOString (n * 1000)) = some n := by
  unfold epoch_seconds
  rw [replaceZone_toISOString]
  have hread : iso_time.read "+00:00" (iso_time.write "+00:00" (n * 1000)) = some (n * 1000) :=
    iso_time.read_write _ (by omega) (by unfold iso_time.lastInstant; omega)
  simp only [hread, Option.some_or, Option.map_some, Option.some.injEq]
  obtain ⟨k, rfl⟩ := Int.eq_ofNat_of_zero_le hfrom
  exact int_timestamp (by omega)

/-! ## The laws of the planes -/

section Planes

variable (sha256 : Digest) (env : GatewayEnv) (repr : Json → String)
  (input : BuildEntitlementSnapshotInput) (id : String) (run : AgentRun)

/-- The row of the snapshot that the API built. -/
def builtRow : AgentRunEntitlement := (buildEntitlementSnapshot sha256 input).row id

/-- The text whose hash the API pinned. -/
def pinnedText : String := canonicalWith sortedUnique (builtPayload input)

/-- The names that the administration admits. -/
structure NamedInput : Prop where
  roles : ∀ n ∈ input.roles, isRbacName n = true
  permissions : ∀ n ∈ input.permissions, isRbacName n = true
  capabilities : ∀ n ∈ input.resolveCapabilityAllowlist input.permissions, isRbacName n = true

/-- The dates of the snapshot lie in the years 1970 to 9999. -/
structure Dated : Prop where
  from_1970 : 0 ≤ input.now
  to_9999 : expiresAtEpochS input ≤ 253402300799

/-- All planes hash the text that the API pinned. -/
structure SameText : Prop where
  api : canonicalWith sortedUnique (payloadOf (builtRow sha256 input id)) = pinnedText input
  mcp : canonicalOf (viewOf run.id (builtRow sha256 input id)) = pinnedText input
  orchestrator : canonical (payload_of (builtRow sha256 input id)) = pinnedText input
  agent : (readBody repr (viewOf run.id (builtRow sha256 input id)).body).map
    (fun read => canonical read.1) = some (pinnedText input)

/-- All planes accept the snapshot at the instant if and only if `p`. -/
structure AcceptedIff (t : ℚ) (p : Prop) : Prop where
  api : (∃ f, (loadVerified { env with sha256 := sha256, now := dateNow t }
    (some ⟨run, builtRow sha256 input id⟩)).1 = .ok f) ↔ p
  mcp : (∃ snapshot, verify sha256 (viewOf run.id (builtRow sha256 input id)) (dateNow t) =
    .ok snapshot) ↔ p
  orchestrator : verify_snapshot_at sha256 (builtRow sha256 input id)
    (builtRow sha256 input id).snapshotHash (datetime_now t) = .ok () ↔ p
  agent : (∃ snapshot, _verify sha256 repr (viewOf run.id (builtRow sha256 input id)).body
    (datetime_now t) = .ok snapshot) ↔ p

variable {input}

theorem builtPayload_named (h : NamedInput input) : Named (builtPayload input) := by
  constructor
  case roles => exact fun n hn => h.roles n ((mem_sortedUniqueBy _ _ _).mp hn)
  case permissions => exact fun n hn => h.permissions n ((mem_sortedUniqueBy _ _ _).mp hn)
  case capabilityAllowlist =>
    exact fun n hn => h.capabilities n ((mem_sortedUniqueBy _ _ _).mp hn)

/-- Python writes the text that the API pinned. -/
theorem canonical_builtPayload (h : NamedInput input) :
    canonical (builtPayload input) = pinnedText input :=
  canonical_of_named (builtPayload_named h)

theorem expiresAtEpochS_nonneg (h : Dated input) : 0 ≤ expiresAtEpochS input := by
  have := h.from_1970
  unfold expiresAtEpochS issuedAtEpochS
  omega

theorem issuedAtEpochS_dated (h : Dated input) :
    0 ≤ issuedAtEpochS input ∧ issuedAtEpochS input ≤ 253402300799 := by
  have hfrom := h.from_1970
  have hto := h.to_9999
  unfold expiresAtEpochS at hto
  unfold issuedAtEpochS at hto ⊢
  omega

theorem epochSecondsOf_view (h : Dated input) :
    epochSecondsOf (viewOf run.id (builtRow sha256 input id)).issuedAt =
        some (issuedAtEpochS input) ∧
      epochSecondsOf (viewOf run.id (builtRow sha256 input id)).expiresAt =
        some (expiresAtEpochS input) := by
  obtain ⟨hfrom, hto⟩ := issuedAtEpochS_dated h
  exact ⟨epochSecondsOf_toISOString hfrom hto,
    epochSecondsOf_toISOString (expiresAtEpochS_nonneg h) h.to_9999⟩

theorem canonicalOf_view (h : Dated input) :
    canonicalOf (viewOf run.id (builtRow sha256 input id)) = pinnedText input := by
  obtain ⟨hissued, hexpires⟩ := epochSecondsOf_view sha256 id run h
  unfold canonicalOf pinnedText canonicalWith
  rw [hissued, hexpires]
  rfl

theorem map_str (values : List String) : (values.map Json.str).map (str repr) = values := by
  rw [List.map_map]
  exact List.map_id'' (fun _ => rfl) values

/-- The agent reads in the body what the API built. -/
theorem readBody_view (h : Dated input) :
    readBody repr (viewOf run.id (builtRow sha256 input id)).body =
      some (builtPayload input, (builtRow sha256 input id).snapshotHash) := by
  obtain ⟨hfrom, hto⟩ := issuedAtEpochS_dated h
  have hissued := epoch_seconds_toISOString hfrom hto
  have hexpires := epoch_seconds_toISOString (expiresAtEpochS_nonneg h) h.to_9999
  unfold readBody EntitlementView.body viewOf
  simp only [builtRow, EntitlementSnapshot.row, buildEntitlementSnapshot, Json.get_obj,
    List.lookup_cons, Json.items?, Option.bind_eq_bind, Option.bind_some, Option.pure_def, map_str, str,
    hissued, hexpires, String.reduceBEq, builtPayload]

/-- The API accepts the snapshot until it expires. -/
theorem api_accepts_iff (t : ℚ) :
    (∃ f, (loadVerified { env with sha256 := sha256, now := dateNow t }
      (some ⟨run, builtRow sha256 input id⟩)).1 = .ok f) ↔ t < expiresAtEpochS input := by
  have hclock : dateNow t < (builtRow sha256 input id).expiresAt ↔ t < expiresAtEpochS input := by
    rw [← not_le, ← not_le]
    exact not_congr le_dateNow
  constructor
  · rintro ⟨f, hf⟩
    obtain ⟨he, hload⟩ := (loadVerified_ok_iff _ _ _).mp hf
    cases he
    exact hclock.mp (by simpa [unexpired] using hload.fresh)
  · intro ht
    refine ⟨_, (loadVerified_ok_iff _ _ _).mpr ⟨rfl, ?_, ?_⟩⟩
    · exact beq_iff_eq.mpr (computeSnapshotHash_row sha256 input id)
    · simpa [unexpired] using hclock.mpr ht

/-- The DB MCP server accepts the snapshot until it expires. -/
theorem mcp_accepts_iff (h : Dated input) (t : ℚ) :
    (∃ snapshot, verify sha256 (viewOf run.id (builtRow sha256 input id)) (dateNow t) =
      .ok snapshot) ↔ t < expiresAtEpochS input := by
  have hhash : "sha256:" ++ sha256 (pinnedText input) =
      (viewOf run.id (builtRow sha256 input id)).snapshotHash := rfl
  unfold verify
  rw [canonicalOf_view sha256 id run h, if_neg (not_not.mpr hhash),
    (epochSecondsOf_view sha256 id run h).2]
  have hclock : expiresAtEpochS input * 1000 ≤ dateNow t ↔ ¬ t < expiresAtEpochS input := by
    rw [le_dateNow, not_lt]
  by_cases ht : t < expiresAtEpochS input
  · simp [hclock, ht]
  · simp [hclock, ht]

theorem compute_snapshot_hash_row (hnames : NamedInput input) :
    compute_snapshot_hash sha256 (payload_of (builtRow sha256 input id)) =
      (builtRow sha256 input id).snapshotHash := by
  rw [builtRow, payload_of_row, compute_snapshot_hash_eq, canonical_builtPayload hnames]
  rfl

/-- The worker accepts the snapshot until it expires. -/
theorem orchestrator_accepts_iff (hnames : NamedInput input) (t : ℚ) :
    verify_snapshot_at sha256 (builtRow sha256 input id)
      (builtRow sha256 input id).snapshotHash (datetime_now t) = .ok () ↔
      t < expiresAtEpochS input := by
  rw [verify_snapshot_at_eq, verify_snapshot_ok_iff, compute_snapshot_hash_row sha256 id hnames]
  have hexpires : (builtRow sha256 input id).expiresAt = expiresAtEpochS input * 1000 := rfl
  have hunit : datetime_now t / 1000 < expiresAtEpochS input * 1000 ↔
      ¬ expiresAtEpochS input * 1000000 ≤ datetime_now t := by omega
  rw [hexpires, hunit, le_datetime_now, not_le]
  simp

/-- The agent accepts the snapshot while the float of its clock is below the end. -/
theorem agent_accepts_iff (hnames : NamedInput input) (h : Dated input) (now : Int) :
    (∃ snapshot, _verify sha256 repr (viewOf run.id (builtRow sha256 input id)).body now =
      .ok snapshot) ↔ timestamp now < expiresAtEpochS input := by
  have hhash : "sha256:" ++ sha256 (canonical (builtPayload input)) =
      (builtRow sha256 input id).snapshotHash := by
    rw [canonical_builtPayload hnames]
    rfl
  unfold _verify
  rw [readBody_view sha256 repr id run h]
  simp only [hhash, ne_eq, not_true_eq_false, if_false, ← not_lt]
  have hend : (builtPayload input).expiresAtEpochS = expiresAtEpochS input := rfl
  rw [hend]
  by_cases ht : timestamp now < expiresAtEpochS input
  · simp [ht]
  · simp [ht]

theorem sameText (hnames : NamedInput input) (h : Dated input) :
    SameText sha256 repr input id run := by
  constructor
  case api => rw [builtRow, payloadOf_row, pinnedText]
  case mcp => exact canonicalOf_view sha256 id run h
  case orchestrator => rw [builtRow, payload_of_row, canonical_builtPayload hnames]
  case agent =>
    rw [readBody_view sha256 repr id run h, Option.map_some, canonical_builtPayload hnames]

/-- The float of the agent's clock is below the end of the snapshot. -/
theorem timestamp_lt_end (h : Dated input) (now : Int) :
    timestamp now < expiresAtEpochS input ↔ (now : ℚ) / 1000000 <
      expiresAtEpochS input - halfGapBelow (expiresAtEpochS input).toNat := by
  have hto := h.to_9999
  obtain ⟨n, hn⟩ := Int.eq_ofNat_of_zero_le (expiresAtEpochS_nonneg h)
  rw [hn] at hto ⊢
  rw [Int.toNat_natCast, Int.cast_natCast]
  exact timestamp_lt_iff (by omega) now

theorem lt_of_datetime_now_lt {E : Int} {t : ℚ} (h : (datetime_now t : ℚ) / 1000000 < E) :
    t < E := by
  by_contra hle
  have hclock : E * 1000000 ≤ datetime_now t := le_datetime_now.mpr (not_lt.mp hle)
  have hcast : (E : ℚ) * 1000000 ≤ datetime_now t := by exact_mod_cast hclock
  linarith

/-- All planes hash the same text and take the same instant for the end of the snapshot,
unless the agent's clock is within half of a last bit below the end. -/
theorem planes_agree_iff (hnames : NamedInput input) (h : Dated input) (t : ℚ) :
    SameText sha256 repr input id run ∧
        AcceptedIff sha256 env repr input id run t (t < expiresAtEpochS input) ↔
      expiresAtEpochS input ≤ t ∨ (datetime_now t : ℚ) / 1000000 <
        expiresAtEpochS input - halfGapBelow (expiresAtEpochS input).toNat := by
  have hagent := agent_accepts_iff sha256 repr id run hnames h (datetime_now t)
  rw [timestamp_lt_end h] at hagent
  have hgap := halfGapBelow_pos (expiresAtEpochS input).toNat
  constructor
  · rintro ⟨-, haccepted⟩
    by_cases ht : t < expiresAtEpochS input
    · exact Or.inr (hagent.mp (haccepted.agent.mpr ht))
    · exact Or.inl (not_lt.mp ht)
  · intro hcondition
    refine ⟨sameText sha256 repr id run hnames h, ?_⟩
    constructor
    case api => exact api_accepts_iff sha256 env id run t
    case mcp => exact mcp_accepts_iff sha256 id run h t
    case orchestrator => exact orchestrator_accepts_iff sha256 id hnames t
    case agent =>
      rw [hagent]
      constructor
      · intro hlt
        exact lt_of_datetime_now_lt (by linarith)
      · intro ht
        rcases hcondition with hle | hlt
        · exact absurd ht (not_lt.mpr hle)
        · exact hlt

end Planes

/-! ## The last microsecond -/

/-- The SHA-256 digest of the snapshot below. -/
def farDigest : Digest :=
  fun _ => "787d4bcfbb8a9d8f5231b286370c2fbbe80d70d906f01e2b8906e0c586892f02"

/-- A snapshot of fifteen minutes that ends on 2514-05-30 at 01:53:05. -/
def farInput : BuildEntitlementSnapshotInput where
  ownerSubject := "alice"
  ownerUserId := "user-1"
  roles := ["customer-support"]
  permissions := ["create-agent-run", "create-issues"]
  resolveCapabilityAllowlist := fun _ => ["data.act.write", "issues.create"]
  ttlSeconds := 900
  now := 17179868285000

def farRun : AgentRun :=
  ⟨"run-1", "alice", "user-1", some "conv-1", .running, "nova-msg://conv-1/m1", none, "ent-1",
    false⟩

def plainEnv : GatewayEnv := ⟨farDigest, 0, ⟨1, [], []⟩, none, ⟨fun _ => 0, 0⟩⟩

theorem farInput_named : NamedInput farInput := by
  constructor <;> decide

theorem farInput_dated : Dated farInput := by
  constructor <;> decide

theorem end_of_farInput :
    expiresAtEpochS farInput = 17179869185 ∧
      halfGapBelow (expiresAtEpochS farInput).toNat = 1 / 524288 := by
  have hend : expiresAtEpochS farInput = 17179869185 := by decide
  have hnat : (17179869185 : Int).toNat = 17179869185 := rfl
  refine ⟨hend, ?_⟩
  rw [hend, hnat]
  norm_num [halfGapBelow]

theorem datetime_now_of_eq {us : Int} {t : ℚ} (h : t = us / 1000000) : datetime_now t = us := by
  subst h
  unfold datetime_now
  rw [div_mul_cancel₀ _ (by norm_num), Int.floor_intCast]

/-- A microsecond before the end the agent rejects the snapshot. -/
theorem the_agent_rejects_early :
    NamedInput farInput ∧ Dated farInput ∧
      (17179869185 - 1 / 1000000 : ℚ) < expiresAtEpochS farInput ∧
      ¬ AcceptedIff farDigest plainEnv (fun _ => "None") farInput "ent-1" farRun
        (17179869185 - 1 / 1000000) ((17179869185 - 1 / 1000000 : ℚ) < expiresAtEpochS farInput) := by
  have hnow : datetime_now (17179869185 - 1 / 1000000) = 17179869184999999 :=
    datetime_now_of_eq (by norm_num)
  have hbefore : (17179869185 - 1 / 1000000 : ℚ) < expiresAtEpochS farInput := by
    rw [end_of_farInput.1]
    norm_num
  refine ⟨farInput_named, farInput_dated, hbefore, ?_⟩
  intro haccepted
  have hagent := haccepted.agent.mpr hbefore
  rw [hnow, agent_accepts_iff farDigest (fun _ => "None") "ent-1" farRun farInput_named farInput_dated,
    timestamp_lt_end farInput_dated, end_of_farInput.2, end_of_farInput.1] at hagent
  norm_num at hagent

theorem planes_agree_a_second_before :
    SameText farDigest (fun _ => "None") farInput "ent-1" farRun ∧
      AcceptedIff farDigest plainEnv (fun _ => "None") farInput "ent-1" farRun 17179869184
        (17179869184 < (expiresAtEpochS farInput : ℚ)) := by
  have hnow : datetime_now 17179869184 = 17179869184000000 := datetime_now_of_eq (by norm_num)
  apply (planes_agree_iff farDigest plainEnv (fun _ => "None") "ent-1" farRun farInput_named
    farInput_dated 17179869184).mpr
  right
  rw [hnow, end_of_farInput.2, end_of_farInput.1]
  norm_num

end nova.snapshot_planes
