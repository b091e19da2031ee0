-- The policy in force in a Python process (authz/rbac_registry.py, RbacRegistryClient over the
-- API's rbac-registry.controller.ts): a copy that is revalidated by its revision before each run.
-- The laws say which policy a refresh puts in force, and what the gate decides by it.
import Mathlib
import Nova.RegistryPayload
import Nova.RevalidatedCopies
import Nova.Runs

namespace nova.registry_client

open json_tree labelled_runs revalidated_copies nova.rbac_registry nova.registry_payload

/-! ## The API -/

/-- `registry.snapshot`, with the parts that no gate reads. -/
structure Snapshot where
  data : RbacRegistryData
  rolePermissions : List (String × List String)
  rest : List (String × Json)

def Snapshot.body (snapshot : Snapshot) : Json :=
  registryBody snapshot.data snapshot.rolePermissions snapshot.rest

structure Response where
  status : Nat
  /-- `none` where the body is no JSON. -/
  body : Option Json

/-- `W/"rbac-${revision}"`, in both languages. -/
def etag (revision : Int) : String := "W/\"rbac-" ++ (toString revision ++ "\"")

/-- `RbacRegistryController.get` -/
def get (snapshot : Snapshot) (ifNoneMatch : Option String) : Response :=
  if ifNoneMatch = some (etag snapshot.data.revision) then ⟨304, none⟩
  else ⟨200, some snapshot.body⟩

/-! ## The client -/

/-- `_cached` of the client, and `_active` of its process. -/
structure Client where
  _cached : Option RbacRegistry
  _active : Option RbacRegistry

/-- What a refresh comes to: a registry, `RbacRegistryError`, or an exception of another kind. -/
inductive Outcome where
  | returns (registry : RbacRegistry)
  | raises (message : String)
  | fails

/-- The header `If-None-Match`. -/
def Client.ifNoneMatch (client : Client) : Option String :=
  client._cached.map fun registry => etag registry.revision

section Python

variable (py : Conversions)

/-- `refresh` from the response on. -/
def receive (client : Client) (response : Response) : Outcome × Client :=
  match response.status, client._cached, response.body with
  | 304, some cached, _ => (.returns cached, { client with _active := some cached })
  | 200, _, some body =>
    if isDict body then
      match readRegistry py body with
      | some registry => (.returns registry, ⟨some registry, some registry⟩)
      | none => (.fails, client)
    else (.raises "unexpected rbac registry response shape", client)
  | 200, _, none => (.raises "malformed rbac registry response", client)
  | status, _, _ => (.raises s!"rbac registry rejected (status={status})", client)

/-! ## The API, and a process with its refreshes -/

/-- A refresh under way or done; `since` counts the policies that had been in force when it
began. No code reads that. -/
inductive Refresh where
  | sent (since : Nat) (ifNoneMatch : Option String)
  | answered (since : Nat) (response : Response)
  | returned (since : Nat) (registry : RbacRegistry)
  | raised
  | reset
  | failed

structure System where
  served : List Snapshot
  client : Client
  refreshes : List Refresh

inductive Label where
  /-- The API puts a policy in force. -/
  | publish (snapshot : Snapshot)
  | begin
  | answer (k : Nat)
  /-- Another answer than that of the controller. -/
  | refuse (k : Nat) (status : Nat) (body : Option Json)
  /-- There is no token, or no response. -/
  | lose (k : Nat)
  | receive (k : Nat)
  /-- `reset_active_registry` of the caller that caught the error. -/
  | reset (k : Nat)

def System.setRefresh (s : System) (k : Nat) (refresh : Refresh) : System :=
  { s with refreshes := s.refreshes.set k refresh }

def afterOutcome (since : Nat) : Outcome → Refresh
  | .returns registry => .returned since registry
  | .raises _ => .raised
  | .fails => .failed

def step (s : System) : Label → Option System
  | .publish snapshot => some { s with served := s.served ++ [snapshot] }
  | .begin => some { s with
      refreshes := s.refreshes ++ [.sent s.served.length s.client.ifNoneMatch] }
  | .answer k =>
    match s.refreshes[k]?, s.served.getLast? with
    | some (.sent since ifNoneMatch), some snapshot =>
      some (s.setRefresh k (.answered since (get snapshot ifNoneMatch)))
    | _, _ => none
  | .refuse k status body =>
    match s.refreshes[k]? with
    | some (.sent since _) =>
      if status = 200 ∨ status = 304 then none
      else some (s.setRefresh k (.answered since ⟨status, body⟩))
    | _ => none
  | .lose k =>
    match s.refreshes[k]? with
    | some (.sent _ _) => some (s.setRefresh k .raised)
    | _ => none
  | .receive k =>
    match s.refreshes[k]? with
    | some (.answered since response) =>
      some { s.setRefresh k (afterOutcome since (receive py s.client response).1) with
        client := (receive py s.client response).2 }
    | _ => none
  | .reset k =>
    match s.refreshes[k]? with
    | some .raised => some { s.setRefresh k .reset with
        client := { s.client with _active := none } }
    | _ => none

/-- A process that has just started. -/
def started (snapshot : Snapshot) : System := ⟨[snapshot], ⟨none, none⟩, []⟩

/-- What the gate reads. -/
def System.active (s : System) : ActiveRegistry := s.client._active.bind RbacRegistry.active

/-! ## Refreshes in turn -/

/-- The refresh may still change what is in force. -/
def Refresh.underWay : Refresh → Bool
  | .sent _ _ | .answered _ _ | .raised => true
  | .returned _ _ | .reset | .failed => false

/-- A later policy has a later revision, and a refresh begins when no other is under way. -/
def InTurn (s : System) : Label → Prop
  | .publish snapshot => ∀ last ∈ s.served.getLast?, last.data.revision < snapshot.data.revision
  | .begin => ∀ refresh ∈ s.refreshes, refresh.underWay = false
  | .answer _ | .refuse _ _ _ | .lose _ | .receive _ | .reset _ => True

instance (s : System) : (label : Label) → Decidable (InTurn s label)
  | .publish snapshot => inferInstanceAs (Decidable (∀ last ∈ s.served.getLast?,
      last.data.revision < snapshot.data.revision))
  | .begin => inferInstanceAs (Decidable (∀ refresh ∈ s.refreshes, refresh.underWay = false))
  | .answer _ | .refuse _ _ _ | .lose _ | .receive _ | .reset _ => isTrue trivial

/-- What Python builds of a policy. -/
def Snapshot.read (snapshot : Snapshot) : RbacRegistry :=
  ⟨snapshot.data.revision, snapshot.data.capabilities.map parse_capability,
    snapshot.rolePermissions⟩

variable {py} {s s' : System} {label : Label} {k since : Nat} {snapshot : Snapshot}

/-! ## One answer -/

theorem etag_injective {revision revision' : Int} (h : etag revision = etag revision') :
    revision = revision' := by
  have htext : (toString revision).toList ++ ['"'] = (toString revision').toList ++ ['"'] := by
    simpa [etag] using congrArg String.toList h
  exact Int.repr_inj.mp (String.toList_inj.mp (List.append_cancel_right htext))

theorem read_body (py : Conversions) (snapshot : Snapshot) :
    isDict snapshot.body = true ∧ readRegistry py snapshot.body = some snapshot.read :=
  ⟨rfl, readRegistry_body py snapshot.data snapshot.rolePermissions snapshot.rest⟩

/-- The versions of the policies. -/
def revisionOf (snapshot : Snapshot) : Nat := snapshot.data.revision

/-- A copy under the revision in force is the policy in force, and another one is replaced. -/
theorem receive_get {client : Client} {served : List Snapshot}
    (hgrowing : Growing revisionOf served) (hmem : snapshot ∈ served)
    (hcached : ∀ cached, client._cached = some cached → ∃ old ∈ served, cached = old.read) :
    receive py client (get snapshot client.ifNoneMatch) =
      (.returns snapshot.read, ⟨some snapshot.read, some snapshot.read⟩) := by
  unfold get
  by_cases hsame : client.ifNoneMatch = some (etag snapshot.data.revision)
  · rw [if_pos hsame]
    obtain ⟨cached, hsome, htag⟩ := Option.map_eq_some_iff.mp hsame
    obtain ⟨old, hold, rfl⟩ := hcached cached hsome
    have hrevision : (old.data.revision : Int) = snapshot.data.revision := etag_injective htag
    have heq : old = snapshot :=
      hgrowing.eq_of_version hold hmem (by unfold revisionOf; omega)
    rw [heq] at hsome
    obtain ⟨_, active⟩ := client
    cases hsome
    rfl
  · rw [if_neg hsame]
    obtain ⟨hdict, hread⟩ := read_body py snapshot
    simp only [receive, hdict, hread, if_true]

/-- Any other answer raises, and leaves the process as it is. -/
theorem receive_refused {client : Client} {response : Response} (h : response.status ≠ 200)
    (h' : response.status ≠ 304) :
    ∃ message, receive py client response = (.raises message, client) := by
  unfold receive
  split
  · rename_i hstatus _
    exact absurd hstatus h'
  · rename_i hstatus _
    exact absurd hstatus h
  · rename_i hstatus _
    exact absurd hstatus h
  · exact ⟨_, rfl⟩

/-! ## In any order -/

/-- What the process has are policies that the API served. -/
structure Served (s : System) : Prop where
  cached : ∀ registry, s.client._cached = some registry → ∃ old ∈ s.served, registry = old.read
  active : ∀ registry, s.client._active = some registry → ∃ old ∈ s.served, registry = old.read
  answers : ∀ (k since : Nat) (response : Response),
    s.refreshes[k]? = some (.answered since response) → response.status = 200 →
    ∃ old ∈ s.served, response.body = some old.body

theorem served_started (first : Snapshot) : Served (started first) :=
  ⟨fun _ h => (nomatch h), fun _ h => (nomatch h), fun _ _ _ h => by simp [started] at h⟩

/-- The refresh at another place stays. -/
theorem getElem?_setRefresh (s : System) (k i : Nat) (refresh : Refresh) :
    (s.setRefresh k refresh).refreshes[i]? =
      if k = i then s.refreshes[i]?.map fun _ => refresh else s.refreshes[i]? := by
  unfold System.setRefresh
  rw [List.getElem?_set]
  by_cases hki : k = i
  · subst hki
    by_cases hlt : k < s.refreshes.length <;> simp [hlt]
  · simp [hki]

/-- A refresh that gets no body of the API leaves the others as they are. -/
theorem Served.setRefresh (hs : Served s) (refresh : Refresh)
    (h : ∀ since response, refresh = .answered since response → response.status = 200 →
      ∃ old ∈ s.served, response.body = some old.body) : Served (s.setRefresh k refresh) := by
  refine ⟨hs.cached, hs.active, fun i since response hi => ?_⟩
  rw [getElem?_setRefresh] at hi
  split_ifs at hi
  · obtain ⟨_, -, hrefresh⟩ := Option.map_eq_some_iff.mp hi
    exact h since response hrefresh
  · exact hs.answers i since response hi

variable (py) in
theorem served_receive {client : Client} {served : List Snapshot} {response : Response}
    (hcached : ∀ registry, client._cached = some registry → ∃ old ∈ served, registry = old.read)
    (hactive : ∀ registry, client._active = some registry → ∃ old ∈ served, registry = old.read)
    (hbody : response.status = 200 → ∃ old ∈ served, response.body = some old.body) :
    (∀ registry, (receive py client response).2._cached = some registry →
      ∃ old ∈ served, registry = old.read) ∧
    ∀ registry, (receive py client response).2._active = some registry →
      ∃ old ∈ served, registry = old.read := by
  unfold receive
  split
  · rename_i cached _ hsome
    exact ⟨hcached, fun registry h => by cases h; exact hcached cached hsome⟩
  · rename_i body hstatus hsome
    obtain ⟨old, hold, hread⟩ := hbody hstatus
    rw [hsome] at hread
    cases hread
    obtain ⟨hdict, hregistry⟩ := read_body py old
    simp only [hdict, hregistry, if_true]
    exact ⟨fun registry h => ⟨old, hold, (Option.some.inj h).symm⟩,
      fun registry h => ⟨old, hold, (Option.some.inj h).symm⟩⟩
  · exact ⟨hcached, hactive⟩
  · exact ⟨hcached, hactive⟩

theorem served_step (hs : Served s) (h : step py s label = some s') : Served s' := by
  cases label with
  | publish snapshot =>
    cases h
    have hgrows : ∀ {P : Snapshot → Prop}, (∃ old ∈ s.served, P old) →
        ∃ old ∈ s.served ++ [snapshot], P old :=
      fun ⟨old, hold, hp⟩ => ⟨old, List.mem_append_left _ hold, hp⟩
    exact ⟨fun registry hr => hgrows (hs.cached registry hr),
      fun registry hr => hgrows (hs.active registry hr),
      fun i since response hi hstatus => hgrows (hs.answers i since response hi hstatus)⟩
  | begin =>
    cases h
    refine ⟨hs.cached, hs.active, fun i since response hi => ?_⟩
    rw [List.getElem?_append] at hi
    split at hi
    · exact hs.answers i since response hi
    · rw [List.getElem?_singleton] at hi
      split_ifs at hi
      cases hi
  | answer k =>
    simp only [step] at h
    split at h
    · rename_i since ifNoneMatch snapshot hsent hlast
      cases h
      refine hs.setRefresh _ fun since' response hresponse hstatus => ?_
      cases hresponse
      refine ⟨snapshot, List.mem_of_getLast? hlast, ?_⟩
      unfold get at hstatus ⊢
      split_ifs at hstatus ⊢
      · cases hstatus
      · rfl
    · cases h
  | refuse k status body =>
    simp only [step] at h
    split at h
    · split_ifs at h with hother
      cases h
      refine hs.setRefresh _ fun since' response hresponse hstatus => ?_
      cases hresponse
      exact absurd (Or.inl hstatus) hother
    · cases h
  | lose k =>
    simp only [step] at h
    split at h
    · cases h
      exact hs.setRefresh _ fun _ _ hresponse => by cases hresponse
    · cases h
  | receive k =>
    simp only [step] at h
    split at h
    · rename_i since response hanswered
      cases h
      obtain ⟨hcached, hactive⟩ := served_receive py hs.cached hs.active
        (hs.answers k since response hanswered)
      have hset : Served (s.setRefresh k (afterOutcome since (receive py s.client response).1)) :=
        hs.setRefresh _ fun since' response' hresponse => by
          cases houtcome : (receive py s.client response).1 <;> rw [houtcome] at hresponse <;>
            cases hresponse
      exact ⟨hcached, hactive, hset.answers⟩
    · cases h
  | reset k =>
    simp only [step] at h
    split at h
    · cases h
      have hset : Served (s.setRefresh k .reset) := hs.setRefresh _ fun _ _ h => by cases h
      exact ⟨hs.cached, fun _ h => (nomatch h), hset.answers⟩
    · cases h

/-! ## In turn -/

/-- What a refresh has come to, while no other one is under way. -/
def Stands (py : Conversions) (served : List Snapshot) (client : Client) : Refresh → Prop
  | .sent since ifNoneMatch => since ≤ served.length ∧ ifNoneMatch = client.ifNoneMatch
  | .answered since response =>
    (∃ snapshot, InForceSince served since snapshot ∧ receive py client response =
      (.returns snapshot.read, ⟨some snapshot.read, some snapshot.read⟩)) ∨
    ∃ message, receive py client response = (.raises message, client)
  | .returned since registry =>
    ∃ snapshot, InForceSince served since snapshot ∧ registry = snapshot.read
  | .raised | .reset => True
  | .failed => False

variable (py) in
structure Sound (s : System) : Prop where
  served : Served s
  growing : Growing revisionOf s.served
  started : s.served ≠ []
  last : ∀ (i : Nat) (r : Refresh), s.refreshes[i]? = some r → r.underWay = true →
    i + 1 = s.refreshes.length
  stands : ∀ (i : Nat) (r : Refresh), s.refreshes[i]? = some r → Stands py s.served s.client r
  returned : ∀ since registry, s.refreshes.getLast? = some (.returned since registry) →
    s.client._active = some registry
  reset : s.refreshes.getLast? = some .reset → s.client._active = none

theorem sound_started (first : Snapshot) : Sound py (started first) :=
  ⟨served_started first, growing_singleton first, by simp [started], by simp [started],
    by simp [started], by simp [started], by simp [started]⟩

/-- What is over does not depend on what the process has by now. -/
theorem stands_of_over {served : List Snapshot} {client client' : Client} {r : Refresh}
    (hover : r.underWay = false) (h : Stands py served client r) : Stands py served client' r := by
  cases r with
  | sent since ifNoneMatch => cases hover
  | answered since response => cases hover
  | raised => cases hover
  | returned since registry => exact h
  | reset => trivial
  | failed => exact h

theorem Stands.publish {served : List Snapshot} {client : Client} {r : Refresh}
    (h : Stands py served client r) (snapshot : Snapshot) :
    Stands py (served ++ [snapshot]) client r := by
  cases r with
  | sent since ifNoneMatch => exact ⟨by simp; exact Nat.le_succ_of_le h.1, h.2⟩
  | answered since response =>
    exact h.imp_left fun ⟨old, hold, hreceive⟩ => ⟨old, hold.append snapshot, hreceive⟩
  | returned since registry =>
    obtain ⟨old, hold, hregistry⟩ := h
    exact ⟨old, hold.append snapshot, hregistry⟩
  | raised => trivial
  | reset => trivial
  | failed => exact h

/-- The one refresh under way goes on. -/
theorem Sound.move (hs : Sound py s) {r r' : Refresh} {client : Client}
    (hk : s.refreshes[k]? = some r) (hway : r.underWay = true)
    (hserved : Served { s.setRefresh k r' with client := client })
    (hstands : Stands py s.served client r')
    (hreturned : ∀ since registry, r' = .returned since registry → client._active = some registry)
    (hreset : r' = .reset → client._active = none) :
    Sound py { s.setRefresh k r' with client := client } := by
  have hlast := hs.last k r hk hway
  have hend : (s.setRefresh k r').refreshes.getLast? = some r' := by
    rw [List.getLast?_eq_getElem?, getElem?_setRefresh]
    have hlength : (s.setRefresh k r').refreshes.length - 1 = k := by
      simp only [System.setRefresh, List.length_set]
      omega
    rw [hlength, if_pos rfl, hk, Option.map_some]
  have hplaces : ∀ (i : Nat) (found : Refresh), (s.setRefresh k r').refreshes[i]? = some found →
      i = k ∧ found = r' ∨ i ≠ k ∧ s.refreshes[i]? = some found := by
    intro i found hi
    rw [getElem?_setRefresh] at hi
    by_cases hik : k = i
    · rw [if_pos hik] at hi
      obtain ⟨_, -, hfound⟩ := Option.map_eq_some_iff.mp hi
      exact Or.inl ⟨hik.symm, hfound.symm⟩
    · rw [if_neg hik] at hi
      exact Or.inr ⟨Ne.symm hik, hi⟩
  refine ⟨hserved, hs.growing, hs.started, fun i found hi hfound => ?_, fun i found hi => ?_,
    fun since registry h => ?_, fun h => ?_⟩
  · have hsame : (s.setRefresh k r').refreshes.length = s.refreshes.length := by
      simp [System.setRefresh]
    rcases hplaces i found hi with ⟨rfl, -⟩ | ⟨-, hold⟩
    · exact hlast.trans hsame.symm
    · exact (hs.last i found hold hfound).trans hsame.symm
  · rcases hplaces i found hi with ⟨-, rfl⟩ | ⟨hik, hold⟩
    · exact hstands
    · refine stands_of_over ?_ (hs.stands i found hold)
      by_contra hfound
      have := hs.last i found hold (by simpa using hfound)
      omega
  · exact hreturned since registry (Option.some.inj (hend.symm.trans h))
  · exact hreset (Option.some.inj (hend.symm.trans h))

theorem sound_step (hs : Sound py s) (hturn : InTurn s label) (h : step py s label = some s') :
    Sound py s' := by
  have hserved := served_step hs.served h
  cases label with
  | publish snapshot =>
    cases h
    obtain ⟨last, hlast⟩ := Option.isSome_iff_exists.mp (List.getLast?_isSome.mpr hs.started)
    exact ⟨hserved, hs.growing.append hlast (hturn last hlast), by simp, hs.last,
      fun i r hi => (hs.stands i r hi).publish snapshot, hs.returned, hs.reset⟩
  | begin =>
    cases h
    have hplaces : ∀ (i : Nat) (r : Refresh), (s.refreshes ++
        [.sent s.served.length s.client.ifNoneMatch])[i]? = some r →
        s.refreshes[i]? = some r ∨
          i = s.refreshes.length ∧ r = .sent s.served.length s.client.ifNoneMatch := by
      intro i r hi
      rw [List.getElem?_append] at hi
      split at hi
      · exact Or.inl hi
      · rw [List.getElem?_singleton] at hi
        split_ifs at hi
        cases hi
        exact Or.inr ⟨by omega, rfl⟩
    refine ⟨hserved, hs.growing, hs.started, fun i r hi hway => ?_, fun i r hi => ?_,
      fun since registry h => ?_, fun h => ?_⟩
    · rcases hplaces i r hi with hold | ⟨rfl, -⟩
      · have hover := hturn r (List.mem_of_getElem? hold)
        rw [hway] at hover
        cases hover
      · simp
    · rcases hplaces i r hi with hold | ⟨-, rfl⟩
      · exact hs.stands i r hold
      · exact ⟨Nat.le_refl _, rfl⟩
    · rw [List.getLast?_concat] at h
      cases h
    · rw [List.getLast?_concat] at h
      cases h
  | answer k =>
    simp only [step] at h
    split at h
    · rename_i since ifNoneMatch snapshot hsent hlast
      cases h
      obtain ⟨hsince, rfl⟩ := hs.stands k _ hsent
      refine hs.move hsent rfl hserved (Or.inl ⟨snapshot, inForceSince_last hlast hsince, ?_⟩)
        (fun _ _ h => (nomatch h)) fun h => (nomatch h)
      exact receive_get hs.growing (List.mem_of_getLast? hlast) hs.served.cached
    · cases h
  | refuse k status body =>
    simp only [step] at h
    split at h
    · rename_i since ifNoneMatch hsent
      split_ifs at h with hother
      cases h
      rw [not_or] at hother
      exact hs.move hsent rfl hserved (Or.inr (receive_refused hother.1 hother.2))
        (fun _ _ h => (nomatch h)) fun h => (nomatch h)
    · cases h
  | lose k =>
    simp only [step] at h
    split at h
    · rename_i since ifNoneMatch hsent
      cases h
      exact hs.move hsent rfl hserved trivial (fun _ _ h => (nomatch h)) fun h => (nomatch h)
    · cases h
  | receive k =>
    simp only [step] at h
    split at h
    · rename_i since response hanswered
      cases h
      rcases hs.stands k _ hanswered with ⟨snapshot, hforce, hreceive⟩ | ⟨message, hreceive⟩
      · rw [hreceive] at hserved ⊢
        refine hs.move hanswered rfl hserved ⟨snapshot, hforce, rfl⟩ (fun _ _ h => ?_)
          fun h => (nomatch h)
        cases h
        rfl
      · rw [hreceive] at hserved ⊢
        exact hs.move hanswered rfl hserved trivial (fun _ _ h => (nomatch h))
          fun h => (nomatch h)
    · cases h
  | reset k =>
    simp only [step] at h
    split at h
    · rename_i hraised
      cases h
      exact hs.move hraised rfl hserved trivial (fun _ _ h => (nomatch h)) fun _ => rfl
    · cases h

/-! ## The law -/

/-- Whatever refreshes overlap, the policy in force is none or one that the API served. While
they do not overlap and each policy has a later revision than the one before, a refresh that
returns leaves the gate deciding by a policy that the API had in force during it, and one that
raises leaves a gate that allows nothing. -/
theorem a_refresh_puts_in_force_what_the_api_has (py : Conversions) (first : Snapshot)
    (s : System) (hrun : Reaches (step py) anyStep (started first) s) :
    (∀ registry, s.client._active = some registry →
      ∃ snapshot ∈ s.served, registry = snapshot.read) ∧
    (Reaches (step py) InTurn (started first) s → ∀ last, s.refreshes.getLast? = some last →
      last ≠ .failed ∧
      (∀ since registry, last = .returned since registry → ∃ snapshot,
        InForceSince s.served since snapshot ∧ ∀ id permissions approval,
          ((evaluate_capability s.active id permissions approval).allowed = true ↔
            Admits snapshot.data permissions id ∧
              (NeedsApproval snapshot.data id → approval = true))) ∧
      (last = .reset → ∀ id permissions approval,
        (evaluate_capability s.active id permissions approval).allowed = false)) := by
  refine ⟨(hrun.invariant (served_started first) fun _ _ _ hs _ h => served_step hs h).active, ?_⟩
  intro hturns last hlast
  have hs : Sound py s :=
    hturns.invariant (sound_started first) fun _ _ _ hs hturn h => sound_step hs hturn h
  have hstands := hs.stands _ last (by rw [List.getLast?_eq_getElem?] at hlast; exact hlast)
  refine ⟨fun h => ?_, fun since registry h => ?_, fun h id permissions approval => ?_⟩
  · rw [h] at hstands
    exact hstands
  · rw [h] at hstands hlast
    obtain ⟨snapshot, hforce, rfl⟩ := hstands
    have hactive := hs.returned since _ hlast
    have hgate : s.active = registry_from_payload snapshot.data := by
      unfold System.active
      rw [hactive]
      rfl
    refine ⟨snapshot, hforce, fun id permissions approval => ?_⟩
    rw [hgate]
    exact evaluate_capability_allowed_iff snapshot.data id permissions approval
  · rw [h] at hlast
    have hgate : s.active = none := by
      unfold System.active
      rw [hs.reset hlast]
      rfl
    rw [hgate]
    rfl

/-- A policy of one capability that is on or off. -/
def policy (revision : Nat) (enabled : Bool) : Snapshot where
  data := ⟨revision, ["support"], [⟨"sales.list", "tool", "read", "low", false, false, enabled,
    false, true, ["read-sales"]⟩]⟩
  rolePermissions := [("support", ["read-sales"])]
  rest := []

def noConversions : Conversions := ⟨fun _ => "", fun _ => none⟩

def Refresh.returnedSince (n : Nat) : Refresh → Bool
  | .returned since _ => since = n
  | .sent _ _ | .answered _ _ | .raised | .reset | .failed => false

/-- The policy is read and revalidated, and switched off while a third refresh is on its way. -/
def inTurn : List Label :=
  [.begin, .answer 0, .receive 0, .begin, .answer 1, .receive 1, .begin,
    .publish (policy 2 false), .answer 2, .receive 2]

theorem along_inTurn :
    Along (step noConversions) InTurn (started (policy 1 true)) inTurn := by decide +kernel

/-- After the third refresh the capability is not allowed, as the API had it by then. -/
theorem a_capability_is_switched_off :
    ∃ s snapshot, Reaches (step noConversions) InTurn (started (policy 1 true)) s ∧
      InForceSince s.served 1 snapshot ∧ ¬ Admits snapshot.data ["read-sales"] "sales.list" := by
  obtain ⟨s, hrun, hlast, hdenied⟩ := exists_reaches (P := fun s : System =>
      s.refreshes.getLast?.any (Refresh.returnedSince 1) = true ∧
        (evaluate_capability s.active "sales.list" ["read-sales"] true).allowed = false)
    (by decide +kernel) along_inTurn
  obtain ⟨last, hsome, hreturned⟩ := (Option.any_eq_true _ _).mp hlast
  obtain ⟨registry, rfl⟩ : ∃ registry, last = .returned 1 registry := by
    cases last with
    | returned since registry => exact ⟨registry, by simpa [Refresh.returnedSince] using hreturned⟩
    | sent _ _ | answered _ _ | raised | reset | failed => cases hreturned
  obtain ⟨-, hturns⟩ := a_refresh_puts_in_force_what_the_api_has noConversions (policy 1 true) s
    (hrun.mono fun _ _ _ => trivial)
  obtain ⟨-, hgate, -⟩ := hturns hrun _ hsome
  obtain ⟨snapshot, hforce, hdecides⟩ := hgate 1 registry rfl
  refine ⟨s, snapshot, hrun, hforce, fun hadmits => ?_⟩
  rw [(hdecides "sales.list" ["read-sales"] true).mpr ⟨hadmits, fun _ => rfl⟩] at hdenied
  cases hdenied

def overlapping : List Label :=
  [.begin, .begin, .answer 0, .publish (policy 2 false), .answer 1, .receive 1, .receive 0]

theorem along_overlapping :
    Along (step noConversions) anyStep (started (policy 1 true)) overlapping :=
  along_anyStep _ _

/-- Two refreshes overlap, and the answer to the first comes last: it brings back the policy of
before, after the second refresh had returned the one that denies the capability. -/
theorem an_overtaken_answer_brings_back_an_older_policy :
    ∃ s, Reaches (step noConversions) anyStep (started (policy 1 true)) s ∧
      (s.refreshes.map fun refresh => match refresh with
        | .returned _ registry => some registry.revision
        | _ => none) = [some 1, some 2] ∧
      (evaluate_capability s.active "sales.list" ["read-sales"] false).allowed = true :=
  exists_reaches (by decide +kernel) along_overlapping

end Python

end nova.registry_client
