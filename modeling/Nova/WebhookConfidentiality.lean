-- Where webhook requests go and what they carry (nova_orchestrator/webhooks.py): a row keeps the
-- destination that it was enqueued with, and a request is sent by the configuration as it is
-- now. The laws say which sends keep the two together and are authenticated.
import Nova.WebhookLifecycle

namespace nova.webhook_confidentiality

open labelled_runs nova.webhooks nova.webhook_lifecycle

variable {py : Python} {s t : State} {k : Nat} {call : Call} {p : Post} {l : Label}

/-! ## Requests that are as they should be -/

def signs (config : WebhookAuthConfig) : Bool :=
  config.auth_type = "hmac" || config.auth_type = "bearer_hmac"

def bears (config : WebhookAuthConfig) : Bool :=
  config.auth_type = "bearer" || config.auth_type = "bearer_hmac"

/-- The secret that a configuration signs with in an environment. -/
def signing_secret (py : Python) (environ : Environ) (config : WebhookAuthConfig) : Option String :=
  truthy (resolve_secret py environ config.hmac_secret_ref)

/-- The token of a configuration is the one under its own reference: the secret of the process,
to which `resolve_secret` falls back, signs and is no token. -/
def bearer_token (py : Python) (environ : Environ) (config : WebhookAuthConfig) : Option String :=
  from_ref py environ config.token_secret_ref

/-- A request goes where its rows say, with the signature and the token of its configuration in
the environment that it was sent in. -/
structure Confidential (py : Python) (s : State) (p : Post) : Prop where
  url : ∀ d ∈ s.deliveries, d.id ∈ p.ids → p.url = d.destination_url
  signature : signs p.config = true → ∃ secret, signing_secret py p.environ p.config = some secret ∧
    ("X-Nova-Signature", "v1=" ++ sign_body py secret p.timestamp p.batch_id p.body) ∈ p.headers
  token : bears p.config = true → ∃ token, bearer_token py p.environ p.config = some token ∧
    ("Authorization", "Bearer " ++ token) ∈ p.headers

/-- The configuration of the chunk still has the destination of its rows, and the secrets that it
needs are there. -/
def Ready (py : Python) (environ : Environ) (chunk : Chunk) : Prop :=
  (∀ pair ∈ chunk.pairs, chunk.config.destination_url = pair.1.destination_url) ∧
  (signs chunk.config = true → (signing_secret py environ chunk.config).isSome = true) ∧
  (bears chunk.config = true → (bearer_token py environ chunk.config).isSome = true)

instance (py : Python) (environ : Environ) (chunk : Chunk) : Decidable (Ready py environ chunk) :=
  inferInstanceAs (Decidable (_ ∧ _ ∧ _))

/-- A send is of a chunk that is ready. -/
def SendsReady (py : Python) (s : State) : Label → Prop
  | .send k _ _ _ _ => ∀ call ∈ s.call k, ∀ chunk ∈ call.chunks.head?, Ready py s.environ chunk
  | _ => True

instance (py : Python) (s : State) : (l : Label) → Decidable (SendsReady py s l)
  | .send k _ _ _ _ => inferInstanceAs
      (Decidable (∀ call ∈ s.call k, ∀ chunk ∈ call.chunks.head?, Ready py s.environ chunk))
  | .setConfigs _ | .setEvents _ | .setEnviron _ | .enqueue _ _ _ | .claim _ _ _ _ | .openGroup _
  | .commit _ => isTrue trivial

/-! ## Headers -/

/-- What is found under a reference is what the reference resolves to. -/
theorem resolve_of_from_ref {environ : Environ} {secret_ref : Option String} {found : String}
    (h : from_ref py environ secret_ref = some found) :
    truthy (resolve_secret py environ secret_ref) = some found := by
  have hfound : found ≠ "" := by
    obtain ⟨ref, -, hvalue⟩ := Option.bind_eq_some_iff.mp h
    simpa using (Option.filter_eq_some_iff.mp hvalue).2
  unfold resolve_secret truthy
  simp [h, hfound]

/-- A header that a request has when a secret is there, and that has a name of its own. -/
theorem secret_header_mem {need : Bool} {secret : Option String} {name value : String}
    {line : String → String} {fixed rest : List (String × String)}
    (hfixed : ∀ v, (name, v) ∉ fixed) (hrest : ∀ v, (name, v) ∉ rest) :
    (name, value) ∈ fixed ++ (if need then (secret.map fun s => (name, line s)).toList else []) ++
        rest ↔ need = true ∧ ∃ s, secret = some s ∧ value = line s := by
  rw [List.mem_append, List.mem_append, or_iff_left (hrest value), or_iff_right (hfixed value)]
  cases need with
  | false => simp
  | true =>
    cases secret with
    | none => simp
    | some s => simp

theorem signature_mem {environ : Environ} {config : WebhookAuthConfig}
    {batch_id body value : String} {n : Nat} {now : Int} :
    ("X-Nova-Signature", value) ∈ batch_headers py environ config batch_id n body now ↔
      signs config = true ∧ ∃ secret, truthy (resolve_secret py environ config.hmac_secret_ref) =
        some secret ∧
        value = "v1=" ++ sign_body py secret (toString (now / 1000000)) batch_id body := by
  unfold batch_headers
  apply secret_header_mem
  · intro v
    simp
  · intro v hv
    split at hv
    · simp at hv
    · cases hv

theorem token_mem {environ : Environ} {config : WebhookAuthConfig}
    {batch_id body value : String} {n : Nat} {now : Int} :
    ("Authorization", value) ∈ batch_headers py environ config batch_id n body now ↔
      bears config = true ∧ ∃ token, truthy (resolve_secret py environ config.token_secret_ref) =
        some token ∧ value = "Bearer " ++ token := by
  unfold batch_headers
  rw [← List.append_nil (_ ++ _ : List (String × String))]
  apply secret_header_mem
  · intro v hv
    rcases List.mem_append.mp hv with hfixed | hsigned
    · simp at hfixed
    · split at hsigned
      · obtain ⟨secret, -, heq⟩ := Option.map_eq_some_iff.mp (Option.mem_toList.mp hsigned)
        simp at heq
      · cases hsigned
  · intro v
    exact List.not_mem_nil

/-- A request has the header that its configuration needs when the secret for it is there. -/
theorem needed_iff {need : Bool} {own : Option String} {headers : List (String × String)}
    {name : String} {line : String → String}
    (h : ∀ secret, own = some secret → need = true → (name, line secret) ∈ headers) :
    (need = true → ∃ secret, own = some secret ∧ (name, line secret) ∈ headers) ↔
      (need = true → own.isSome = true) := by
  constructor
  · intro hheader hneed
    obtain ⟨secret, hs, -⟩ := hheader hneed
    rw [hs]
    rfl
  · intro hown hneed
    obtain ⟨secret, hs⟩ := Option.isSome_iff_exists.mp (hown hneed)
    exact ⟨secret, hs, h secret hs hneed⟩

/-! ## Destinations -/

/-- The destination of a row is that of its id. -/
def destination (d : WebhookDelivery) : String × String := (d.id, d.destination_url)

def destinations (rows : List WebhookDelivery) : List (String × String) := rows.map destination

/-- The sessions have the destinations of the table. -/
structure Recorded (s : State) : Prop where
  lifecycle : Lifecycle s
  rows : ∀ k call, s.call k = some call → ∀ row ∈ destinations call.rows,
    row ∈ destinations s.deliveries

theorem destinations_change {f : WebhookDelivery → WebhookDelivery}
    (hf : ∀ d, destination (f d) = destination d) (ids : List String)
    (rows : List WebhookDelivery) : destinations (change ids f rows) = destinations rows := by
  unfold destinations change
  rw [List.map_map]
  apply List.map_congr_left
  intro d _
  rw [Function.comp_apply]
  split
  · exact hf d
  · rfl

theorem destination_mark (d : WebhookDelivery) (reason : String) :
    destination (mark_dead_letter d reason) = destination d := rfl

theorem destination_schedule (d : WebhookDelivery) (reason : String) (now : Int) :
    destination (schedule_retry_or_dead_letter d reason now) = destination d := by
  unfold schedule_retry_or_dead_letter
  split <;> rfl

theorem destination_send (outcome : Outcome) (now : Int) (d : WebhookDelivery) :
    destination (send_delivery outcome now d) = destination d := by
  unfold send_delivery
  cases outcome with
  | raised exception => exact destination_schedule _ _ _
  | status code =>
    dsimp only
    split
    · rfl
    · split
      · rfl
      · exact destination_schedule _ _ _

theorem destinations_open_group (s : State) (call : Call) (group : List WebhookDelivery)
    (lead : WebhookDelivery) :
    destinations (open_group s call group lead).1.rows = destinations call.rows := by
  unfold open_group
  split
  · exact destinations_change (fun d => destination_mark d _) _ _
  · exact destinations_change (fun d => destination_mark d _) _ _

theorem mem_destinations_committed (h : ∀ row ∈ destinations call.rows,
    row ∈ destinations s.deliveries) (hids : (idsOf s.deliveries).Nodup) :
    destinations (s.deliveries.map (committedRow call)) = destinations s.deliveries := by
  unfold destinations
  rw [List.map_map]
  apply List.map_congr_left
  intro d hd
  rw [Function.comp_apply]
  by_cases hid : d.id ∈ idsOf call.rows
  · have hmem := h _ (List.mem_map_of_mem (committedRow_mem hid))
    obtain ⟨d', hd', heq⟩ := List.mem_map.mp hmem
    have hsame : d' = d := eq_of_id hids hd' hd
      ((congrArg Prod.fst heq).trans (committedRow_id call d))
    rw [← heq, hsame]
  · rw [committedRow_of_not hid]

/-! ## Steps -/

/-- A call that changes its rows and not their destinations. -/
theorem rows_of_setCall {call' : Call} (h : ∀ k call, s.call k = some call →
      ∀ row ∈ destinations call.rows, row ∈ destinations s.deliveries)
    (hcall : s.call k = some call) (hrows : destinations call'.rows = destinations call.rows)
    (hcalls : t.calls = (s.setCall k (some call')).calls) (hdeliveries : t.deliveries = s.deliveries) :
    ∀ j c, t.call j = some c → ∀ row ∈ destinations c.rows, row ∈ destinations t.deliveries := by
  intro j c hc row hrow
  rw [call_of_calls hcalls] at hc
  rw [hdeliveries]
  by_cases hj : j = k
  · subst hj
    rw [call_setCall_self hcall, Option.some.injEq] at hc
    rw [← hc, hrows] at hrow
    exact h j call hcall row hrow
  · rw [call_setCall_ne hj] at hc
    exact h j c hc row hrow

theorem recorded_step (h : Recorded s) (hs : step py s l = some t) : Recorded t := by
  refine ⟨(step_keeps h.lifecycle hs).1, ?_⟩
  cases l with
  | setConfigs configs =>
    cases hs
    exact h.rows
  | setEvents events =>
    cases hs
    exact h.rows
  | setEnviron environ =>
    cases hs
    exact h.rows
  | enqueue event id now =>
    rcases enqueue_cases hs with rfl | ⟨config, -, -, rfl⟩
    · exact h.rows
    · intro j c hc row hrow
      rw [destinations, List.map_append]
      exact List.mem_append_left _ (h.rows j c hc row hrow)
  | claim now start limit scan =>
    obtain ⟨hscan, rfl⟩ := claim_cases hs
    intro j c hc row hrow
    rcases (call_of_append rfl).mp hc with hold | ⟨-, rfl⟩
    · exact h.rows j c hold row hrow
    · obtain ⟨d, hd, rfl⟩ := List.mem_map.mp hrow
      exact List.mem_map_of_mem (hscan.subset (mem_claimed hd).1)
  | openGroup k =>
    obtain ⟨call, lead, others, groups, hcall, -, -, rfl⟩ := openGroup_cases hs
    refine rows_of_setCall h.rows hcall ?_ rfl rfl
    exact destinations_open_group s { call with groups := groups } (lead :: others) lead
  | send k batch_id sent outcome now =>
    obtain ⟨call, chunk, chunks, hcall, -, -, -, rfl⟩ := send_cases hs
    refine rows_of_setCall h.rows hcall ?_ rfl rfl
    exact destinations_change (fun d => destination_send outcome (now d.id) d) _ _
  | commit k =>
    obtain ⟨call, hcall, -, -, rfl⟩ := commit_cases hs
    intro j c hc row hrow
    rw [mem_destinations_committed (h.rows k call hcall) h.lifecycle.ids]
    by_cases hj : j = k
    · subst hj
      have hnone : (s.setCall j none).call j = some c := hc
      rw [call_setCall_self hcall] at hnone
      cases hnone
    · have hsame : (s.setCall k none).call j = some c := hc
      rw [call_setCall_ne hj] at hsame
      exact h.rows j c hsame row hrow

/-- Whether a request is confidential is decided by the destinations of its rows. -/
theorem confidential_of_destinations (h : ∀ row, row.1 ∈ p.ids →
    (row ∈ destinations t.deliveries ↔ row ∈ destinations s.deliveries)) :
    Confidential py t p ↔ Confidential py s p := by
  have hrow : ∀ {a b : State}, (∀ row, row.1 ∈ p.ids → row ∈ destinations b.deliveries →
      row ∈ destinations a.deliveries) → Confidential py a p → Confidential py b p := by
    intro a b hsub hp
    refine ⟨fun d hd hid => ?_, hp.signature, hp.token⟩
    obtain ⟨d', hd', heq⟩ := List.mem_map.mp (hsub (destination d) hid (List.mem_map_of_mem hd))
    have hfst : d'.id = d.id := congrArg Prod.fst heq
    have hsnd : d'.destination_url = d.destination_url := congrArg Prod.snd heq
    rw [← hsnd]
    exact hp.url d' hd' (hfst ▸ hid)
  exact ⟨hrow fun row hid => (h row hid).mpr, hrow fun row hid => (h row hid).mp⟩

theorem confidential_new (h : Recorded s) (hcall : s.call k = some call) {chunk : Chunk}
    {chunks : List Chunk} (hchunks : call.chunks = chunk :: chunks) (batch_id : String) (sent : Int)
    (outcome : Outcome) (now : String → Int) :
    Confidential py s (send_chunk py s.environ k { call with chunks := chunks } chunk batch_id sent
      outcome now).2 ↔ Ready py s.environ chunk := by
  have hpair : ∀ pair ∈ chunk.pairs, ∃ d ∈ s.deliveries, destination d = destination pair.1 := by
    intro pair hpair
    have htodo : pair.1 ∈ todo call := by
      unfold todo
      rw [hchunks, List.flatMap_cons]
      exact List.mem_append_right _ (List.mem_append_left _ (List.mem_map_of_mem hpair))
    have hrow := ((h.lifecycle.working k call hcall).untouched pair.1 htodo).1
    exact List.mem_map.mp (h.rows k call hcall _ (List.mem_map_of_mem hrow))
  have hurl : (∀ d ∈ s.deliveries, d.id ∈ chunk.ids →
      chunk.config.destination_url = d.destination_url) ↔
      ∀ pair ∈ chunk.pairs, chunk.config.destination_url = pair.1.destination_url := by
    constructor
    · intro hall pair hmem
      obtain ⟨d, hd, heq⟩ := hpair pair hmem
      have hfst : d.id = pair.1.id := congrArg Prod.fst heq
      have hsnd : d.destination_url = pair.1.destination_url := congrArg Prod.snd heq
      rw [← hsnd]
      exact hall d hd (hfst ▸ List.mem_map_of_mem hmem)
    · intro hall d hd hid
      obtain ⟨pair, hmem, hsame⟩ := List.mem_map.mp hid
      obtain ⟨d', hd', heq⟩ := hpair pair hmem
      have hfst : d'.id = pair.1.id := congrArg Prod.fst heq
      have hsnd : d'.destination_url = pair.1.destination_url := congrArg Prod.snd heq
      rw [← eq_of_id h.lifecycle.ids hd' hd (hfst.trans hsame), hsnd]
      exact hall pair hmem
  constructor
  · intro hp
    exact ⟨hurl.mp hp.url,
      (needed_iff fun secret hs hneed => signature_mem.mpr ⟨hneed, secret, hs, rfl⟩).mp hp.signature,
      (needed_iff fun token ht hneed =>
        token_mem.mpr ⟨hneed, token, resolve_of_from_ref ht, rfl⟩).mp hp.token⟩
  · rintro ⟨hsame, hsecret, hown⟩
    exact ⟨hurl.mpr hsame,
      (needed_iff fun secret hs hneed => signature_mem.mpr ⟨hneed, secret, hs, rfl⟩).mpr hsecret,
      (needed_iff fun token ht hneed =>
        token_mem.mpr ⟨hneed, token, resolve_of_from_ref ht, rfl⟩).mpr hown⟩

/-- A step keeps the requests confidential exactly when it sends none that is not. -/
theorem confidential_step (h : Recorded s) (hs : step py s l = some t) :
    (∀ p ∈ t.posts, Confidential py t p) ↔
      (∀ p ∈ s.posts, Confidential py s p) ∧ SendsReady py s l := by
  have hold : t.posts = s.posts → destinations t.deliveries = destinations s.deliveries →
      SendsReady py s l → ((∀ p ∈ t.posts, Confidential py t p) ↔
        (∀ p ∈ s.posts, Confidential py s p) ∧ SendsReady py s l) := by
    intro hposts hsame hready
    rw [hposts, and_iff_left hready]
    exact forall₂_congr fun p _ => confidential_of_destinations fun row _ => by rw [hsame]
  cases l with
  | setConfigs configs =>
    cases hs
    exact hold rfl rfl trivial
  | setEvents events =>
    cases hs
    exact hold rfl rfl trivial
  | setEnviron environ =>
    cases hs
    exact hold rfl rfl trivial
  | enqueue event id now =>
    rcases enqueue_cases hs with rfl | ⟨config, -, hid, rfl⟩
    · exact hold rfl rfl trivial
    · rw [and_iff_left (show SendsReady py s (.enqueue event id now) from trivial)]
      -- no request carried the new row
      refine forall₂_congr fun p hp => confidential_of_destinations fun row hmem => ?_
      rw [destinations, List.map_append, List.mem_append, or_iff_left]
      · rfl
      · intro hnew
        rw [List.map_singleton, List.mem_singleton] at hnew
        rw [hnew] at hmem
        exact hid ((h.lifecycle.posts p hp).rows id hmem)
  | claim now start limit scan =>
    obtain ⟨-, rfl⟩ := claim_cases hs
    exact hold rfl rfl trivial
  | openGroup k =>
    obtain ⟨call, lead, others, groups, -, -, -, rfl⟩ := openGroup_cases hs
    exact hold rfl rfl trivial
  | send k batch_id sent outcome now =>
    obtain ⟨call, chunk, chunks, hcall, hchunks, -, -, ht⟩ := send_cases hs
    have hready : SendsReady py s (.send k batch_id sent outcome now) ↔
        Ready py s.environ chunk := by
      simp [SendsReady, hcall, hchunks]
    rw [hready, ← confidential_new h hcall hchunks batch_id sent outcome now]
    generalize hnew : (send_chunk py s.environ k { call with chunks := chunks } chunk batch_id sent
      outcome now).2 = p at ht ⊢
    have hposts : t.posts = s.posts ++ [p] := by rw [ht]
    have hdeliveries : t.deliveries = s.deliveries := by
      rw [ht]
      rfl
    have hsame : ∀ p, Confidential py t p ↔ Confidential py s p := fun p =>
      confidential_of_destinations fun row _ => by rw [hdeliveries]
    rw [hposts]
    simp only [hsame, List.forall_mem_append, List.forall_mem_singleton]
  | commit k =>
    obtain ⟨call, hcall, -, -, rfl⟩ := commit_cases hs
    exact hold rfl (mem_destinations_committed (h.rows k call hcall) h.lifecycle.ids) trivial

/-! ## Runs -/

/-- All requests of a run go where their rows say, with the authentication that their
configuration needs, exactly when each send finds a configuration with the destination of its rows
and the secrets that it needs: one to sign with, and a token under its own reference. -/
theorem requests_are_confidential_when_their_sends_are_ready {start : State} (h : Fresh start)
    {ls : List Label} (hr : runAll (step py) start ls = some s) :
    (∀ p ∈ s.posts, Confidential py s p) ↔ Along (step py) (SendsReady py) start ls := by
  have hrecorded : Recorded start := by
    refine ⟨lifecycle_of_fresh h, fun k call hcall => ?_⟩
    have hlt := call_lt hcall
    rw [h.calls] at hlt
    cases hlt
  have hnone : ∀ p ∈ start.posts, Confidential py start p := fun p hp => by
    rw [h.posts] at hp
    cases hp
  have hiff := along_iff (P := fun s => ∀ p ∈ s.posts, Confidential py s p) hrecorded
    (fun u l v hu hv => ⟨recorded_step hu hv, confidential_step hu hv⟩) hr
  exact hiff.trans (and_iff_right hnone)

def bearerHook : WebhookAuthConfig :=
  { hook with auth_type := "bearer", token_secret_ref := some "kv://t/1" }

/-- The environment has a token under the reference of the configuration. -/
def withToken : Environ := fun name =>
  if name = "WEBHOOK_SECRET__KV___T_1" then some "token-1" else none

def downOnceWithToken : List Label := [.setConfigs [bearerHook], .setEnviron withToken] ++ downOnce

theorem a_batch_sent_twice_is_confidential :
    ∃ s, runAll (step asciiPython) hooked downOnceWithToken = some s ∧
      s.posts.map Post.ids = [["d1", "d2"], ["d1", "d2"]] ∧
      (∀ p ∈ s.posts, ("Authorization", "Bearer token-1") ∈ p.headers) ∧
      ∀ p ∈ s.posts, Confidential asciiPython s p := by
  have hrun : ∃ s ∈ runAll (step asciiPython) hooked downOnceWithToken,
      s.posts.map Post.ids = [["d1", "d2"], ["d1", "d2"]] ∧
        ∀ p ∈ s.posts, ("Authorization", "Bearer token-1") ∈ p.headers := by decide +kernel
  obtain ⟨s, hs, hids, htoken⟩ := hrun
  refine ⟨s, hs, hids, htoken, ?_⟩
  exact (requests_are_confidential_when_their_sends_are_ready ⟨rfl, rfl, rfl, rfl⟩ hs).mpr
    (by decide +kernel)

/-! ## A destination that is edited, and a secret that is missing -/

def signedHook : WebhookAuthConfig := { hook with auth_type := "hmac" }

/-- A token is asked for, and no reference says which. -/
def tokenlessHook : WebhookAuthConfig := { hook with auth_type := "bearer" }

/-- The process has its HMAC secret. -/
def withHmacSecret : Environ := fun name =>
  if name = "WEBHOOK_HMAC_SECRET" then some "hmac-secret" else none

def editedHook : WebhookAuthConfig := { hook with destination_url := "https://elsewhere.example/" }

def firstRow : List WebhookDelivery := [rowAt "d1" "evt-1" 0 0 none]

/-- The owner edits the configuration between the enqueue and the dispatch. -/
def editedBetween (config : WebhookAuthConfig) : List Label :=
  [.enqueue (toolCall "evt-1" 1) "d1" 0, .setConfigs [config], .claim none 10 200 firstRow,
    .openGroup 0, .send 0 "batch-1" 11 (.status 200) (fun _ => 12), .commit 0]

/-- An edit of the destination sends the old row to the new one, a configuration that asks for a
signature is served without one where its secret is missing, and one without a reference for its
token gets the HMAC secret of the process posted as its token. -/
theorem a_request_is_not_always_confidential :
    (∃ s, Reaches (step asciiPython) anyStep hooked s ∧
      ∃ p ∈ s.posts, ¬ ∀ d ∈ s.deliveries, d.id ∈ p.ids → p.url = d.destination_url) ∧
    (∃ s, Reaches (step asciiPython) anyStep hooked s ∧
      ∃ p ∈ s.posts, signs p.config = true ∧ ¬ ∃ value, ("X-Nova-Signature", value) ∈ p.headers) ∧
    ∃ s, Reaches (step asciiPython) anyStep hooked s ∧
      ∃ p ∈ s.posts, bears p.config = true ∧ p.config.token_secret_ref = none ∧
        ("Authorization", "Bearer hmac-secret") ∈ p.headers := by
  have hsigned : ∃ s, Reaches (step asciiPython) anyStep hooked s ∧
      ∃ p ∈ s.posts, signs p.config = true ∧ "X-Nova-Signature" ∉ p.headers.map Prod.fst :=
    exists_reaches (by decide +kernel) (along_anyStep hooked (editedBetween signedHook))
  refine ⟨exists_reaches (by decide +kernel) (along_anyStep hooked (editedBetween editedHook)), ?_,
    exists_reaches (by decide +kernel)
      (along_anyStep hooked (.setEnviron withHmacSecret :: editedBetween tokenlessHook))⟩
  obtain ⟨s, hr, p, hp, hneed, hnone⟩ := hsigned
  refine ⟨s, hr, p, hp, hneed, ?_⟩
  rintro ⟨value, hmem⟩
  exact hnone (List.mem_map_of_mem hmem)

end nova.webhook_confidentiality
