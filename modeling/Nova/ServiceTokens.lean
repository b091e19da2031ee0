-- The tokens with which the services call one another (auth/service-token-client.ts, and tokens.py
-- of both Python planes): a cache by the audience that a token is for, in front of the identity
-- provider. Calls overlap. The law says for whom a token that is handed out was issued, how long
-- it lives on, and that one that was turned down does not come back.
import Mathlib.Data.List.Nodup
import Mathlib.Logic.Function.Basic
import Nova.Runs

namespace nova.service_tokens

open labelled_runs

/-! ## The client -/

/-- A client of either kind; that of the API asks with the scope it was configured with. Times are
in milliseconds. -/
structure Config where
  client_secret : String
  /-- The Python client raises where it has no secret. -/
  checksSecret : Bool
  default_scope : Option String
  request_audience_scopes : Bool
  expirySkewMs : Int

def EXPIRY_SKEW_MS : Int := 15000

def requestedScope (config : Config) (scope : Option String) : Option String :=
  scope.or config.default_scope

/-- What the body of the request carries as `scope`. -/
def forwardedScope (config : Config) (requested : Option String) : Option String :=
  requested.filter fun scope => scope ≠ "" && config.request_audience_scopes

structure Cached where
  value : String
  expiresAt : Int

abbrev Cache := Option String → Option Cached

/-- `expires_in`, in seconds, or a minute -/
def lifetimeMs (expires_in : Option Nat) : Int := expires_in.getD 60 * 1000

def invalidate (config : Config) (cache : Cache) (scope : Option String) : Cache :=
  if scope.isNone && config.default_scope.isNone then fun _ => none
  else Function.update cache (requestedScope config scope) none

/-! ## The steps -/

/-- A token as the identity provider issued it, in answer to the call with the number, which asked
for it under the key. -/
structure Issued where
  number : Nat
  requested : Option String
  scope : Option String
  value : String
  issuedAt : Int
  expires_in : Option Nat

/-- A call of `get_token` that asks the identity provider. No step reads what was turned down
before it came. -/
structure Call where
  number : Nat
  scope : Option String
  now : Int
  turnedDown : List String
  answer : Option Issued

/-- A token that a call returned. -/
structure HandedOut where
  number : Nat
  scope : Option String
  now : Int
  turnedDown : List String
  value : String

structure System where
  clock : Int
  cache : Cache
  calls : List Call
  issued : List Issued
  handedOut : List HandedOut
  turnedDown : List String

def started (clock : Int) : System := ⟨clock, fun _ => none, [], [], [], []⟩

/-- The cached token, if it is not about to expire. -/
def live (config : Config) (s : System) (requested : Option String) : Option Cached :=
  (s.cache requested).filter fun cached => s.clock < cached.expiresAt - config.expirySkewMs

def numberTaken (s : System) (number : Nat) : Bool :=
  (s.calls.any fun c => c.number = number) || s.handedOut.any fun h => h.number = number

/-- The call is over. -/
def System.without (s : System) (number : Nat) : System :=
  { s with calls := s.calls.filter fun c => c.number ≠ number }

/-- A call comes and returns a cached token or asks for one; the identity provider issues one; the
answer arrives; a request fails or is answered without a token; and a token that was handed out is
turned down with a 401, on which the caller drops it. -/
inductive Label where
  | tick (ms : Nat)
  | get_token (number : Nat) (scope : Option String)
  | issue (number : Nat) (value : String) (expires_in : Option Nat)
  | receive (number : Nat)
  | fail (number : Nat)
  | turnDown (number : Nat)

def get_token (config : Config) (s : System) (number : Nat) (scope : Option String) : System :=
  match live config s (requestedScope config scope) with
  | some cached =>
    { s with handedOut := s.handedOut ++ [⟨number, scope, s.clock, s.turnedDown, cached.value⟩] }
  | none =>
    if config.checksSecret && config.client_secret = "" then s
    else { s with calls := s.calls ++ [⟨number, scope, s.clock, s.turnedDown, none⟩] }

def issue (config : Config) (s : System) (call : Call) (value : String) (expires_in : Option Nat) :
    System :=
  let requested := requestedScope config call.scope
  let token : Issued :=
    ⟨call.number, requested, forwardedScope config requested, value, s.clock, expires_in⟩
  { s with
    issued := s.issued ++ [token]
    calls := s.calls.map fun c =>
      if c.number = call.number then { c with answer := some token } else c }

/-- An answer without a token is no answer. -/
def receive (config : Config) (s : System) (call : Call) (token : Issued) : System :=
  if token.value = "" then s.without call.number
  else
    { s.without call.number with
      cache := Function.update s.cache (requestedScope config call.scope)
        (some ⟨token.value, call.now + lifetimeMs token.expires_in⟩)
      handedOut := s.handedOut ++
        [⟨call.number, call.scope, call.now, call.turnedDown, token.value⟩] }

def turnDown (config : Config) (s : System) (h : HandedOut) : System :=
  { s with
    cache := invalidate config s.cache h.scope
    turnedDown := s.turnedDown ++ [h.value] }

def System.find (s : System) (number : Nat) : Option Call :=
  s.calls.find? fun c => c.number = number

/-- The values that the identity provider issues are new. -/
def step (config : Config) (s : System) : Label → Option System
  | .tick ms => some { s with clock := s.clock + ms }
  | .get_token number scope =>
    if numberTaken s number then none else some (get_token config s number scope)
  | .issue number value expires_in =>
    (s.find number).bind fun call =>
      if call.answer.isSome || s.issued.any fun i => i.value = value then none
      else some (issue config s call value expires_in)
  | .receive number =>
    (s.find number).bind fun call => call.answer.map fun token => receive config s call token
  | .fail number => some (s.without number)
  | .turnDown number =>
    (s.handedOut.find? fun h => h.number = number).map fun h => turnDown config s h

/-! ## The invariant -/

variable {config : Config} {s s' : System}

/-- The key of the cache that a hand-out was for. -/
def HandedOut.requested (config : Config) (h : HandedOut) : Option String :=
  requestedScope config h.scope

/-- The call that returned the token asked for it, or it had more than the skew to live. -/
def Lasts (config : Config) (h : HandedOut) (i : Issued) : Prop :=
  (i.number = h.number ∧ h.now ≤ i.issuedAt) ∨
    h.now + config.expirySkewMs < i.issuedAt + lifetimeMs i.expires_in

def HandedOut.IssuedFor (config : Config) (issued : List Issued) (h : HandedOut) : Prop :=
  ∃ i ∈ issued, i.value = h.value ∧ i.requested = h.requested config ∧ Lasts config h i

/-- A token was handed out. -/
def Known (s : System) (value : String) : Prop := ∃ h ∈ s.handedOut, h.value = value

structure Call.Answered (config : Config) (s : System) (call : Call) (i : Issued) : Prop where
  issued : i ∈ s.issued
  number : i.number = call.number
  requested : i.requested = requestedScope config call.scope
  after : call.now ≤ i.issuedAt
  fresh : ¬ Known s i.value

structure Call.Sound (config : Config) (s : System) (call : Call) : Prop where
  past : call.now ≤ s.clock
  turnedDown : call.turnedDown ⊆ s.turnedDown
  answer : ∀ i, call.answer = some i → call.Answered config s i

structure Cached.Sound (s : System) (requested : Option String) (cached : Cached) : Prop where
  standing : cached.value ∉ s.turnedDown
  known : Known s cached.value
  issue : ∃ i ∈ s.issued, i.value = cached.value ∧ i.requested = requested ∧
    cached.expiresAt ≤ i.issuedAt + lifetimeMs i.expires_in

structure Sound (config : Config) (s : System) : Prop where
  values : (s.issued.map Issued.value).Nodup
  scopes : ∀ i ∈ s.issued, i.scope = forwardedScope config i.requested
  numbers : (s.calls.map Call.number).Nodup
  cached : ∀ requested cached, s.cache requested = some cached → cached.Sound s requested
  calls : ∀ call ∈ s.calls, call.Sound config s
  handedOut : ∀ h ∈ s.handedOut, h.IssuedFor config s.issued ∧ h.value ∉ h.turnedDown
  turnedDown : ∀ value ∈ s.turnedDown, Known s value

theorem sound_started (config : Config) (clock : Int) : Sound config (started clock) where
  values := List.nodup_nil
  scopes := by simp [started]
  numbers := List.nodup_nil
  cached := by simp [started]
  calls := by simp [started]
  handedOut := by simp [started]
  turnedDown := by simp [started]

/-- A token has one issue. -/
theorem Sound.issue_unique (hs : Sound config s) {i j : Issued} (hi : i ∈ s.issued)
    (hj : j ∈ s.issued) (h : i.value = j.value) : i = j :=
  List.inj_on_of_nodup_map hs.values hi hj h

/-! ## The steps of a call -/

theorem Known.mono {value : String} (h : Known s value) (hsub : s.handedOut ⊆ s'.handedOut) :
    Known s' value := by
  obtain ⟨h', hmem, hvalue⟩ := h
  exact ⟨h', hsub hmem, hvalue⟩

theorem Cached.Sound.mono {requested : Option String} {cached : Cached}
    (h : cached.Sound s requested) (hissued : s.issued ⊆ s'.issued)
    (hout : s.handedOut ⊆ s'.handedOut) (hdown : s'.turnedDown = s.turnedDown) :
    cached.Sound s' requested := by
  obtain ⟨hstanding, hknown, i, hi, hrest⟩ := h
  refine ⟨?_, hknown.mono hout, i, hissued hi, hrest⟩
  rw [hdown]
  exact hstanding

theorem HandedOut.IssuedFor.mono {issued issued' : List Issued} {h : HandedOut}
    (hh : h.IssuedFor config issued) (hsub : issued ⊆ issued') : h.IssuedFor config issued' := by
  obtain ⟨i, hi, hrest⟩ := hh
  exact ⟨i, hsub hi, hrest⟩

/-- What a call holds stays good, where its answer is not handed out to another. -/
theorem Call.Sound.mono {call : Call} (h : call.Sound config s) (hclock : s.clock ≤ s'.clock)
    (hissued : s.issued ⊆ s'.issued) (hdown : s.turnedDown ⊆ s'.turnedDown)
    (hknown : ∀ i, call.answer = some i → Known s' i.value → Known s i.value) :
    call.Sound config s' := by
  obtain ⟨hpast, hturned, hanswer⟩ := h
  refine ⟨Int.le_trans hpast hclock, List.Subset.trans hturned hdown, fun i hi => ?_⟩
  obtain ⟨hmem, hnumber, hrequested, hafter, hfresh⟩ := hanswer i hi
  exact ⟨hissued hmem, hnumber, hrequested, hafter, fun hk => hfresh (hknown i hi hk)⟩

theorem sound_tick (hs : Sound config s) (ms : Nat) :
    Sound config { s with clock := s.clock + ms } where
  values := hs.values
  scopes := hs.scopes
  numbers := hs.numbers
  cached := fun requested cached hc =>
    (hs.cached requested cached hc).mono (List.Subset.refl _) (List.Subset.refl _) rfl
  calls := by
    intro call hcall
    have hclock : s.clock ≤ s.clock + ms := by omega
    exact (hs.calls call hcall).mono hclock (List.Subset.refl _) (List.Subset.refl _)
      fun _ _ hk => hk
  handedOut := hs.handedOut
  turnedDown := hs.turnedDown

theorem sound_without (hs : Sound config s) (number : Nat) :
    Sound config (s.without number) where
  values := hs.values
  scopes := hs.scopes
  numbers := hs.numbers.sublist (List.filter_sublist.map _)
  cached := fun requested cached hc =>
    (hs.cached requested cached hc).mono (List.Subset.refl _) (List.Subset.refl _) rfl
  calls := by
    intro call hcall
    exact (hs.calls call (List.mem_filter.mp hcall).1).mono (Int.le_refl _)
      (List.Subset.refl _) (List.Subset.refl _) fun _ _ hk => hk
  handedOut := hs.handedOut
  turnedDown := hs.turnedDown

theorem call_of_find {number : Nat} {call : Call} (h : s.find number = some call) :
    call ∈ s.calls ∧ call.number = number :=
  ⟨List.mem_of_find?_eq_some h, by simpa using List.find?_some h⟩

/-- A token that is handed out from the cache is known already. -/
theorem sound_hit (hs : Sound config s) {number : Nat} {scope : Option String} {cached : Cached}
    (hlive : live config s (requestedScope config scope) = some cached) :
    Sound config { s with
      handedOut := s.handedOut ++ [⟨number, scope, s.clock, s.turnedDown, cached.value⟩] } := by
  obtain ⟨hcached, htime⟩ := Option.filter_eq_some_iff.mp hlive
  obtain ⟨hstanding, hknown, i, hi, hvalue, hrequested, hexpires⟩ := hs.cached _ cached hcached
  simp only [decide_eq_true_eq] at htime
  have hgrows : s.handedOut ⊆
      s.handedOut ++ [⟨number, scope, s.clock, s.turnedDown, cached.value⟩] :=
    List.subset_append_left _ _
  refine ⟨hs.values, hs.scopes, hs.numbers, ?_, ?_, ?_, ?_⟩
  · intro requested c hc
    exact (hs.cached requested c hc).mono (List.Subset.refl _) hgrows rfl
  · intro call hcall
    refine (hs.calls call hcall).mono (Int.le_refl _) (List.Subset.refl _) (List.Subset.refl _) ?_
    rintro j - ⟨h, hmem, hsame⟩
    rcases List.mem_append.mp hmem with hold | hnew
    · exact ⟨h, hold, hsame⟩
    · rw [List.mem_singleton.mp hnew] at hsame
      rw [← hsame]
      exact hknown
  · intro h hmem
    rcases List.mem_append.mp hmem with hold | hnew
    · exact hs.handedOut h hold
    · rw [List.mem_singleton.mp hnew]
      refine ⟨⟨i, hi, hvalue, hrequested, Or.inr ?_⟩, hstanding⟩
      dsimp only
      omega
  · intro value hv
    exact (hs.turnedDown value hv).mono hgrows

theorem fresh_number {number : Nat} (h : ¬ numberTaken s number = true) :
    ∀ call ∈ s.calls, call.number ≠ number := by
  intro call hcall he
  apply h
  unfold numberTaken
  rw [Bool.or_eq_true]
  exact Or.inl (List.any_eq_true.mpr ⟨call, hcall, by simpa using he⟩)

theorem sound_miss (hs : Sound config s) {number : Nat} {scope : Option String}
    (hnew : ¬ numberTaken s number = true) :
    Sound config { s with
      calls := s.calls ++ [⟨number, scope, s.clock, s.turnedDown, none⟩] } := by
  refine ⟨hs.values, hs.scopes, ?_, ?_, ?_, hs.handedOut, hs.turnedDown⟩
  · simp only [List.map_append, List.map_cons, List.map_nil]
    rw [List.nodup_append]
    refine ⟨hs.numbers, List.nodup_singleton _, ?_⟩
    intro a ha b hb hab
    obtain ⟨call, hcall, rfl⟩ := List.mem_map.mp ha
    rw [List.mem_singleton.mp hb] at hab
    exact fresh_number hnew call hcall hab
  · intro requested c hc
    exact (hs.cached requested c hc).mono (List.Subset.refl _) (List.Subset.refl _) rfl
  · intro call hcall
    rcases List.mem_append.mp hcall with hold | hnew
    · exact (hs.calls call hold).mono (Int.le_refl _) (List.Subset.refl _) (List.Subset.refl _)
        fun _ _ hk => hk
    · rw [List.mem_singleton.mp hnew]
      exact ⟨Int.le_refl _, List.Subset.refl _, by rintro i ⟨⟩⟩

/-! ## The steps of the identity provider -/

theorem sound_issue (hs : Sound config s) {call : Call} (hcall : call ∈ s.calls) {value : String}
    (hnew : ∀ i ∈ s.issued, i.value ≠ value) (expires_in : Option Nat) :
    Sound config (issue config s call value expires_in) := by
  have hgrows : s.issued ⊆ (issue config s call value expires_in).issued :=
    List.subset_append_left _ _
  refine ⟨?_, ?_, ?_, ?_, ?_, ?_, hs.turnedDown⟩
  · simp only [issue, List.map_append, List.map_cons, List.map_nil]
    rw [List.nodup_append]
    refine ⟨hs.values, List.nodup_singleton _, ?_⟩
    intro a ha b hb hab
    obtain ⟨i, hi, rfl⟩ := List.mem_map.mp ha
    rw [List.mem_singleton.mp hb] at hab
    exact hnew i hi hab
  · intro i hi
    rcases List.mem_append.mp hi with hold | hnew
    · exact hs.scopes i hold
    · rw [List.mem_singleton.mp hnew]
  · have hnumbers : (issue config s call value expires_in).calls.map Call.number =
        s.calls.map Call.number := by
      simp only [issue, List.map_map]
      apply List.map_congr_left
      intro c _
      simp only [Function.comp]
      split <;> rfl
    rw [hnumbers]
    exact hs.numbers
  · intro requested c hc
    exact (hs.cached requested c hc).mono hgrows (List.Subset.refl _) rfl
  · intro c hc
    obtain ⟨c₀, hc₀, rfl⟩ := List.mem_map.mp hc
    have hkept := hs.calls c₀ hc₀
    split
    · rename_i hnumber
      obtain rfl := List.inj_on_of_nodup_map hs.numbers hc₀ hcall hnumber
      refine ⟨hkept.past, hkept.turnedDown, ?_⟩
      rintro i ⟨⟩
      refine ⟨by simp [issue], rfl, rfl, hkept.past, ?_⟩
      -- All that was handed out had been issued before.
      rintro ⟨h, hmem, hvalue⟩
      obtain ⟨⟨j, hj, hsame, -⟩, -⟩ := hs.handedOut h hmem
      exact hnew j hj (hsame.trans hvalue)
    · exact hkept.mono (Int.le_refl _) hgrows (List.Subset.refl _) fun _ _ hk => hk
  · intro h hmem
    obtain ⟨hissued, hfresh⟩ := hs.handedOut h hmem
    exact ⟨hissued.mono hgrows, hfresh⟩

/-- The answer is cached and handed out: it was known to nobody, so it was never turned down, and
no other call has it. -/
theorem sound_receive (hs : Sound config s) {call : Call} (hcall : call ∈ s.calls) {i : Issued}
    (hi : call.answer = some i) : Sound config (receive config s call i) := by
  by_cases hempty : i.value = ""
  · rw [receive, if_pos hempty]
    exact sound_without hs call.number
  rw [receive, if_neg hempty]
  have hanswer := (hs.calls call hcall).answer i hi
  have hstanding : i.value ∉ s.turnedDown := fun hv => hanswer.fresh (hs.turnedDown i.value hv)
  have hgrows : s.handedOut ⊆
      s.handedOut ++ [⟨call.number, call.scope, call.now, call.turnedDown, i.value⟩] :=
    List.subset_append_left _ _
  refine ⟨hs.values, hs.scopes, (sound_without hs call.number).numbers, ?_, ?_, ?_, ?_⟩
  · intro requested c hc
    by_cases hkey : requested = requestedScope config call.scope
    · subst hkey
      simp only [Function.update_self, Option.some.injEq] at hc
      subst hc
      refine ⟨hstanding, ⟨_, List.mem_append_right _ (List.mem_singleton_self _), rfl⟩, i,
        hanswer.issued, rfl, hanswer.requested, ?_⟩
      have hafter := hanswer.after
      dsimp only
      omega
    · simp only [Function.update_of_ne hkey] at hc
      exact (hs.cached requested c hc).mono (List.Subset.refl _) hgrows rfl
  · intro c hc
    obtain ⟨hmem, hother⟩ := List.mem_filter.mp hc
    have hother : c.number ≠ call.number := by simpa using hother
    refine (hs.calls c hmem).mono (Int.le_refl _) (List.Subset.refl _) (List.Subset.refl _) ?_
    rintro j hj ⟨h, hout, hvalue⟩
    rcases List.mem_append.mp hout with hold | hnew
    · exact ⟨h, hold, hvalue⟩
    · rw [List.mem_singleton.mp hnew] at hvalue
      have hanother := (hs.calls c hmem).answer j hj
      have hsame : i = j := hs.issue_unique hanswer.issued hanother.issued hvalue
      subst hsame
      exact absurd (hanother.number.symm.trans hanswer.number) hother
  · intro h hout
    rcases List.mem_append.mp hout with hold | hnew
    · exact hs.handedOut h hold
    · rw [List.mem_singleton.mp hnew]
      refine ⟨⟨i, hanswer.issued, rfl, hanswer.requested,
        Or.inl ⟨hanswer.number, hanswer.after⟩⟩, ?_⟩
      exact fun hv => hstanding ((hs.calls call hcall).turnedDown hv)
  · intro value hv
    exact (hs.turnedDown value hv).mono hgrows

theorem invalidate_cases (cache : Cache) (scope : Option String) {requested : Option String}
    {cached : Cached} (h : invalidate config cache scope requested = some cached) :
    cache requested = some cached ∧ requested ≠ requestedScope config scope := by
  unfold invalidate at h
  split at h
  · cases h
  · by_cases hkey : requested = requestedScope config scope
    · subst hkey
      simp at h
    · rw [Function.update_of_ne hkey] at h
      exact ⟨h, hkey⟩

/-- A token stands under one key of the cache, the one that is dropped. -/
theorem sound_turnDown (hs : Sound config s) {h : HandedOut} (hmem : h ∈ s.handedOut) :
    Sound config (turnDown config s h) := by
  obtain ⟨⟨i, hi, hvalue, hrequested, -⟩, -⟩ := hs.handedOut h hmem
  refine ⟨hs.values, hs.scopes, hs.numbers, ?_, ?_, hs.handedOut, ?_⟩
  · intro requested c hc
    obtain ⟨hold, hkey⟩ := invalidate_cases s.cache h.scope hc
    obtain ⟨hstanding, hknown, j, hj, hcvalue, hcrequested, hexpires⟩ :=
      hs.cached requested c hold
    refine ⟨?_, hknown, j, hj, hcvalue, hcrequested, hexpires⟩
    simp only [turnDown, List.mem_append, List.mem_singleton, not_or]
    refine ⟨hstanding, fun hsame => hkey ?_⟩
    have hij : i = j := hs.issue_unique hi hj (by rw [hvalue, hcvalue, hsame])
    subst hij
    rw [← hcrequested, hrequested]
    rfl
  · intro call hcall
    exact (hs.calls call hcall).mono (Int.le_refl _) (List.Subset.refl _)
      (List.subset_append_left _ _) fun _ _ hk => hk
  · intro value hv
    rcases List.mem_append.mp hv with hold | hnew
    · exact hs.turnedDown value hold
    · exact ⟨h, hmem, (List.mem_singleton.mp hnew).symm⟩

/-! ## The law -/

theorem sound_step (hs : Sound config s) {l : Label} (h : step config s l = some s') :
    Sound config s' := by
  cases l with
  | tick ms =>
    cases h
    exact sound_tick hs ms
  | get_token number scope =>
    simp only [step] at h
    split at h
    · cases h
    · rename_i hnew
      cases h
      unfold get_token
      split
      · rename_i cached hlive
        exact sound_hit hs hlive
      · split
        · exact hs
        · exact sound_miss hs hnew
  | issue number value expires_in =>
    simp only [step] at h
    obtain ⟨call, hfind, h⟩ := Option.bind_eq_some_iff.mp h
    split at h
    · cases h
    · rename_i hnot
      cases h
      apply sound_issue hs (call_of_find hfind).1
      intro i hi hvalue
      apply hnot
      rw [Bool.or_eq_true]
      exact Or.inr (List.any_eq_true.mpr ⟨i, hi, by simpa using hvalue⟩)
  | receive number =>
    simp only [step] at h
    obtain ⟨call, hfind, h⟩ := Option.bind_eq_some_iff.mp h
    obtain ⟨i, hi, rfl⟩ := Option.map_eq_some_iff.mp h
    exact sound_receive hs (call_of_find hfind).1 hi
  | fail number =>
    cases h
    exact sound_without hs number
  | turnDown number =>
    simp only [step] at h
    obtain ⟨out, hfind, rfl⟩ := Option.map_eq_some_iff.mp h
    exact sound_turnDown hs (List.mem_of_find?_eq_some hfind)

/-- What a call returned was issued for the audience that it asked for, and is no token that had
been turned down when it came. -/
structure HandedOut.Fits (config : Config) (s : System) (h : HandedOut) : Prop where
  issue : ∃ i ∈ s.issued, i.value = h.value ∧ Lasts config h i ∧
    i.scope = forwardedScope config (h.requested config)
  standing : h.value ∉ h.turnedDown
  alone : ∀ h' ∈ s.handedOut, h'.value = h.value → h'.requested config = h.requested config

theorem tokens_fit_the_calls_that_return_them (config : Config) {clock : Int} {ls : List Label}
    {s : System} (hr : runAll (step config) (started clock) ls = some s) :
    ∀ h ∈ s.handedOut, h.Fits config s := by
  have hs : Sound config s := by
    apply (reaches_of_runAll hr (along_anyStep _ _)).invariant (sound_started config clock)
    intro t l u ht _ hstep
    exact sound_step ht hstep
  intro h hmem
  obtain ⟨⟨i, hi, hvalue, hrequested, hlasts⟩, hstanding⟩ := hs.handedOut h hmem
  refine ⟨⟨i, hi, hvalue, hlasts, ?_⟩, hstanding, ?_⟩
  · rw [← hrequested]
    exact hs.scopes i hi
  · intro h' hmem' hsame
    obtain ⟨⟨j, hj, hvalue', hrequested', -⟩, -⟩ := hs.handedOut h' hmem'
    have hij : i = j := hs.issue_unique hi hj (by rw [hvalue, hvalue', hsame])
    subst hij
    rw [← hrequested', hrequested]

/-! ## A worker between two agents -/

/-- The worker of the orchestrator, where the realm knows the scopes of the audiences. -/
def worker : Config := ⟨"secret", true, none, true, EXPIRY_SKEW_MS⟩

/-- Two calls for one agent overlap, and the token of the later answer is turned down. -/
def turnedDownOnce : List Label :=
  [.get_token 0 (some "sql"), .get_token 1 (some "sql"), .issue 0 "t0" (some 300), .tick 40,
    .issue 1 "t1" (some 300), .receive 1, .receive 0, .get_token 2 (some "sql"), .turnDown 2,
    .get_token 3 (some "sql"), .get_token 4 none, .issue 3 "t3" (some 300), .issue 4 "t4" none,
    .receive 4, .receive 3, .tick 284000, .get_token 5 (some "sql"), .tick 1000,
    .get_token 6 (some "sql"), .fail 6]

theorem tokens_of_a_worker_between_two_agents :
    ∃ s, runAll (step worker) (started 0) turnedDownOnce = some s ∧
      s.handedOut.map (fun h => (h.number, h.value)) =
        [(1, "t1"), (0, "t0"), (2, "t0"), (4, "t4"), (3, "t3"), (5, "t3")] ∧
      ∀ h ∈ s.handedOut, h.Fits worker s := by
  obtain ⟨s, hs, hout⟩ : ∃ s ∈ runAll (step worker) (started 0) turnedDownOnce,
      s.handedOut.map (fun h => (h.number, h.value)) =
        [(1, "t1"), (0, "t0"), (2, "t0"), (4, "t4"), (3, "t3"), (5, "t3")] := by
    decide +kernel
  exact ⟨s, hs, hout, tokens_fit_the_calls_that_return_them worker hs⟩

end nova.service_tokens
