-- The limit on the requests of one source in the DB MCP server (db-mcp-server/src/server.ts):
-- a counter for each address, in windows of a fixed length. The laws say how many requests of a
-- source come through, which are refused, and that sources do not touch each other.
import Nova.FixedWindows

namespace nova.request_rate

open fixed_windows

/-! ## The limiter -/

structure RateLimitConfig where
  windowMs : Nat
  max : Nat

abbrev RateLimitState := Window

/-- `buckets`, from the key of a source. -/
abbrev Buckets := String → Option RateLimitState

/-- A request: `req.ip`, and `Date.now()` when the limiter sees it. -/
structure Arrival where
  ip : Option String
  now : Nat
deriving DecidableEq

def Arrival.key (request : Arrival) : String := request.ip.getD "unknown"

/-- `next()`, or the answer of the limiter. -/
inductive Verdict where
  | next
  | refuse (status : Nat) (error message : String)
deriving DecidableEq

def tooMany : Verdict := .refuse 429 "rate_limited" "Too many requests."

/-- `buckets.set(key, state)` -/
def Buckets.set (buckets : Buckets) (key : String) (state : RateLimitState) : Buckets :=
  fun k => if k = key then some state else buckets k

def rateLimiter (config : RateLimitConfig) (buckets : Buckets) (request : Arrival) :
    Verdict × Buckets :=
  match buckets request.key with
  | none => (.next, buckets.set request.key ⟨1, request.now + config.windowMs⟩)
  | some state =>
    if state.resetAt ≤ request.now then
      (.next, buckets.set request.key ⟨1, request.now + config.windowMs⟩)
    else if config.max ≤ state.count then (tooMany, buckets)
    else (.next, buckets.set request.key { state with count := state.count + 1 })

/-- The buckets after the requests. -/
def bucketsAfter (config : RateLimitConfig) (buckets : Buckets) (requests : List Arrival) :
    Buckets :=
  requests.foldl (fun buckets request => (rateLimiter config buckets request).2) buckets

/-- The requests that go on to the handlers. -/
def served (config : RateLimitConfig) : Buckets → List Arrival → List Arrival
  | _, [] => []
  | buckets, request :: rest =>
    (if (rateLimiter config buckets request).1 = .next then [request] else []) ++
      served config (rateLimiter config buckets request).2 rest

/-- The map of a server that has just started. -/
def noBuckets : Buckets := fun _ => none

/-! ## Each source has a window of its own -/

variable {config : RateLimitConfig} {buckets : Buckets} {source : String}

theorem rateLimiter_next_iff (request : Arrival) :
    (rateLimiter config buckets request).1 = .next ↔
      (arrive config.windowMs config.max (buckets request.key) request.now).1 = true := by
  unfold rateLimiter arrive
  rcases buckets request.key with _ | state
  · simp
  · dsimp only
    split_ifs <;> simp [tooMany]

theorem rateLimiter_bucket (request : Arrival) :
    (rateLimiter config buckets request).2 request.key =
      some (arrive config.windowMs config.max (buckets request.key) request.now).2 := by
  unfold rateLimiter arrive
  rcases h : buckets request.key with _ | state
  · simp [Buckets.set]
  · dsimp only
    split_ifs <;> simp [Buckets.set, h]

theorem rateLimiter_other {request : Arrival} (h : request.key ≠ source) :
    (rateLimiter config buckets request).2 source = buckets source := by
  have hset : ∀ state, buckets.set request.key state source = buckets source := fun state =>
    if_neg (Ne.symm h)
  unfold rateLimiter
  split
  · exact hset _
  · split_ifs
    · exact hset _
    · rfl
    · exact hset _

/-- The times of the requests of a source. -/
def timesOf (source : String) (requests : List Arrival) : List Nat :=
  (requests.filter fun request => request.key = source).map Arrival.now

theorem timesOf_cons (request : Arrival) (rest : List Arrival) :
    timesOf source (request :: rest) =
      (if request.key = source then [request.now] else []) ++ timesOf source rest := by
  unfold timesOf
  by_cases h : request.key = source <;> simp [h]

theorem timesOf_append (requests more : List Arrival) :
    timesOf source (requests ++ more) = timesOf source requests ++ timesOf source more := by
  simp [timesOf]

theorem timesOf_sorted {requests : List Arrival}
    (h : (requests.map Arrival.now).Pairwise (· ≤ ·)) :
    (timesOf source requests).Pairwise (· ≤ ·) :=
  h.sublist (List.filter_sublist.map _)

/-- What comes through of a source is what its own window lets through. -/
theorem timesOf_served (requests : List Arrival) :
    timesOf source (served config buckets requests) =
      passed config.windowMs config.max (buckets source) (timesOf source requests) := by
  induction requests generalizing buckets with
  | nil => rfl
  | cons request rest ih =>
    rw [served, timesOf_append, ih, timesOf_cons]
    by_cases hkey : request.key = source
    · subst hkey
      rw [if_pos rfl, List.singleton_append, passed, rateLimiter_bucket]
      congr 1
      by_cases hnext : (rateLimiter config buckets request).1 = .next
      · rw [if_pos hnext, if_pos ((rateLimiter_next_iff request).mp hnext), timesOf_cons]
        simp [timesOf]
      · rw [if_neg hnext, if_neg fun h => hnext ((rateLimiter_next_iff request).mpr h)]
        rfl
    · rw [if_neg hkey, List.nil_append, rateLimiter_other hkey]
      split
      · rw [timesOf_cons, if_neg hkey]
        rfl
      · rfl

theorem bucketsAfter_source (requests : List Arrival) :
    bucketsAfter config buckets requests source =
      after config.windowMs config.max (buckets source) (timesOf source requests) := by
  induction requests generalizing buckets with
  | nil => rfl
  | cons request rest ih =>
    rw [bucketsAfter, List.foldl_cons, timesOf_cons]
    refine Eq.trans ih ?_
    by_cases hkey : request.key = source
    · subst hkey
      rw [if_pos rfl, List.singleton_append, after, rateLimiter_bucket]
    · rw [if_neg hkey, List.nil_append, rateLimiter_other hkey]

/-! ## The laws -/

/-- Whatever requests come from whatever sources, in every span of a window fewer requests of a
source come through than two windows hold, they are the ones that come through when the source
is alone, and before a refusal of the source the limit was reached within a window. -/
theorem each_source_is_limited_by_its_own_requests (config : RateLimitConfig)
    (requests : List Arrival) (hclock : (requests.map Arrival.now).Pairwise (· ≤ ·))
    (source : String) :
    (∀ t, (inSpan config.windowMs t (timesOf source (served config noBuckets requests))).length <
      2 * capacity config.max) ∧
    timesOf source (served config noBuckets requests) =
      timesOf source (served config noBuckets (requests.filter fun r => r.key = source)) ∧
    ∀ earlier request later, requests = earlier ++ request :: later → request.key = source →
      (rateLimiter config (bucketsAfter config noBuckets earlier) request).1 ≠ .next →
      config.max ≤ (recent config.windowMs request.now
        (timesOf source (served config noBuckets earlier))).length := by
  refine ⟨fun t => ?_, ?_, ?_⟩
  · rw [timesOf_served]
    exact inSpan_passed_lt (timesOf_sorted hclock) t
  · rw [timesOf_served, timesOf_served]
    simp [timesOf]
  · rintro earlier request later rfl rfl hrefused
    rw [timesOf_served]
    apply limit_le_recent_of_refused
    · rw [List.map_append] at hclock
      exact timesOf_sorted (List.pairwise_append.mp hclock).1
    · rw [ne_eq, rateLimiter_next_iff, bucketsAfter_source] at hrefused
      simpa [noBuckets] using hrefused

def twoASecond : RateLimitConfig := ⟨1000, 2⟩

/-- Before and after the request of the first source that is refused. -/
def beforeRefusal : List Arrival :=
  [⟨some "10.0.0.1", 0⟩, ⟨some "10.0.0.1", 900⟩, ⟨some "10.0.0.2", 900⟩]

def afterRefusal : List Arrival :=
  [⟨some "10.0.0.2", 960⟩, ⟨some "10.0.0.1", 1000⟩, ⟨some "10.0.0.1", 1001⟩]

def arrivals : List Arrival := beforeRefusal ++ ⟨some "10.0.0.1", 950⟩ :: afterRefusal

/-- With two requests a second, three of one source come through within a second where two
windows meet; one between them is refused, as two of the second before came through; and another
source gets what it would get alone. -/
theorem two_windows_meet :
    (∀ t, (inSpan 1000 t (timesOf "10.0.0.1" (served twoASecond noBuckets arrivals))).length < 4) ∧
      inSpan 1000 900 (timesOf "10.0.0.1" (served twoASecond noBuckets arrivals)) =
        [900, 1000, 1001] ∧
      (rateLimiter twoASecond (bucketsAfter twoASecond noBuckets beforeRefusal)
        ⟨some "10.0.0.1", 950⟩).1 = tooMany ∧
      2 ≤ (recent 1000 950
        (timesOf "10.0.0.1" (served twoASecond noBuckets beforeRefusal))).length ∧
      timesOf "10.0.0.2" (served twoASecond noBuckets arrivals) =
        timesOf "10.0.0.2" (served twoASecond noBuckets
          [⟨some "10.0.0.2", 900⟩, ⟨some "10.0.0.2", 960⟩]) := by
  have hclock : (arrivals.map Arrival.now).Pairwise (· ≤ ·) := by decide
  have hrefused : (rateLimiter twoASecond (bucketsAfter twoASecond noBuckets beforeRefusal)
      ⟨some "10.0.0.1", 950⟩).1 = tooMany := by decide
  obtain ⟨hbound, -, hreached⟩ :=
    each_source_is_limited_by_its_own_requests twoASecond arrivals hclock "10.0.0.1"
  obtain ⟨-, halone, -⟩ :=
    each_source_is_limited_by_its_own_requests twoASecond arrivals hclock "10.0.0.2"
  refine ⟨hbound, by decide, hrefused, ?_, halone⟩
  apply hreached beforeRefusal ⟨some "10.0.0.1", 950⟩ afterRefusal rfl rfl
  rw [hrefused]
  decide

end nova.request_rate
