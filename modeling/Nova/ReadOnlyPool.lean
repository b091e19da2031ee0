-- The pool of connections behind run_select_query (db-mcp-server/src/data/readonly-datasource.ts):
-- calls of runSelect at the same time, each on a connection that others used before it and that
-- may be left in any state. The laws say under whose settings a query is executed.
import Nova.RunSelectQuery
import Nova.Runs

namespace nova.read_only_pool

open labelled_runs nova.run_select_query

variable {Row : Type}

/-! ## A connection -/

/-- The two settings that a call sets. -/
structure Settings where
  owner_subject : Option String
  statement_timeout : String
deriving DecidableEq

/-- What the role `nova_mcp_readonly` starts with. -/
def roleSettings : Settings := ⟨none, "5s"⟩

/-- An open transaction keeps what the settings become when it is committed and when it is not. -/
inductive Transaction where
  | idle
  | opened (readOnly : Bool) (committed rolledBack : Settings)
  | aborted (rolledBack : Settings)
deriving DecidableEq

structure Session where
  settings : Settings
  transaction : Transaction
  lost : Bool
deriving DecidableEq

inductive Statement where
  | beginReadOnly
  | setStatementTimeout (value : String)
  | setOwnerSubject (value : String)
  | query (call : SelectCall)
  | commit
  | rollback

/-- An error of the driver, with the code that PostgreSQL gave it. -/
structure DriverError where
  code : Option String
deriving DecidableEq

/-- What PostgreSQL does with a query: its rows or its error, the settings that it leaves in the
transaction, and those that a commit keeps of it. -/
structure Database (Row : Type) where
  select : SelectCall → Settings → Except DriverError (List Row)
  sets : SelectCall → Settings → Settings
  keeps : SelectCall → Settings → Settings

/-- How a statement goes: it is executed, it fails, or its connection is lost. -/
inductive Outcome where
  | executed
  | fails (error : DriverError)
  | loses (error : DriverError)
deriving DecidableEq

/-- `current transaction is aborted, commands ignored until end of transaction block` -/
def inFailedTransaction : DriverError := ⟨some "25P02"⟩

def connectionLost : DriverError := ⟨none⟩

/-- A failed statement ends what the transaction can do. -/
def Session.fail (session : Session) : Session :=
  match session.transaction with
  | .opened _ _ rolledBack => { session with transaction := .aborted rolledBack }
  | _ => session

/-- The session behind the end of its transaction. -/
def Session.finish (session : Session) (settings : Settings) : Session :=
  { session with settings := settings, transaction := .idle }

/-- A statement that PostgreSQL executes. A setting with `is_local` outside of a transaction is
gone with its statement, and `BEGIN` in a transaction sets its mode. -/
def Session.execute (db : Database Row) (session : Session) :
    Statement → Except DriverError (List Row) × Session
  | .beginReadOnly =>
    match session.transaction with
    | .idle => (.ok [], { session with
        transaction := .opened true session.settings session.settings })
    | .opened _ committed rolledBack =>
      (.ok [], { session with transaction := .opened true committed rolledBack })
    | .aborted _ => (.error inFailedTransaction, session)
  | .setStatementTimeout value =>
    match session.transaction with
    | .idle => (.ok [], session)
    | .opened .. => (.ok [], { session with
        settings := { session.settings with statement_timeout := value } })
    | .aborted _ => (.error inFailedTransaction, session)
  | .setOwnerSubject value =>
    match session.transaction with
    | .idle => (.ok [], session)
    | .opened .. => (.ok [], { session with
        settings := { session.settings with owner_subject := some value } })
    | .aborted _ => (.error inFailedTransaction, session)
  | .query call =>
    match session.transaction with
    | .idle =>
      (db.select call session.settings, { session with settings := db.keeps call session.settings })
    | .opened readOnly committed rolledBack =>
      match db.select call session.settings with
      | .ok rows => (.ok rows, ⟨db.sets call session.settings,
          .opened readOnly (db.keeps call committed) rolledBack, session.lost⟩)
      | .error error => (.error error, session.fail)
    | .aborted _ => (.error inFailedTransaction, session)
  | .commit =>
    match session.transaction with
    | .idle => (.ok [], session)
    | .opened _ committed _ => (.ok [], session.finish committed)
    | .aborted rolledBack => (.ok [], session.finish rolledBack)
  | .rollback =>
    match session.transaction with
    | .idle => (.ok [], session)
    | .opened _ _ rolledBack => (.ok [], session.finish rolledBack)
    | .aborted rolledBack => (.ok [], session.finish rolledBack)

/-- A statement on a connection, which may be lost already. -/
def Session.run (db : Database Row) (session : Session) (statement : Statement) :
    Outcome → Except DriverError (List Row) × Session
  | .executed =>
    if session.lost then (.error connectionLost, session) else session.execute db statement
  | .fails error => (.error error, session.fail)
  | .loses error => (.error error, { session with lost := true })

/-! ## Calls of runSelect -/

/-- `toQueryError`: 57014 is a statement timeout, and nothing else of the driver is told. -/
def toQueryError (error : DriverError) : McpError :=
  if error.code = some "57014" then ⟨.sql_rejected, "The query exceeded the time limit."⟩
  else ⟨.sql_rejected, "The query could not be executed."⟩

/-- Where a call stands: what it sends next. -/
inductive Stage (Row : Type) where
  | connecting
  | beginning (connection : Nat)
  | timingOut (connection : Nat)
  | owning (connection : Nat)
  | querying (connection : Nat)
  | committing (connection : Nat) (rows : List Row)
  | rollingBack (connection : Nat) (error : McpError)
  | done (result : Except Thrown (List Row))

/-- The connection that a call holds: it is released when the call is done. -/
def Stage.connection : Stage Row → Option Nat
  | .beginning c => some c
  | .timingOut c => some c
  | .owning c => some c
  | .querying c => some c
  | .committing c _ => some c
  | .rollingBack c _ => some c
  | _ => none

structure Call (Row : Type) where
  select : SelectCall
  stage : Stage Row

/-- A query that was executed: by which call, in which session, and what it gave. -/
structure Executed (Row : Type) where
  caller : Nat
  call : SelectCall
  session : Session
  answer : Except DriverError (List Row)

structure Pool (Row : Type) where
  connections : List Session
  calls : List (Call Row)
  executed : List (Executed Row)

/-- A handler calls `runSelect`, `pool.connect()` gives a connection or fails, and the next
statement of a call goes as it goes. -/
inductive Label where
  | runSelect (select : SelectCall)
  | connect (caller : Nat) (connection : Option Nat)
  | connectFails (caller : Nat)
  | statement (caller : Nat) (outcome : Outcome)

/-- The statement that a call sends, on which connection. -/
def Call.statement (call : Call Row) : Option (Nat × Statement) :=
  match call.stage with
  | .beginning c => some (c, .beginReadOnly)
  | .timingOut c => some (c, .setStatementTimeout (toString call.select.options.statementTimeoutMs))
  | .owning c => some (c, .setOwnerSubject call.select.options.ownerSubject)
  | .querying c => some (c, .query call.select)
  | .committing c _ => some (c, .commit)
  | .rollingBack c _ => some (c, .rollback)
  | _ => none

/-- Where a call goes with the answer to its statement. -/
def Stage.next (stage : Stage Row) (answer : Except DriverError (List Row)) : Stage Row :=
  match stage, answer with
  | .beginning c, .ok _ => .timingOut c
  | .timingOut c, .ok _ => .owning c
  | .owning c, .ok _ => .querying c
  | .querying c, .ok rows => .committing c rows
  | .committing _ rows, .ok _ => .done (.ok rows)
  | .beginning c, .error error => .rollingBack c (toQueryError error)
  | .timingOut c, .error error => .rollingBack c (toQueryError error)
  | .owning c, .error error => .rollingBack c (toQueryError error)
  | .querying c, .error error => .rollingBack c (toQueryError error)
  | .committing c _, .error error => .rollingBack c (toQueryError error)
  -- a failure of the rollback is ignored
  | .rollingBack _ error, _ => .done (.error (.mcp error))
  | stage, _ => stage

/-- The calls that hold a connection. -/
def Pool.holds (pool : Pool Row) (connection : Nat) : Bool :=
  pool.calls.any fun call => call.stage.connection = some connection

def Pool.setStage (pool : Pool Row) (caller : Nat) (stage : Stage Row) : Pool Row :=
  { pool with calls := pool.calls.modify caller fun call => { call with stage := stage } }

variable (db : Database Row) (poolMax : Nat)

/-- A connection that no call holds, or a new one while there are fewer than `poolMax`. -/
def connect (pool : Pool Row) (caller : Nat) : Option Nat → Option (Pool Row)
  | some c =>
    if c < pool.connections.length ∧ pool.holds c = false then
      some (pool.setStage caller (.beginning c))
    else none
  | none =>
    if (pool.connections.countP fun session => !session.lost) < poolMax then
      let grown : Pool Row :=
        { pool with connections := pool.connections ++ [⟨roleSettings, .idle, false⟩] }
      some (grown.setStage caller (.beginning pool.connections.length))
    else none

/-- The query that a statement brings to PostgreSQL, unless its connection is lost. -/
def reaching (caller : Nat) (session : Session) (answer : Except DriverError (List Row)) :
    Statement → List (Executed Row)
  | .query select => if session.lost then [] else [⟨caller, select, session, answer⟩]
  | _ => []

/-- The pool behind a statement of a call. -/
def send (pool : Pool Row) (caller : Nat) (call : Call Row) (outcome : Outcome) :
    Option (Pool Row) := do
  let (c, statement) ← call.statement
  let session ← pool.connections[c]?
  let (answer, session') := session.run db statement outcome
  let sent : Pool Row := ⟨pool.connections.set c session', pool.calls,
    pool.executed ++ reaching caller session answer statement⟩
  return sent.setStage caller (call.stage.next answer)

def step (pool : Pool Row) : Label → Option (Pool Row)
  | .runSelect select => some { pool with calls := pool.calls ++ [⟨select, .connecting⟩] }
  | .connect caller connection =>
    match pool.calls[caller]? with
    | some ⟨_, .connecting⟩ => connect poolMax pool caller connection
    | _ => none
  | .connectFails caller =>
    match pool.calls[caller]? with
    | some ⟨_, .connecting⟩ => some (pool.setStage caller (.done (.error .other)))
    | _ => none
  | .statement caller outcome => do
    let call ← pool.calls[caller]?
    send db pool caller call outcome

def emptyPool : Pool Row := ⟨[], [], []⟩

/-! ## What a call has set on its connection -/

variable {db : Database Row} {poolMax : Nat}

/-- The settings that a call asks for. -/
def ownSettings (call : SelectCall) : Settings :=
  ⟨some call.options.ownerSubject, toString call.options.statementTimeoutMs⟩

/-- The session is in a transaction that can be read in alone. -/
def InReadOnly (session : Session) : Prop :=
  ∃ committed rolledBack, session.transaction = .opened true committed rolledBack

/-- What the statements that a call has sent left in its session. -/
def Prepared (call : SelectCall) (session : Session) : Stage Row → Prop
  | .timingOut _ => InReadOnly session
  | .owning _ => InReadOnly session ∧
      session.settings.statement_timeout = (ownSettings call).statement_timeout
  | .querying _ => InReadOnly session ∧ session.settings = ownSettings call
  | _ => True

/-- A statement that was answered was executed on a connection that is not lost. -/
theorem run_ok {session session' : Session} {statement : Statement} {outcome : Outcome}
    {rows : List Row} (h : session.run db statement outcome = (.ok rows, session')) :
    outcome = .executed ∧ session.lost = false ∧
      session.execute db statement = (.ok rows, session') := by
  unfold Session.run at h
  cases outcome with
  | executed =>
    by_cases hlost : session.lost = true
    · simp [hlost] at h
    · exact ⟨rfl, by simpa using hlost, by simpa [hlost] using h⟩
  | fails error => simp at h
  | loses error => simp at h

theorem execute_begin {session session' : Session} {rows : List Row}
    (h : session.execute db .beginReadOnly = (.ok rows, session')) : InReadOnly session' := by
  unfold Session.execute at h
  rcases htransaction : session.transaction with _ | ⟨readOnly, committed, rolledBack⟩ | rolledBack
  all_goals simp only [htransaction, Prod.mk.injEq, reduceCtorEq, false_and] at h
  · exact ⟨_, _, by rw [← h.2]⟩
  · exact ⟨_, _, by rw [← h.2]⟩

theorem execute_setStatementTimeout {session session' : Session} {value : String} {rows : List Row}
    (hopened : InReadOnly session)
    (h : session.execute db (.setStatementTimeout value) = (.ok rows, session')) :
    InReadOnly session' ∧ session'.settings.statement_timeout = value := by
  obtain ⟨committed, rolledBack, htransaction⟩ := hopened
  simp only [Session.execute, htransaction, Prod.mk.injEq] at h
  obtain ⟨-, rfl⟩ := h
  exact ⟨⟨_, _, rfl⟩, rfl⟩

theorem execute_setOwnerSubject {session session' : Session} {value : String} {rows : List Row}
    (hopened : InReadOnly session)
    (h : session.execute db (.setOwnerSubject value) = (.ok rows, session')) :
    InReadOnly session' ∧
      session'.settings = ⟨some value, session.settings.statement_timeout⟩ := by
  obtain ⟨committed, rolledBack, htransaction⟩ := hopened
  simp only [Session.execute, htransaction, Prod.mk.injEq] at h
  obtain ⟨-, rfl⟩ := h
  exact ⟨⟨_, _, rfl⟩, rfl⟩

theorem execute_query {session session' : Session} {call : SelectCall} {rows : List Row}
    (hopened : InReadOnly session)
    (h : session.execute db (.query call) = (.ok rows, session')) :
    db.select call session.settings = .ok rows := by
  obtain ⟨committed, rolledBack, htransaction⟩ := hopened
  simp only [Session.execute, htransaction] at h
  split at h
  · rename_i hselect
    cases h
    exact hselect
  · simp at h

/-! ## What holds in a pool -/

/-- The query ran under the settings of its own call, in a transaction that only reads, and
its rows are what the query is there. -/
def OwnQuery (db : Database Row) (query : Executed Row) : Prop :=
  InReadOnly query.session ∧ query.session.settings = ownSettings query.call ∧
    ∀ rows, query.answer = .ok rows → db.select query.call (ownSettings query.call) = .ok rows

/-- The queries that a call has sent. -/
def Pool.sentBy (pool : Pool Row) (caller : Nat) : List (Executed Row) :=
  pool.executed.filter fun query => query.caller = caller

/-- The rows that a call has got. -/
def Stage.rows? : Stage Row → Option (List Row)
  | .committing _ rows => some rows
  | .done (.ok rows) => some rows
  | _ => none

/-- The call has not sent its query. -/
def Stage.beforeQuery : Stage Row → Bool
  | .connecting => true
  | .beginning _ => true
  | .timingOut _ => true
  | .owning _ => true
  | .querying _ => true
  | _ => false

/-- A call among the connections and the queries. -/
structure InOrder (connections : List Session) (sent : List (Executed Row)) (call : Call Row) :
    Prop where
  connected : ∀ c, call.stage.connection = some c →
    ∃ session, connections[c]? = some session ∧ Prepared call.select session call.stage
  unsent : call.stage.beforeQuery = true → sent = []
  once : sent.length ≤ 1
  answered : ∀ rows, call.stage.rows? = some rows → ∃ query ∈ sent, query.answer = .ok rows

structure Apart (db : Database Row) (pool : Pool Row) : Prop where
  alone : ∀ (i j : Nat) (call other : Call Row) (c : Nat), pool.calls[i]? = some call →
    pool.calls[j]? = some other → call.stage.connection = some c → other.stage.connection = some c → i = j
  calls : ∀ i call, pool.calls[i]? = some call → InOrder pool.connections (pool.sentBy i) call
  queries : ∀ query ∈ pool.executed, OwnQuery db query ∧
    ∃ call, pool.calls[query.caller]? = some call ∧ call.select = query.call

/-- No connection and no query of one call is another's. -/
theorem connected_elsewhere {pool : Pool Row} (h : Apart db pool) {i k : Nat}
    {call other : Call Row} {c c' : Nat} (hi : pool.calls[i]? = some other) (hk : pool.calls[k]? = some call)
    (hik : i ≠ k) (hc' : other.stage.connection = some c') (hc : call.stage.connection = some c) :
    c ≠ c' := by
  rintro rfl
  exact hik (h.alone _ _ _ _ _ hi hk hc' hc)

theorem setStage_at (pool : Pool Row) (k i : Nat) (stage : Stage Row) :
    (pool.setStage k stage).calls[i]? =
      if k = i then pool.calls[i]?.map fun call => ⟨call.select, stage⟩ else pool.calls[i]? := by
  rw [Pool.setStage, List.getElem?_modify]
  split <;> simp

/-- A call whose stage changes: what has to be seen is that call, and that its connection is not
another's. The other calls and their queries stay. -/
theorem apart_setStage {pool pool' : Pool Row} {k : Nat} {call : Call Row} {stage : Stage Row}
    (h : Apart db pool) (hk : pool.calls[k]? = some call) (hcalls : pool'.calls = pool.calls)
    (hmine : InOrder pool'.connections (pool'.sentBy k) ⟨call.select, stage⟩)
    (hconnections : ∀ i other c, i ≠ k → pool.calls[i]? = some other →
      other.stage.connection = some c →
        pool'.connections[c]? = pool.connections[c]? ∧ stage.connection ≠ some c)
    (hsent : ∀ i, i ≠ k → pool'.sentBy i = pool.sentBy i)
    (hqueries : ∀ query ∈ pool'.executed, query ∈ pool.executed ∨
      query.caller = k ∧ query.call = call.select ∧ OwnQuery db query) :
    Apart db (pool'.setStage k stage) := by
  have hat : ∀ i other, (pool'.setStage k stage).calls[i]? = some other →
      i = k ∧ other = ⟨call.select, stage⟩ ∨ i ≠ k ∧ pool.calls[i]? = some other := by
    intro i other hi
    rw [setStage_at, hcalls] at hi
    by_cases hik : k = i
    · subst hik
      rw [if_pos rfl, hk] at hi
      exact Or.inl ⟨rfl, (Option.some.inj hi).symm⟩
    · rw [if_neg hik] at hi
      exact Or.inr ⟨Ne.symm hik, hi⟩
  refine ⟨?_, ?_, ?_⟩
  · intro i j first second c hi hj hfirst hsecond
    rcases hat i first hi with ⟨rfl, rfl⟩ | ⟨hik, hi'⟩ <;>
      rcases hat j second hj with ⟨rfl, rfl⟩ | ⟨hjk, hj'⟩
    · rfl
    · exact absurd hfirst (hconnections j second c hjk hj' hsecond).2
    · exact absurd hsecond (hconnections i first c hik hi' hfirst).2
    · exact h.alone _ _ _ _ _ hi' hj' hfirst hsecond
  · intro i other hi
    rcases hat i other hi with ⟨rfl, rfl⟩ | ⟨hik, hi⟩
    · exact hmine
    · obtain ⟨hconnected, hunsent, honce, hanswered⟩ := h.calls i other hi
      change InOrder pool'.connections (pool'.sentBy i) other
      rw [hsent i hik]
      refine ⟨fun c hc => ?_, hunsent, honce, hanswered⟩
      rw [(hconnections i other c hik hi hc).1]
      exact hconnected c hc
  · intro query hquery
    change query ∈ pool'.executed at hquery
    rcases hqueries query hquery with hquery | ⟨hcaller, hcall, hown⟩
    · obtain ⟨hown, other, hother, hselect⟩ := h.queries query hquery
      refine ⟨hown, ?_⟩
      rw [setStage_at, hcalls]
      by_cases hik : k = query.caller
      · rw [if_pos hik, hother]
        exact ⟨_, rfl, hselect⟩
      · rw [if_neg hik]
        exact ⟨other, hother, hselect⟩
    · refine ⟨hown, ?_⟩
      rw [setStage_at, hcalls, hcaller, if_pos rfl, hk]
      exact ⟨_, rfl, hcall.symm⟩

theorem apart_runSelect {pool : Pool Row} (h : Apart db pool) (select : SelectCall) :
    Apart db { pool with calls := pool.calls ++ [⟨select, .connecting⟩] } := by
  have hat : ∀ (i : Nat) (other : Call Row),
      (pool.calls ++ [⟨select, .connecting⟩])[i]? = some other →
      pool.calls[i]? = some other ∨ i = pool.calls.length ∧ other = ⟨select, .connecting⟩ := by
    intro i other hi
    by_cases hlt : i < pool.calls.length
    · exact Or.inl (by rwa [List.getElem?_append_left hlt] at hi)
    · rw [List.getElem?_append_right (by omega), List.getElem?_singleton] at hi
      split at hi
      · exact Or.inr ⟨by omega, (Option.some.inj hi).symm⟩
      · cases hi
  refine ⟨?_, ?_, ?_⟩
  · intro i j first second c hi hj hfirst hsecond
    rcases hat i first hi with hi | ⟨-, rfl⟩
    · rcases hat j second hj with hj | ⟨-, rfl⟩
      · exact h.alone _ _ _ _ _ hi hj hfirst hsecond
      · cases hsecond
    · cases hfirst
  · intro i other hi
    rcases hat i other hi with hi | ⟨rfl, rfl⟩
    · exact h.calls i other hi
    · -- no query names a call that is not there yet
      have hnone : pool.sentBy pool.calls.length = [] := by
        rw [Pool.sentBy, List.filter_eq_nil_iff]
        intro query hquery hcaller
        obtain ⟨-, call, hcall, -⟩ := h.queries query hquery
        rw [of_decide_eq_true hcaller, List.getElem?_eq_none (le_refl _)] at hcall
        cases hcall
      exact ⟨fun c hc => (nomatch hc), fun _ => hnone, by
        change (pool.sentBy pool.calls.length).length ≤ 1
        simp [hnone], fun rows hrows => (nomatch hrows)⟩
  · intro query hquery
    obtain ⟨hown, call, hcall, hselect⟩ := h.queries query hquery
    refine ⟨hown, call, ?_, hselect⟩
    have hlt : query.caller < pool.calls.length := by
      by_contra hge
      rw [List.getElem?_eq_none (by omega)] at hcall
      cases hcall
    exact (List.getElem?_append_left hlt).trans hcall

/-! ## The steps -/

theorem holds_false {pool : Pool Row} {c : Nat} (h : pool.holds c = false) {i : Nat}
    {other : Call Row} (hi : pool.calls[i]? = some other) : other.stage.connection ≠ some c := by
  intro hc
  have := List.any_eq_false.mp h other (List.mem_of_getElem? hi)
  simp [hc] at this

theorem apart_connect {pool pool' : Pool Row} {caller : Nat} {connection : Option Nat}
    {select : SelectCall} (h : Apart db pool)
    (hcall : pool.calls[caller]? = some ⟨select, .connecting⟩)
    (hconnect : connect poolMax pool caller connection = some pool') : Apart db pool' := by
  have hnone : pool.sentBy caller = [] := (h.calls _ _ hcall).unsent rfl
  unfold connect at hconnect
  cases connection with
  | some c =>
    simp only at hconnect
    split at hconnect
    · rename_i hfree
      cases hconnect
      refine apart_setStage h hcall rfl ⟨?_, fun _ => hnone, by simp [hnone], ?_⟩ ?_
        (fun _ _ => rfl) fun query hquery => Or.inl hquery
      · rintro c' ⟨⟩
        exact ⟨_, List.getElem?_eq_getElem hfree.1, trivial⟩
      · intro rows hrows
        cases hrows
      · intro i other c' hik hi hc'
        refine ⟨rfl, ?_⟩
        rintro ⟨⟩
        exact holds_false hfree.2 hi hc'
    · cases hconnect
  | none =>
    simp only at hconnect
    split at hconnect
    · cases hconnect
      refine apart_setStage h hcall rfl
        ⟨?_, fun _ => hnone, le_of_eq_of_le (congrArg List.length hnone) (Nat.zero_le 1), ?_⟩ ?_
        (fun _ _ => rfl) fun query hquery => Or.inl hquery
      · rintro c' ⟨⟩
        exact ⟨⟨roleSettings, .idle, false⟩, by simp, trivial⟩
      · intro rows hrows
        cases hrows
      · intro i other c' hik hi hc'
        obtain ⟨session, hsession, -⟩ := (h.calls i other hi).connected c' hc'
        have hlt : c' < pool.connections.length := by
          by_contra hge
          rw [List.getElem?_eq_none (by omega)] at hsession
          cases hsession
        refine ⟨List.getElem?_append_left hlt, ?_⟩
        rintro ⟨⟩
        omega
    · cases hconnect

theorem reaching_length_le {caller : Nat} (session : Session)
    (answer : Except DriverError (List Row)) (statement : Statement) :
    (reaching caller session answer statement).length ≤ 1 := by
  cases statement with
  | query select => by_cases hlost : session.lost = true <;> simp [reaching, hlost]
  | _ => simp [reaching]

/-- Where a call stands behind a statement, and what it has of its query. -/
theorem inOrder_next {connections connections' : List Session} {before : List (Executed Row)}
    {caller c : Nat} {call : Call Row} {statement : Statement} {session session' : Session}
    {outcome : Outcome} {answer : Except DriverError (List Row)}
    (h : InOrder connections before call) (hstatement : call.statement = some (c, statement))
    (hsession : connections[c]? = some session)
    (hrun : session.run db statement outcome = (answer, session'))
    (hconnections : connections'[c]? = some session') :
    InOrder connections' (before ++ reaching caller session answer statement)
      ⟨call.select, call.stage.next answer⟩ := by
  obtain ⟨select, stage⟩ := call
  obtain ⟨hconnected, hunsent, honce, hanswered⟩ := h
  -- a call that is rolled back holds its connection and has no rows
  have hrollingBack : ∀ error, (before ++ reaching caller session answer statement).length ≤ 1 →
      InOrder connections' (before ++ reaching caller session answer statement)
        ⟨select, .rollingBack c error⟩ := fun error hlength =>
    ⟨by rintro c' ⟨⟩; exact ⟨_, hconnections, trivial⟩, fun hbefore => (nomatch hbefore), hlength,
      fun rows hrows => (nomatch hrows)⟩
  cases stage with
  | connecting => cases hstatement
  | done result => cases hstatement
  | beginning c =>
    cases hstatement
    have hnone : before = [] := hunsent rfl
    subst hnone
    rcases answer with error | rows
    · exact hrollingBack _ (by simp [reaching])
    · obtain ⟨-, -, hexecute⟩ := run_ok hrun
      exact ⟨by rintro c' ⟨⟩; exact ⟨_, hconnections, execute_begin hexecute⟩, fun _ => rfl,
        by simp [reaching], fun rows hrows => (nomatch hrows)⟩
  | timingOut c =>
    cases hstatement
    have hnone : before = [] := hunsent rfl
    subst hnone
    rcases answer with error | rows
    · exact hrollingBack _ (by simp [reaching])
    · obtain ⟨-, -, hexecute⟩ := run_ok hrun
      obtain ⟨found, hfound, hprepared⟩ := hconnected c rfl
      rw [hsession] at hfound
      cases hfound
      exact ⟨by
        rintro c' ⟨⟩
        exact ⟨_, hconnections, execute_setStatementTimeout hprepared hexecute⟩,
        fun _ => rfl, by simp [reaching], fun rows hrows => (nomatch hrows)⟩
  | owning c =>
    cases hstatement
    have hnone : before = [] := hunsent rfl
    subst hnone
    rcases answer with error | rows
    · exact hrollingBack _ (by simp [reaching])
    · obtain ⟨-, -, hexecute⟩ := run_ok hrun
      obtain ⟨found, hfound, hopened, htimeout⟩ := hconnected c rfl
      rw [hsession] at hfound
      cases hfound
      obtain ⟨hopened', hsettings⟩ := execute_setOwnerSubject hopened hexecute
      refine ⟨?_, fun _ => rfl, by simp [reaching], fun rows hrows => (nomatch hrows)⟩
      rintro c' ⟨⟩
      exact ⟨_, hconnections, hopened', by rw [hsettings, htimeout]; rfl⟩
  | querying c =>
    cases hstatement
    have hnone : before = [] := hunsent rfl
    subst hnone
    have hlength : (([] : List (Executed Row)) ++
        reaching caller session answer (.query select)).length ≤ 1 :=
      reaching_length_le session answer (.query select)
    rcases answer with error | rows
    · exact hrollingBack _ hlength
    · obtain ⟨-, hlost, -⟩ := run_ok hrun
      refine ⟨by rintro c' ⟨⟩; exact ⟨_, hconnections, trivial⟩, fun hbefore => (nomatch hbefore),
        hlength, ?_⟩
      rintro rows' ⟨⟩
      exact ⟨⟨caller, select, session, .ok rows⟩, by simp [reaching, hlost], rfl⟩
  | committing c rows =>
    cases hstatement
    have hsame : before ++ reaching caller session answer .commit = before := List.append_nil _
    rcases answer with error | none
    · exact hrollingBack _ (by rw [hsame]; exact honce)
    · rw [hsame]
      exact ⟨fun c' hc' => (nomatch hc'), fun hbefore => (nomatch hbefore), honce, hanswered⟩
  | rollingBack c error =>
    cases hstatement
    have hsame : before ++ reaching caller session answer .rollback = before := List.append_nil _
    rw [hsame]
    have hnext : (Stage.rollingBack c error).next answer = .done (.error (.mcp error)) := by
      cases answer <;> rfl
    dsimp only
    rw [hnext]
    exact ⟨fun c' hc' => (nomatch hc'), fun hbefore => (nomatch hbefore), honce,
      fun rows hrows => (nomatch hrows)⟩

/-- A statement of a call that sends one is for the connection that the call holds. -/
theorem connection_of_statement {call : Call Row} {c : Nat} {statement : Statement}
    (h : call.statement = some (c, statement)) : call.stage.connection = some c := by
  obtain ⟨select, stage⟩ := call
  cases stage <;> cases h <;> rfl

/-- A call that goes on holds the connection that it held, or none. -/
theorem connection_next {stage : Stage Row} {c c' : Nat} {answer : Except DriverError (List Row)}
    (h : stage.connection = some c) (h' : (stage.next answer).connection = some c') : c' = c := by
  cases stage <;> cases answer <;> simp_all [Stage.next, Stage.connection]

/-- The query that a call sends is its own, on a connection that it has prepared. -/
theorem ownQuery_reaching {call : Call Row} {caller c : Nat} {statement : Statement}
    {session session' : Session} {outcome : Outcome} {answer : Except DriverError (List Row)}
    {query : Executed Row} (hprepared : Prepared call.select session call.stage)
    (hstatement : call.statement = some (c, statement))
    (hrun : session.run db statement outcome = (answer, session'))
    (hquery : query ∈ reaching caller session answer statement) :
    query.caller = caller ∧ query.call = call.select ∧ OwnQuery db query := by
  obtain ⟨select, stage⟩ := call
  cases stage with
  | querying c =>
    cases hstatement
    obtain ⟨hopened, hsettings⟩ := hprepared
    unfold reaching at hquery
    simp only at hquery
    split at hquery
    · cases hquery
    · cases List.mem_singleton.mp hquery
      refine ⟨rfl, rfl, hopened, hsettings, ?_⟩
      rintro rows hrows
      dsimp only at hrows
      subst hrows
      obtain ⟨-, -, hexecute⟩ := run_ok hrun
      exact hsettings ▸ execute_query hopened hexecute
  | connecting => cases hstatement
  | done result => cases hstatement
  | beginning c => cases hstatement; cases hquery
  | timingOut c => cases hstatement; cases hquery
  | owning c => cases hstatement; cases hquery
  | committing c rows => cases hstatement; cases hquery
  | rollingBack c error => cases hstatement; cases hquery

theorem apart_send {pool pool' : Pool Row} {caller : Nat} {call : Call Row} {outcome : Outcome}
    (h : Apart db pool) (hcall : pool.calls[caller]? = some call)
    (hsend : send db pool caller call outcome = some pool') : Apart db pool' := by
  unfold send at hsend
  obtain ⟨⟨c, statement⟩, hstatement, hsend⟩ := Option.bind_eq_some_iff.mp hsend
  obtain ⟨session, hsession, hsend⟩ := Option.bind_eq_some_iff.mp hsend
  rcases hrun : session.run db statement outcome with ⟨answer, session'⟩
  simp only [hrun, Option.pure_def, Option.some.injEq] at hsend
  subst hsend
  have hc := connection_of_statement hstatement
  have horder := h.calls caller call hcall
  obtain ⟨found, hfound, hprepared⟩ := horder.connected c hc
  rw [hsession] at hfound
  cases hfound
  have hlt : c < pool.connections.length := by
    by_contra hge
    rw [List.getElem?_eq_none (by omega)] at hsession
    cases hsession
  have hmine : ∀ query ∈ reaching caller session answer statement, query.caller = caller ∧
      query.call = call.select ∧ OwnQuery db query := fun query hquery =>
    ownQuery_reaching hprepared hstatement hrun hquery
  refine apart_setStage h hcall rfl ?_ ?_ ?_ ?_
  · have hsent : (reaching caller session answer statement).filter (fun query =>
        query.caller = caller) = reaching caller session answer statement :=
      List.filter_eq_self.mpr fun query hquery => by simpa using (hmine query hquery).1
    have hsame : pool.sentBy caller ++ reaching caller session answer statement =
        (pool.executed ++ reaching caller session answer statement).filter fun query =>
          query.caller = caller := by
      rw [List.filter_append, hsent]
      rfl
    change InOrder (pool.connections.set c session') ((pool.executed ++
      reaching caller session answer statement).filter fun query => query.caller = caller) _
    rw [← hsame]
    exact inOrder_next horder hstatement hsession hrun (List.getElem?_set_self hlt)
  · intro i other c' hik hi hc'
    have hne := connected_elsewhere h hi hcall hik hc' hc
    refine ⟨List.getElem?_set_ne hne, fun hnext => hne (connection_next hc hnext).symm⟩
  · intro i hik
    have hnone : (reaching caller session answer statement).filter (fun query =>
        query.caller = i) = [] := by
      rw [List.filter_eq_nil_iff]
      intro query hquery
      rw [(hmine query hquery).1]
      simpa using Ne.symm hik
    change (pool.executed ++ reaching caller session answer statement).filter _ = _
    rw [List.filter_append, hnone, List.append_nil]
    rfl
  · intro query hquery
    exact (List.mem_append.mp hquery).imp_right (hmine query)

theorem apart_step {pool pool' : Pool Row} {label : Label} (h : Apart db pool)
    (hstep : step db poolMax pool label = some pool') : Apart db pool' := by
  cases label with
  | runSelect select =>
    cases hstep
    exact apart_runSelect h select
  | connect caller connection =>
    simp only [step] at hstep
    split at hstep
    · rename_i hcall
      exact apart_connect h hcall hstep
    · cases hstep
  | connectFails caller =>
    simp only [step] at hstep
    split at hstep
    · rename_i hcall
      cases hstep
      have hnone := (h.calls _ _ hcall).unsent rfl
      refine apart_setStage h hcall rfl ⟨fun c hc => (nomatch hc), fun _ => hnone, ?_,
        fun rows hrows => (nomatch hrows)⟩ (fun i other c _ _ _ => ⟨rfl, nofun⟩) (fun _ _ => rfl)
        fun query hquery => Or.inl hquery
      rw [hnone]
      exact Nat.zero_le 1
    · cases hstep
  | statement caller outcome =>
    obtain ⟨call, hcall, hsend⟩ := Option.bind_eq_some_iff.mp hstep
    exact apart_send h hcall hsend

theorem apart_emptyPool : Apart db (emptyPool : Pool Row) :=
  ⟨fun i j call other c hi => by simp [emptyPool] at hi, fun i call hi => by simp [emptyPool] at hi,
    fun query hquery => by simp [emptyPool] at hquery⟩

theorem apart_of_reaches {pool : Pool Row} {ok : Pool Row → Label → Prop}
    (h : Reaches (step db poolMax) ok emptyPool pool) : Apart db pool :=
  h.invariant apart_emptyPool fun _ _ _ hi _ hs => apart_step hi hs

/-! ## The law -/

/-- In every interleaving of calls, whatever statements fail and whatever earlier queries left in
the settings of their connections: a query reaches PostgreSQL in a transaction that only reads,
with the owner and the timeout of its own call, once for a call at most, and the rows that a call
returns are those of its query there. -/
theorem each_query_runs_for_its_own_owner (db : Database Row) (poolMax : Nat) (pool : Pool Row)
    (h : Reaches (step db poolMax) anyStep emptyPool pool) :
    (∀ query ∈ pool.executed, InReadOnly query.session ∧
      query.session.settings = ownSettings query.call ∧
      ∃ call, pool.calls[query.caller]? = some call ∧ call.select = query.call) ∧
    ∀ (i : Nat) (call : Call Row), pool.calls[i]? = some call →
      (pool.sentBy i).length ≤ 1 ∧
        ∀ rows, call.stage = .done (.ok rows) →
          db.select call.select (ownSettings call.select) = .ok rows := by
  have hapart := apart_of_reaches h
  refine ⟨fun query hquery => ?_, fun i call hi => ⟨(hapart.calls i call hi).once, ?_⟩⟩
  · obtain ⟨⟨hopened, hsettings, -⟩, hcall⟩ := hapart.queries query hquery
    exact ⟨hopened, hsettings, hcall⟩
  · intro rows hdone
    obtain ⟨query, hquery, hanswer⟩ := (hapart.calls i call hi).answered rows (by rw [hdone]; rfl)
    obtain ⟨hmem, hcaller⟩ := List.mem_filter.mp hquery
    obtain ⟨⟨-, -, hrows⟩, other, hother, hselect⟩ := hapart.queries query hmem
    rw [of_decide_eq_true hcaller, hi] at hother
    cases hother
    rw [hselect]
    exact hrows rows hanswer

/-- A database whose queries read the owner, and leave another one for their session. -/
def tellsOwner : Database String where
  select _ settings := .ok [settings.owner_subject.getD ""]
  sets _ settings := { settings with owner_subject := some "mallory" }
  keeps _ settings := { settings with owner_subject := some "mallory" }

def selectFor (owner : String) : SelectCall := ⟨"SELECT 1", [], ⟨owner, 5000⟩⟩

/-- The only connection is used by one owner, whose commit fails and who cannot roll back, and
then twice by another: the first time its transaction is found aborted. -/
def handedOver : List Label :=
  [.runSelect (selectFor "ann"), .runSelect (selectFor "bob"), .runSelect (selectFor "bob"),
    .connect 0 none, .statement 0 .executed, .statement 0 .executed, .statement 0 .executed,
    .statement 0 .executed, .statement 0 (.fails ⟨none⟩), .statement 0 (.fails ⟨none⟩),
    .connect 1 (some 0), .statement 1 .executed, .statement 1 .executed,
    .connect 2 (some 0), .statement 2 .executed, .statement 2 .executed, .statement 2 .executed,
    .statement 2 .executed, .statement 2 .executed]

theorem a_connection_is_handed_over_without_its_owner :
    ∃ pool, runAll (step tellsOwner 1) emptyPool handedOver = some pool ∧
      (pool.executed.map fun query => query.session.settings.owner_subject) =
        [some "ann", some "bob"] ∧
      ∀ query ∈ pool.executed, InReadOnly query.session ∧
        query.session.settings = ownSettings query.call ∧
        ∃ call, pool.calls[query.caller]? = some call ∧ call.select = query.call :=
  ⟨_, rfl, rfl, (each_query_runs_for_its_own_owner tellsOwner 1 _
    (reaches_of_runAll rfl (along_anyStep emptyPool handedOver))).1⟩

end nova.read_only_pool
