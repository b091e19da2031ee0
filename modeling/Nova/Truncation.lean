-- What the flag `truncated` of run_select_query tells of the rows
-- (db-mcp-server/src/tools/register-tools.ts). Rows are cut in two places, by the LIMIT around
-- the query and by the byte budget. The laws say that the flag tells of the second cut only.
import Nova.ResultBudget
import Nova.RunSelectQuery

namespace nova.truncation

open json_tree nova.data_views nova.limits nova.result_budget nova.run_select_query
  nova.validate_select

variable {Row : Type} {ctx : ToolContext Row} {args : RunSelectArgs} {denoted : List Row}

/-! ## The two cuts -/

/-- What PostgreSQL does for `SELECT * FROM (q) LIMIT n`, for the query of the request: an answer
has min(n, |q|) of the rows that `q` denotes. -/
def LimitsRows (ctx : ToolContext Row) (args : RunSelectArgs) (denoted : List Row) : Prop :=
  ∀ rows, ctx.runSelect (issuedCall ctx args) = .ok rows →
    rows.length = min ctx.maxRows denoted.length ∧ rows.Subperm denoted

/-- The rows that the database answers with are over the byte budget. -/
def OverBudget (ctx : ToolContext Row) (args : RunSelectArgs) : Prop :=
  ∃ rows, ctx.runSelect (issuedCall ctx args) = .ok rows ∧ rows ≠ [] ∧
    ctx.maxResultBytes < ctx.byteLength rows

/-- The flag tells whether the rows of the query are all there. -/
structure Honest (r : SelectResult Row) (denoted : List Row) : Prop where
  complete : r.truncated = false → r.rows.Perm denoted
  shortened : r.truncated = true → r.rows.length < denoted.length

/-- The flag of the budget is set exactly when the rows were over it. -/
theorem truncated_iff {byteLength : List Row → Nat} {maxBytes : Nat} {rows : List Row}
    {cap : RowCapResult Row} (h : capResultBytes byteLength rows maxBytes = some cap) :
    cap.truncated = true ↔ rows ≠ [] ∧ maxBytes < byteLength rows := by
  have hguard : (0 < rows.length && maxBytes < byteLength rows : Bool) = true ↔
      rows ≠ [] ∧ maxBytes < byteLength rows := by
    simp [List.length_pos_iff]
  rw [← hguard]
  unfold capResultBytes at h
  rw [capRows] at h
  by_cases hlong : (0 < rows.length && maxBytes < byteLength rows : Bool) = true
  · rw [if_pos hlong] at h
    by_cases hone : rows.length = 1
    · rw [if_pos hone] at h
      cases h
    · rw [if_neg hone] at h
      have hflag := (capRows_spec byteLength maxBytes _ _ _ h).2.2.2
      simp [hflag, hlong]
  · rw [if_neg hlong, Option.some.injEq] at h
    rw [← h]
    simp [hlong]

/-- Rows that are not flagged are the rows that were fetched. -/
theorem rows_of_not_truncated {byteLength : List Row → Nat} {maxBytes : Nat} {rows : List Row}
    {cap : RowCapResult Row} (h : capResultBytes byteLength rows maxBytes = some cap)
    (hflag : cap.truncated = false) : cap.rows = rows := by
  obtain ⟨hfront, -, -, hiff⟩ := capRows_spec byteLength maxBytes _ _ _ h
  apply hfront.eq_of_length
  have hlen := hfront.length_le
  have hnot : ¬ cap.rows.length < rows.length := fun hlt => by
    have htrue := hiff.mpr (Or.inr hlt)
    rw [hflag] at htrue
    cases htrue
  omega

/-! ## What a result is made of -/

/-- A result of the handler has the rows of one answer of the database, cut to the budget. -/
structure MadeOf (ctx : ToolContext Row) (args : RunSelectArgs) (r : SelectResult Row)
    (rows : List Row) (cap : RowCapResult Row) : Prop where
  fetched : ctx.runSelect (issuedCall ctx args) = .ok rows
  capped : capResultBytes ctx.byteLength rows ctx.maxResultBytes = some cap
  rows : r.rows = cap.rows
  truncated : r.truncated = cap.truncated

theorem executeValidated_ok {validated : ValidatedSelect} {e e' : Effects} {r : SelectResult Row}
    (h : (executeValidated ctx args validated).run.run e = (.ok r, e')) :
    ∃ rows cap, MadeOf ctx args r rows cap := by
  unfold executeValidated at h
  have hcall : (⟨clampSelectToLimit args.sql ctx.maxRows, args.params.getD [],
      ⟨ctx.snapshot.ownerSubject, ctx.statementTimeoutMs⟩⟩ : SelectCall) = issuedCall ctx args := rfl
  rcases hf : findForbiddenView validated.relations (entitledViews ctx.snapshot.permissions)
    with _ | denial
  · rw [hf] at h
    simp only at h
    rw [run_bind, run_issueSelect, hcall] at h
    rcases hrows : ctx.runSelect (issuedCall ctx args) with error | rows
    · rw [hrows] at h
      cases h
    · rw [hrows] at h
      simp only [Except.mapError] at h
      rcases hcap : capResultBytes ctx.byteLength rows ctx.maxResultBytes with _ | cap
      · rw [hcap] at h
        cases h
      · rw [hcap] at h
        cases h
        exact ⟨rows, cap, hrows, hcap, rfl, rfl⟩
  · rw [hf] at h
    simp only at h
    rw [run_bind, run_record] at h
    cases h

theorem runSelectQuery_result {rawArgs : Json} {r : SelectResult Row}
    (hargs : parseRunSelectArgs rawArgs = some args)
    (h : (runSelectQuery ctx rawArgs).reply = .result r) :
    ∃ rows cap, MadeOf ctx args r rows cap := by
  unfold runSelectQuery at h
  rcases hrun : (selectBody ctx rawArgs).run.run ⟨[], []⟩ with ⟨out, e⟩
  obtain ⟨rfl, -⟩ := (guard_effects ctx _ _ _ hrun).2.2 r h
  unfold selectBody at hrun
  rcases ha : authorizeCapability ctx.snapshot SELECT_CAPABILITY with error | u
  · rw [ha] at hrun
    cases hrun
  rw [ha, hargs] at hrun
  simp only at hrun
  rcases hv : validateSelect ctx.js ctx.parseFn args.sql with error | validated
  · rw [hv] at hrun
    simp only at hrun
    rw [run_bind, run_record] at hrun
    cases hrun
  · rw [hv] at hrun
    exact executeValidated_ok hrun

/-- A query that is accepted and answered gives a result with the rows cut to the budget. -/
theorem runSelectQuery_answered {rawArgs : Json} {validated : ValidatedSelect} {rows : List Row}
    {cap : RowCapResult Row} (ha : authorizeCapability ctx.snapshot SELECT_CAPABILITY = .ok ())
    (hargs : parseRunSelectArgs rawArgs = some args)
    (hv : validateSelect ctx.js ctx.parseFn args.sql = .ok validated)
    (hf : findForbiddenView validated.relations (entitledViews ctx.snapshot.permissions) = none)
    (hrows : ctx.runSelect (issuedCall ctx args) = .ok rows)
    (hcap : capResultBytes ctx.byteLength rows ctx.maxResultBytes = some cap) :
    (runSelectQuery ctx rawArgs).reply = .result
      ⟨ctx.hashSql args.sql, validated.relations, cap.rows.length, cap.truncated, cap.rows⟩ := by
  have hcall : (⟨clampSelectToLimit args.sql ctx.maxRows, args.params.getD [],
      ⟨ctx.snapshot.ownerSubject, ctx.statementTimeoutMs⟩⟩ : SelectCall) = issuedCall ctx args := rfl
  unfold runSelectQuery nova.run_select_query.guard selectBody
  rw [ha, hargs]
  simp only
  rw [hv]
  simp only
  unfold executeValidated
  rw [hf]
  simp only
  rw [run_bind, run_issueSelect, hcall, hrows]
  simp only [Except.mapError, hcap]
  rfl

/-! ## The flag -/

/-- A result tells whether the rows of the query are all there exactly when the query has no more
rows than the LIMIT lets through or the rows that came through are over the byte budget. -/
theorem the_flag_is_honest_unless_the_limit_cuts (rawArgs : Json) (args : RunSelectArgs)
    (denoted : List Row) (r : SelectResult Row) (hargs : parseRunSelectArgs rawArgs = some args)
    (hlimit : LimitsRows ctx args denoted) (h : (runSelectQuery ctx rawArgs).reply = .result r) :
    Honest r denoted ↔ denoted.length ≤ ctx.maxRows ∨ OverBudget ctx args := by
  obtain ⟨rows, cap, hmade⟩ := runSelectQuery_result hargs h
  obtain ⟨hlen, hsub⟩ := hlimit rows hmade.fetched
  have hcut : r.truncated = true ↔ OverBudget ctx args := by
    rw [hmade.truncated, truncated_iff hmade.capped]
    constructor
    · rintro ⟨hne, hover⟩
      exact ⟨rows, hmade.fetched, hne, hover⟩
    · rintro ⟨rows', hrows', hne, hover⟩
      rw [hmade.fetched, Except.ok.injEq] at hrows'
      subst hrows'
      exact ⟨hne, hover⟩
  have hwhole : r.truncated = false → r.rows = rows := fun hflag => by
    rw [hmade.rows]
    exact rows_of_not_truncated hmade.capped (by rw [← hmade.truncated, hflag])
  constructor
  · intro hhonest
    by_cases hover : OverBudget ctx args
    · exact Or.inr hover
    · have hflag : r.truncated = false := by
        rw [← Bool.not_eq_true, hcut]
        exact hover
      have hperm := (hhonest.complete hflag).length_eq
      rw [hwhole hflag, hlen] at hperm
      left
      omega
  · intro hcase
    refine ⟨fun hflag => ?_, fun hflag => ?_⟩
    · have hnot : ¬ OverBudget ctx args := by
        rw [← hcut, hflag]
        exact Bool.false_ne_true
      have hfew := hcase.resolve_right hnot
      rw [hwhole hflag]
      apply hsub.perm_of_length_le
      omega
    · obtain ⟨-, -, -, hshort⟩ := capRows_spec ctx.byteLength ctx.maxResultBytes _ _ _ hmade.capped
      rw [hmade.truncated, hshort] at hflag
      rw [hmade.rows]
      have hlt := hflag.resolve_left Bool.false_ne_true
      omega

def sale (n : Nat) : Json := .obj [("id", .num n)]

/-- The caller with the sales permission over three sales, and a LIMIT of so many rows. -/
def threeSales (maxRows : Nat) : ToolContext Json :=
  { salesContext with
    maxRows := maxRows
    runSelect := fun call =>
      if call.sql = clampSelectToLimit "SELECT id FROM mcp_read.sales" maxRows then
        .ok ([sale 1, sale 2, sale 3].take maxRows)
      else .error .other
    byteLength := jsonSize .counting }

def salesRequest : Json := .obj [("sql", .str "SELECT id FROM mcp_read.sales")]

def salesArgs : RunSelectArgs := ⟨"SELECT id FROM mcp_read.sales", none⟩

theorem threeSales_limitsRows (maxRows : Nat) :
    LimitsRows (threeSales maxRows) salesArgs [sale 1, sale 2, sale 3] := by
  intro rows hrows
  have htaken : [sale 1, sale 2, sale 3].take maxRows = rows := by
    have hanswer : (threeSales maxRows).runSelect (issuedCall (threeSales maxRows) salesArgs) =
        .ok ([sale 1, sale 2, sale 3].take maxRows) := if_pos rfl
    rw [hanswer] at hrows
    exact Except.ok.inj hrows
  subst htaken
  exact ⟨List.length_take, (List.take_sublist _ _).subperm⟩

/-- The rows that come through the LIMIT are within the budget, and no flag is set. -/
theorem threeSales_reply (maxRows : Nat) (rows : List Json)
    (hrows : [sale 1, sale 2, sale 3].take maxRows = rows)
    (hsize : jsonSize .counting rows ≤ 100000) :
    (runSelectQuery (threeSales maxRows) salesRequest).reply =
      .result ⟨"sha256:", ["sales"], rows.length, false, rows⟩ := by
  have hcap : capResultBytes (threeSales maxRows).byteLength rows
      (threeSales maxRows).maxResultBytes = some ⟨rows, false⟩ := by
    unfold capResultBytes
    rw [capRows, if_neg]
    simp only [Bool.and_eq_true, decide_eq_true_eq, not_and, Nat.not_lt]
    exact fun _ => hsize
  have hanswer : (threeSales maxRows).runSelect (issuedCall (threeSales maxRows) salesArgs) =
      .ok rows := by
    rw [← hrows]
    exact if_pos rfl
  have hargs : parseRunSelectArgs salesRequest = some salesArgs := rfl
  have hv : validateSelect (threeSales maxRows).js (threeSales maxRows).parseFn salesArgs.sql =
      .ok ⟨["sales"]⟩ := by rfl
  exact runSelectQuery_answered rfl hargs hv rfl hanswer hcap

/-- Three sales and a LIMIT of two: two sales come back, and the flag says that nothing is cut. -/
theorem the_third_sale_is_cut_in_silence :
    LimitsRows (threeSales 2) salesArgs [sale 1, sale 2, sale 3] ∧
      ∃ r, (runSelectQuery (threeSales 2) salesRequest).reply = .result r ∧
        r.rows = [sale 1, sale 2] ∧ r.truncated = false ∧
        ¬ Honest r [sale 1, sale 2, sale 3] := by
  refine ⟨threeSales_limitsRows 2, _, threeSales_reply 2 [sale 1, sale 2] rfl (by decide +kernel),
    rfl, rfl, fun hhonest => ?_⟩
  have hlen := (hhonest.complete rfl).length_eq
  cases hlen

/-- Three sales and a LIMIT of three. -/
theorem three_sales_are_all_there :
    ∃ r, (runSelectQuery (threeSales 3) salesRequest).reply = .result r ∧
      (Honest r [sale 1, sale 2, sale 3] ↔
        [sale 1, sale 2, sale 3].length ≤ 3 ∨ OverBudget (threeSales 3) salesArgs) := by
  have hreply := threeSales_reply 3 [sale 1, sale 2, sale 3] rfl (by decide +kernel)
  exact ⟨_, hreply, the_flag_is_honest_unless_the_limit_cuts salesRequest salesArgs _ _ (by rfl)
    (threeSales_limitsRows 3) hreply⟩

end nova.truncation
