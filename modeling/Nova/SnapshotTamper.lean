-- What the hash of a snapshot pins (nova_orchestrator/authz/snapshot.py and the hash
-- of the API). The laws say that two payloads have one canonical text exactly when they
-- agree up to the order and the repetition of names, and that a row which passes
-- `verify_snapshot` against the hash of the API is the snapshot that the API captured.
import Mathlib
import Nova.CanonicalText
import Nova.EntitlementSnapshot
import Nova.JsonText
import Nova.SelfDelimiting

namespace nova.snapshot_tamper

open self_delimiting nova.agent_run nova.canonical_text nova.entitlement_snapshot nova.json_text

/-! ## Texts in quotes -/

theorem escapeChar_delimited : Delimited escapeChar := by
  intro c d r r' h
  rcases escapeChar_cases c with ⟨x, hc, hx⟩ | ⟨hc, hlow⟩ | ⟨hc, hback, -⟩ <;>
    rcases escapeChar_cases d with ⟨y, hd, hy⟩ | ⟨hd, hlow'⟩ | ⟨hd, hback', -⟩ <;>
    rw [hc, hd] at h <;>
    simp only [List.cons_append, List.nil_append, List.cons.injEq, true_and] at h
  · obtain ⟨rfl, hr⟩ := h
    rw [hx] at hy
    exact ⟨Option.some.inj hy, hr⟩
  · rw [h.1, shortEscape_u] at hx
    cases hx
  · exact absurd h.1.symm hback'
  · rw [← h.1, shortEscape_u] at hy
    cases hy
  · obtain ⟨hhigh, hdigit, hr⟩ := h
    have hdiv := hexDigit_inj (by omega) (by omega) hhigh
    have hmod := hexDigit_inj (by omega) (by omega) hdigit
    have hnat : c.toNat = d.toNat := by omega
    exact ⟨Char.toNat_inj.mp hnat, hr⟩
  · exact absurd h.1.symm hback'
  · exact absurd h.1 hback
  · exact absurd h.1 hback
  · exact h

theorem escapeChar_avoids_quote : Avoids escapeChar '"' := by
  intro c
  rcases escapeChar_cases c with ⟨x, hc, -⟩ | ⟨hc, -⟩ | ⟨hc, -, hquote⟩
  · exact ⟨_, _, hc, by decide⟩
  · exact ⟨_, _, hc, by decide⟩
  · exact ⟨_, _, hc, hquote⟩

/-- A text in quotes ends at its closing quote. -/
theorem quote_delimited : Delimited fun s => (quote s).toList := by
  have hbody := (escapeChar_delimited.flatMap escapeChar_avoids_quote).pre ['"']
  intro s t r r' h
  have htext : ∀ u : String, (quote u).toList = ['"'] ++ (u.toList.flatMap escapeChar ++ ['"']) := by
    intro u
    simp [quote]
  dsimp only at h hbody
  rw [htext, htext] at h
  obtain ⟨hst, hr⟩ := hbody h
  exact ⟨String.toList_inj.mp hst, hr⟩

theorem quote_avoids_bracket : Avoids (fun s => (quote s).toList) ']' := by
  intro s
  exact ⟨'"', s.toList.flatMap escapeChar ++ ['"'], by simp [quote], by decide⟩

theorem quoteAll_delimited : Delimited fun values => (quoteAll values).toList := by
  have hitems : Delimited fun vs : List String =>
      [','].intercalate (vs.map fun s => (quote s).toList) ++ [']'] :=
    quote_delimited.separated quote_avoids_bracket (by decide)
  have hbody := hitems.pre ['[']
  intro values values' r r' h
  have htext : ∀ vs : List String, (quoteAll vs).toList =
      ['['] ++ ([','].intercalate (vs.map fun s => (quote s).toList) ++ [']']) := by
    intro vs
    simp [quoteAll, String.toList_intercalate, Function.comp_def]
  dsimp only at h hbody
  rw [htext, htext] at h
  exact hbody h

/-! ## Whole numbers -/

/-- The letters of a whole number. -/
def isNumeral (c : Char) : Bool := c.isDigit || c = '-'

theorem isNumeral_of_mem_repr (i : Int) : ∀ c ∈ i.repr.toList, isNumeral c = true := by
  have hnat : ∀ n : Nat, ∀ c ∈ n.repr.toList, isNumeral c = true := by
    intro n c hc
    have hdigit : c.isDigit = true := by
      apply Nat.isDigit_of_mem_toDigits (b := 10) (n := n) (by decide) (by decide)
      simpa [Nat.repr] using hc
    simp [isNumeral, hdigit]
  cases i with
  | ofNat n => exact hnat n
  | negSucc n =>
    intro c hc
    have hsplit : c = '-' ∨ c ∈ (n + 1).repr.toList := by
      change c ∈ ("-" ++ (n + 1).repr).toList at hc
      rw [String.toList_append] at hc
      simpa using hc
    rcases hsplit with rfl | hc
    · rfl
    · exact hnat (n + 1) c hc

theorem number_delimited {mark : Char} (hm : isNumeral mark = false) :
    Delimited fun i : Int => (toString i).toList ++ [mark] := by
  refine delimited_of_all (p := isNumeral) ?_ isNumeral_of_mem_repr hm
  intro i j h
  exact Int.repr_inj.mp (String.toList_inj.mp h)

/-! ## The canonical text -/

/-- The same fields, up to the order and the repetition of names. -/
structure SamePayload (p q : SnapshotHashPayload) : Prop where
  ownerSubject : p.ownerSubject = q.ownerSubject
  roles : ∀ name, name ∈ p.roles ↔ name ∈ q.roles
  permissions : ∀ name, name ∈ p.permissions ↔ name ∈ q.permissions
  capabilityAllowlist : ∀ name, name ∈ p.capabilityAllowlist ↔ name ∈ q.capabilityAllowlist
  issuedAtEpochS : p.issuedAtEpochS = q.issuedAtEpochS
  expiresAtEpochS : p.expiresAtEpochS = q.expiresAtEpochS

/-- The texts of two payloads are equal only where the fields are, in whatever order
the names were sorted. -/
theorem fields_of_canonicalWith {sort sort' : List String → List String}
    {p q : SnapshotHashPayload} (h : canonicalWith sort p = canonicalWith sort' q) :
    p.ownerSubject = q.ownerSubject ∧ sort p.roles = sort' q.roles ∧
      sort p.permissions = sort' q.permissions ∧
      sort p.capabilityAllowlist = sort' q.capabilityAllowlist ∧
      p.issuedAtEpochS = q.issuedAtEpochS ∧ p.expiresAtEpochS = q.expiresAtEpochS := by
  unfold canonicalWith at h
  rw [← String.toList_inj] at h
  repeat rw [String.toList_append] at h
  repeat rw [List.append_assoc] at h
  rw [List.append_cancel_left_eq] at h
  obtain ⟨howner, h1⟩ := quote_delimited h
  rw [List.append_cancel_left_eq] at h1
  obtain ⟨hroles, h2⟩ := quoteAll_delimited h1
  rw [List.append_cancel_left_eq] at h2
  obtain ⟨hpermissions, h3⟩ := quoteAll_delimited h2
  rw [List.append_cancel_left_eq] at h3
  obtain ⟨hallowlist, h4⟩ := quoteAll_delimited h3
  rw [List.append_cancel_left_eq] at h4
  have hcomma : Delimited fun i : Int => (toString i).toList ++ [','] := number_delimited rfl
  have hbrace : Delimited fun i : Int => (toString i).toList ++ ['\x7d'] := number_delimited rfl
  obtain ⟨hissued, h5⟩ := @hcomma p.issuedAtEpochS q.issuedAtEpochS _ _ (by simpa using h4)
  obtain ⟨hexpires, -⟩ := @hbrace p.expiresAtEpochS q.expiresAtEpochS [] [] (by simpa using h5)
  exact ⟨howner, hroles, hpermissions, hallowlist, hissued, hexpires⟩

/-- A key that tells texts apart sorts the same names into the same list. -/
theorem sortedUniqueBy_eq_iff {key : String → List Nat} (hkey : Function.Injective key)
    (values values' : List String) :
    sortedUniqueBy key values = sortedUniqueBy key values' ↔ ∀ v, v ∈ values ↔ v ∈ values' := by
  constructor
  · intro h v
    rw [← mem_sortedUniqueBy key values, h, mem_sortedUniqueBy]
  · intro h
    have hsorted : ∀ vs, (sortedUniqueBy key vs).Pairwise fun a b => key a ≤ key b := by
      intro vs
      have htotal : Std.Total fun a b : String => key a ≤ key b :=
        ⟨fun a b => le_total (key a) (key b)⟩
      have htrans : IsTrans String fun a b => key a ≤ key b :=
        ⟨fun _ _ _ hab hbc => le_trans hab hbc⟩
      exact List.pairwise_insertionSort _ _
    have hperm : (sortedUniqueBy key values).Perm (sortedUniqueBy key values') := by
      apply (List.perm_ext_iff_of_nodup (sortedUniqueBy_nodup _ _) (sortedUniqueBy_nodup _ _)).mpr
      intro v
      rw [mem_sortedUniqueBy, mem_sortedUniqueBy]
      exact h v
    exact hperm.eq_of_pairwise (fun a b _ _ hab hba => hkey (le_antisymm hab hba)) (hsorted _)
      (hsorted _)

/-- What two sorts make one list of has the same members. -/
theorem mem_iff_of_sorts {key key' : String → List Nat} {values values' : List String}
    (h : sortedUniqueBy key values = sortedUniqueBy key' values') (v : String) :
    v ∈ values ↔ v ∈ values' := by
  rw [← mem_sortedUniqueBy key values, h, mem_sortedUniqueBy]

theorem samePayload_of_canonicalWith {key key' : String → List Nat} {p q : SnapshotHashPayload}
    (h : canonicalWith (sortedUniqueBy key) p = canonicalWith (sortedUniqueBy key') q) :
    SamePayload p q := by
  obtain ⟨howner, hroles, hpermissions, hallowlist, hissued, hexpires⟩ := fields_of_canonicalWith h
  exact ⟨howner, mem_iff_of_sorts hroles, mem_iff_of_sorts hpermissions,
    mem_iff_of_sorts hallowlist, hissued, hexpires⟩

/-- Two payloads have one canonical text exactly when they agree. -/
theorem canonical_eq_iff (p q : SnapshotHashPayload) : canonical p = canonical q ↔ SamePayload p q := by
  rw [canonical_eq, canonical_eq]
  constructor
  · exact samePayload_of_canonicalWith
  · rintro ⟨howner, hroles, hpermissions, hallowlist, hissued, hexpires⟩
    have hsort := sortedUniqueBy_eq_iff codePoints_injective
    unfold canonicalWith sorted_unique
    rw [howner, (hsort _ _).mpr hroles, (hsort _ _).mpr hpermissions, (hsort _ _).mpr hallowlist,
      hissued, hexpires]

/-! ## The verification -/

/-- Two texts on which the digest collides. -/
def Collide (sha256 : Digest) (a b : String) : Prop := a ≠ b ∧ sha256 a = sha256 b

theorem samePayload_or_collide {sha256 : Digest} {key key' : String → List Nat}
    {p q : SnapshotHashPayload}
    (h : "sha256:" ++ sha256 (canonicalWith (sortedUniqueBy key) p) =
      "sha256:" ++ sha256 (canonicalWith (sortedUniqueBy key') q)) :
    SamePayload p q ∨ Collide sha256 (canonicalWith (sortedUniqueBy key) p)
      (canonicalWith (sortedUniqueBy key') q) := by
  have hdigest := String.append_right_inj _ |>.mp h
  by_cases heq : canonicalWith (sortedUniqueBy key) p = canonicalWith (sortedUniqueBy key') q
  · exact Or.inl (samePayload_of_canonicalWith heq)
  · exact Or.inr ⟨heq, hdigest⟩

/-- The canonical text is equal exactly for payloads that agree up to the order and the
repetition of names; and a row that passes `verify_snapshot` against the hash that the API
pinned holds what the API captured, or else its text collides with the one of the API. -/
theorem a_snapshot_is_tamper_evident (sha256 : Digest) :
    (∀ p q : SnapshotHashPayload, canonical p = canonical q ↔ SamePayload p q) ∧
      ∀ (input : BuildEntitlementSnapshotInput) (entitlement : AgentRunEntitlement) (now : Int),
        verify_snapshot sha256 entitlement (buildEntitlementSnapshot sha256 input).snapshotHash now =
          .ok () →
        SamePayload (payload_of entitlement) (builtPayload input) ∨
          Collide sha256 (canonical (payload_of entitlement))
            (canonicalWith sortedUnique (builtPayload input)) := by
  refine ⟨canonical_eq_iff, fun input entitlement now h => ?_⟩
  obtain ⟨hstored, hexpected, -⟩ := (verify_snapshot_ok_iff _ _ _ _).mp h
  rw [canonical_eq]
  exact samePayload_or_collide (hstored.trans hexpected)

/-- A snapshot of a sales user for fifteen minutes. -/
def salesInput : BuildEntitlementSnapshotInput where
  ownerSubject := "alice"
  ownerUserId := "user-1"
  roles := ["sales-user"]
  permissions := ["read-sales", "create-agent-run"]
  resolveCapabilityAllowlist := fun _ => ["data.query.select"]
  ttlSeconds := 900
  now := 0

/-- The SHA-256 digest of its text. -/
def salesDigest : Digest := fun text =>
  if text = "\x7b\"ownerSubject\":\"alice\",\"roles\":[\"sales-user\"],\"permissions\":[\"create-agent-run\",\"read-sales\"],\"capabilityAllowlist\":[\"data.query.select\"],\"issuedAtEpochS\":0,\"expiresAtEpochS\":900\x7d" then
    "67c83acf86604ea935d8a993aa3218014ef6d44a8f1d852ef4a8630acfa561f8"
  else text

/-- The row with its names in another order is still the snapshot. -/
theorem the_sales_snapshot_is_accepted :
    SamePayload ⟨"alice", ["sales-user"], ["read-sales", "create-agent-run"], ["data.query.select"],
        0, 900⟩ (builtPayload salesInput) ∨
      Collide salesDigest (canonical ⟨"alice", ["sales-user"], ["read-sales", "create-agent-run"],
        ["data.query.select"], 0, 900⟩) (canonicalWith sortedUnique (builtPayload salesInput)) :=
  (a_snapshot_is_tamper_evident salesDigest).2 salesInput
    ⟨"ent-1", "alice", "user-1", ["sales-user"], ["read-sales", "create-agent-run"],
      ["data.query.select"], "sha256:67c83acf86604ea935d8a993aa3218014ef6d44a8f1d852ef4a8630acfa561f8", 0,
      900000⟩ 899999 (by decide +kernel)

end nova.snapshot_tamper
