-- The receipt of a stored sale. The laws say for which discounts the total that was computed
-- before the row was stored is the total at the discount that the row has.
import Nova.ReceiptTotals

namespace nova.sale_receipts

open decimals program_text nova.sale nova.decimal_codec nova.receipt_totals

/-! ## Texts of amounts -/

theorem number_digitChar {d : Nat} (h : d < 10) : number [Nat.digitChar d] = d := by
  rw [number_singleton]
  exact Nat.toNat_digitChar_sub_48_of_lt_ten h

/-- A price is read as the number of its cents. -/
theorem price_cents {hundredths : Nat} {scaled : Int}
    (h : decimalToScaledBigInt (numeric_out hundredths) 2 = .ok scaled) : scaled = hundredths := by
  let n : Numeral := ⟨false, Nat.toDigits 10 (hundredths / 100),
    [Nat.digitChar (hundredths / 10 % 10), Nat.digitChar (hundredths % 10)]⟩
  have hdigits : n.Digits := by
    refine ⟨isDigit_of_mem_toDigits, ?_⟩
    intro c hc
    simp only [n, List.mem_cons, List.not_mem_nil, or_false] at hc
    rcases hc with rfl | rfl
    · rw [Nat.isDigit_digitChar, decide_eq_true_eq]
      omega
    · rw [Nat.isDigit_digitChar, decide_eq_true_eq]
      omega
  have hwhole : n.whole ≠ [] := Nat.toDigits_ne_nil
  have hcut : n.cut 2 = hundredths := by
    rw [cut_of_short (Nat.le_refl 2), Numeral.mantissa, number_append, number_toDigits]
    have htail := number_append [Nat.digitChar (hundredths / 10 % 10)]
      [Nat.digitChar (hundredths % 10)]
    rw [number_digitChar (Nat.mod_lt _ (by decide)), number_digitChar (Nat.mod_lt _ (by decide)),
      List.singleton_append, List.length_singleton] at htail
    rw [htail]
    simp only [n, List.length_cons, List.length_nil]
    omega
  have hread : numeric_in (numeric_out hundredths) = some n := numeric_in_text hdigits hwhole
  rw [decimalToScaledBigInt_decimal (decimalOf_of_numeric_in hread) h, hcut]
  rfl

/-- The database reads the total that the code writes as the cents that it is. -/
theorem total_text (total : Int) : ∃ n, numeric_in (scaledBigIntToDecimal total 2) = some n ∧
    n.Digits ∧ n.fraction.length = 2 ∧ n.signed (n.cut 2) = total := by
  refine ⟨written total 2, numeric_in_written total (by decide), digits_written total 2,
    length_fraction_written total 2, ?_⟩
  rw [cut_written, signed_written]

/-! ## A sale that is stored -/

variable {zod : Zod} {db db' : Db} {id : String} {input : CreateSaleInput} {body : SaleBody}

/-- The price of the product as it is read, in cents. -/
def priceCents (db : Db) (productId : String) : Nat :=
  ((db.products.find? fun product => product.id = productId).map Product.price).getD 0

/-- The sum of the lines in cents. -/
def subtotalCents (db : Db) (items : List Item) : Nat :=
  (items.map fun item => priceCents db item.productId * item.quantity).sum

/-- A subtotal reduced by a percentage, and rounded half up to the cent. -/
def receipt (subtotal discount : ℚ) : ℚ := ⌊subtotal * (1 - discount / 100) * 100 + 1 / 2⌋ / 100

theorem lineOf_ok {item : Item} {line : ReceiptLine} (h : lineOf db item = .ok line) :
    line = ⟨priceCents db item.productId, item.quantity⟩ := by
  unfold lineOf priceById at h
  unfold priceCents
  generalize db.products.find? _ = found at h ⊢
  rcases found with _ | product
  · cases h
  · dsimp only [Option.map_some] at h
    rcases hprice : decimalToScaledBigInt (numeric_out product.price) 2 with _ | cents
    · rw [hprice] at h
      cases h
    · rw [hprice] at h
      cases h
      rw [price_cents hprice]
      rfl

theorem lines_ok {items : List Item} {lines : List ReceiptLine}
    (h : items.mapM (lineOf db) = .ok lines) :
    lines = items.map fun item => ⟨priceCents db item.productId, item.quantity⟩ := by
  induction items generalizing lines with
  | nil =>
    cases h
    rfl
  | cons item items ih =>
    rw [List.mapM_cons] at h
    rcases hline : lineOf db item with _ | line
    · rw [hline] at h
      cases h
    · rw [hline] at h
      rcases hlines : items.mapM (lineOf db) with _ | rest
      · rw [hlines] at h
        cases h
      · rw [hlines] at h
        cases h
        rw [lineOf_ok hline, ih hlines]
        rfl

theorem subtotal_lines (items : List Item) :
    (items.map fun item => (⟨priceCents db item.productId, item.quantity⟩ : ReceiptLine)).foldl
      (fun sum line => sum + line.priceCents * (line.quantity : Int)) 0 =
      subtotalCents db items := by
  rw [foldl_subtotal, Int.zero_add]
  unfold subtotal subtotalCents
  induction items with
  | nil => rfl
  | cons item items ih =>
    simp only [List.map_cons, List.sum_cons] at ih ⊢
    rw [ih, cents]
    push_cast
    rfl

theorem numericColumn_ok {precision : Nat} {text : String} {kept : Int}
    (h : numericColumn precision text = .ok kept) :
    ∃ n, numeric_in text = some n ∧ kept = roundedTo 2 n.value := by
  unfold numericColumn at h
  split at h
  · cases h
  · rename_i n hn
    dsimp only at h
    split at h
    · cases h
      exact ⟨n, hn, rfl⟩
    · cases h

/-- What the transaction has stored. -/
theorem create_ok {data : CreateSaleData} (h : create db id data = .ok db') :
    ∃ discount total : Int, numericColumn 5 data.discountApplied = .ok discount ∧
      numericColumn 12 data.totalAmountReceipt = .ok total ∧ 0 ≤ discount ∧ discount ≤ 10000 ∧
      0 ≤ total ∧ db'.sales = db.sales ++ [⟨id, data.customerId, discount / 100, data.date,
        total / 100, data.paymentReceived, data.dateOfPayment⟩] := by
  unfold create at h
  rcases hdiscount : numericColumn 5 data.discountApplied with _ | discount
  · rw [hdiscount] at h
    cases h
  · rcases htotal : numericColumn 12 data.totalAmountReceipt with _ | total
    · rw [hdiscount, htotal] at h
      cases h
    · rw [hdiscount, htotal] at h
      dsimp only [bind, Except.bind] at h
      split at h
      · cases h
      · rename_i hmin
        split at h
        · cases h
        · rename_i hmax
          split at h
          · cases h
          · rename_i hnonneg
            split at h
            · cases h
            · split at h
              · cases h
              · split at h
                · cases h
                · cases h
                  exact ⟨discount, total, rfl, rfl, by omega, by omega, by omega, rfl⟩

/-- A row, the numeral of its discount, and the total that was computed with the numeral cut. -/
theorem createSale_ok (h : createSale db id input = .ok db') :
    ∃ (row : SaleRow) (discount : Numeral) (kept total : Int),
      db'.sales = db.sales ++ [row] ∧ numeric_in input.discountApplied = some discount ∧
      discount.Digits ∧ kept = roundedTo 2 discount.value ∧ 0 ≤ kept ∧ kept ≤ 10000 ∧ 0 ≤ total ∧
      total = ((subtotalCents db input.items : Int) * (10000 - discount.signed (discount.cut 2)) +
        5000).tdiv 10000 ∧
      row.discount_applied = kept / 100 ∧ row.total_amount_receipt = total / 100 := by
  unfold createSale at h
  split at h
  · cases h
  · rcases hlines : input.items.mapM (lineOf db) with _ | lines
    · rw [hlines] at h
      cases h
    · rcases htotal : computeReceiptTotalCents lines (some input.discountApplied) with _ | cents
      · rw [hlines] at h
        dsimp only [bind, Except.bind] at h
        rw [htotal] at h
        cases h
      · rw [hlines] at h
        dsimp only [bind, Except.bind] at h
        rw [htotal] at h
        obtain ⟨kept, stored, hkept, hstored, hmin, hmax, hnonneg, hsales⟩ := create_ok h
        obtain ⟨discount, hread, hrounded⟩ := numericColumn_ok hkept
        obtain ⟨hdigits, -⟩ := numeric_in_cases hread
        obtain ⟨written, hwritten, hround⟩ := numericColumn_ok hstored
        obtain ⟨n, hn, hndigits, hfraction, hcents⟩ := total_text cents
        have hstoredcents : stored = cents := by
          dsimp only at hwritten
          rw [hn, Option.some.injEq] at hwritten
          have hup : n.roundsUp 2 = false := by
            unfold Numeral.roundsUp
            rw [List.getElem?_eq_none (Nat.le_of_eq hfraction)]
            rfl
          rw [hround, ← hwritten, roundedTo_value hndigits, hup, ← hcents]
          simp
        refine ⟨_, discount, kept, stored, hsales, hread, hdigits, hrounded, hmin, hmax, hnonneg,
          ?_, rfl, rfl⟩
        rw [hstoredcents]
        unfold computeReceiptTotalCents at htotal
        have hne : input.discountApplied ≠ "" := by
          intro hempty
          rw [hempty] at hread
          have hnone : numeric_in "" = none := by decide
          rw [hnone] at hread
          cases hread
        have hkeep : (some input.discountApplied).filter (fun text => decide (text ≠ "")) =
            some input.discountApplied := by
          simp [hne]
        rw [hkeep] at htotal
        rcases hcenti : decimalToScaledBigInt input.discountApplied 2 with _ | centi
        · dsimp only at htotal
          rw [hcenti] at htotal
          cases htotal
        · dsimp only at htotal
          rw [hcenti] at htotal
          cases htotal
          rw [lines_ok hlines, subtotal_lines, 
            decimalToScaledBigInt_decimal (decimalOf_of_numeric_in hread) hcenti]

/-! ## Receipts -/

/-- No decimal of the discount is rounded up, or one hundredth of a percent more takes no cent off
the subtotal. -/
def KeepsCents (subtotal : Nat) (discount : Numeral) : Prop :=
  discount.roundsUp 2 = false ∨
    (subtotal : Int) ≤ (subtotal * (10000 - discount.cut 2) + 5000) % 10000

theorem receipt_cents (subtotal : Nat) (kept : Int) :
    receipt ((subtotal : ℚ) / 100) (kept / 100) = (discounted subtotal kept : ℚ) / 100 := by
  unfold receipt
  rw [discounted_eq_floor]
  congr 3
  push_cast
  ring

/-- Both ways of cutting the last hundredth agree where no cent is at stake. -/
theorem cents_iff {subtotal cut kept : Int} {up : Bool} (hsub : 0 ≤ subtotal)
    (hkept : kept = cut + if up then 1 else 0) (hmax : kept ≤ 10000) :
    discounted subtotal cut = discounted subtotal kept ↔
      up = false ∨ subtotal ≤ (subtotal * (10000 - cut) + 5000) % 10000 := by
  unfold discounted
  subst hkept
  cases up with
  | false => simp
  | true =>
    have hless : subtotal * (10000 - (cut + 1)) = subtotal * (10000 - cut) - subtotal := by ring
    simp only [if_true, Bool.true_eq_false, false_or]
    rw [hless]
    generalize subtotal * (10000 - cut) = reduced
    omega

/-! ## The REST route -/

/-- A text of the REST route has at most two decimals. -/
theorem fraction_of_restDiscount {given : Option String} {text : String} {n : Numeral}
    (h : restDiscount given = some text) (hn : numeric_in text = some n) :
    n.fraction.length ≤ 2 := by
  obtain ⟨d, rfl⟩ := discount_of_restDiscount h
  obtain ⟨m, hm, -, hfraction, -⟩ := decimalOf_decimalString d.pattern
  rw [decimalOf_of_numeric_in hn, Option.some.injEq] at hm
  rw [hm]
  exact hfraction

theorem discount_of_rest (h : createSaleBodySchema zod body = some input) :
    restDiscount body.discountApplied = some input.discountApplied := by
  unfold createSaleBodySchema at h
  obtain ⟨text, htext, h⟩ := Option.bind_eq_some_iff.mp h
  dsimp only at h
  split at h
  · cases h
    exact htext
  · cases h

/-! ## The receipt of a stored sale -/

/-- The stored total is the subtotal reduced by the stored discount and rounded half up exactly
when no decimal of the discount's text is rounded up or no cent is at stake, which is always so on
the REST route. -/
theorem a_receipt_has_its_discount_unless_that_is_rounded_up {entry : Entry}
    (hinput : inputOfBody zod entry body = some input) (h : createSale db id input = .ok db') :
    ∃ row discount, db'.sales = db.sales ++ [row] ∧
      numeric_in input.discountApplied = some discount ∧
      (row.total_amount_receipt =
          receipt ((subtotalCents db input.items : ℚ) / 100) row.discount_applied ↔
        KeepsCents (subtotalCents db input.items) discount) ∧
      (entry = .rest → row.total_amount_receipt =
        receipt ((subtotalCents db input.items : ℚ) / 100) row.discount_applied) := by
  obtain ⟨row, discount, kept, total, hsales, hread, hdigits, hkept, hmin, hmax, hnonneg, htotal,
    happlied, hreceipt⟩ := createSale_ok h
  rw [roundedTo_value hdigits] at hkept
  -- a discount that is stored is not negative, or it is zero
  have hcut : discount.signed (discount.cut 2) = discount.cut 2 ∧
      kept = discount.cut 2 + if discount.roundsUp 2 then 1 else 0 := by
    unfold Numeral.signed at hkept ⊢
    split at hkept
    · have hup : (0 : Int) ≤ if discount.roundsUp 2 then 1 else 0 := by
        split <;> decide
      constructor <;> omega
    · rename_i hsign
      exact ⟨if_neg hsign, hkept⟩
  have hmost : (discount.cut 2 : Int) ≤ 10000 := by
    have hup : (0 : Int) ≤ if discount.roundsUp 2 then 1 else 0 := by
      split <;> decide
    omega
  have hdiv : total = discounted (subtotalCents db input.items) (discount.cut 2) := by
    rw [htotal, hcut.1, tdiv_eq_discounted (Int.natCast_nonneg _) hmost]
  have hiff : row.total_amount_receipt =
      receipt ((subtotalCents db input.items : ℚ) / 100) row.discount_applied ↔
      KeepsCents (subtotalCents db input.items) discount := by
    have hcents := cents_iff (Int.natCast_nonneg (subtotalCents db input.items)) hcut.2 hmax
    rw [happlied, hreceipt, receipt_cents, div_left_inj' (by norm_num), Int.cast_inj, hdiv]
    exact hcents
  refine ⟨row, discount, hsales, hread, hiff, ?_⟩
  rintro rfl
  have hfraction := fraction_of_restDiscount (discount_of_rest hinput) hread
  refine hiff.mpr (Or.inl ?_)
  unfold Numeral.roundsUp
  rw [List.getElem?_eq_none hfraction]
  rfl

/-! ## Two sales -/

/-- Checks that agree with zod's on ids and dates such as these. -/
def formats : Zod :=
  ⟨fun text => text.toList.length = 36, fun text => text.toList.getLast? = some 'Z'⟩

def alpha : String := "11111111-1111-4111-8111-111111111111"

def delta : String := "22222222-2222-4222-8222-222222222222"

def buyer : String := "33333333-3333-4333-8333-333333333333"

def shop : Db := ⟨[buyer], [⟨alpha, 20000⟩, ⟨delta, 1500⟩], [], []⟩

def order (discount : String) (items : List (String × ℚ)) : SaleBody :=
  ⟨buyer, "2026-06-01T09:00:00Z", some discount, none, none, items⟩

def inputOf (discount : String) (items : List Item) : CreateSaleInput :=
  ⟨buyer, "2026-06-01T09:00:00Z", discount, false, none, items⟩

theorem sold {result : Except String Db} {rows : List SaleRow}
    (h : result.toOption.map Db.sales = some rows) : ∃ db', result = .ok db' ∧ db'.sales = rows := by
  rcases result with _ | db'
  · cases h
  · exact ⟨db', rfl, Option.some.inj h⟩

/-- The agent's order of 230.00 with a discount of ten percent is a receipt of 207.00. -/
theorem ten_percent_off_is_taken_off :
    ∃ db', createSale shop "s1" (inputOf "10.00" [⟨alpha, 1⟩, ⟨delta, 2⟩]) = .ok db' ∧
      db'.sales = [⟨"s1", buyer, 10, "2026-06-01T09:00:00Z", 207, false, none⟩] ∧
      (207 : ℚ) = receipt ((23000 : Nat) / 100) 10 := by
  obtain ⟨db', hdb, hsales⟩ := sold (show (createSale shop "s1"
    (inputOf "10.00" [⟨alpha, 1⟩, ⟨delta, 2⟩])).toOption.map Db.sales =
      some [⟨"s1", buyer, 10, "2026-06-01T09:00:00Z", 207, false, none⟩] by decide +kernel)
  have hinput : inputOfBody formats .agent (order "10.00" [(alpha, 1), (delta, 2)]) =
      some (inputOf "10.00" [⟨alpha, 1⟩, ⟨delta, 2⟩]) := by rfl
  obtain ⟨row, discount, hrow, hread, hiff, -⟩ :=
    a_receipt_has_its_discount_unless_that_is_rounded_up hinput hdb
  have hplain : numeric_in "10.00" = some ⟨false, ['1', '0'], ['0', '0']⟩ := by decide +kernel
  rw [show (inputOf "10.00" [⟨alpha, 1⟩, ⟨delta, 2⟩]).discountApplied = "10.00" from rfl, hplain,
    Option.some.injEq] at hread
  rw [hsales] at hrow
  have hsame : (⟨"s1", buyer, 10, "2026-06-01T09:00:00Z", 207, false, none⟩ : SaleRow) = row :=
    (List.cons.inj hrow).1
  refine ⟨db', hdb, hsales, ?_⟩
  rw [← hsame, ← hread] at hiff
  exact hiff.mpr (Or.inl (by decide))

/-- The agent's discount of 0.005 percent is stored as 0.01, and nothing is taken off 100.00. -/
theorem a_receipt_does_not_always_have_its_discount :
    ∃ db' row, inputOfBody formats .agent (order "0.005" [(delta, 1)]) =
        some (inputOf "0.005" [⟨delta, 1⟩]) ∧
      createSale { shop with products := [⟨delta, 10000⟩] } "s1" (inputOf "0.005" [⟨delta, 1⟩]) =
        .ok db' ∧ db'.sales = [row] ∧ row.total_amount_receipt = 100 ∧
      receipt 100 row.discount_applied = 9999 / 100 := by
  obtain ⟨db', hdb, hsales⟩ := sold (show (createSale { shop with products := [⟨delta, 10000⟩] }
    "s1" (inputOf "0.005" [⟨delta, 1⟩])).toOption.map Db.sales =
      some [⟨"s1", buyer, 1 / 100, "2026-06-01T09:00:00Z", 100, false, none⟩] by decide +kernel)
  exact ⟨db', _, by rfl, hdb, hsales, rfl, by decide +kernel⟩

end nova.sale_receipts
