-- Sales: the two ways in (createSaleBodySchema of the REST route, and salesCreateInput of the
-- capability executor), SaleService.createSale with the money helpers of lib/money.ts, and the
-- tables that keep a sale. The laws say what is stored for a text of a discount.
import Nova.Decimals

namespace nova.sale

open decimals program_text

/-! ## lib/money.ts -/

/-- `decimalToScaledBigInt` after the sign. -/
def scaledUnsigned (value : String) (scale : Nat) (negative : Bool) (unsigned : List Char) :
    Except String Int :=
  -- the first two parts of `unsigned.split('.')`
  let intPart := unsigned.takeWhile fun c => c ≠ '.'
  let fracPart := ((unsigned.dropWhile fun c => c ≠ '.').drop 1).takeWhile fun c => c ≠ '.'
  if intPart.all Char.isDigit && fracPart.all Char.isDigit then
    let fracPadded := (fracPart ++ List.replicate scale '0').take scale
    let magnitude : Int := number ((if intPart = [] then ['0'] else intPart) ++ fracPadded)
    .ok (if negative then -magnitude else magnitude)
  else .error ("Invalid decimal value: " ++ value)

/-- A decimal text in units of the last of so many decimals; more decimals are cut off. -/
def decimalToScaledBigInt (value : String) (scale : Nat) : Except String Int :=
  match trimChars isJsSpace value.toList with
  | '-' :: cs => scaledUnsigned value scale true cs
  | cs => scaledUnsigned value scale false cs

def padStart (width : Nat) (digits : List Char) : List Char :=
  List.replicate (width - digits.length) '0' ++ digits

def scaledBigIntToDecimal (value : Int) (scale : Nat) : String :=
  let digits := padStart (scale + 1) (Nat.toDigits 10 value.natAbs)
  let cut := digits.length - scale
  let result := if scale > 0 then digits.take cut ++ '.' :: digits.drop cut else digits
  String.ofList (if value < 0 then '-' :: result else result)

structure ReceiptLine where
  priceCents : Int
  quantity : Nat

/-- A discount that is null or empty is none at all. -/
def computeReceiptTotalCents (lines : List ReceiptLine) (discountPercent : Option String) :
    Except String Int :=
  let subtotal := lines.foldl (fun sum line => sum + line.priceCents * (line.quantity : Int)) 0
  match discountPercent.filter fun text => text ≠ "" with
  | none => .ok subtotal
  | some text => do
    let centiPercent ← decimalToScaledBigInt text 2
    let retained := 10000 - centiPercent
    return (subtotal * retained + 5000).tdiv 10000

/-! ## The two ways in -/

/-- A body whose fields are of their types; a field that may be left out is `none`. -/
structure SaleBody where
  customerId : String
  date : String
  discountApplied : Option String
  paymentReceived : Option Bool
  dateOfPayment : Option (Option String)
  items : List (String × ℚ)

structure Item where
  productId : String
  quantity : Nat
deriving DecidableEq

structure CreateSaleInput where
  customerId : String
  date : String
  discountApplied : String
  paymentReceived : Bool
  dateOfPayment : Option String
  items : List Item

/-- The checks of zod on texts that are not modelled. -/
structure Zod where
  uuid : String → Bool
  datetime : String → Bool

variable (zod : Zod)

/-- `/^\d{1,3}(\.\d{1,2})?$/` -/
def isDecimalString (cs : List Char) : Bool :=
  let whole := cs.takeWhile Char.isDigit
  let rest := cs.dropWhile Char.isDigit
  1 ≤ whole.length && whole.length ≤ 3 &&
    (rest = [] || (rest.head? = some '.' && (rest.drop 1).all Char.isDigit &&
      1 ≤ (rest.drop 1).length && (rest.drop 1).length ≤ 2))

/-- `Number(value) <= 100` of a text of digits; no digits are lost up to 100. -/
def atMostHundred (text : String) : Bool := (numeric_in text).any fun n => n.value ≤ 100

/-- `discountApplied` of the REST body. -/
def restDiscount (discountApplied : Option String) : Option String :=
  match discountApplied with
  | none => some "0.00"
  | some text =>
    let trimmed := trim text
    if isDecimalString trimmed.toList && atMostHundred trimmed then some trimmed else none

def itemsOf (items : List (String × ℚ)) : List Item :=
  items.map fun item => ⟨item.1, item.2.num.toNat⟩

/-- A product id and a quantity that is a positive whole number. -/
def isItem (item : String × ℚ) : Bool := zod.uuid item.1 && item.2.den = 1 && 0 < item.2

def datesValid (body : SaleBody) : Bool :=
  zod.datetime body.date && body.dateOfPayment.all fun date => date.all zod.datetime

/-- `createSaleBodySchema` and the controller. -/
def createSaleBodySchema (body : SaleBody) : Option CreateSaleInput := do
  let discountApplied ← restDiscount body.discountApplied
  let paymentReceived := body.paymentReceived.getD false
  let dateOfPayment := body.dateOfPayment.join
  if zod.uuid body.customerId && datesValid zod body && !body.items.isEmpty &&
      (body.items.all fun item => isItem zod item && item.2 ≤ 100000) &&
      (body.items.map Prod.fst).Nodup && (!paymentReceived || dateOfPayment.isSome) then
    some ⟨body.customerId, body.date, discountApplied, paymentReceived, dateOfPayment,
      itemsOf body.items⟩
  else none

/-- `salesCreateInput` of the capability executor, which takes any text for the discount. -/
def salesCreateInput (body : SaleBody) : Option CreateSaleInput :=
  if zod.uuid body.customerId && datesValid zod body && !body.items.isEmpty &&
      body.items.all (isItem zod) then
    some ⟨body.customerId, body.date, body.discountApplied.getD "0",
      body.paymentReceived.getD false, body.dateOfPayment.join, itemsOf body.items⟩
  else none

inductive Entry where
  | rest
  | agent

/-- The input of `createSale` that a body is admitted as. -/
def inputOfBody : Entry → SaleBody → Option CreateSaleInput
  | .rest => createSaleBodySchema zod
  | .agent => salesCreateInput zod

/-! ## The tables -/

/-- A product with its price, a `numeric(12,2)` that is not negative, in hundredths. -/
structure Product where
  id : String
  price : Nat

structure SaleRow where
  id : String
  customer_id : String
  discount_applied : ℚ
  date : String
  total_amount_receipt : ℚ
  payment_received : Bool
  date_of_payment : Option String
deriving DecidableEq

structure ProductSold where
  sale_id : String
  product_id : String
  quantity : Nat

structure Db where
  customers : List String
  products : List Product
  sales : List SaleRow
  products_sold : List ProductSold

/-- A `numeric(_,2)` as it is read. -/
def numeric_out (hundredths : Nat) : String :=
  String.ofList (Numeral.text ⟨false, Nat.toDigits 10 (hundredths / 100),
    [Nat.digitChar (hundredths / 10 % 10), Nat.digitChar (hundredths % 10)]⟩)

/-- What a `numeric(precision,2)` column keeps of a text, in hundredths. -/
def numericColumn (precision : Nat) (text : String) : Except String Int :=
  match numeric_in text with
  | none => .error ("invalid input syntax for type numeric: \"" ++ text ++ "\"")
  | some n =>
    let kept := roundedTo 2 n.value
    if kept.natAbs < 10 ^ precision then .ok kept else .error "numeric field overflow"

structure CreateSaleData where
  customerId : String
  date : String
  discountApplied : String
  totalAmountReceipt : String
  paymentReceived : Bool
  dateOfPayment : Option String
  items : List Item

/-- The transaction of `SaleRepository.create`. -/
def create (db : Db) (id : String) (data : CreateSaleData) : Except String Db := do
  let discount ← numericColumn 5 data.discountApplied
  let total ← numericColumn 12 data.totalAmountReceipt
  if discount < 0 then .error "CHK_sales_discount_min"
  else if 10000 < discount then .error "CHK_sales_discount_max"
  else if total < 0 then .error "CHK_sales_total_non_negative"
  else if !decide (data.items.map Item.productId).Nodup then .error "PK_products_sold"
  else if data.items.any fun item => 2 ^ 31 ≤ item.quantity then .error "integer out of range"
  else if data.items.any fun item => item.quantity = 0 then
    .error "CHK_products_sold_quantity_positive"
  else
    let row : SaleRow := ⟨id, data.customerId, discount / 100, data.date, total / 100,
      data.paymentReceived, data.dateOfPayment⟩
    .ok { db with
      sales := db.sales ++ [row]
      products_sold := db.products_sold ++
        data.items.map fun item => ⟨id, item.productId, item.quantity⟩ }

/-! ## SaleService.createSale -/

def priceById (db : Db) (productId : String) : Option String :=
  (db.products.find? fun product => product.id = productId).map fun product =>
    numeric_out product.price

def lineOf (db : Db) (item : Item) : Except String ReceiptLine :=
  match priceById db item.productId with
  | none => .error ("Product " ++ item.productId ++ " does not exist.")
  | some price => do
    let priceCents ← decimalToScaledBigInt price 2
    return ⟨priceCents, item.quantity⟩

/-- A sale, under the id that the database gives it. -/
def createSale (db : Db) (id : String) (input : CreateSaleInput) : Except String Db :=
  if !db.customers.contains input.customerId then
    .error "The selected customer does not exist."
  else do
    let lines ← input.items.mapM (lineOf db)
    let totalCents ← computeReceiptTotalCents lines (some input.discountApplied)
    create db id ⟨input.customerId, input.date, input.discountApplied,
      scaledBigIntToDecimal totalCents 2, input.paymentReceived, input.dateOfPayment, input.items⟩

end nova.sale
