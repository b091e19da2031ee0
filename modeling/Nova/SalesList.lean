-- The list of sales (listSales in modules/sales/sale.service.ts, findPaginated in
-- sale.repository.ts and http/pagination.ts), read page after page while sales are created. The
-- laws say what a reader who goes through all pages has seen.
import Mathlib.Data.List.Sort
import Mathlib.Data.String.Basic
import Nova.OffsetPages
import Nova.Runs
import Nova.Sales

namespace nova.sales_list

open labelled_runs offset_pages nova.sale

/-! ## The list -/

structure SaleListFilter where
  customerId : Option String
  paymentReceived : Option Bool
  «from» : Option String
  «to» : Option String

/-- The instant that PostgreSQL reads of the text of a `timestamptz`. -/
abbrev Instant := String → Int

variable (instant : Instant)

/-- A text of the filter counts when it is there and not empty. -/
def given (text : Option String) : Option String := text.filter fun t => t ≠ ""

/-- The `WHERE` of `findPaginated`. -/
def selects (filter : SaleListFilter) (row : SaleRow) : Bool :=
  ((given filter.customerId).all fun id => row.customer_id = id) &&
    (filter.paymentReceived.all fun paid => row.payment_received = paid) &&
    ((given filter.«from»).all fun t => instant t ≤ instant row.date) &&
    (given filter.«to»).all fun t => instant row.date ≤ instant t

/-- `ORDER BY sale.date DESC, sale.id DESC` -/
def Before (first second : SaleRow) : Prop :=
  instant second.date < instant first.date ∨
    instant second.date = instant first.date ∧ second.id ≤ first.id

instance : DecidableRel (Before instant) := fun first second =>
  inferInstanceAs (Decidable (instant second.date < instant first.date ∨
    instant second.date = instant first.date ∧ second.id ≤ first.id))

/-- All rows of the list, in their order. No two sales have one id, so there is one order. -/
def listed (db : Db) (filter : SaleListFilter) : List SaleRow :=
  ((db.sales.filter (selects instant filter)).reverse).insertionSort (Before instant)

/-- A page that a request may ask for. -/
structure PageRequest where
  page : Nat
  pageSize : Nat
  page_pos : 0 < page
  pageSize_pos : 0 < pageSize

structure PaginatedResult where
  items : List SaleRow
  total : Nat
  page : Nat
  pageSize : Nat
  totalPages : Nat

def buildPaginatedResult (items : List SaleRow) (total : Nat) (request : PageRequest) :
    PaginatedResult :=
  ⟨items, total, request.page, request.pageSize, pageCount request.pageSize total⟩

/-- `getMany` of `getManyAndCount`. -/
def getMany (db : Db) (filter : SaleListFilter) (request : PageRequest) : List SaleRow :=
  pageOf request.pageSize request.page (listed instant db filter)

/-- `getCount` of `getManyAndCount`, a query of its own. -/
def getCount (db : Db) (filter : SaleListFilter) : Nat := (listed instant db filter).length

/-! ## A reader of all pages, while sales are created -/

structure Walk where
  db : Db
  pages : List PaginatedResult
  items : Option (List SaleRow)

/-- A sale is created, or the next page is read: its rows, then the total, by a query or from a
page that is not full. -/
inductive Label where
  | createSale (id : String) (input : CreateSaleInput)
  | getMany
  | getCount
  | lazyCount

/-- The reader goes on until a page says that it is the last one. -/
def wantsMore (pages : List PaginatedResult) : Bool :=
  pages.getLast?.all fun result => result.page < result.totalPages

variable (filter : SaleListFilter) (pageSize : Nat) (hsize : 0 < pageSize)

def nextRequest (walk : Walk) : PageRequest :=
  ⟨walk.pages.length + 1, pageSize, Nat.succ_pos _, hsize⟩

/-- The page with the rows and the total. -/
def Walk.addPage (walk : Walk) (items : List SaleRow) (total : Nat) : Walk :=
  ⟨walk.db, walk.pages ++
    [buildPaginatedResult items total (nextRequest pageSize hsize walk)], none⟩

def step (walk : Walk) : Label → Option Walk
  | .createSale id input =>
    match createSale walk.db id input with
    | .ok db => some { walk with db := db }
    | .error _ => some walk
  | .getMany =>
    if wantsMore walk.pages && walk.items.isNone then
      some { walk with
        items := some (getMany instant walk.db filter (nextRequest pageSize hsize walk)) }
    else none
  | .getCount => walk.items.map fun items =>
    walk.addPage pageSize hsize items (getCount instant walk.db filter)
  | .lazyCount => (walk.items.filter fun items => items.length < pageSize).map fun items =>
    walk.addPage pageSize hsize items (walk.pages.length * pageSize + items.length)

def start (db : Db) : Walk := ⟨db, [], none⟩

/-- The sales on the pages so far. -/
def Walk.seen (walk : Walk) : List SaleRow := walk.pages.flatMap PaginatedResult.items

/-! ## What a step does -/

/-- The rows that were read, those of a page whose total is not known yet among them. -/
def Walk.found (walk : Walk) : List SaleRow := walk.seen ++ walk.items.getD []

/-- How many pages they are. -/
def Walk.read (walk : Walk) : Nat := walk.pages.length + walk.items.toList.length

variable {instant filter pageSize hsize} {walk walk' : Walk} {db : Db} {row : SaleRow}

theorem mem_listed :
    row ∈ listed instant db filter ↔ row ∈ db.sales ∧ selects instant filter row := by
  simp [listed]

theorem create_sales {id : String} {data : CreateSaleData} {db' : Db}
    (h : create db id data = .ok db') : ∃ row, db'.sales = db.sales ++ [row] := by
  simp only [create, bind, Except.bind] at h
  split at h
  · cases h
  split at h
  · cases h
  split_ifs at h
  cases h
  exact ⟨_, rfl⟩

theorem createSale_sales {id : String} {input : CreateSaleInput} {db' : Db}
    (h : createSale db id input = .ok db') : ∃ row, db'.sales = db.sales ++ [row] := by
  unfold createSale at h
  split at h
  · cases h
  simp only [bind, Except.bind] at h
  split at h
  · cases h
  split at h
  · cases h
  · exact create_sales h

/-- A sale that is created goes between the others. -/
theorem listed_createSale {id : String} {input : CreateSaleInput} {db' : Db}
    (h : createSale db id input = .ok db') :
    (listed instant db filter).Sublist (listed instant db' filter) := by
  obtain ⟨row, hrow⟩ := createSale_sales h
  unfold listed
  rw [hrow, List.filter_append, List.reverse_append]
  by_cases hsel : selects instant filter row
  · simpa [hsel] using List.sublist_orderedInsert row _
  · simp [hsel]

/-- A step creates a sale or none, or reads the rows of the next page, or ends a page. -/
theorem step_cases {label : Label}
    (h : step instant filter pageSize hsize walk label = some walk') :
    (∃ id input db, createSale walk.db id input = .ok db ∧ label = .createSale id input ∧
      walk' = { walk with db := db }) ∨ walk' = walk ∨
    (wantsMore walk.pages = true ∧ walk.items = none ∧ walk' = { walk with
      items := some (getMany instant walk.db filter (nextRequest pageSize hsize walk)) }) ∨
    ∃ items total, walk.items = some items ∧ walk' = walk.addPage pageSize hsize items total ∧
      (total = (listed instant walk.db filter).length ∨ items.length < pageSize) := by
  cases label with
  | createSale id input =>
    simp only [step] at h
    split at h
    · rename_i db hok
      cases h
      exact Or.inl ⟨id, input, db, hok, rfl, rfl⟩
    · cases h
      exact Or.inr (Or.inl rfl)
  | getMany =>
    simp only [step] at h
    split_ifs at h with hguard
    cases h
    simp only [Bool.and_eq_true, Option.isNone_iff_eq_none] at hguard
    exact Or.inr (Or.inr (Or.inl ⟨hguard.1, hguard.2, rfl⟩))
  | getCount =>
    obtain ⟨items, hitems, rfl⟩ := Option.map_eq_some_iff.mp h
    exact Or.inr (Or.inr (Or.inr ⟨items, _, hitems, rfl, Or.inl rfl⟩))
  | lazyCount =>
    obtain ⟨items, hitems, rfl⟩ := Option.map_eq_some_iff.mp h
    obtain ⟨hsome, hshort⟩ := Option.filter_eq_some_iff.mp hitems
    exact Or.inr (Or.inr (Or.inr ⟨items, _, hsome, rfl, Or.inr (by simpa using hshort)⟩))

/-! ## The last page -/

theorem seen_addPage (items : List SaleRow) (total : Nat) :
    (walk.addPage pageSize hsize items total).seen = walk.seen ++ items := by
  simp [Walk.seen, Walk.addPage, buildPaginatedResult]

/-- To end a page reads nothing. -/
theorem found_addPage {items : List SaleRow} (total : Nat) (h : walk.items = some items) :
    (walk.addPage pageSize hsize items total).found = walk.found := by
  simp only [Walk.found, seen_addPage, h]
  simp [Walk.addPage]

theorem read_addPage {items : List SaleRow} (total : Nat) (h : walk.items = some items) :
    (walk.addPage pageSize hsize items total).read = walk.read := by
  simp [Walk.read, Walk.addPage, h]

/-- After a page that says it is the last one, the pages hold as many rows as the total says. -/
theorem total_le_of_last {items : List SaleRow} {total : Nat} (hsome : walk.items = some items)
    (h : wantsMore (walk.addPage pageSize hsize items total).pages = false) :
    total ≤ walk.read * pageSize := by
  have hlast : pageCount pageSize total ≤ walk.pages.length + 1 := by
    simpa [wantsMore, Walk.addPage, buildPaginatedResult, nextRequest] using h
  have hread : walk.read = walk.pages.length + 1 := by simp [Walk.read, hsome]
  rw [hread]
  exact le_mul_of_pageCount_le hsize hlast

/-! ## What a reader has seen -/

variable (instant pageSize) in
/-- A sale of the list is read or still ahead, and read once a page is the last one. -/
structure Kept (filter : SaleListFilter) (row : SaleRow) (walk : Walk) : Prop where
  ahead : Ahead pageSize walk.read walk.found (listed instant walk.db filter) row
  short : ∀ items, walk.items = some items → items.length < pageSize → row ∈ walk.found
  last : wantsMore walk.pages = false → row ∈ walk.found

theorem kept_start (h : row ∈ listed instant db filter) :
    Kept instant pageSize filter row (start db) where
  ahead := ahead_of_mem h
  short _ h := by cases h
  last h := by cases h

theorem Kept.step {label : Label} (hk : Kept instant pageSize filter row walk)
    (h : step instant filter pageSize hsize walk label = some walk') :
    Kept instant pageSize filter row walk' := by
  rcases step_cases h with ⟨id, input, db, hok, -, rfl⟩ | rfl | ⟨hmore, hnone, rfl⟩ |
    ⟨items, total, hsome, rfl, htotal⟩
  · exact ⟨hk.ahead.insert (listed_createSale hok), hk.short, hk.last⟩
  · exact hk
  · have hread : walk.read = walk.pages.length := by simp [Walk.read, hnone]
    have hfound : walk.found = walk.seen := by simp [Walk.found, hnone]
    have hnext := hk.ahead.next
    rw [hread, hfound] at hnext
    refine ⟨hnext, fun items hitems hshort => ?_, fun h => ?_⟩
    · cases hitems
      exact hnext.mem (length_le_of_pageOf_short hshort)
    · rw [hmore] at h
      cases h
  · have hfound : (walk.addPage pageSize hsize items total).found = walk.found :=
      found_addPage total hsome
    have hread : (walk.addPage pageSize hsize items total).read = walk.read :=
      read_addPage total hsome
    have hahead := hk.ahead
    refine ⟨?_, fun _ h => (nomatch h), fun hend => ?_⟩
    · rw [hfound, hread]
      exact hahead
    · rw [hfound]
      rcases htotal with htotal | hshort
      · have hle := total_le_of_last hsome hend
        rw [htotal] at hle
        exact hahead.mem hle
      · exact hk.short items hsome hshort

variable (instant filter) in
/-- What was read are sales of the list. -/
def OfTheList (walk : Walk) : Prop :=
  ∀ row ∈ walk.found, row ∈ walk.db.sales ∧ selects instant filter row

theorem OfTheList.step {label : Label} (hl : OfTheList instant filter walk)
    (h : step instant filter pageSize hsize walk label = some walk') :
    OfTheList instant filter walk' := by
  rcases step_cases h with ⟨id, input, db, hok, -, rfl⟩ | rfl | ⟨-, hnone, rfl⟩ |
    ⟨items, total, hsome, rfl, -⟩
  · intro row hrow
    obtain ⟨hmem, hsel⟩ := hl row hrow
    obtain ⟨new, hnew⟩ := createSale_sales hok
    exact ⟨by simp [hnew, hmem], hsel⟩
  · exact hl
  · intro row hrow
    rcases List.mem_append.mp hrow with hseen | hpage
    · exact hl row (List.mem_append_left _ hseen)
    · exact mem_listed.mp (pageOf_subset _ hpage)
  · intro row hrow
    rw [found_addPage total hsome] at hrow
    exact hl row hrow

/-! ## While no sale is created -/

def noSale : Walk → Label → Prop
  | _, .createSale _ _ => False
  | _, _ => True

variable (instant filter pageSize) in
/-- What was read is the beginning of the list, and all of it once a page is the last one. -/
structure Beginning (db : Db) (walk : Walk) : Prop where
  same : walk.db = db
  taken : walk.found = (listed instant db filter).take (walk.read * pageSize)
  short : ∀ items, walk.items = some items → items.length < pageSize →
    (listed instant db filter).length ≤ walk.read * pageSize
  last : wantsMore walk.pages = false →
    (listed instant db filter).length ≤ walk.read * pageSize

theorem Beginning.step {label : Label} (hb : Beginning instant filter pageSize db walk)
    (hno : noSale walk label) (h : step instant filter pageSize hsize walk label = some walk') :
    Beginning instant filter pageSize db walk' := by
  rcases step_cases h with ⟨id, input, db', -, rfl, -⟩ | rfl | ⟨hmore, hnone, rfl⟩ |
    ⟨items, total, hsome, rfl, htotal⟩
  · cases hno
  · exact hb
  · have hread : walk.read = walk.pages.length := by simp [Walk.read, hnone]
    have hfound : walk.found = walk.seen := by simp [Walk.found, hnone]
    have htaken := hb.taken
    rw [hfound, hread] at htaken
    refine ⟨hb.same, ?_, fun items hitems hshort => ?_, fun h => ?_⟩
    · have hnext := take_append_pageOf pageSize walk.pages.length (listed instant db filter)
      rw [← htaken, ← hb.same] at hnext
      rw [← hb.same]
      exact hnext
    · cases hitems
      rw [← hb.same]
      exact length_le_of_pageOf_short hshort
    · rw [hmore] at h
      cases h
  · have hfound : (walk.addPage pageSize hsize items total).found = walk.found :=
      found_addPage total hsome
    have hread : (walk.addPage pageSize hsize items total).read = walk.read :=
      read_addPage total hsome
    refine ⟨hb.same, ?_, fun _ h => (nomatch h), fun hend => ?_⟩
    · rw [hfound, hread]
      exact hb.taken
    · rw [hread]
      rcases htotal with htotal | hshort
      · have hle := total_le_of_last hsome hend
        rw [htotal, hb.same] at hle
        exact hle
      · exact hb.short items hsome hshort

/-! ## The laws -/

/-- Once a page is the last one no page is being read. -/
theorem none_of_last {label : Label}
    (hi : ∀ items, walk.items = some items → wantsMore walk.pages = true)
    (h : step instant filter pageSize hsize walk label = some walk') :
    ∀ items, walk'.items = some items → wantsMore walk'.pages = true := by
  rcases step_cases h with ⟨id, input, db, hok, -, rfl⟩ | rfl | ⟨hmore, -, rfl⟩ |
    ⟨items, total, hsome, rfl, -⟩
  · exact hi
  · exact hi
  · exact fun _ _ => hmore
  · exact fun _ h => (nomatch h)

theorem found_of_last (hrun : Reaches (step instant filter pageSize hsize) anyStep (start db) walk)
    (hend : wantsMore walk.pages = false) : walk.found = walk.seen := by
  have hnone : ∀ items, walk.items = some items → wantsMore walk.pages = true :=
    hrun.invariant (I := fun walk => ∀ items, walk.items = some items → wantsMore walk.pages = true)
      (fun _ h => by cases h) fun _ _ _ hi _ hs => none_of_last hi hs
  cases hitems : walk.items with
  | none => simp [Walk.found, hitems]
  | some items => simp [hnone items hitems] at hend

theorem listed_sorted : (listed instant db filter).Pairwise (Before instant) := by
  have htrans : IsTrans SaleRow (Before instant) := ⟨fun a b c hab hbc => by
    unfold Before at *
    rcases hab with hab | ⟨hab, hid⟩ <;> rcases hbc with hbc | ⟨hbc, hid'⟩
    · exact Or.inl (by omega)
    · exact Or.inl (by omega)
    · exact Or.inl (by omega)
    · exact Or.inr ⟨by omega, hid'.trans hid⟩⟩
  have htotal : Std.Total (Before instant) := ⟨fun a b => by
    unfold Before
    rcases Int.lt_trichotomy (instant a.date) (instant b.date) with h | h | h
    · exact Or.inr (Or.inl h)
    · rcases le_total a.id b.id with hid | hid
      · exact Or.inr (Or.inr ⟨h, hid⟩)
      · exact Or.inl (Or.inr ⟨h.symm, hid⟩)
    · exact Or.inl (Or.inl h)⟩
  exact List.pairwise_insertionSort (Before instant) _

/-- In no run does a reader of the pages miss a sale that was there when the first page was read,
whatever sales are created on the way; each sale on the pages is stored and is one the filter
selects; and while no sale is created the pages are the list, each sale once and in its order. -/
theorem a_reader_of_all_pages_misses_no_sale (instant : Instant) (db : Db)
    (filter : SaleListFilter) (pageSize : Nat) (hsize : 0 < pageSize) (walk : Walk)
    (hrun : Reaches (step instant filter pageSize hsize) anyStep (start db) walk) :
    (wantsMore walk.pages = false → ∀ row ∈ listed instant db filter, row ∈ walk.seen) ∧
      (∀ row ∈ walk.seen, row ∈ walk.db.sales ∧ selects instant filter row) ∧
      (Reaches (step instant filter pageSize hsize) noSale (start db) walk →
        wantsMore walk.pages = false →
        walk.seen = listed instant db filter ∧ walk.seen.Pairwise (Before instant)) := by
  refine ⟨fun hend row hrow => ?_, fun row hrow => ?_, fun hquiet hend => ?_⟩
  · have hkept : Kept instant pageSize filter row walk :=
      hrun.invariant (kept_start hrow) fun _ _ _ hk _ hs => hk.step hs
    rw [← found_of_last hrun hend]
    exact hkept.last hend
  · have hlist : OfTheList instant filter walk :=
      hrun.invariant (fun _ h => by cases h) fun _ _ _ hl _ hs => hl.step hs
    exact hlist row (List.mem_append_left _ hrow)
  · have hstart : Beginning instant filter pageSize db (start db) :=
      ⟨rfl, by simp [Walk.found, Walk.seen, Walk.read, start], fun _ h => (nomatch h),
        fun h => (nomatch h)⟩
    have hb : Beginning instant filter pageSize db walk :=
      hquiet.invariant hstart fun _ _ _ hb hno hs => hb.step hno hs
    have hall : walk.seen = listed instant db filter := by
      rw [← found_of_last hrun hend, hb.taken, List.take_of_length_le (hb.last hend)]
    exact ⟨hall, hall ▸ listed_sorted⟩

/-- A shop with three sales. -/
def threeSales : Db where
  customers := ["ada"]
  products := [⟨"lamp", 1000⟩]
  sales := [⟨"s1", "ada", 0, "1", 10, true, none⟩, ⟨"s2", "ada", 0, "22", 10, true, none⟩,
    ⟨"s3", "ada", 0, "333", 10, true, none⟩]
  products_sold := []

def everything : SaleListFilter := ⟨none, none, none, none⟩

/-- A text stands for the instant that is its length. -/
def byLength : Instant := fun text => text.length

def saleBetweenPages : List Label :=
  [.getMany, .getCount, .createSale "s4" ⟨"ada", "4444", "0", false, none, [⟨"lamp", 1⟩]⟩,
    .getMany, .getCount]

theorem along_saleBetweenPages : Along (step byLength everything 2 (by decide)) anyStep
    (start threeSales) saleBetweenPages :=
  along_anyStep _ _

/-- With two sales a page, one sale that is created between the pages moves the last sale of the
first page to the second page too. -/
theorem a_sale_between_the_pages :
    ∃ walk, Reaches (step byLength everything 2 (by decide)) anyStep (start threeSales) walk ∧
      walk.seen.map SaleRow.id = ["s3", "s2", "s2", "s1"] ∧
      ∀ row ∈ listed byLength threeSales everything, row ∈ walk.seen := by
  obtain ⟨walk, hrun, hend, hids⟩ := exists_reaches (P := fun walk : Walk =>
      wantsMore walk.pages = false ∧ walk.seen.map SaleRow.id = ["s3", "s2", "s2", "s1"])
    (by decide +kernel) along_saleBetweenPages
  exact ⟨walk, hrun, hids, (a_reader_of_all_pages_misses_no_sale byLength threeSales everything 2
    (by decide) walk hrun).1 hend⟩

end nova.sales_list
