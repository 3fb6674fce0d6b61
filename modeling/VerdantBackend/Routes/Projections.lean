import VerdantBackend.Error
import VerdantBackend.Ids
import VerdantBackend.Json
import VerdantBackend.Lib.Paging

/-!
# Projection lists

`src/routes/projections.rs`: for each of the three projections, a list endpoint and
one that looks a row up by its id. A list handler issues two statements, one page of
rows and the number of rows. In which order a query puts rows that its `ORDER BY`
leaves equal is up to a `Sorter`.

`i64` is `Int64`, its operators wrap. A row and the item it becomes
(`VerificationRow` and `Verification`) have the same fields and are one structure.
-/

namespace VerdantBackend

open Paging (Sorter DescNullsLast)

structure Pagination where
  page : Int64
  pageSize : Int64
  total : Int64
  totalPages : Int64
deriving DecidableEq

def normalizePage (page : Int64) : Int64 := max page 1

/-- `page_size.clamp(1, 100)`. -/
def normalizePageSize (pageSize : Int64) : Int64 := min (max pageSize 1) 100

def defaultPage : Int64 := 1

def defaultPageSize : Int64 := 20

/-- `VerificationListResponse`, `EscrowListResponse`, `FinancingListResponse`. -/
structure ListResponse (ρ : Type) where
  items : List ρ
  pagination : Pagination

/-! ## Tables -/

/-- The rows of a projection table. -/
structure ProjectionTable {ρ : Type} (id : ρ → String) where
  rows : List ρ
  /-- `id TEXT PRIMARY KEY` -/
  ids : (rows.map id).Nodup
  /-- A table of PostgreSQL has fewer than 2 ^ 32 blocks of fewer than 2 ^ 16 rows. -/
  length_lt : rows.length < 2 ^ 48

/-- `$n IS NULL OR column = $n`: a bind that is NULL asks for nothing, a column that is
NULL equals nothing. -/
def nullOrEq {β : Type} [DecidableEq β] (bind column : Option β) : Bool :=
  bind.isNone || bind = column

/-- `ORDER BY ledger DESC NULLS LAST, id ASC`; texts compare by the collation of the
database. -/
def ListedBefore {ρ : Type} (collation : LinearOrder String) (ledger : ρ → Option Int)
    (id : ρ → String) (a b : ρ) : Prop :=
  DescNullsLast (ledger a) (ledger b) ∨ ledger a = ledger b ∧ collation.le (id a) (id b)

section Statements
variable {ρ : Type} {id : ρ → String} {le : ρ → ρ → Prop}

/-- `SELECT .. WHERE matching ORDER BY .. LIMIT limit OFFSET offset`. -/
def selectPage (sorter : Sorter le) (table : ProjectionTable id) (binds : List (Option String))
    (matching : ρ → Bool) (limit offset : Int64) : Except SqlxError (List ρ) :=
  if binds.any fun bind => bind.any hasNul then .error nulByte
  else if offset < 0 then .error (.database "OFFSET must not be negative")
  else if limit < 0 then .error (.database "LIMIT must not be negative")
  else .ok (((sorter.sort (table.rows.filter matching)).drop offset.toNatClampNeg).take
    limit.toNatClampNeg)

/-- `SELECT COUNT(*) .. WHERE matching`. -/
def selectCount (table : ProjectionTable id) (binds : List (Option String))
    (matching : ρ → Bool) : Except SqlxError Int64 :=
  if binds.any fun bind => bind.any hasNul then .error nulByte
  else .ok (.ofNat (table.rows.filter matching).length)

/-- What the three list handlers do with a request. -/
def listHandler (sorter : Sorter le) (table : ProjectionTable id) (binds : List (Option String))
    (matching : ρ → Bool) (page pageSize : Int64) : Except AppError (ListResponse ρ) := do
  let page := normalizePage page
  let pageSize := normalizePageSize pageSize
  let offset := (page - 1) * pageSize
  let rows ← (selectPage sorter table binds matching pageSize offset).mapError .database
  let total ← (selectCount table binds matching).mapError .database
  let totalPages := max ((total + pageSize - 1) / pageSize) 1
  return ⟨rows, page, pageSize, total, totalPages⟩

/-- `SELECT .. WHERE id = $1`. -/
def selectRow (table : ProjectionTable id) (key : String) : Except SqlxError (Option ρ) :=
  if hasNul key then .error nulByte else .ok (table.rows.find? fun row => id row = key)

/-- What the three get handlers do with the text of a path. -/
def getHandler (label : String) (normalize : String → Except AppError String)
    (table : ProjectionTable id) (input : String) : Except AppError ρ := do
  let normalized ← normalize input
  let row ← (selectRow table normalized).mapError .database
  match row with
  | some row => .ok row
  | none => .error (.notFound s!"{label} {input} not found")

end Statements

/-- What the three `normalize_*_id` do: a text with the prefix is checked, a bare
counter is rendered. -/
def normalizeId (kind label input : String) : Except AppError String :=
  match stripPrefix (kind ++ ":") input with
  | some counterPart =>
    if (parseU64 counterPart).isSome then .ok input
    else .error (.badRequest s!"invalid {label} id: {input}")
  | none =>
    match parseU64 input with
    | some counter => .ok (counterId kind counter)
    | none => .error (.badRequest s!"invalid {label} id: {input}")

/-! ## Verifications -/

structure Verification where
  id : String
  contractId : String
  batchId : String
  subject : String
  proofHash : String
  issuer : String
  issuedLedger : Int
  revoked : Bool
  revokedLedger : Option Int
deriving DecidableEq

structure ListVerificationsQuery where
  batchId : Option String := none
  subject : Option String := none
  issuer : Option String := none
  revoked : Option Bool := none
  page : Int64 := defaultPage
  pageSize : Int64 := defaultPageSize

/-- `ORDER BY issued_ledger DESC, id ASC`. -/
def Verification.ListedBefore (collation : LinearOrder String) :
    Verification → Verification → Prop :=
  VerdantBackend.ListedBefore collation (fun v => some v.issuedLedger) Verification.id

namespace ListVerificationsQuery

def binds (q : ListVerificationsQuery) : List (Option String) := [q.batchId, q.subject, q.issuer]

def matching (q : ListVerificationsQuery) (v : Verification) : Bool :=
  nullOrEq q.batchId v.batchId && nullOrEq q.subject v.subject && nullOrEq q.issuer v.issuer
    && nullOrEq q.revoked v.revoked

end ListVerificationsQuery

def listVerificationsHandler {collation : LinearOrder String}
    (sorter : Sorter (Verification.ListedBefore collation))
    (table : ProjectionTable Verification.id) (q : ListVerificationsQuery) :
    Except AppError (ListResponse Verification) :=
  listHandler sorter table q.binds q.matching q.page q.pageSize

def normalizeVerificationId (input : String) : Except AppError String :=
  normalizeId "va:verification" "verification" input

def getVerificationHandler (table : ProjectionTable Verification.id) (id : String) :
    Except AppError Verification :=
  getHandler "verification" normalizeVerificationId table id

/-! ## Escrows -/

structure Escrow where
  id : String
  contractId : String
  depositor : String
  beneficiary : String
  amount : Int
  releasedAmount : Int
  bookingRef : Option String
  conditionKind : Int
  conditionReleaser : Option String
  conditionTimeoutLedger : Option Int
  createdLedger : Int
  updatedLedger : Int
  status : String
deriving DecidableEq

structure ListEscrowsQuery where
  depositor : Option String := none
  beneficiary : Option String := none
  bookingRef : Option String := none
  status : Option String := none
  page : Int64 := defaultPage
  pageSize : Int64 := defaultPageSize

/-- `ORDER BY created_ledger DESC, id ASC`. -/
def Escrow.ListedBefore (collation : LinearOrder String) : Escrow → Escrow → Prop :=
  VerdantBackend.ListedBefore collation (fun e => some e.createdLedger) Escrow.id

namespace ListEscrowsQuery

def binds (q : ListEscrowsQuery) : List (Option String) :=
  [q.depositor, q.beneficiary, q.bookingRef, q.status]

def matching (q : ListEscrowsQuery) (e : Escrow) : Bool :=
  nullOrEq q.depositor e.depositor && nullOrEq q.beneficiary e.beneficiary
    && nullOrEq q.bookingRef e.bookingRef && nullOrEq q.status e.status

end ListEscrowsQuery

def listEscrowsHandler {collation : LinearOrder String}
    (sorter : Sorter (Escrow.ListedBefore collation)) (table : ProjectionTable Escrow.id)
    (q : ListEscrowsQuery) : Except AppError (ListResponse Escrow) :=
  listHandler sorter table q.binds q.matching q.page q.pageSize

def normalizeEscrowId (input : String) : Except AppError String :=
  normalizeId "va:escrow" "escrow" input

def getEscrowHandler (table : ProjectionTable Escrow.id) (id : String) :
    Except AppError Escrow :=
  getHandler "escrow" normalizeEscrowId table id

/-! ## Financings -/

structure Financing where
  id : String
  contractId : String
  funder : String
  beneficiary : String
  totalAmount : Int
  drawnAmount : Int
  milestoneCount : Int
  milestones : Json
  drawnLedger : Option Int
  repaidAmount : Int
  defaulted : Bool
  defaultedLedger : Option Int
  updatedLedger : Option Int
  status : String

structure ListFinancingsQuery where
  funder : Option String := none
  beneficiary : Option String := none
  status : Option String := none
  page : Int64 := defaultPage
  pageSize : Int64 := defaultPageSize

/-- `ORDER BY updated_ledger DESC NULLS LAST, id ASC`. -/
def Financing.ListedBefore (collation : LinearOrder String) : Financing → Financing → Prop :=
  VerdantBackend.ListedBefore collation Financing.updatedLedger Financing.id

namespace ListFinancingsQuery

def binds (q : ListFinancingsQuery) : List (Option String) := [q.funder, q.beneficiary, q.status]

def matching (q : ListFinancingsQuery) (f : Financing) : Bool :=
  nullOrEq q.funder f.funder && nullOrEq q.beneficiary f.beneficiary && nullOrEq q.status f.status

end ListFinancingsQuery

def listFinancingsHandler {collation : LinearOrder String}
    (sorter : Sorter (Financing.ListedBefore collation)) (table : ProjectionTable Financing.id)
    (q : ListFinancingsQuery) : Except AppError (ListResponse Financing) :=
  listHandler sorter table q.binds q.matching q.page q.pageSize

def normalizeFinancingId (input : String) : Except AppError String :=
  normalizeId "va:financing" "financing" input

def getFinancingHandler (table : ProjectionTable Financing.id) (id : String) :
    Except AppError Financing :=
  getHandler "financing" normalizeFinancingId table id

end VerdantBackend
