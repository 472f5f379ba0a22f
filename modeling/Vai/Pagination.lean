import Vai.IssueStorage
import Vai.Pages
/-!
# Pagination — the pages of a list (`storage/pagination.rs`, `server/pagination.rs`)

A request names a page, its size and sort fields; `from_params` lets through what an endpoint allows.  The local backend
sorts and cuts a list that it has read (`paginate_in_memory`), the SQL backend leaves both to the database, by `ORDER BY`
and `LIMIT … OFFSET …`, and counts the rows in a second statement.

The items are of any type: `sort_key` and the orders of the database's columns are given.  A `usize` has 64 bits.  Where
the order leaves rows together the database lists them as it likes, and not alike for each statement; a store lists its
items alike each time.
-/
namespace Vai

open Sorting

inductive PaginationError where
  | invalidPage (p : Nat)
  | invalidPerPage (n : Nat)
  | unknownSortColumn (c : Text)
  | invalidSortFormat (s : Text)
deriving DecidableEq, Repr

namespace PaginationError

/-- `Display`. -/
def toText : PaginationError → Text
  | invalidPage p => "invalid page ".toList ++ Text.ofNat p ++ ": must be ≥ 1".toList
  | invalidPerPage n => "invalid per_page ".toList ++ Text.ofNat n ++ ": must be 1–100".toList
  | unknownSortColumn c => "unknown sort column '".toList ++ c ++ "'".toList
  | invalidSortFormat s => "invalid sort format '".toList ++ s ++ "': expected 'column' or 'column:asc|desc'".toList

end PaginationError

def SortDirection.sql : SortDirection → Text
  | .asc => "ASC".toList
  | .desc => "DESC".toList

/-- An order, or its reverse. -/
def SortDirection.apply {α : Type} (le : α → α → Bool) : SortDirection → α → α → Bool
  | .asc, a, b => le a b
  | .desc, a, b => le b a

structure ListResult (α : Type) where
  items : List α
  /-- The matching rows on all pages. -/
  total : Nat
deriving DecidableEq

/-! ## Parameters -/

/-- The column and the direction of one entry of `sort`; no letters but those of ASCII have these lower cases. -/
def splitSortPart (part : Text) : Except PaginationError (Text × SortDirection) := match Text.splitOnce ':' part with
  | some (c, d) =>
    if d.map Char.toLower = "asc".toList then .ok (Text.trim c, .asc)
    else if d.map Char.toLower = "desc".toList then .ok (Text.trim c, .desc)
    else .error (.invalidSortFormat part)
  | none => .ok (part, .asc)

def parseSortPart (allowedColumns : List Text) (part : Text) : Except PaginationError SortField :=
  match splitSortPart part with
  | .error e => .error e
  | .ok (col, dir) => if col ∈ allowedColumns then .ok ⟨col, dir⟩ else .error (.unknownSortColumn col)

def parseSort (sortStr : Text) (allowedColumns : List Text) : Except PaginationError (List SortField) :=
  if sortStr = [] then .ok []
  else (((sortStr.splitOn ',').map Text.trim).filter (· ≠ [])).mapM (parseSortPart allowedColumns)

namespace ListQuery

def fromParams (page perPage : Option UInt32) (sortStr : Option Text) (allowedColumns : List Text) :
    Except PaginationError ListQuery :=
  let page := page.getD 1
  if page = 0 then .error (.invalidPage page.toNat)
  else
    let perPage := perPage.getD 25
    if perPage = 0 ∨ 100 < perPage then .error (.invalidPerPage perPage.toNat)
    else match parseSort (sortStr.getD []) allowedColumns with
      | .error e => .error e
      | .ok sort => .ok ⟨page.toNat, perPage.toNat, sort⟩

/-! ## What the database is asked -/

/-- The columns of the database that the sort fields name, with their directions. -/
def orderTerms (columnMap : List (Text × Text)) (q : ListQuery) : List (Text × SortDirection) :=
  q.sort.filterMap fun sf => (columnMap.lookup sf.column).map fun dbCol => (dbCol, sf.direction)

/-- The text of an `ORDER BY` clause. -/
def orderByText (terms : List (Text × SortDirection)) : Text :=
  if terms = [] then [] else "ORDER BY ".toList ++ ", ".toList.intercalate (terms.map fun t => t.1 ++ " ".toList ++ t.2.sql)

def sqlOrderBy (columnMap : List (Text × Text)) (q : ListQuery) : Text := orderByText (orderTerms columnMap q)

def sqlLimitOffset (q : ListQuery) : Int64 × Int64 :=
  let limit := if q.perPage = allRows then Int64.maxValue else Int64.ofNat q.perPage
  let offset := Int64.ofNat (q.page - 1) * min (Int64.ofNat q.perPage) (Int64.maxValue / 2)
  (limit, offset)

/-- What a statement with these bounds gives of the rows in their order. -/
def sqlLimited {α : Type} (q : ListQuery) (sorted : List α) : List α :=
  let (limit, offset) := q.sqlLimitOffset
  if limit = Int64.maxValue then sorted else (sorted.drop offset.toNatClampNeg).take limit.toNatClampNeg

end ListQuery

/-- An endpoint that lists: what it allows to sort by, the columns of the database, and the order without sort fields. -/
structure Endpoint where
  allowedSort : List Text
  columnMap : List (Text × Text)
  defaultOrder : List (Text × SortDirection)

namespace Endpoint

/-- Columns that are called in the database as in the interface. -/
def named (columns : List String) : List (Text × Text) := columns.map fun c => (c.toList, c.toList)

def issues : Endpoint where
  allowedSort := ["created_at", "updated_at", "priority", "status", "title", "creator", "id"].map String.toList
  columnMap := named ["created_at", "updated_at", "priority", "status", "title", "creator", "id"]
  defaultOrder := [("created_at".toList, .desc)]

def versions : Endpoint where
  allowedSort := ["created_at", "version_id", "created_by"].map String.toList
  columnMap := named ["created_at", "version_id", "created_by"]
  defaultOrder := [("created_at".toList, .desc)]

def workspaces : Endpoint where
  allowedSort := ["created_at", "updated_at", "status", "intent", "id"].map String.toList
  columnMap := named ["created_at", "updated_at", "status", "intent", "id"]
  defaultOrder := [("created_at".toList, .desc)]

def escalations : Endpoint where
  allowedSort := ["created_at", "status", "id", "severity"].map String.toList
  columnMap := [("created_at", "created_at"), ("status", "resolved"), ("id", "id"), ("severity", "severity")].map
    fun q => (q.1.toList, q.2.toList)
  defaultOrder := [("created_at".toList, .desc)]

/-- `list_workers_by_repo` sorts by no field of the request. -/
def workers : Endpoint where
  allowedSort := []
  columnMap := []
  defaultOrder := [("started_at".toList, .desc)]

/-- The terms of the statement's `ORDER BY`. -/
def orderBy (e : Endpoint) (q : ListQuery) : List (Text × SortDirection) :=
  if q.sqlOrderBy e.columnMap = [] then e.defaultOrder else q.orderTerms e.columnMap

end Endpoint

/-! ## The backends -/

section InMemory

variable {α : Type}

/-- The comparison of one pass of the sort. -/
def sortFieldLe (sortKey : α → Text → Text) (sf : SortField) : α → α → Bool :=
  sf.direction.apply fun a b => decide (sortKey a sf.column ≤ sortKey b sf.column)

/-- `paginate_in_memory`. -/
def paginateInMemory (items : List α) (query : ListQuery) (sortKey : α → Text → Text) : ListResult α :=
  let items := sortPasses (query.sort.map (sortFieldLe sortKey)) items
  let total := items.length
  let (limit, offset) := query.sqlLimitOffset
  let offset := offset.toUInt64
  let items := if items.length ≤ offset.toNat then []
    else
      let stop := if limit = Int64.maxValue then items.length else min (offset + limit.toUInt64).toNat items.length
      (items.drop offset.toNat).take (stop - offset.toNat)
  ⟨items, total⟩

end InMemory

/-- The orders of the columns of a table. -/
structure Columns (α : Type) where
  le : Text → α → α → Bool
  isOrder : ∀ column, IsOrder (le column)

/-- `ORDER BY`. -/
def Columns.orderedBy {α : Type} (columns : Columns α) (terms : List (Text × SortDirection)) : α → α → Bool :=
  lexLe (terms.map fun t => t.2.apply (columns.le t.1))

inductive ListBackend (α : Type) where
  /-- The store lists the items; `sort_key` is how they are sorted. -/
  | inMemory (sortKey : α → Text → Text)
  | sql (columns : Columns α)

/-- What a list method may answer about these rows. -/
def ListBackend.Lists {α : Type} (e : Endpoint) (rows : List α) (q : ListQuery) : ListBackend α → ListResult α → Prop
  | .inMemory sortKey, r => r = paginateInMemory rows q sortKey
  | .sql columns, r =>
    ∃ sorted, Pages.Listing (columns.orderedBy (e.orderBy q)) rows sorted ∧ r = ⟨q.sqlLimited sorted, rows.length⟩

/-! ## The response -/

/-- `PaginatedResponse`, with its `PaginationMeta`. -/
structure PaginatedResponse (α : Type) where
  data : List α
  page : Nat
  perPage : Nat
  total : Nat
  totalPages : Nat

/-- `u64::div_ceil`. -/
def divCeil (n d : Nat) : Nat := if 0 < n % d then n / d + 1 else n / d

/-- `PaginatedResponse::new`; the count of the pages is a `u32`. -/
def PaginatedResponse.new {α : Type} (items : List α) (total : Nat) (query : ListQuery) : PaginatedResponse α where
  data := items
  page := query.page
  perPage := query.perPage
  total := total
  totalPages := if query.perPage = 0 ∨ query.perPage = ListQuery.allRows then 1 else divCeil total query.perPage % 2 ^ 32

/-- A filter that the backend is asked for, or one that the handler applies to the page that it gets: resolved escalations
are picked out of a page of all. -/
inductive RowFilter (α : Type) where
  | pushed (p : α → Bool)
  | clientSide (p : α → Bool)

namespace RowFilter

variable {α : Type}

def accepts : RowFilter α → α → Bool
  | pushed p, a => p a
  | clientSide p, a => p a

/-- The rows that the backend is asked for. -/
def asked (f : RowFilter α) (rows : List α) : List α := match f with
  | pushed p => rows.filter p
  | clientSide _ => rows

/-- The handler's response to what the backend has listed. -/
def respond (f : RowFilter α) (query : ListQuery) (result : ListResult α) : PaginatedResponse α := match f with
  | pushed _ => .new result.items result.total query
  | clientSide p => .new (result.items.filter p) (result.items.filter p).length query

end RowFilter
end Vai
