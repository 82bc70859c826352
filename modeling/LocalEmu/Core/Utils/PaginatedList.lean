import LocalEmu.Base.Text

/-!
# Paginated Lists

A page of a list begins at the item that the token of the last page names, or at the
start of the list if there is none such.
-/

namespace LocalEmu.PaginatedList

variable {α : Type}

variable (items : List α) (tokenGenerator : α → Text) (nextToken : Option Text)

def startIdx : Nat :=
  (items.findIdx? fun item => decide (nextToken = some (tokenGenerator item))).getD 0

/-- `get_page`, without a filter. -/
def getPage (pageSize : Nat) : List α × Option Text :=
  let start := startIdx items tokenGenerator nextToken
  ((items.drop start).take pageSize, (items[start + pageSize]?).map tokenGenerator)

def defaultPageSize : Nat := 50

/-- `result_list`: the items that pass the filter, if there is one. -/
def filtered (filterFunction : Option (α → Bool)) : List α :=
  match filterFunction with
  | some passes => items.filter passes
  | none => items

/-- `get_page`. -/
def getPageFiltered (pageSize : Option Nat)
    (filterFunction : Option (α → Bool)) : List α × Option Text :=
  let resultList := filtered items filterFunction
  let pageSize := pageSize.getD defaultPageSize
  -- All of the items are in the final page.
  if resultList.length ≤ pageSize ∧ nextToken = none then (resultList, none)
  else
    let start := startIdx resultList tokenGenerator nextToken
    let token :=
      if start + pageSize < resultList.length then
        (resultList[start + pageSize]?).map tokenGenerator
      else none
    ((resultList.drop start).take pageSize, token)

/-- The tokens that a client gets who asks for one page after another. -/
inductive Follows (page : Option Text → Option Text) : Option Text → Prop
  | first : Follows page none
  | next (token : Option Text) (marker : Text) : Follows page token → page token = some marker →
      Follows page (some marker)

/-- A call: the list that it finds, the token that it brings and the page that it gets. -/
structure Call (α : Type) where
  items : List α
  token : Option Text
  page : List α

/-- The calls of a client who begins with a token and asks for one page after another until
    there is no token. -/
inductive Traversal (page : List α → Option Text → List α × Option Text) :
    Option Text → List (Call α) → Prop
  | last (items : List α) (token : Option Text) (p : List α) : page items token = (p, none) →
      Traversal page token [⟨items, token, p⟩]
  | next (items : List α) (token : Option Text) (p : List α) (marker : Text)
      (calls : List (Call α)) : page items token = (p, some marker) →
      Traversal page (some marker) calls → Traversal page token (⟨items, token, p⟩ :: calls)

def returned (calls : List (Call α)) : List α := (calls.map Call.page).flatten

end LocalEmu.PaginatedList
