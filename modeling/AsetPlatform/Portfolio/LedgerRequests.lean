import AsetPlatform.Library.IsoDates
import AsetPlatform.Portfolio.TickerTransactions

/-!
# Requests to the ledger

The bodies of `auth/endpoints/ticker_routes.py` that change the ledger. The body of an addition has
bounds on its fields; the body of an edit, which may have any subset of the quantity, the price and the
trade date, has none. Requests are handled one after the other.

The transactions stay within the bounds of an addition exactly in the runs whose edits are within them
(`stays_valid_iff`); a date that an edit can parse is within them anyway.
-/

set_option autoImplicit false

namespace AsetPlatform.Portfolio.Dashboard

open AsetPlatform.Library

/-! ## Bodies -/

structure AddPortfolioRequest where
  ticker : String
  quantity : ℚ
  price : ℚ
  tradeDate : String
  notes : String := ""

structure EditPortfolioRequest where
  quantity : Option ℚ := none
  price : Option ℚ := none
  tradeDate : Option String := none

/-- `Field(..., gt=0, le=1_000_000)` -/
def quantityOk (q : ℚ) : Bool := 0 < q ∧ q ≤ 1000000

/-- `Field(..., gt=0, le=1_000_000_000)` -/
def priceOk (p : ℚ) : Bool := 0 < p ∧ p ≤ 1000000000

/-- The validation of the body of an addition. -/
def AddPortfolioRequest.valid (body : AddPortfolioRequest) : Bool :=
  body.ticker.length ≤ 15 && quantityOk body.quantity && priceOk body.price &&
    isCalendarText body.tradeDate.toList && body.notes.length ≤ 500

/-- `date.fromisoformat` as the number of a day. -/
def dayOf (text : String) : Option Int := (fromIsoformat text.toList).map Int.ofNat

/-! ## Handling -/

/-- A request with its user; an addition has the id and the time that it takes. -/
inductive ApiRequest where
  | add (user : UserId) (body : AddPortfolioRequest) (transactionId : String) (now : Int)
  | edit (user : UserId) (transactionId : String) (body : EditPortfolioRequest)
  | delete (user : UserId) (transactionId : String)

namespace ApiRequest

def user : ApiRequest → UserId
  | add user _ _ _ => user
  | edit user _ _ => user
  | delete user _ => user

/-- The updates of an edit: 422 without a field, 500 for a date that `date.fromisoformat` refuses. -/
def updates (body : EditPortfolioRequest) : Except Nat Updates :=
  match body.tradeDate with
  | none =>
      if body.quantity = none ∧ body.price = none then .error 422
      else .ok { price := body.price, quantity := body.quantity }
  | some text =>
      match dayOf text with
      | none => .error 500
      | some d =>
          .ok { price := body.price, quantity := body.quantity, tradeDate := some (some d) }

/-- What the route submits, or the status of its error. -/
def submission (T : CharTables) : ApiRequest → Except Nat Submission
  | add _ body transactionId now =>
      if body.valid then
        match dayOf body.tradeDate with
        | none => .error 500
        | some d =>
            .ok (.add transactionId (normalTicker T body.ticker) body.quantity body.price d body.notes
              now)
      else .error 422
  | edit _ transactionId body =>
      match updates body with
      | .error status => .error status
      | .ok updates => .ok (.edit transactionId updates)
  | delete _ transactionId => .ok (.delete transactionId)

/-- The table after a request; 404 for a transaction that is not found. -/
def handle (T : CharTables) (rows : List Row) (request : ApiRequest) : List Row :=
  match submission T request with
  | .error _ => rows
  | .ok s =>
      if (s.call request.user).finds rows then (s.call request.user).effect rows else rows

end ApiRequest

/-! ## Bounds -/

/-- The figures and the date of a row are those of a body that an addition accepts. -/
structure ValidRow (row : Row) : Prop where
  quantity : quantityOk row.quantity
  price : priceOk row.price
  tradeDate : ∃ text : String, isCalendarText text.toList ∧ (dayOf text).isSome ∧
    dayOf text = row.tradeDate

def AllValid (rows : List Row) : Prop := ∀ row ∈ rows, ValidRow row

/-- An edit that is carried out has its quantity and its price within the bounds. -/
def InBounds (rows : List Row) (request : ApiRequest) : Prop :=
  match request with
  | .edit user transactionId body =>
      (∃ updates, ApiRequest.updates body = .ok updates) →
        rows.any (LedgerCall.mask transactionId user.text) →
        (∀ q, body.quantity = some q → quantityOk q) ∧ ∀ p, body.price = some p → priceOk p
  | _ => True

section Bounds

variable {T : CharTables} {rows : List Row}

/-- What an edit supplies are its updates; a date among them is one that an addition accepts. -/
theorem updates_ok {body : EditPortfolioRequest} {updates : Updates}
    (h : ApiRequest.updates body = .ok updates) :
    updates.quantity = body.quantity ∧ updates.price = body.price ∧
      ∀ date, updates.tradeDate = some date →
        ∃ text : String, isCalendarText text.toList ∧ (dayOf text).isSome ∧ dayOf text = date := by
  rw [ApiRequest.updates] at h
  split at h
  · split at h
    · cases h
    · cases h
      refine ⟨rfl, rfl, ?_⟩
      intro date hDate
      cases hDate
  · rename_i text _
    split at h
    · cases h
    · rename_i d hDay
      cases h
      refine ⟨rfl, rfl, ?_⟩
      intro date hDate
      cases hDate
      obtain ⟨n, hRead, rfl⟩ := Option.map_eq_some_iff.mp hDay
      obtain ⟨cs, hText, hSame⟩ := exists_calendarText hRead
      have hParsed : dayOf (String.ofList cs) = some (Int.ofNat n) := by
        rw [dayOf, String.toList_ofList, hSame]
        rfl
      refine ⟨String.ofList cs, ?_, ?_, hParsed⟩
      · rw [String.toList_ofList]
        exact hText
      · rw [hParsed]
        rfl

/-- An accepted addition appends a valid row. -/
theorem allValid_add (hRows : AllValid rows) {body : AddPortfolioRequest} (hBody : body.valid)
    {d : Int} (hDay : dayOf body.tradeDate = some d) (user : UserId) (transactionId ticker : String)
    (now : Int) :
    AllValid
      (((Submission.add transactionId ticker body.quantity body.price d body.notes now).call
        user).effect rows) := by
  simp only [AddPortfolioRequest.valid, Bool.and_eq_true] at hBody
  intro row hRow
  rcases List.mem_append.mp hRow with hOld | hNew
  · exact hRows row hOld
  · rw [List.mem_singleton] at hNew
    subst hNew
    refine ⟨hBody.1.1.1.2, hBody.1.1.2, body.tradeDate, hBody.1.2, ?_, hDay⟩
    rw [hDay]
    rfl

theorem valid_editRow_iff {row : Row} (hRow : ValidRow row) {body : EditPortfolioRequest}
    {updates : Updates} (h : ApiRequest.updates body = .ok updates) :
    ValidRow (editRow updates row) ↔
      (∀ q, body.quantity = some q → quantityOk q) ∧ ∀ p, body.price = some p → priceOk p := by
  obtain ⟨hQuantity, hPrice, hDate⟩ := updates_ok h
  have hQuantityOk : quantityOk (editRow updates row).quantity ↔
      ∀ q, body.quantity = some q → quantityOk q := by
    rw [editRow, hQuantity]
    cases body.quantity with
    | none => exact iff_of_true hRow.quantity fun q hSome => by cases hSome
    | some q => exact ⟨fun hOk q' hSome => Option.some.inj hSome ▸ hOk, fun hAll => hAll q rfl⟩
  have hPriceOk : priceOk (editRow updates row).price ↔ ∀ p, body.price = some p → priceOk p := by
    rw [editRow, hPrice]
    cases body.price with
    | none => exact iff_of_true hRow.price fun p hSome => by cases hSome
    | some p => exact ⟨fun hOk p' hSome => Option.some.inj hSome ▸ hOk, fun hAll => hAll p rfl⟩
  constructor
  · intro hValid
    exact ⟨hQuantityOk.mp hValid.quantity, hPriceOk.mp hValid.price⟩
  · rintro ⟨hQuantities, hPrices⟩
    refine ⟨hQuantityOk.mpr hQuantities, hPriceOk.mpr hPrices, ?_⟩
    rw [editRow]
    cases hSome : updates.tradeDate with
    | none => exact hRow.tradeDate
    | some date => exact hDate date hSome

/-- One request keeps the bounds exactly if it is within them. -/
theorem allValid_handle_iff (hRows : AllValid rows) (request : ApiRequest) :
    AllValid (ApiRequest.handle T rows request) ↔ InBounds rows request := by
  cases request with
  | add user body transactionId now =>
      refine iff_of_true ?_ trivial
      rw [ApiRequest.handle, ApiRequest.submission]
      by_cases hBody : body.valid
      · rw [if_pos hBody]
        cases hDay : dayOf body.tradeDate with
        | none => exact hRows
        | some d =>
            simp only
            split
            · exact allValid_add hRows hBody hDay user transactionId _ now
            · exact hRows
      · rw [if_neg hBody]
        exact hRows
  | edit user transactionId body =>
      rw [ApiRequest.handle, ApiRequest.submission, InBounds]
      cases hUpdates : ApiRequest.updates body with
      | error status =>
          refine iff_of_true hRows fun hOk => ?_
          obtain ⟨updates, hOk⟩ := hOk
          cases hOk
      | ok updates =>
          simp only
          by_cases hFinds : rows.any (LedgerCall.mask transactionId user.text)
          · have hCall : ((Submission.edit transactionId updates).call user).finds rows := hFinds
            rw [ApiRequest.user, if_pos hCall]
            constructor
            · intro hAll _ _
              obtain ⟨row, hRow, hMask⟩ := List.any_eq_true.mp hFinds
              have hEdited : editRow updates row ∈
                  ((Submission.edit transactionId updates).call user).effect rows :=
                List.mem_map.mpr ⟨row, hRow, if_pos hMask⟩
              exact (valid_editRow_iff (hRows row hRow) hUpdates).mp (hAll _ hEdited)
            · intro hBounds row hRow
              obtain ⟨row', hRow', rfl⟩ := List.mem_map.mp hRow
              split
              · exact (valid_editRow_iff (hRows row' hRow') hUpdates).mpr
                  (hBounds ⟨updates, rfl⟩ hFinds)
              · exact hRows row' hRow'
          · have hCall : ¬((Submission.edit transactionId updates).call user).finds rows := hFinds
            rw [ApiRequest.user, if_neg hCall]
            exact iff_of_true hRows fun _ hFound => absurd hFound hFinds
  | delete user transactionId =>
      refine iff_of_true ?_ trivial
      rw [ApiRequest.handle, ApiRequest.submission]
      simp only
      split
      · intro row hRow
        exact hRows row (List.mem_of_mem_filter hRow)
      · exact hRows

end Bounds

/-- From a table whose transactions an addition would accept, all tables of a run have such
transactions exactly if every edit that is carried out is within the bounds. -/
theorem stays_valid_iff (T : CharTables) {rows : List Row} (hRows : AllValid rows)
    (requests : List ApiRequest) :
    EveryState (ApiRequest.handle T) AllValid rows requests ↔
      EveryStep (ApiRequest.handle T) InBounds rows requests :=
  everyState_iff_everyStep (fun _ request hValid hIn => (allValid_handle_iff hValid request).mpr hIn)
    (fun _ request hValid => allValid_handle_iff hValid request) hRows hRows

def addThenEdit (quantity : ℚ) : List ApiRequest :=
  [.add userA1 { ticker := "aapl", quantity := 10, price := 5, tradeDate := "2024-01-02" } "t1" 0,
    .edit userA1 "t1" { quantity := some quantity }]

/-- An edit to another positive quantity. -/
theorem edited_within :
    EveryState (ApiRequest.handle .ascii) AllValid [] (addThenEdit 7) := by
  refine (stays_valid_iff .ascii (fun row hRow => by cases hRow) _).mpr ⟨trivial, ?_, trivial⟩
  intro _ _
  refine ⟨fun q hq => ?_, fun p hp => by cases hp⟩
  cases hq
  decide +kernel

/-- An edit to the quantity -5 is carried out. -/
theorem edited_below :
    ((runFrom (ApiRequest.handle .ascii) [] (addThenEdit (-5))).map Row.quantity = [-5]) ∧
      ¬EveryState (ApiRequest.handle .ascii) AllValid [] (addThenEdit (-5)) := by
  have hStored : (runFrom (ApiRequest.handle .ascii) [] (addThenEdit (-5))).map Row.quantity = [-5] := by
    decide +kernel
  refine ⟨hStored, fun hAll => ?_⟩
  have hLast : AllValid (runFrom (ApiRequest.handle .ascii) [] (addThenEdit (-5))) := hAll.last
  obtain ⟨row, hRow, hQuantity⟩ :
      ∃ row ∈ runFrom (ApiRequest.handle .ascii) [] (addThenEdit (-5)), row.quantity = -5 := by
    apply List.mem_map.mp
    rw [hStored]
    exact List.mem_singleton_self _
  have hOk := (hLast row hRow).quantity
  rw [hQuantity] at hOk
  exact absurd hOk (by decide +kernel)

end AsetPlatform.Portfolio.Dashboard
