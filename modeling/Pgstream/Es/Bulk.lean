/-
# Pgstream.Es.Bulk — reading the answer to a bulk request

`Client.SendBulkRequest` sends index and delete actions in one `_bulk` call and hands the body
of a successful answer to `verifyResponse`, which decodes it and, when its `errors` flag is set,
walks the response entries: entry `i` is matched with request item `i`, and an item whose own
action (index or delete) has a status above 299 gets that status and error and is returned among
the failed items.

The walk is `verifyLoop`, over the entries, with the request items (which it updates, as the Go
slice is shared with the caller) and the failed items so far. `items[i]` is a bounds-checked Go
index, so the model returns `Except Panic`: a run that reaches an entry with no request item
panics. Two run lemmas describe the whole walk: with at least as many request items as entries it
returns exactly the failing items, in request order (`verifyLoop_eq`); with more entries than
items it panics at index `len(items)` (`verifyLoop_panics`). `verifyResponse_failed` and
`verifyResponse_panics` lift them to the function, and `sendBulkRequest_panics_iff` to the
client: `SendBulkRequest` panics on exactly those answers that pass its status check and decode to
such a response.
-/
import Pgstream.Go.Bytes

namespace Pgstream.Es

open Pgstream.Go

/-- `BulkItem`, by what `verifyResponse` reads and writes: whether its `Index` and `Delete`
actions are set (`!= nil`), and the `Status` and `Error` it records. -/
structure BulkItem where
  index : Bool
  delete : Bool
  status : Int
  error : Bytes
deriving DecidableEq

/-- The result of one action in a bulk response entry: its `Status` and `Error`. -/
structure BulkItemResult where
  status : Int
  error : Bytes
deriving DecidableEq

/-- A `BulkResponse` entry: the `Index` and `Delete` results, zero when absent. -/
structure BulkResponseItem where
  index : BulkItemResult
  delete : BulkItemResult
deriving DecidableEq

/-- `BulkResponse`: the `Errors` flag and the entries. -/
structure BulkResponse where
  errors : Bool
  items : List BulkResponseItem
deriving DecidableEq

/-- A Go runtime panic, of the one kind the modelled code can raise. -/
inductive Panic
  | indexOutOfRange (index length : Nat)
deriving DecidableEq

/-- The item as failed with `result`, when its status is above 299. -/
def BulkItem.failWith (item : BulkItem) (result : BulkItemResult) : Option BulkItem :=
  if result.status > 299 then some { item with status := result.status, error := result.error }
  else none

/-- The body of the loop for a request item and its entry: the item as failed, if its own action
failed (the index result for an index action, else the delete result for a delete action). -/
def BulkItem.failedWith (item : BulkItem) (respItem : BulkResponseItem) : Option BulkItem :=
  if item.index then item.failWith respItem.index
  else if item.delete then item.failWith respItem.delete
  else none

/-- `for i, respItem := range esResponse.Items`, from entry `i` on, with the request items and the
failed items so far: a failed item is written back to `items[i]` and appended to `failed`. -/
def verifyLoop (i : Nat) (items failed : List BulkItem) :
    List BulkResponseItem → Except Panic (List BulkItem × List BulkItem)
  | [] => .ok (items, failed)
  | respItem :: rest =>
    match items[i]? with
    | none => .error (.indexOutOfRange i items.length)
    | some item =>
      match item.failedWith respItem with
      | some item' => verifyLoop (i + 1) (items.set i item') (failed ++ [item']) rest
      | none => verifyLoop (i + 1) items failed rest

/-- The request items as the loop leaves them: each item that has an entry, as failed when its own
action failed there; the items past the last entry as they were. -/
def markFailed : List BulkItem → List BulkResponseItem → List BulkItem
  | [], _ => []
  | item :: items, [] => item :: items
  | item :: items, r :: rest => (item.failedWith r).getD item :: markFailed items rest

@[simp] theorem markFailed_nil_right (items : List BulkItem) : markFailed items [] = items := by
  cases items <;> rfl

/-- `verifyResponse(bodyBytes, items)`, with `json.Unmarshal` into a `BulkResponse` as
`unmarshal`: the request items as the call leaves them, and the failed items or the error. -/
def verifyResponse (unmarshal : Bytes → Except Bytes BulkResponse) (bodyBytes : Bytes)
    (items : List BulkItem) : Except Panic (List BulkItem × Except Bytes (List BulkItem)) :=
  match unmarshal bodyBytes with
  | .error err =>
    .ok (items, .error (str "error unmarshaling response from es: " ++ err ++ str " (" ++
      bodyBytes ++ str ")"))
  | .ok esResponse =>
    if !esResponse.errors then .ok (items, .ok [])
    else
      match verifyLoop 0 items [] esResponse.items with
      | .error p => .error p
      | .ok (items, failed) => .ok (items, .ok failed)

/-- How the HTTP round trip of `SendBulkRequest` ends: the error of the step that failed
(encoding the items, building the request, `Perform`, reading the body), or the status code and
the body of the answer. -/
inductive BulkRoundTrip
  | encodeFailed (err : Bytes)
  | newRequestFailed (err : Bytes)
  | performFailed (err : Bytes)
  | readFailed (err : Bytes)
  | answered (statusCode : Nat) (body : Bytes)

/-- `Client.SendBulkRequest(ctx, items)`, from how its round trip ends. -/
def sendBulkRequest (unmarshal : Bytes → Except Bytes BulkResponse) (roundTrip : BulkRoundTrip)
    (items : List BulkItem) : Except Panic (List BulkItem × Except Bytes (List BulkItem)) :=
  match roundTrip with
  | .encodeFailed err => .ok (items, .error err)
  | .newRequestFailed err => .ok (items, .error (str "new http request: " ++ err))
  | .performFailed err => .ok (items, .error (str "perform: " ++ err))
  | .readFailed err => .ok (items, .error (str "read body: " ++ err))
  | .answered statusCode bodyBytes =>
    if statusCode > 299 then
      .ok (items, .error (str "error from Elasticsearch: " ++ str (toString statusCode) ++
        str ": " ++ bodyBytes))
    else verifyResponse unmarshal bodyBytes items

/-! ## The loop, run to its end -/

/-- **With a request item for every entry, the loop returns the failing items in order.** From
entry `i` on, it appends, for each entry and the request item at its index, the item as failed
when its own action failed, and writes that item back in place. -/
theorem verifyLoop_eq (resp : List BulkResponseItem) :
    ∀ (i : Nat) (items failed : List BulkItem), i + resp.length ≤ items.length →
      verifyLoop i items failed resp =
        .ok (items.take i ++ markFailed (items.drop i) resp,
          failed ++ ((items.drop i).zip resp).filterMap fun p => p.1.failedWith p.2) := by
  induction resp with
  | nil => intro i items failed _; simp [verifyLoop]
  | cons r rest ih =>
    intro i items failed hlen
    have hi : i < items.length := by simp at hlen; omega
    have hdrop : items.drop i = items[i] :: items.drop (i + 1) := List.drop_eq_getElem_cons hi
    simp only [verifyLoop, List.getElem?_eq_getElem hi]
    cases hf : items[i].failedWith r with
    | none =>
      dsimp only
      rw [ih (i + 1) items failed (by simp at hlen; omega), hdrop, List.take_succ,
        List.getElem?_eq_getElem hi]
      simp only [markFailed, hf, Option.getD_none, List.zip_cons_cons, List.filterMap_cons,
        Option.toList_some, List.append_assoc, List.singleton_append]
    | some item' =>
      dsimp only
      rw [ih (i + 1) (items.set i item') (failed ++ [item']) (by simp at hlen ⊢; omega), hdrop,
        take_succ_set _ hi, List.drop_set_of_lt _ _ (Nat.lt_succ_self i)]
      simp only [markFailed, hf, Option.getD_some, List.zip_cons_cons, List.filterMap_cons,
        List.append_assoc, List.singleton_append]

/-- **With more entries than request items, the loop panics.** Run from an index within the
request items, it reaches entry `len(items)` and fails to index `items` there. -/
theorem verifyLoop_panics (resp : List BulkResponseItem) :
    ∀ (i : Nat) (items failed : List BulkItem), i ≤ items.length →
      items.length < i + resp.length →
        verifyLoop i items failed resp = .error (.indexOutOfRange items.length items.length) := by
  induction resp with
  | nil => intro i items failed h1 h2; simp at h2; omega
  | cons r rest ih =>
    intro i items failed h1 h2
    rcases Nat.lt_or_ge i items.length with hi | hi
    · simp only [verifyLoop, List.getElem?_eq_getElem hi]
      cases items[i].failedWith r with
      | none => exact ih (i + 1) items failed hi (by simp at h2; omega)
      | some item' =>
        have := ih (i + 1) (items.set i item') (failed ++ [item']) (by simpa using hi)
          (by simp at h2 ⊢; omega)
        simpa using this
    · have hi' : i = items.length := by omega
      subst hi'
      simp [verifyLoop]

/-! ## `verifyResponse` -/

/-- **A response with more entries than requests panics.** When the body decodes with its
`errors` flag set and holds more entries than there are request items, `verifyResponse` panics
with `index out of range [len(items)] with length len(items)` instead of returning an error. -/
theorem verifyResponse_panics (unmarshal : Bytes → Except Bytes BulkResponse) (bodyBytes : Bytes)
    (items : List BulkItem) (esResponse : BulkResponse) (hbody : unmarshal bodyBytes = .ok esResponse)
    (herrors : esResponse.errors = true) (hlong : items.length < esResponse.items.length) :
    verifyResponse unmarshal bodyBytes items =
      .error (.indexOutOfRange items.length items.length) := by
  simp [verifyResponse, hbody, herrors,
    verifyLoop_panics esResponse.items 0 items [] (Nat.zero_le _) (by omega)]

/-- A decoded response of two entries whose index actions failed with status 400. -/
def twoFailedEntries : BulkResponse := ⟨true, [⟨⟨400, []⟩, ⟨0, []⟩⟩, ⟨⟨400, []⟩, ⟨0, []⟩⟩]⟩

/-- One index request answered by two failed entries: a panic at index 1. -/
theorem verifyResponse_panics_two_entries :
    twoFailedEntries.errors = true ∧
    [(⟨true, false, 0, []⟩ : BulkItem)].length < twoFailedEntries.items.length ∧
    verifyResponse (fun _ => .ok twoFailedEntries) [] [⟨true, false, 0, []⟩] =
      .error (.indexOutOfRange 1 1) :=
  ⟨rfl, by decide, verifyResponse_panics _ _ _ _ rfl rfl (by decide)⟩

/-- **With an entry for every request, the failed items are exactly the failing requests.** When
the body decodes with its `errors` flag set and has no more entries than request items, the call
returns, in request order, each item whose own action failed in its entry, carrying that entry's
status and error, and no other item; and it leaves those items so marked in the caller's slice. -/
theorem verifyResponse_failed (unmarshal : Bytes → Except Bytes BulkResponse) (bodyBytes : Bytes)
    (items : List BulkItem) (esResponse : BulkResponse) (hbody : unmarshal bodyBytes = .ok esResponse)
    (herrors : esResponse.errors = true) (hlen : esResponse.items.length ≤ items.length) :
    verifyResponse unmarshal bodyBytes items =
      .ok (markFailed items esResponse.items,
        .ok ((items.zip esResponse.items).filterMap fun p => p.1.failedWith p.2)) := by
  simp [verifyResponse, hbody, herrors, verifyLoop_eq esResponse.items 0 items [] (by omega)]

/-- A decoded response to an index request that succeeded and a delete request that failed. -/
def indexOkDeleteFailed : BulkResponse :=
  ⟨true, [⟨⟨201, []⟩, ⟨0, []⟩⟩, ⟨⟨0, []⟩, ⟨404, str "not_found"⟩⟩]⟩

/-- Only the delete request is returned, with the status and error of its delete result. -/
theorem verifyResponse_failed_delete :
    indexOkDeleteFailed.errors = true ∧
    indexOkDeleteFailed.items.length ≤ [(⟨true, false, 0, []⟩ : BulkItem), ⟨false, true, 0, []⟩].length ∧
    verifyResponse (fun _ => .ok indexOkDeleteFailed) [] [⟨true, false, 0, []⟩, ⟨false, true, 0, []⟩] =
      .ok ([⟨true, false, 0, []⟩, ⟨false, true, 404, str "not_found"⟩],
        .ok [⟨false, true, 404, str "not_found"⟩]) :=
  ⟨rfl, by decide, verifyResponse_failed (fun _ => .ok indexOkDeleteFailed) []
    [⟨true, false, 0, []⟩, ⟨false, true, 0, []⟩] indexOkDeleteFailed rfl rfl (by decide)⟩

/-! ## `SendBulkRequest` -/

/-- When `verifyResponse` panics: its body decodes with the `errors` flag set and more entries
than request items, and the panic is at index `len(items)`. -/
theorem verifyResponse_eq_error_iff {unmarshal : Bytes → Except Bytes BulkResponse}
    {bodyBytes : Bytes} {items : List BulkItem} {p : Panic} :
    verifyResponse unmarshal bodyBytes items = .error p ↔
      ∃ esResponse, unmarshal bodyBytes = .ok esResponse ∧ esResponse.errors = true ∧
        items.length < esResponse.items.length ∧ p = .indexOutOfRange items.length items.length := by
  unfold verifyResponse
  cases hbody : unmarshal bodyBytes with
  | error err => simp
  | ok esResponse =>
    cases herr : esResponse.errors
    · simp [herr]
    · rcases Nat.lt_or_ge items.length esResponse.items.length with hlong | hshort
      · simp [herr, hlong, verifyLoop_panics esResponse.items 0 items [] (Nat.zero_le _) (by omega),
          @eq_comm _ p]
      · simp [herr, verifyLoop_eq esResponse.items 0 items [] (by omega), Nat.not_lt.2 hshort]

/-- **When the bulk client panics.** `SendBulkRequest` panics exactly on an answer with a status
of at most 299 whose body decodes with the `errors` flag set and more entries than request
items; it then panics at index `len(items)`. Every other round trip returns. -/
theorem sendBulkRequest_panics_iff (unmarshal : Bytes → Except Bytes BulkResponse)
    (roundTrip : BulkRoundTrip) (items : List BulkItem) (p : Panic) :
    sendBulkRequest unmarshal roundTrip items = .error p ↔
      ∃ statusCode bodyBytes esResponse, roundTrip = .answered statusCode bodyBytes ∧
        statusCode ≤ 299 ∧ unmarshal bodyBytes = .ok esResponse ∧ esResponse.errors = true ∧
        items.length < esResponse.items.length ∧ p = .indexOutOfRange items.length items.length := by
  cases roundTrip with
  | answered statusCode bodyBytes =>
    by_cases hs : statusCode > 299
    · simp [sendBulkRequest, hs]
    · simp only [sendBulkRequest, if_neg hs, verifyResponse_eq_error_iff, BulkRoundTrip.answered.injEq]
      constructor
      · rintro ⟨esResponse, h⟩
        exact ⟨statusCode, bodyBytes, esResponse, ⟨rfl, rfl⟩, by omega, h⟩
      · rintro ⟨_, _, esResponse, ⟨rfl, rfl⟩, -, h⟩
        exact ⟨esResponse, h⟩
  | _ => simp [sendBulkRequest]

end Pgstream.Es
