/-
# Pgstream.Es.Client — the search client's methods and the errors they return

Every method of `Client` but `SendBulkRequest` and `Perform` makes one call to the Elasticsearch
API and reads its outcome the same way. The call's own error is wrapped as
`[Method] error from Elasticsearch: %w`. An answer with a status above 299 is turned into an
error by `isErrResponse`, which puts `elasticsearch resource not found: ` in front for a 404, and
is wrapped as `[Method] error response from Elasticsearch: %w`. Otherwise the body is decoded, and
a decoding error gets a message of the method's own. `checkedCall` is the shared part, which each
method applies to its own name: `checkedCall_eq_ok_iff` says what it lets through, and
`checkedCall_error_tag` that every error it returns names the method. The methods that return
only an error are two definitions of the family, `errorOnly` and `errorOnlyWithBody`, with one
lemma each.

Three methods leave the pattern, and each difference has a theorem:
* `IndexExists` tests the status itself, and for an error other than 404 wraps the call's error,
  which is nil at that point: its message ends in `%!w(<nil>)` whatever the answer was
  (`indexExists_drops_response_error`);
* `GetIndicesStats` does not call `isErrResponse`, so it decodes an error answer as statistics
  (`getIndicesStats_ignores_status`);
* `GetIndexMappings` returns a decoding error without a message of its own, and gives the zero
  mappings for an index the answer does not list (`getIndexMappings_of_decoded`).

`ListIndices` reads the answer line by line with a `bufio.Scanner`; `listIndices_lines` says that
it reads back the names of a listing that ends each name with a newline, unless a name is too long
for the scanner's 64 KiB buffer, when it returns the scanner's `ErrTooLong`. `NewClient` refuses an
empty address before the library sees it (`NewClient_spec`).

The API calls, `json` decoding and `extractResponseError` are outside `src/`, so each is a
parameter: a call by its outcome (its error or the answer), a decoder by its result on the body.
Where Go returns a zero value next to an error, the model returns the error alone.
-/
import Pgstream.Go.Bytes

namespace Pgstream.Es

open Pgstream.Go

/-! ## Answers and `isErrResponse` -/

/-- An `esapi.Response`, by what the client reads: the status code, and the body as reading it
ends, its bytes or the read error. -/
structure Response where
  statusCode : Nat
  body : Except Bytes Bytes

/-- `Response.IsError()`: a status above 299. -/
def Response.isError (res : Response) : Bool := decide (res.statusCode > 299)

/-- `ErrResourceNotFound`. -/
def errResourceNotFound : Bytes := str "elasticsearch resource not found"

/-- `errInvalidSearchEnvelope`. -/
def errInvalidSearchEnvelope : Bytes := str "invalid search response"

/-- The `[Method]` that a method's messages begin with. -/
def tag (name : Bytes) : Bytes := str "[" ++ name ++ str "]"

/-- `createReader(value)`, from the outcome of `json.Marshal(value)`. -/
def createReader (marshaled : Except Bytes Bytes) : Except Bytes Bytes :=
  match marshaled with
  | .error err => .error (str "unexpected marshaling error: " ++ err)
  | .ok bytesValue => .ok bytesValue

/-! ## `NewClient` -/

/-- `Client`, over the type of the library's client it holds. -/
structure Client (C : Type) where
  client : C

/-- `newClient(address)`: an empty address is refused; `elasticsearchNewClient`, the library's
constructor outside `src/`, is given the configuration with the one address. -/
def newClient {C : Type} (elasticsearchNewClient : List Bytes → Except Bytes C) (address : Bytes) :
    Except Bytes C :=
  if address = [] then .error (str "no address provided") else elasticsearchNewClient [address]

/-- `NewClient(url)`. Go tells it from `newClient` by case alone, so it keeps its capital. -/
def NewClient {C : Type} (elasticsearchNewClient : List Bytes → Except Bytes C) (url : Bytes) :
    Except Bytes (Client C) :=
  match newClient elasticsearchNewClient url with
  | .error err => .error (str "create elasticsearch client: " ++ err)
  | .ok es => .ok ⟨es⟩

/-- **`NewClient` builds a client for one non-empty address**, and every error it returns says so;
an empty address never reaches the library. -/
theorem NewClient_spec {C : Type} (elasticsearchNewClient : List Bytes → Except Bytes C)
    (url : Bytes) :
    (∀ c, NewClient elasticsearchNewClient url = .ok c ↔
      url ≠ [] ∧ elasticsearchNewClient [url] = .ok c.client) ∧
    (url = [] → NewClient elasticsearchNewClient url =
      .error (str "create elasticsearch client: no address provided")) ∧
    ∀ err, NewClient elasticsearchNewClient url = .error err →
      str "create elasticsearch client: " <+: err := by
  unfold NewClient newClient
  by_cases hu : url = []
  · subst hu
    exact ⟨fun _ => by simp, fun _ => rfl, fun _ h => by cases h; exact ⟨_, rfl⟩⟩
  · rw [if_neg hu]
    refine ⟨fun ⟨c⟩ => ?_, fun h => absurd h hu, fun err h => ?_⟩
    · cases elasticsearchNewClient [url] <;> simp [hu]
    · cases hc : elasticsearchNewClient [url] <;> simp only [hc, reduceCtorEq] at h
      exact (Except.error.inj h) ▸ ⟨_, rfl⟩

/-! ## The options of a search -/

/-- `SearchRequest`, declared outside `src/`, by the fields `parseSearchRequest` reads, each set or
nil. -/
structure SearchRequest where
  index : Option Bytes
  returnVersion : Option Bool
  size : Option Int
  from' : Option Int
  sort : Option Bytes
  query : Option Bytes
  sourceIncludes : Option Bytes

/-- The `esapi.SearchRequest` options `parseSearchRequest` builds. -/
inductive SearchOption
  | withContext
  | withIndex (index : Bytes)
  | withVersion (version : Bool)
  | withSize (size : Int)
  | withFrom (from' : Int)
  | withSort (sort : Bytes)
  | withBody (body : Bytes)
  | withSourceIncludes (sourceIncludes : Bytes)

/-- The step `parseSearchRequest` takes for each field: `opts = append(opts, option(*field))` when
the field is set. -/
def appendIfSet {α : Type} (opts : List SearchOption) (field : Option α)
    (option : α → SearchOption) : List SearchOption :=
  match field with
  | some v => opts ++ [option v]
  | none => opts

/-- `Client.parseSearchRequest(ctx, req)`. -/
def parseSearchRequest (req : SearchRequest) : List SearchOption :=
  let opts := [SearchOption.withContext]
  let opts := appendIfSet opts req.index .withIndex
  let opts := appendIfSet opts req.returnVersion .withVersion
  let opts := appendIfSet opts req.size .withSize
  let opts := appendIfSet opts req.from' .withFrom
  let opts := appendIfSet opts req.sort .withSort
  let opts := appendIfSet opts req.query .withBody
  appendIfSet opts req.sourceIncludes .withSourceIncludes

section Client

variable (extractResponseError : Response → Bytes)

/-- `Client.isErrResponse(res)`, `none` for a nil error. -/
def isErrResponse (res : Response) : Option Bytes :=
  if res.isError then
    if res.statusCode = 404 then some (errResourceNotFound ++ str ": " ++ extractResponseError res)
    else some (extractResponseError res)
  else none

/-- What a method does with the outcome of its call, `name` being the method's name as its
messages spell it. -/
def checkedCall (name : Bytes) (call : Except Bytes Response) : Except Bytes Response :=
  match call with
  | .error err => .error (tag name ++ str " error from Elasticsearch: " ++ err)
  | .ok res =>
    match isErrResponse extractResponseError res with
    | some err => .error (tag name ++ str " error response from Elasticsearch: " ++ err)
    | none => .ok res

/-! ## The methods that return only an error -/

/-- A method that returns only an error and sends no value it must encode. -/
def errorOnly (name : Bytes) (call : Except Bytes Response) : Except Bytes Unit :=
  (checkedCall extractResponseError name call).map fun _ => ()

/-- A method that first encodes a value with `createReader`, returning that error as it is, and
then makes its call with the encoding. -/
def errorOnlyWithBody (name : Bytes) (marshaled : Except Bytes Bytes)
    (call : Bytes → Except Bytes Response) : Except Bytes Unit :=
  (createReader marshaled).bind fun reader => errorOnly extractResponseError name (call reader)

/-- `Client.CloseIndex(ctx, index)`. -/
def closeIndex (call : Except Bytes Response) : Except Bytes Unit :=
  errorOnly extractResponseError (str "CloseIndex") call

/-- `Client.CreateIndex(ctx, index, body)`. -/
def createIndex (marshaled : Except Bytes Bytes) (call : Bytes → Except Bytes Response) :
    Except Bytes Unit :=
  errorOnlyWithBody extractResponseError (str "CreateIndex") marshaled call

/-- `Client.DeleteByQuery(ctx, req)`, which encodes `req.Query`. -/
def deleteByQuery (marshaled : Except Bytes Bytes) (call : Bytes → Except Bytes Response) :
    Except Bytes Unit :=
  errorOnlyWithBody extractResponseError (str "DeleteByQuery") marshaled call

/-- `Client.DeleteIndex(ctx, index)`. -/
def deleteIndex (call : Except Bytes Response) : Except Bytes Unit :=
  errorOnly extractResponseError (str "DeleteIndex") call

/-- `Client.Index(ctx, req)`, which sends `req.Body` as it is. -/
def index (call : Except Bytes Response) : Except Bytes Unit :=
  errorOnly extractResponseError (str "Index") call

/-- `Client.IndexWithID(ctx, req)`. -/
def indexWithID (call : Except Bytes Response) : Except Bytes Unit :=
  errorOnly extractResponseError (str "IndexWithID") call

/-- `Client.PutIndexAlias(ctx, index, name)`. -/
def putIndexAlias (call : Except Bytes Response) : Except Bytes Unit :=
  errorOnly extractResponseError (str "PutIndexAlias") call

/-- `Client.PutIndexMappings(ctx, index, mapping)`. -/
def putIndexMappings (marshaled : Except Bytes Bytes) (call : Bytes → Except Bytes Response) :
    Except Bytes Unit :=
  errorOnlyWithBody extractResponseError (str "PutIndexMappings") marshaled call

/-- `Client.PutIndexSettings(ctx, index, settings)`. -/
def putIndexSettings (marshaled : Except Bytes Bytes) (call : Bytes → Except Bytes Response) :
    Except Bytes Unit :=
  errorOnlyWithBody extractResponseError (str "PutIndexSettings") marshaled call

/-- `Client.RefreshIndex(ctx, index)`. -/
def refreshIndex (call : Except Bytes Response) : Except Bytes Unit :=
  errorOnly extractResponseError (str "RefreshIndex") call

/-! ## The methods that decode the answer -/

/-- `Client.Count(ctx, index)`; `decode` reads a `countResponse` and gives its `Count`. -/
def count (decode : Bytes → Except Bytes Int) (call : Except Bytes Response) : Except Bytes Int :=
  (checkedCall extractResponseError (str "Count") call).bind fun res =>
    match res.body.bind decode with
    | .error err => .error (str "[Count] error decoding Elasticsearch response: " ++ err)
    | .ok count => .ok count

/-- `Client.GetIndexAlias(ctx, name)`: the body is read in full, then unmarshalled. -/
def getIndexAlias {α : Type} (unmarshal : Bytes → Except Bytes α) (call : Except Bytes Response) :
    Except Bytes α :=
  (checkedCall extractResponseError (str "GetIndexAlias") call).bind fun res =>
    match res.body with
    | .error err =>
      .error (str "[GetIndexAlias] error reading Elasticsearch response body: " ++ err)
    | .ok resData =>
      match unmarshal resData with
      | .error err =>
        .error (str "[GetIndexAlias] error unmarshalling Elasticsearch response: " ++ err)
      | .ok resMap => .ok resMap

/-- `Client.GetIndexMappings(ctx, index)`: `decode` reads a `mappingResponse`, from index names to
their mappings, and `indexMappings[index]` is the zero value `zero` for an index it lacks. -/
def getIndexMappings {Mappings : Type} (zero : Mappings)
    (decode : Bytes → Except Bytes (Bytes → Option Mappings)) (index : Bytes)
    (call : Except Bytes Response) : Except Bytes Mappings :=
  (checkedCall extractResponseError (str "GetIndexMapping") call).bind fun res =>
    match res.body.bind decode with
    | .error err => .error err
    | .ok indexMappings => .ok ((indexMappings index).getD zero)

/-- `Client.Search(ctx, req)`: the call is made with the options `parseSearchRequest` builds. -/
def search {α : Type} (decode : Bytes → Except Bytes α)
    (call : List SearchOption → Except Bytes Response) (req : SearchRequest) : Except Bytes α :=
  (checkedCall extractResponseError (str "Search") (call (parseSearchRequest req))).bind fun res =>
    match res.body.bind decode with
    | .error err =>
      .error (str "[Search] decoding response body: " ++ errInvalidSearchEnvelope ++ str ": " ++ err)
    | .ok response => .ok response

/-- `Client.ListIndices(ctx, indices)`: the lines of the answer as a `bufio.Scanner` split by
`ScanLines` yields them, or the scanner's error, a failed read or `ErrTooLong`. How the body's
reader hands out its last bytes (`eofWithData`) is outside `src/`. -/
def listIndices (eofWithData : Bool) (call : Except Bytes Response) : Except Bytes (List Bytes) :=
  (checkedCall extractResponseError (str "ListIndices") call).bind fun res =>
    match res.body.bind (scanLines eofWithData) with
    | .error err => .error (str "[ListIndices] error scanning response from Elasticsearch: " ++ err)
    | .ok lines => .ok lines

end Client

/-! ## The two methods that check the answer their own way -/

/-- What `fmt.Errorf` writes for a `%w` whose operand is nil. -/
def nilWrapVerb : Bytes := str "%!w(<nil>)"

/-- `Client.IndexExists(ctx, index)`. An error answer other than 404 is wrapped with `err`, the
error of the call, which is nil once the call has returned an answer. -/
def indexExists (call : Except Bytes Response) : Except Bytes Bool :=
  match call with
  | .error err => .error (str "[IndexExists] error from Elasticsearch: " ++ err)
  | .ok res =>
    if res.isError && res.statusCode != 404 then
      .error (str "[IndexExists] error response from Elasticsearch: " ++ nilWrapVerb)
    else .ok (res.statusCode == 200)

/-- One index of an `indexStatsResponse`: the store size of all its shards and of its
primaries. -/
structure IndexStatsEntry where
  totalSizeInBytes : Int
  primariesSizeInBytes : Int

/-- `IndexStats`. -/
structure IndexStats where
  index : Bytes
  totalSizeBytes : Nat
  primarySizeBytes : Nat

/-- `uint64(v)` for a signed integer `v`: `v` modulo `2^64`. -/
def toUint64 (v : Int) : Nat := (v % 18446744073709551616).toNat

/-- `Client.GetIndicesStats(ctx, indexPattern)`. `decode` reads an `indexStatsResponse` and lists
its `Indices` in the order the `range` over the map visits them. -/
def getIndicesStats (decode : Bytes → Except Bytes (List (Bytes × IndexStatsEntry)))
    (call : Except Bytes Response) : Except Bytes (List IndexStats) :=
  match call with
  | .error err => .error (str "[GetIndicesStats] querying OpenSearch Cat API: " ++ err)
  | .ok res =>
    match res.body.bind decode with
    | .error err => .error (str "[GetIndicesStats] decoding response body: " ++ err)
    | .ok indices => .ok (indices.map fun (index, r) =>
        ⟨index, toUint64 r.totalSizeInBytes, toUint64 r.primariesSizeInBytes⟩)

/-! ## What the shared part does -/

section Lemmas

variable {extractResponseError : Response → Bytes}

theorem isErrResponse_eq_none_iff (res : Response) :
    isErrResponse extractResponseError res = none ↔ res.statusCode ≤ 299 := by
  unfold isErrResponse Response.isError
  split_ifs with h1 h2 <;> simp_all

/-- **What the shared part lets through**: exactly an answer with a status of 299 or less. -/
theorem checkedCall_eq_ok_iff {name : Bytes} {call : Except Bytes Response} {res : Response} :
    checkedCall extractResponseError name call = .ok res ↔
      call = .ok res ∧ res.statusCode ≤ 299 := by
  cases call with
  | error err => simp [checkedCall]
  | ok r =>
    unfold checkedCall
    cases h : isErrResponse extractResponseError r with
    | some err =>
      have hr : ¬r.statusCode ≤ 299 := fun hle => by
        rw [(isErrResponse_eq_none_iff r).2 hle] at h; cases h
      simp only [h, reduceCtorEq, false_iff, not_and, Except.ok.injEq]
      rintro rfl
      exact hr
    | none =>
      simp only [h, Except.ok.injEq, iff_self_and]
      rintro rfl
      exact (isErrResponse_eq_none_iff _).1 h

/-- **Every error of the shared part names the method.** -/
theorem checkedCall_error_tag {name : Bytes} {call : Except Bytes Response} {err : Bytes}
    (h : checkedCall extractResponseError name call = .error err) : tag name <+: err := by
  unfold checkedCall at h
  split at h
  · cases h; exact ⟨_, (List.append_assoc (tag name) _ _).symm⟩
  · split at h
    · cases h; exact ⟨_, (List.append_assoc (tag name) _ _).symm⟩
    · cases h

/-- **A method that returns only an error** succeeds exactly when its call is answered with a
status of 299 or less, and every error it returns names it. -/
theorem errorOnly_spec (name : Bytes) (call : Except Bytes Response) :
    (errorOnly extractResponseError name call = .ok () ↔
      ∃ res, call = .ok res ∧ res.statusCode ≤ 299) ∧
    ∀ err, errorOnly extractResponseError name call = .error err → tag name <+: err := by
  unfold errorOnly
  cases h : checkedCall extractResponseError name call with
  | error e =>
    simp only [Except.map, reduceCtorEq, false_iff, not_exists, not_and, Except.error.injEq]
    refine ⟨fun res hcall hle => ?_, fun err herr => herr ▸ checkedCall_error_tag h⟩
    rw [checkedCall_eq_ok_iff.2 ⟨hcall, hle⟩] at h
    cases h
  | ok res =>
    obtain ⟨rfl, hle⟩ := checkedCall_eq_ok_iff.1 h
    simp [Except.map, hle]

/-- **A method that encodes a value first** succeeds exactly when the value encodes and the call
with its encoding is answered with a status of 299 or less; every error it returns is the
encoding error or names it. -/
theorem errorOnlyWithBody_spec (name : Bytes) (marshaled : Except Bytes Bytes)
    (call : Bytes → Except Bytes Response) :
    (errorOnlyWithBody extractResponseError name marshaled call = .ok () ↔
      ∃ body res, marshaled = .ok body ∧ call body = .ok res ∧ res.statusCode ≤ 299) ∧
    ∀ err, errorOnlyWithBody extractResponseError name marshaled call = .error err →
      (∃ e, marshaled = .error e ∧ err = str "unexpected marshaling error: " ++ e) ∨
        tag name <+: err := by
  cases marshaled with
  | error e => simp [errorOnlyWithBody, createReader, Except.bind]
  | ok body =>
    simp only [errorOnlyWithBody, createReader, Except.bind, Except.ok.injEq, exists_and_left,
      exists_eq_left', reduceCtorEq, false_and, exists_false, false_or]
    exact errorOnly_spec name (call body)

end Lemmas

/-- What `IndexExists` answers: for an answer that is not an error, or a 404, whether the status
is 200. -/
theorem indexExists_eq_ok_iff {call : Except Bytes Response} {b : Bool} :
    indexExists call = .ok b ↔
      ∃ res, call = .ok res ∧ (res.statusCode ≤ 299 ∨ res.statusCode = 404) ∧
        b = (res.statusCode == 200) := by
  cases call with
  | error err => simp [indexExists]
  | ok res =>
    by_cases h : 299 < res.statusCode ∧ res.statusCode ≠ 404
    · simp [indexExists, Response.isError, h.1, h.2]
    · have h' : res.statusCode ≤ 299 ∨ res.statusCode = 404 := by omega
      simp only [indexExists, Response.isError, Except.ok.injEq, exists_eq_left', h', true_and]
      rw [if_neg (by simpa [not_and_or] using h), Except.ok.injEq]
      exact eq_comm

/-! ## Where `IndexExists`, `GetIndicesStats` and `GetIndexMappings` differ -/

/-- **`IndexExists` loses the answer's error.** Every error answer other than 404 gives the same
message, which wraps a nil error, where the shared check would wrap the error that
`extractResponseError` reads out of the answer. -/
theorem indexExists_drops_response_error (extractResponseError : Response → Bytes)
    (res : Response) (herr : 299 < res.statusCode) (h404 : res.statusCode ≠ 404) :
    indexExists (.ok res) =
        .error (str "[IndexExists] error response from Elasticsearch: " ++ nilWrapVerb) ∧
      checkedCall extractResponseError (str "IndexExists") (.ok res) =
        .error (tag (str "IndexExists") ++ str " error response from Elasticsearch: " ++
          extractResponseError res) := by
  have hne : isErrResponse extractResponseError res = some (extractResponseError res) := by
    simp [isErrResponse, Response.isError, herr, h404]
  refine ⟨?_, by rw [checkedCall, hne]⟩
  simp [indexExists, Response.isError, herr, h404]

/-- A 500 answer whose error reads `boom`: the message does not say so. -/
example : indexExists (.ok ⟨500, .ok (str "boom")⟩) =
    .error (str "[IndexExists] error response from Elasticsearch: %!w(<nil>)") := rfl

/-- **`GetIndicesStats` does not look at the status.** An answer gives the same result whatever its
status, an error status included, where the shared check refuses every status above 299. -/
theorem getIndicesStats_ignores_status (extractResponseError : Response → Bytes)
    (decode : Bytes → Except Bytes (List (Bytes × IndexStatsEntry))) (statusCode : Nat)
    (body : Except Bytes Bytes) :
    getIndicesStats decode (.ok ⟨statusCode, body⟩) = getIndicesStats decode (.ok ⟨200, body⟩) ∧
      (299 < statusCode → ∃ err, checkedCall extractResponseError (str "GetIndicesStats")
        (.ok ⟨statusCode, body⟩) = .error err) := by
  refine ⟨rfl, fun h => ?_⟩
  cases hc : checkedCall extractResponseError (str "GetIndicesStats") (.ok ⟨statusCode, body⟩) with
  | error err => exact ⟨err, rfl⟩
  | ok res =>
    obtain ⟨hres, hle⟩ := checkedCall_eq_ok_iff.1 hc
    cases hres
    exact absurd hle (Nat.not_le.2 h)

/-- **`GetIndexMappings` on an answer that passes the check.** A decoding error comes back as it
is, with no message naming the method, and an index that the decoded answer does not list gives
the zero mappings, not an error. -/
theorem getIndexMappings_of_decoded {Mappings : Type} (extractResponseError : Response → Bytes)
    (zero : Mappings) (decode : Bytes → Except Bytes (Bytes → Option Mappings)) (index : Bytes)
    (res : Response) (hstatus : res.statusCode ≤ 299) :
    (∀ err, res.body.bind decode = .error err →
      getIndexMappings extractResponseError zero decode index (.ok res) = .error err) ∧
    (∀ indexMappings, res.body.bind decode = .ok indexMappings → indexMappings index = none →
      getIndexMappings extractResponseError zero decode index (.ok res) = .ok zero) := by
  have hc : checkedCall extractResponseError (str "GetIndexMapping") (.ok res) = .ok res :=
    checkedCall_eq_ok_iff.2 ⟨rfl, hstatus⟩
  refine ⟨fun err herr => ?_, fun indexMappings hdec hnone => ?_⟩
  · simp only [getIndexMappings, hc, ok_bind, herr]
  · simp only [getIndexMappings, hc, ok_bind, hdec, hnone, Option.getD_none]

/-- A body that does not decode: the decoder's error comes back with no message of the method's. -/
example : getIndexMappings (fun _ => []) 0
    (fun _ => (.error (str "unexpected EOF") : Except Bytes (Bytes → Option Nat))) (str "users")
    (.ok ⟨200, .ok (str "nul")⟩) = .error (str "unexpected EOF") := rfl

/-- **A listing reads back, up to the scanner's buffer.** When the answer passes the check and
its body is index names with no `\n` and no final `\r`, each ended by `\n`, `ListIndices` returns
exactly those names if every name is shorter than `bufio.MaxScanTokenSize` (64 KiB), and the
scanner's `ErrTooLong` otherwise, whatever the reader. -/
theorem listIndices_lines (extractResponseError : Response → Bytes) (eofWithData : Bool)
    (res : Response) (names : List Bytes) (hstatus : res.statusCode ≤ 299)
    (hbody : res.body = .ok (names.flatMap (· ++ [0x0A])))
    (hnames : ∀ n ∈ names, 0x0A ∉ n ∧ n.getLast? ≠ some 0x0D) :
    listIndices extractResponseError eofWithData (.ok res) =
      if ∀ n ∈ names, n.length < maxScanTokenSize then .ok names
      else .error (str "[ListIndices] error scanning response from Elasticsearch: " ++ errTooLong) := by
  have hc : checkedCall extractResponseError (str "ListIndices") (.ok res) = .ok res :=
    checkedCall_eq_ok_iff.2 ⟨rfl, hstatus⟩
  have hscan := scanLines_lines eofWithData fun n hn => (hnames n hn).1
  have hmap : names.map dropCR = names :=
    (List.map_congr_left fun n hn => dropCR_of_getLast?_ne (hnames n hn).2).trans (List.map_id _)
  by_cases hfit : ∀ n ∈ names, n.length < maxScanTokenSize
  · simp only [listIndices, hc, ok_bind, hbody, hscan, if_pos hfit, hmap]
  · simp only [listIndices, hc, ok_bind, hbody, hscan, if_neg hfit]

/-- The listing of `users` and `pgstream`. -/
theorem listIndices_lines_two :
    (200 : Nat) ≤ 299 ∧
    (Except.ok (str "users\npgstream\n") : Except Bytes Bytes) =
      .ok ([str "users", str "pgstream"].flatMap (· ++ [0x0A])) ∧
    (∀ n ∈ [str "users", str "pgstream"], 0x0A ∉ n ∧ n.getLast? ≠ some 0x0D) ∧
    listIndices (fun _ => []) false (.ok ⟨200, .ok (str "users\npgstream\n")⟩) =
      .ok [str "users", str "pgstream"] :=
  ⟨by decide, rfl, by decide,
    (listIndices_lines (fun _ => []) false ⟨200, .ok (str "users\npgstream\n")⟩
      [str "users", str "pgstream"] (by decide) rfl (by decide)).trans (if_pos (by decide))⟩

end Pgstream.Es
