import StreamSql.Proofs.Catalog.Undo

/-!
# Histories of a catalog

A catalog is changed by calls, each a command with the interceptors of the moment and with what is
known of the query behind it, and by taking back what accepted calls did, in any order and any
number of times. `apply_cases` is all that can come of a call.
-/

namespace StreamSql.Catalog

/-- A command put to the catalog. -/
structure Call where
  interceptors : List Interceptor
  command : CatalogCommand
  statement : String
  /-- Whether a query fills the entry. -/
  withQuery : Bool
  /-- The entries that the query reads. -/
  querySources : SortedSet SourceName

/-- The entries that the entry of the call is made a reader of: none without a query. -/
def Call.feeds (call : Call) : SortedSet SourceName :=
  if call.withQuery then call.querySources else .empty

def call (catalog : Catalog) (call : Call) : Except Diagnostic Applied × Catalog :=
  catalog.apply call.interceptors call.command call.statement call.feeds

inductive Event where
  | call (call : Call)
  /-- Takes back what the accepted call of that number did, if there has been one. -/
  | revert (index : Nat)

/-- A catalog with the reports on the calls it has accepted so far, the first one first. -/
structure History where
  catalog : Catalog := .empty
  accepted : List Applied := []

namespace History

def step (history : History) : Event → History
  | .call call =>
    match history.catalog.call call with
    | (.ok applied, catalog) => ⟨catalog, history.accepted ++ [applied]⟩
    | (.error _, catalog) => ⟨catalog, history.accepted⟩
  | .revert index =>
    match history.accepted[index]? with
    | some applied => ⟨history.catalog.revert applied, history.accepted⟩
    | none => history

/-- What events make of an empty catalog. -/
def of (events : List Event) : History := events.foldl step {}

theorem of_snoc (events : List Event) (event : Event) :
    of (events ++ [event]) = (of events).step event := by
  rw [of, List.foldl_append]
  rfl

end History

/-! ### Calls -/

variable {catalog next : Catalog} {interceptors : List Interceptor} {command : CatalogCommand}
  {statement : String} {feeds : SortedSet SourceName} {applied : Applied} {d : Diagnostic}

/-- What can come of a command: it is refused by its checks, an interceptor objects and it is taken
back, or it is accepted. -/
theorem apply_cases (catalog : Catalog) (interceptors : List Interceptor)
    (command : CatalogCommand) (statement : String) (feeds : SortedSet SourceName) :
    (∃ e, catalog.run command statement feeds = .error e ∧
        catalog.apply interceptors command statement feeds = (.error (diagnostic e), catalog)) ∨
      (∃ outcome objection, catalog.run command statement feeds = .ok outcome ∧
        catalog.apply interceptors command statement feeds =
          (.error objection, outcome.catalog.revert outcome.applied)) ∨
      ∃ outcome, catalog.run command statement feeds = .ok outcome ∧
        catalog.apply interceptors command statement feeds =
          (.ok outcome.applied, outcome.catalog) := by
  cases hrun : catalog.run command statement feeds with
  | error e => exact .inl ⟨e, rfl, by simp only [apply, hrun]⟩
  | ok outcome =>
    right
    cases hfound : interceptors.findSome? (· command (outcome.catalog.get? command.name)) with
    | some objection =>
      exact .inl ⟨outcome, objection, rfl, by simp only [apply, hrun, hfound]⟩
    | none => exact .inr ⟨outcome, rfl, by simp only [apply, hrun, hfound]⟩

theorem run_of_apply_ok (h : catalog.apply interceptors command statement feeds =
    (.ok applied, next)) : catalog.run command statement feeds = .ok ⟨applied, next⟩ := by
  rcases apply_cases catalog interceptors command statement feeds with
    ⟨e, -, happly⟩ | ⟨outcome, objection, -, happly⟩ | ⟨outcome, hrun, happly⟩
  · rw [happly] at h
    cases h
  · rw [happly] at h
    cases h
  · rw [happly] at h
    cases h
    exact hrun

theorem Accepted.pruned {outcome : Outcome}
    (h : Accepted catalog command statement feeds outcome) (hpruned : catalog.Pruned) :
    outcome.catalog.Pruned := by
  cases h with
  | idle => exact hpruned
  | carried _ _ hcarried => exact hcarried.pruned hpruned

theorem Accepted.closed {outcome : Outcome}
    (h : Accepted catalog command statement feeds outcome) (hclosed : catalog.Closed)
    (hfeeds : ∀ feed ∈ feeds.toList, catalog.contains feed = true) : outcome.catalog.Closed := by
  cases h with
  | idle => exact hclosed
  | carried _ _ hcarried => exact hcarried.closed hclosed hfeeds

theorem Closed.of_call_ok {call : Call} (h : catalog.Closed)
    (hcall : catalog.call call = (.ok applied, next))
    (hfeeds : ∀ feed ∈ call.feeds.toList, catalog.contains feed = true) : next.Closed :=
  (run_ok (run_of_apply_ok hcall)).closed h hfeeds

theorem Pruned.apply (h : catalog.Pruned) (interceptors : List Interceptor)
    (command : CatalogCommand) (statement : String) (feeds : SortedSet SourceName) :
    (catalog.apply interceptors command statement feeds).2.Pruned := by
  rcases apply_cases catalog interceptors command statement feeds with
    ⟨e, -, happly⟩ | ⟨outcome, objection, hrun, happly⟩ | ⟨outcome, hrun, happly⟩
  · rwa [happly]
  · rw [happly]
    exact ((run_ok hrun).pruned h).revert _
  · rw [happly]
    exact (run_ok hrun).pruned h

theorem History.pruned_step {history : History} (h : history.catalog.Pruned) (event : Event) :
    (history.step event).catalog.Pruned := by
  cases event with
  | call call =>
    have hcall := h.apply call.interceptors call.command call.statement call.feeds
    simp only [History.step, Catalog.call]
    split
    next heq => rwa [heq] at hcall
    next heq => rwa [heq] at hcall
  | revert index =>
    simp only [History.step]
    split
    · exact h.revert _
    · exact h

theorem History.pruned (events : List Event) : (History.of events).catalog.Pruned :=
  List.foldlRecOn (motive := (·.catalog.Pruned)) events step pruned_empty
    fun _ h event _ => pruned_step h event

/-! ### A sample -/

namespace Call

/-- Creates a stream, filled by a query if there are feeds to read. -/
def createStream (name : SourceName) (feeds : List SourceName) : Call where
  interceptors := []
  command := .create {
    name
    kind := .stream
    schema := .empty
    keyFormat := .kafka
    valueFormat := .json
    topic := name.text
    orReplace := false
    ifNotExists := false
    isQuerySink := !feeds.isEmpty }
  statement := s!"CREATE STREAM {name.text} ...;"
  withQuery := !feeds.isEmpty
  querySources := .ofList feeds

/-- Removes a stream unless an interceptor objects. -/
def dropStream (name : SourceName) (interceptors : List Interceptor) : Call where
  interceptors
  command := .drop ⟨name, .stream, false⟩
  statement := s!"DROP STREAM {name.text};"
  withQuery := false
  querySources := .empty

end Call

namespace Sample

/-- Objects to every removal. -/
def keepEntries : Interceptor
  | .drop _, _ => some (.internal "entries are kept")
  | _, _ => none

def orders : SourceName := ⟨"ORDERS"⟩

def totals : SourceName := ⟨"TOTALS"⟩

/-- A stream and a second one that is filled from it. -/
def pipeline : List Event :=
  [.call (.createStream orders []), .call (.createStream totals [orders])]

theorem closed_pipeline : (History.of pipeline).catalog.Closed := by
  have horders : Catalog.empty.call (.createStream orders []) = (.ok _, _) := rfl
  have htotals : (History.of [.call (.createStream orders [])]).catalog.call
    (.createStream totals [orders]) = (.ok _, _) := rfl
  exact (closed_empty.of_call_ok horders (by decide)).of_call_ok htotals (by decide)

end Sample

end StreamSql.Catalog
