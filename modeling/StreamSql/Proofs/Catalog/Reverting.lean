import StreamSql.Proofs.Catalog.History

/-!
# How far reverting reaches

Whatever has happened to the catalog since, taking back an accepted command changes nothing but the
command's own entry and the links with that entry as the reader, it changes nothing at all where the
entry has been changed since, and taking the command back once more changes nothing
(`revert_confined`).

The last point is plain where the command has changed its entry: the entry restored is not the one
that the command left. A replacement may have written the entry that was there before, however. Then
its links are taken away a second time, which the first time has made idle (`removeLinks_again`).
-/

namespace StreamSql

namespace Catalog

variable {catalog next : Catalog} {command : CatalogCommand} {statement : String}
  {feeds : SortedSet SourceName} {change : Change} {applied : Applied}

/-! ### Links taken away twice -/

theorem ext_listed {other : Catalog} (hentries : ∀ name, catalog.get? name = other.get? name)
    (hreaders : ∀ feed, catalog.readers.get? feed = other.readers.get? feed) : catalog = other := by
  obtain ⟨sources, readers⟩ := catalog
  obtain ⟨sources', readers'⟩ := other
  obtain rfl : sources = sources' := SortedMap.ext_get? hentries
  obtain rfl : readers = readers' := SortedMap.ext_get? hreaders
  rfl

/-- What is listed of a feed's readers without one of them: nothing where no other is left. -/
def withoutReader (reader : SourceName) (readers : SortedSet SourceName) :
    Option (SortedSet SourceName) :=
  if (readers.erase reader).isEmpty then none else some (readers.erase reader)

theorem withoutReader_again (reader : SourceName) (readers : SortedSet SourceName) :
    withoutReader reader ((withoutReader reader readers).getD .empty) =
      withoutReader reader readers := by
  have hremaining : (withoutReader reader readers).getD .empty = readers.erase reader := by
    unfold withoutReader
    split
    next hempty =>
      exact SortedSet.ext_contains fun a => by simp [(SortedSet.isEmpty_iff _).1 hempty a]
    next => rfl
  have herase : (readers.erase reader).erase reader = readers.erase reader :=
    SortedSet.ext_contains fun a => by
      rw [SortedSet.contains_erase, SortedSet.contains_erase, ← and_assoc, and_self]
  rw [hremaining, withoutReader, withoutReader, herase]

theorem listed_removeLink (reader : SourceName) (catalog : Catalog) (feed u : SourceName) :
    (catalog.removeLink reader feed).readers.get? u =
      if u = feed then withoutReader reader (catalog.readersOf u)
      else catalog.readers.get? u := by
  unfold removeLink withoutReader
  by_cases hempty : ((catalog.readersOf feed).erase reader).isEmpty = true
  · simp only [hempty, if_true, SortedMap.lookup_erase]
    split
    next hfeed => rw [hfeed, if_pos hempty]
    next => rfl
  · simp only [hempty, Bool.false_eq_true, if_false, SortedMap.lookup_insert]
    split
    next hfeed => rw [hfeed, if_neg hempty]
    next => rfl

theorem listed_removeLinks (reader : SourceName) (feeds : List SourceName) (catalog : Catalog)
    (u : SourceName) :
    (feeds.foldl (removeLink reader) catalog).readers.get? u =
      if u ∈ feeds then withoutReader reader (catalog.readersOf u)
      else catalog.readers.get? u := by
  induction feeds generalizing catalog with
  | nil => simp
  | cons feed feeds ih =>
    rw [List.foldl_cons, ih, readersOf, listed_removeLink]
    by_cases hfeed : u = feed
    · simp [hfeed, withoutReader_again]
    · simp [hfeed, readersOf]

theorem removeLinks_again (reader : SourceName) (feeds : List SourceName) (catalog : Catalog) :
    feeds.foldl (removeLink reader) (feeds.foldl (removeLink reader) catalog) =
      feeds.foldl (removeLink reader) catalog := by
  refine ext_listed (fun name => get?_removeLinks reader feeds _) fun u => ?_
  rw [listed_removeLinks]
  split
  next hu => rw [readersOf, listed_removeLinks, if_pos hu, withoutReader_again]
  next => rfl

/-! ### Reverting twice -/

theorem set_get? (catalog : Catalog) (name : SourceName) :
    catalog.set name (catalog.get? name) = catalog := by
  refine ext_listed (fun other => ?_) fun _ => rfl
  rw [get?_set]
  split
  next heq => rw [heq]
  next => rfl

theorem Carried.unlinked_eq_nil (h : Carried catalog command statement feeds change next)
    (hsame : change.before = change.after) : change.unlinked = [] := by
  refine List.eq_nil_iff_forall_not_mem.2 fun feed hfeed => ?_
  obtain ⟨c, rfl⟩ := h.drop_of_unlinked hfeed
  have hbefore := h.before_isSome hfeed
  rw [hsame, h.after] at hbefore
  cases hbefore

theorem Carried.undo_undo (h : Carried catalog command statement feeds change next)
    (later : Catalog) : change.undo (change.undo later) = change.undo later := by
  by_cases hleft : later.get? change.name = change.after
  · by_cases hsame : change.before = change.after
    · have hundo : ∀ c : Catalog, c.get? change.name = change.after →
          change.undo c = change.linked.foldl (removeLink change.name) c := by
        intro c hc
        rw [Change.undo_of_eq hc, h.unlinked_eq_nil hsame, hsame, ← hc, set_get?]
        rfl
      rw [hundo later hleft, hundo _ (by rwa [get?_removeLinks]), removeLinks_again]
    · have hrestored : (change.undo later).get? change.name = change.before := by
        rw [Change.get?_undo hleft, if_pos rfl]
      exact Change.undo_of_ne (by rwa [hrestored])
  · rw [Change.undo_of_ne hleft, Change.undo_of_ne hleft]

/-- **Reverting reaches no further than the command did.** In any later catalog, whatever has led
to it, taking back an accepted call changes at most the call's entry and the links with that entry
as the reader; it changes nothing if the entry is not what the call has left; and taking the call
back once more changes nothing. -/
theorem revert_confined {call : Call} (h : catalog.call call = (.ok applied, next))
    (later : Catalog) :
    (∀ name, name ≠ call.command.name → (later.revert applied).get? name = later.get? name) ∧
      (∀ feed reader, reader ≠ call.command.name →
        (later.revert applied).hasLink feed reader = later.hasLink feed reader) ∧
      (later.get? call.command.name ≠ next.get? call.command.name →
        later.revert applied = later) ∧
      (later.revert applied).revert applied = later.revert applied := by
  cases run_ok (run_of_apply_ok h) with
  | idle message hidle => exact ⟨fun _ _ => rfl, fun _ _ _ => rfl, fun _ => rfl, rfl⟩
  | carried message hidle hcarried =>
    refine ⟨fun name hname => ?_, fun feed reader hreader => ?_, fun hchanged => ?_,
      hcarried.undo_undo later⟩
    · exact Change.get?_undo_of_ne _ later (hcarried.name ▸ hname)
    · exact Change.hasLink_undo_of_ne _ later feed (hcarried.name ▸ hreader)
    · rw [← hcarried.name, hcarried.get?_name] at hchanged
      exact Change.undo_of_ne hchanged

namespace Sample

/-- Fills a stream from others and leaves its entry as `Call.createStream` has made it. -/
def refill (name : SourceName) (feeds : List SourceName) : Call where
  interceptors := []
  command := .create {
    name
    kind := .stream
    schema := .empty
    keyFormat := .kafka
    valueFormat := .json
    topic := name.text
    orReplace := true
    ifNotExists := false
    isQuerySink := false }
  statement := s!"CREATE STREAM {name.text} ...;"
  withQuery := true
  querySources := .ofList feeds

theorem refill_reverted_twice :
    let streams := (History.of
      [.call (.createStream orders []), .call (.createStream totals [])]).catalog
    ∃ applied next, streams.call (refill totals [orders]) = (.ok applied, next) ∧
      next.get? totals = streams.get? totals ∧ next.hasLink orders totals = true ∧
        (next.revert applied).hasLink orders totals = false ∧
          (next.revert applied).revert applied = next.revert applied := by
  intro streams
  have hcall : streams.call (refill totals [orders]) = (.ok _, _) := rfl
  exact ⟨_, _, hcall, by decide, by decide, by decide, (revert_confined hcall _).2.2.2⟩

end Sample

end Catalog

end StreamSql
