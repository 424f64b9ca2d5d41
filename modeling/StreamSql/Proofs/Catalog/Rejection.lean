import StreamSql.Proofs.Catalog.History

/-!
# Rejected commands

The interceptors see a command after it has been carried out, and the command is taken back if one
of them objects. The entries are then always those from before. So are the links, with one
exception (`RemovesStranded`): links may lead from names without an entry, since a creation may
name feeds that do not exist and the creation of a feed may be taken back under its readers, and a
removal that takes such links away does not get them back.
-/

namespace StreamSql.Catalog

variable {catalog next : Catalog} {interceptors : List Interceptor} {command : CatalogCommand}
  {statement : String} {feeds : SortedSet SourceName} {change : Change} {objection : Diagnostic}

/-- The command removes an entry that reads from a name without an entry. -/
def RemovesStranded (catalog : Catalog) (command : CatalogCommand) : Prop :=
  ∃ c, command = .drop c ∧ catalog.contains c.name = true ∧
    ∃ feed, catalog.hasLink feed c.name = true ∧ catalog.contains feed = false

theorem Closed.not_removesStranded (h : catalog.Closed) (command : CatalogCommand) :
    ¬catalog.RemovesStranded command := by
  rintro ⟨c, -, -, feed, hlink, hfeed⟩
  rw [(h feed c.name hlink).1] at hfeed
  cases hfeed

theorem not_removesStranded_create (c : CreateSource) :
    ¬catalog.RemovesStranded (.create c) := by
  rintro ⟨_, hdrop, -⟩
  cases hdrop

theorem not_removesStranded_of_isIdle
    (h : command.isIdle (catalog.get? command.name) = true) : ¬catalog.RemovesStranded command := by
  rintro ⟨c, rfl, hcontains, -⟩
  rw [contains_eq, Option.isSome_iff_ne_none] at hcontains
  exact hcontains (Option.isNone_iff_eq_none.1 h)

theorem Carried.removesStranded_iff (h : Carried catalog command statement feeds change next) :
    catalog.RemovesStranded command ↔
      ∃ feed ∈ change.unlinked, catalog.contains feed = false := by
  constructor
  · rintro ⟨c, rfl, -, feed, hlink, hfeed⟩
    have hgone : next.hasLink feed c.name = false := by
      rw [← Bool.not_eq_true]
      exact (h.own_links feed).1
    exact ⟨feed, (h.unlinked feed).2 ⟨hgone, hlink⟩, hfeed⟩
  · rintro ⟨feed, hmem, hfeed⟩
    have hsome := h.before_isSome hmem
    obtain ⟨c, rfl⟩ := h.drop_of_unlinked hmem
    rw [h.before] at hsome
    exact ⟨c, rfl, hsome, feed, ((h.unlinked feed).1 hmem).2, hfeed⟩

/-- Taking an accepted command back at once restores the entries, and the links unless some are
lost. -/
theorem Accepted.revert {outcome : Outcome} (hpruned : catalog.Pruned)
    (h : Accepted catalog command statement feeds outcome) :
    (outcome.catalog.revert outcome.applied).sources = catalog.sources ∧
      (outcome.catalog.revert outcome.applied = catalog ↔ ¬catalog.RemovesStranded command) := by
  cases h with
  | idle _ hidle => exact ⟨rfl, iff_of_true rfl (not_removesStranded_of_isIdle hidle)⟩
  | @carried _ change next _ hcarried =>
    refine ⟨SortedMap.ext_get? hcarried.get?_undo, ?_⟩
    refine (hcarried.undo_eq_iff hpruned).trans ?_
    rw [hcarried.removesStranded_iff]
    simp

theorem Pruned.apply_error (hpruned : catalog.Pruned)
    (h : (catalog.apply interceptors command statement feeds).1 = .error objection) :
    (catalog.apply interceptors command statement feeds).2.sources = catalog.sources ∧
      ((catalog.apply interceptors command statement feeds).2 = catalog ↔
        ¬((∃ outcome, catalog.run command statement feeds = .ok outcome) ∧
          catalog.RemovesStranded command)) := by
  rcases apply_cases catalog interceptors command statement feeds with
    ⟨e, hrun, happly⟩ | ⟨outcome, _, hrun, happly⟩ | ⟨outcome, hrun, happly⟩
  · rw [happly, hrun]
    simp
  · rw [happly]
    have hrevert := (run_ok hrun).revert hpruned
    exact ⟨hrevert.1, hrevert.2.trans (not_congr (and_iff_right ⟨outcome, hrun⟩).symm)⟩
  · rw [happly] at h
    cases h

theorem Closed.apply_error (hclosed : catalog.Closed) (hpruned : catalog.Pruned)
    (h : (catalog.apply interceptors command statement feeds).1 = .error objection) :
    (catalog.apply interceptors command statement feeds).2 = catalog :=
  (hpruned.apply_error h).2.2 fun hlost => hclosed.not_removesStranded command hlost.2

/-- **A rejected command leaves no trace, except for links from missing feeds.** In every history
a call that ends in an error leaves all entries as they were, and it leaves the links as they were
if and only if it is not a removal, admitted by the checks, of an entry that reads from a name
without an entry. -/
theorem rejected_call_restores_iff (events : List Event) (call : Call)
    (h : ((History.of events).catalog.call call).1 = .error objection) :
    ((History.of events).catalog.call call).2.sources = (History.of events).catalog.sources ∧
      (((History.of events).catalog.call call).2 = (History.of events).catalog ↔
        ¬((∃ outcome, (History.of events).catalog.run call.command call.statement call.feeds =
            .ok outcome) ∧ (History.of events).catalog.RemovesStranded call.command)) :=
  (History.pruned events).apply_error h

/-- A refused removal of an entry whose feed exists. -/
theorem refused_drop_restores :
    let catalog := (History.of Sample.pipeline).catalog
    let result := catalog.call (.dropStream Sample.totals [Sample.keepEntries])
    result.1 = .error (.internal "entries are kept") ∧ result.2 = catalog := by
  intro catalog result
  have hrefused : result.1 = .error (.internal "entries are kept") := rfl
  refine ⟨hrefused, (rejected_call_restores_iff _ _ hrefused).2.2 fun hlost => ?_⟩
  exact Sample.closed_pipeline.not_removesStranded _ hlost.2

/-- A refused removal of an entry whose feed does not exist: the link to the feed is lost. -/
theorem refused_drop_loses_link :
    let catalog := (History.of [.call (.createStream Sample.totals [Sample.orders])]).catalog
    let result := catalog.call (.dropStream Sample.totals [Sample.keepEntries])
    result.1 = .error (.internal "entries are kept") ∧ result.2.readers ≠ catalog.readers := by
  refine ⟨rfl, ?_⟩
  decide

end StreamSql.Catalog
