import StreamSql.Proofs.Catalog.Carried

/-!
# Undoing what commands did

What undoing a change does to the entries and to the links, in any catalog, and the special case of
undoing it where it has just been made. There the catalog from before comes back, unless a link was
taken away whose feed is no entry: such a link is not restored (`Carried.undo_eq_iff`).
-/

namespace StreamSql

variable {catalog next : Catalog} {command : CatalogCommand} {statement : String}
  {feeds : SortedSet SourceName} {change : Change} {applied : Applied}

namespace Change

/-! ### Restoring links -/

theorem get?_relink (reader : SourceName) (catalog : Catalog) (feed name : SourceName) :
    (relink reader catalog feed).get? name = catalog.get? name := by
  unfold relink
  split <;> rfl

theorem hasLink_relink (reader : SourceName) (catalog : Catalog) (feed u r : SourceName) :
    (relink reader catalog feed).hasLink u r = true ↔
      (r = reader ∧ u = feed ∧ catalog.contains feed = true ∧ catalog.contains reader = true) ∨
        catalog.hasLink u r = true := by
  unfold relink
  split
  next h =>
    rw [Bool.and_eq_true] at h
    simp [Catalog.hasLink_addLink, h]
  next h =>
    rw [Bool.and_eq_true] at h
    tauto

theorem hasLink_relinks (reader : SourceName) (feeds : List SourceName) (catalog : Catalog)
    (u r : SourceName) :
    (feeds.foldl (relink reader) catalog).hasLink u r = true ↔
      (r = reader ∧ u ∈ feeds ∧ catalog.contains u = true ∧ catalog.contains reader = true) ∨
        catalog.hasLink u r = true := by
  induction feeds generalizing catalog with
  | nil => simp
  | cons feed feeds ih =>
    rw [List.foldl_cons, ih, hasLink_relink, List.mem_cons]
    simp only [Catalog.contains_eq, get?_relink]
    grind

theorem pruned_relink (h : catalog.Pruned) (reader feed : SourceName) :
    (relink reader catalog feed).Pruned := by
  unfold relink
  split
  · exact h.addLink reader feed
  · exact h

/-! ### Undoing in any catalog -/

theorem undo_of_ne (h : catalog.get? change.name ≠ change.after) : change.undo catalog = catalog :=
  if_neg h

theorem undo_of_eq (h : catalog.get? change.name = change.after) :
    change.undo catalog = change.unlinked.foldl (relink change.name)
      (change.linked.foldl (Catalog.removeLink change.name)
        (catalog.set change.name change.before)) :=
  if_pos h

theorem get?_undo (h : catalog.get? change.name = change.after) (name : SourceName) :
    (change.undo catalog).get? name =
      if name = change.name then change.before else catalog.get? name := by
  rw [undo_of_eq h, Catalog.get?_foldl _ fun catalog feed => get?_relink _ catalog feed name,
    Catalog.get?_removeLinks, Catalog.get?_set]

theorem hasLink_undo (h : catalog.get? change.name = change.after) (feed reader : SourceName) :
    (change.undo catalog).hasLink feed reader = true ↔
      (reader = change.name ∧ feed ∈ change.unlinked ∧
          (change.undo catalog).contains feed = true ∧ change.before.isSome = true) ∨
        ¬(reader = change.name ∧ feed ∈ change.linked) ∧ catalog.hasLink feed reader = true := by
  have hcontains : ∀ name, (change.undo catalog).contains name =
      (change.linked.foldl (Catalog.removeLink change.name)
        (catalog.set change.name change.before)).contains name := by
    intro name
    rw [Catalog.contains_eq, Catalog.contains_eq, get?_undo h, Catalog.get?_removeLinks,
      Catalog.get?_set]
  rw [hcontains, undo_of_eq h, hasLink_relinks, Catalog.hasLink_removeLinks, Catalog.hasLink_set]
  simp [Catalog.contains_eq, Catalog.get?_set]

theorem get?_undo_of_ne (change : Change) (catalog : Catalog) {name : SourceName}
    (hne : name ≠ change.name) : (change.undo catalog).get? name = catalog.get? name := by
  by_cases h : catalog.get? change.name = change.after
  · rw [get?_undo h, if_neg hne]
  · rw [undo_of_ne h]

theorem hasLink_undo_of_ne (change : Change) (catalog : Catalog) (feed : SourceName)
    {reader : SourceName} (hne : reader ≠ change.name) :
    (change.undo catalog).hasLink feed reader = catalog.hasLink feed reader := by
  by_cases h : catalog.get? change.name = change.after
  · rw [Bool.eq_iff_iff, hasLink_undo h]
    tauto
  · rw [undo_of_ne h]

theorem pruned_undo (change : Change) (h : catalog.Pruned) : (change.undo catalog).Pruned := by
  by_cases hentry : catalog.get? change.name = change.after
  · rw [undo_of_eq hentry]
    exact List.foldlRecOn (motive := Catalog.Pruned) _ _ ((h.set _ _).removeLinks _ _)
      fun _ h feed _ => pruned_relink h change.name feed
  · rwa [undo_of_ne hentry]

end Change

namespace Catalog

theorem Pruned.revert (h : catalog.Pruned) (applied : Applied) :
    (catalog.revert applied).Pruned := by
  unfold Catalog.revert
  split
  · exact Change.pruned_undo _ h
  · exact h

/-! ### Undoing at once -/

namespace Carried

theorem get?_name (h : Carried catalog command statement feeds change next) :
    next.get? change.name = change.after := by
  rw [h.entries, h.name, if_pos rfl]

theorem get?_undo (h : Carried catalog command statement feeds change next) (name : SourceName) :
    (change.undo next).get? name = catalog.get? name := by
  rw [Change.get?_undo h.get?_name, h.name, h.before, h.entries]
  split
  next heq => rw [heq]
  next => rfl

theorem drop_of_unlinked (h : Carried catalog command statement feeds change next)
    {feed : SourceName} (hfeed : feed ∈ change.unlinked) : ∃ c, command = .drop c := by
  obtain ⟨hgone, hthere⟩ := (h.unlinked feed).1 hfeed
  have hreads : ¬command.ReadsAfter feeds feed (catalog.hasLink feed command.name = true) := by
    rw [← h.own_links, hgone]
    exact Bool.false_ne_true
  cases command with
  | create c => exact absurd (.inl hthere) hreads
  | drop c => exact ⟨c, rfl⟩
  | alter c => exact absurd hthere hreads

theorem before_isSome (h : Carried catalog command statement feeds change next)
    {feed : SourceName} (hfeed : feed ∈ change.unlinked) : change.before.isSome = true := by
  obtain ⟨c, rfl⟩ := h.drop_of_unlinked hfeed
  obtain ⟨existing, hget, -⟩ := h.admits
  rw [h.before, hget]
  rfl

theorem hasLink_undo (h : Carried catalog command statement feeds change next)
    (feed reader : SourceName) :
    (change.undo next).hasLink feed reader = true ↔ catalog.hasLink feed reader = true ∧
      (reader = change.name → feed ∈ change.unlinked → catalog.contains feed = true) := by
  by_cases hreader : reader = change.name
  · have hsome : feed ∈ change.unlinked → change.before.isSome = true := h.before_isSome
    have hlinked := h.linked feed
    have hunlinked := h.unlinked feed
    rw [Change.hasLink_undo h.get?_name, contains_eq, h.get?_undo, ← contains_eq]
    rw [← h.name, ← hreader] at hlinked hunlinked
    grind
  · rw [Change.hasLink_undo_of_ne _ _ _ hreader, h.other_links _ _ (h.name ▸ hreader)]
    tauto

/-- **Undoing a change at once gives the catalog from before, unless a link is lost.** -/
theorem undo_eq_iff (h : Carried catalog command statement feeds change next)
    (hpruned : catalog.Pruned) :
    change.undo next = catalog ↔ ∀ feed ∈ change.unlinked, catalog.contains feed = true := by
  constructor
  · intro heq feed hfeed
    have hthere : catalog.hasLink feed change.name = true := by
      rw [h.name]
      exact ((h.unlinked feed).1 hfeed).2
    rw [← heq, h.hasLink_undo] at hthere
    exact hthere.2 rfl hfeed
  · intro hfeeds
    refine ext_of_pruned (Change.pruned_undo _ (h.pruned hpruned)) hpruned h.get?_undo ?_
    intro feed reader
    rw [Bool.eq_iff_iff, h.hasLink_undo]
    exact and_iff_left fun _ => hfeeds feed

end Carried

end Catalog

end StreamSql
