import Mathlib.Tactic.Tauto
import StreamSql.Catalog.Apply
import StreamSql.Proofs.Sorted

/-!
# Entries and links under elementary changes

A catalog is seen through two views: which entry a name has (`get?`) and which links there are
(`hasLink`). On catalogs that list no feed without readers (`Pruned`) the two views determine the
catalog (`ext_of_pruned`), so that everything about commands and their undoing can be said with
them. This module says what each elementary change does to the views.
-/

namespace StreamSql.Catalog

variable {catalog other : Catalog} {feed reader name : SourceName}

/-- Every listed feed has a reader. -/
def Pruned (catalog : Catalog) : Prop :=
  ∀ feed readers, catalog.readers.get? feed = some readers → readers.isEmpty = false

/-- No link dangles: whatever is linked is an entry. -/
def Closed (catalog : Catalog) : Prop :=
  ∀ feed reader, catalog.hasLink feed reader → catalog.contains feed ∧ catalog.contains reader

theorem contains_eq (catalog : Catalog) (name : SourceName) :
    catalog.contains name = (catalog.get? name).isSome := rfl

@[simp]
theorem get?_empty (name : SourceName) : empty.get? name = none := rfl

@[simp]
theorem hasLink_empty (feed reader : SourceName) : empty.hasLink feed reader = false := rfl

theorem pruned_empty : empty.Pruned := by
  intro feed readers h
  simp [empty] at h

theorem closed_empty : empty.Closed := by
  intro feed reader h
  simp at h

/-! ### The views determine a pruned catalog -/

theorem readersOf_of_get? {readers : SortedSet SourceName}
    (h : catalog.readers.get? feed = some readers) : catalog.readersOf feed = readers := by
  simp [readersOf, h]

theorem Pruned.get?_eq_none_iff (h : catalog.Pruned) :
    catalog.readers.get? feed = none ↔ ∀ reader, catalog.hasLink feed reader = false := by
  cases hfeed : catalog.readers.get? feed with
  | none => simp [hasLink, readersOf, hfeed]
  | some readers =>
    have hne : ¬readers.isEmpty = true := by simp [h feed readers hfeed]
    rw [SortedSet.isEmpty_iff] at hne
    simpa [hasLink, readersOf_of_get? hfeed] using hne

theorem Pruned.readers_eq (h : catalog.Pruned) (hother : other.Pruned)
    (hlinks : ∀ feed reader, catalog.hasLink feed reader = other.hasLink feed reader) :
    catalog.readers = other.readers := by
  refine SortedMap.ext_get? fun feed => ?_
  have hnone : catalog.readers.get? feed = none ↔ other.readers.get? feed = none := by
    rw [h.get?_eq_none_iff, hother.get?_eq_none_iff]
    simp only [hlinks]
  cases hc : catalog.readers.get? feed with
  | none => exact (hnone.1 hc).symm
  | some readers =>
    cases ho : other.readers.get? feed with
    | none => simp [hnone.2 ho] at hc
    | some others =>
      have : readers = others := SortedSet.ext_contains fun reader => by
        rw [← readersOf_of_get? hc, ← readersOf_of_get? ho]
        exact iff_of_eq (congrArg (· = true) (hlinks feed reader))
      rw [this]

/-- **Two pruned catalogs with the same entries and the same links are the same catalog.** -/
theorem ext_of_pruned (h : catalog.Pruned) (hother : other.Pruned)
    (hentries : ∀ name, catalog.get? name = other.get? name)
    (hlinks : ∀ feed reader, catalog.hasLink feed reader = other.hasLink feed reader) :
    catalog = other := by
  have hsources : catalog.sources = other.sources := SortedMap.ext_get? hentries
  have hreaders := h.readers_eq hother hlinks
  obtain ⟨sources, readers⟩ := catalog
  obtain ⟨sources', readers'⟩ := other
  rw [show sources = sources' from hsources, show readers = readers' from hreaders]

/-! ### Entries -/

theorem get?_set (catalog : Catalog) (name other : SourceName) (source : Option Source) :
    (catalog.set name source).get? other = if other = name then source else catalog.get? other :=
  SortedMap.lookup_set catalog.sources name other source

@[simp]
theorem hasLink_set (catalog : Catalog) (name : SourceName) (source : Option Source) :
    (catalog.set name source).hasLink feed reader = catalog.hasLink feed reader := rfl

@[simp]
theorem get?_addLink (catalog : Catalog) :
    (catalog.addLink reader feed).get? name = catalog.get? name := rfl

@[simp]
theorem get?_removeLink (catalog : Catalog) :
    (catalog.removeLink reader feed).get? name = catalog.get? name := rfl

@[simp]
theorem get?_forgetFeed (catalog : Catalog) :
    (catalog.forgetFeed feed).get? name = catalog.get? name := rfl

/-! ### Links -/

theorem readersOf_addLink (catalog : Catalog) (reader feed u : SourceName) :
    (catalog.addLink reader feed).readersOf u =
      if u = feed then (catalog.readersOf feed).insert reader else catalog.readersOf u := by
  simp only [readersOf, addLink, SortedMap.lookup_insert]
  split <;> rfl

theorem readersOf_removeLink (catalog : Catalog) (reader feed u : SourceName) :
    (catalog.removeLink reader feed).readersOf u =
      if u = feed then (catalog.readersOf feed).erase reader else catalog.readersOf u := by
  by_cases hempty : ((catalog.readersOf feed).erase reader).isEmpty = true
  · have hvacant : (catalog.readersOf feed).erase reader = .empty :=
      SortedSet.ext_contains fun a => by simp [(SortedSet.isEmpty_iff _).1 hempty a]
    have hremove : catalog.removeLink reader feed =
        { catalog with readers := catalog.readers.erase feed } := by
      simp only [removeLink, hempty, if_true]
    rw [hremove, hvacant]
    simp only [readersOf, SortedMap.lookup_erase]
    split <;> rfl
  · have hremove : catalog.removeLink reader feed =
        { catalog with
          readers := catalog.readers.insert feed ((catalog.readersOf feed).erase reader) } := by
      simp only [removeLink, hempty, Bool.false_eq_true, if_false]
    rw [hremove]
    simp only [readersOf, SortedMap.lookup_insert]
    split <;> rfl

theorem hasLink_addLink (catalog : Catalog) (reader feed u r : SourceName) :
    (catalog.addLink reader feed).hasLink u r = true ↔
      (r = reader ∧ u = feed) ∨ catalog.hasLink u r = true := by
  simp only [hasLink, readersOf_addLink]
  split
  next h => simp [h, SortedSet.contains_insert]
  next h => simp [h]

theorem hasLink_removeLink (catalog : Catalog) (reader feed u r : SourceName) :
    (catalog.removeLink reader feed).hasLink u r = true ↔
      ¬(r = reader ∧ u = feed) ∧ catalog.hasLink u r = true := by
  simp only [hasLink, readersOf_removeLink]
  split
  next h => simp [h, SortedSet.contains_erase]
  next h => simp [h]

theorem hasLink_forgetFeed (catalog : Catalog) (feed u r : SourceName) :
    (catalog.forgetFeed feed).hasLink u r = true ↔ u ≠ feed ∧ catalog.hasLink u r = true := by
  simp only [hasLink, readersOf, forgetFeed, SortedMap.lookup_erase]
  split
  next h => simp [h]
  next h => simp [h]

/-! ### Feeds without readers -/

theorem Pruned.set (h : catalog.Pruned) (name : SourceName) (source : Option Source) :
    (catalog.set name source).Pruned := h

theorem Pruned.addLink (h : catalog.Pruned) (reader feed : SourceName) :
    (catalog.addLink reader feed).Pruned := by
  intro u readers hu
  simp only [Catalog.addLink, SortedMap.lookup_insert] at hu
  split at hu
  next =>
    cases hu
    have hmem := (SortedSet.contains_insert (catalog.readersOf feed) reader reader).2 (.inl rfl)
    rw [← Bool.not_eq_true, SortedSet.isEmpty_iff]
    exact fun hempty => by simp [hempty reader] at hmem
  next => exact h u readers hu

theorem Pruned.removeLink (h : catalog.Pruned) (reader feed : SourceName) :
    (catalog.removeLink reader feed).Pruned := by
  intro u readers hu
  simp only [Catalog.removeLink] at hu
  split at hu
  · rw [SortedMap.lookup_erase] at hu
    split at hu
    · cases hu
    · exact h u readers hu
  · rw [SortedMap.lookup_insert] at hu
    split at hu
    next hempty _ =>
      cases hu
      simpa using hempty
    next => exact h u readers hu

theorem Pruned.forgetFeed (h : catalog.Pruned) (feed : SourceName) :
    (catalog.forgetFeed feed).Pruned := by
  intro u readers hu
  simp only [Catalog.forgetFeed, SortedMap.lookup_erase] at hu
  split at hu
  · cases hu
  · exact h u readers hu

/-! ### Several links at once -/

theorem get?_foldl (step : Catalog → SourceName → Catalog)
    (h : ∀ catalog feed, (step catalog feed).get? name = catalog.get? name)
    (feeds : List SourceName) (catalog : Catalog) :
    (feeds.foldl step catalog).get? name = catalog.get? name := by
  induction feeds generalizing catalog with
  | nil => rfl
  | cons feed feeds ih => rw [List.foldl_cons, ih, h]

@[simp]
theorem get?_addLinks (reader : SourceName) (feeds : List SourceName) (catalog : Catalog) :
    (feeds.foldl (addLink reader) catalog).get? name = catalog.get? name :=
  get?_foldl (addLink reader) (fun _ _ => get?_addLink _) feeds catalog

@[simp]
theorem get?_removeLinks (reader : SourceName) (feeds : List SourceName) (catalog : Catalog) :
    (feeds.foldl (removeLink reader) catalog).get? name = catalog.get? name :=
  get?_foldl (removeLink reader) (fun _ _ => get?_removeLink _) feeds catalog

theorem Pruned.addLinks (h : catalog.Pruned) (reader : SourceName) (feeds : List SourceName) :
    (feeds.foldl (Catalog.addLink reader) catalog).Pruned :=
  List.foldlRecOn (motive := Catalog.Pruned) feeds _ h fun _ h feed _ => h.addLink reader feed

theorem Pruned.removeLinks (h : catalog.Pruned) (reader : SourceName) (feeds : List SourceName) :
    (feeds.foldl (Catalog.removeLink reader) catalog).Pruned :=
  List.foldlRecOn (motive := Catalog.Pruned) feeds _ h fun _ h feed _ => h.removeLink reader feed

theorem hasLink_addLinks (reader : SourceName) (feeds : List SourceName) (catalog : Catalog)
    (u r : SourceName) :
    (feeds.foldl (addLink reader) catalog).hasLink u r = true ↔
      (r = reader ∧ u ∈ feeds) ∨ catalog.hasLink u r = true := by
  induction feeds generalizing catalog with
  | nil => simp
  | cons feed feeds ih =>
    rw [List.foldl_cons, ih, hasLink_addLink, List.mem_cons]
    tauto

theorem hasLink_removeLinks (reader : SourceName) (feeds : List SourceName) (catalog : Catalog)
    (u r : SourceName) :
    (feeds.foldl (removeLink reader) catalog).hasLink u r = true ↔
      ¬(r = reader ∧ u ∈ feeds) ∧ catalog.hasLink u r = true := by
  induction feeds generalizing catalog with
  | nil => simp
  | cons feed feeds ih =>
    rw [List.foldl_cons, ih, hasLink_removeLink, List.mem_cons]
    tauto

theorem mem_feedsOf (catalog : Catalog) (feed reader : SourceName) :
    feed ∈ catalog.feedsOf reader ↔ catalog.hasLink feed reader = true := by
  simp only [feedsOf, List.mem_filter, and_iff_right_iff_imp]
  intro h
  cases hfeed : catalog.readers.get? feed with
  | none => simp [hasLink, readersOf, hfeed] at h
  | some readers => exact SortedMap.mem_keys_of_get? hfeed

end StreamSql.Catalog
