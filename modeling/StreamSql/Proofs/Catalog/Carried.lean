import StreamSql.Catalog.Apply
import StreamSql.Proofs.Catalog.Links

/-!
# What accepted commands do

`run_ok` is all that is used of the commands elsewhere. An accepted command is idle, or it gives its
entry the value `entryAfter` and the feeds `ReadsAfter`, touches nothing else, and reports exactly
the difference (`Carried`).
-/

namespace StreamSql

namespace CatalogCommand

/-- Whether an accepted command has nothing to do where `existing` is the entry it is about. -/
def isIdle (existing : Option Source) : CatalogCommand → Bool
  | create c => existing.isSome && c.ifNotExists
  | drop _ => existing.isNone
  | alter _ => false

/-- What a command that has something to do asks of the entry it is about. -/
def Admits (existing : Option Source) : CatalogCommand → Prop
  | create c => ∀ source, existing = some source →
      c.ifNotExists = false ∧ c.orReplace = true ∧ source.kind = c.kind
  | drop c => ∃ source, existing = some source ∧ source.kind = c.kind
  | alter c => ∃ source, existing = some source ∧ source.kind = c.kind ∧
      source.isQuerySink = false ∧ ∀ column ∈ c.newColumns, source.schema.find? column.1 = none

/-- The entry that a command makes of `existing`. -/
def entryAfter (statement : String) (existing : Option Source) : CatalogCommand → Option Source
  | create c => some (c.source statement)
  | drop _ => none
  | alter c => existing.map fun source =>
      { source with schema := source.schema.addValues c.newColumns }

/-- Whether the entry of a command reads from `feed` afterwards; `linked` says whether it did. -/
def ReadsAfter (feeds : SortedSet SourceName) (feed : SourceName) (linked : Prop) :
    CatalogCommand → Prop
  | create c => linked ∨ (feeds.contains feed = true ∧ feed ≠ c.name)
  | drop _ => False
  | alter _ => linked

end CatalogCommand

namespace Catalog

variable {catalog next : Catalog} {command : CatalogCommand} {statement : String}
  {feeds : SortedSet SourceName} {change : Change} {outcome : Outcome}

/-- `change` is what a command that had something to do did on the way from `catalog` to `next`. -/
structure Carried (catalog : Catalog) (command : CatalogCommand) (statement : String)
    (feeds : SortedSet SourceName) (change : Change) (next : Catalog) : Prop where
  admits : command.Admits (catalog.get? command.name)
  name : change.name = command.name
  before : change.before = catalog.get? command.name
  after : change.after = command.entryAfter statement (catalog.get? command.name)
  entries : ∀ name,
    next.get? name = if name = command.name then change.after else catalog.get? name
  own_links : ∀ feed, next.hasLink feed command.name = true ↔
    command.ReadsAfter feeds feed (catalog.hasLink feed command.name = true)
  other_links : ∀ feed reader, reader ≠ command.name →
    next.hasLink feed reader = catalog.hasLink feed reader
  linked : ∀ feed, feed ∈ change.linked ↔
    next.hasLink feed command.name = true ∧ catalog.hasLink feed command.name = false
  unlinked : ∀ feed, feed ∈ change.unlinked ↔
    next.hasLink feed command.name = false ∧ catalog.hasLink feed command.name = true
  /-- Nothing reads an entry that goes. -/
  unread : change.after = none → ∀ reader, catalog.hasLink command.name reader = false
  pruned : catalog.Pruned → next.Pruned

/-- An accepted command had nothing to do, or was carried out. -/
inductive Accepted (catalog : Catalog) (command : CatalogCommand) (statement : String)
    (feeds : SortedSet SourceName) : Outcome → Prop
  | idle (message : String) (hidle : command.isIdle (catalog.get? command.name) = true) :
      Accepted catalog command statement feeds ⟨⟨message, none⟩, catalog⟩
  | carried (message : String) {change : Change} {next : Catalog}
      (hidle : command.isIdle (catalog.get? command.name) = false)
      (hcarried : Carried catalog command statement feeds change next) :
      Accepted catalog command statement feeds ⟨⟨message, some change⟩, next⟩

/-! ### The changes of the three commands -/

/-- The change of a creation that has something to do. -/
def creation (catalog : Catalog) (c : CreateSource) (statement : String)
    (feeds : SortedSet SourceName) : Change where
  name := c.name
  before := catalog.get? c.name
  after := some (c.source statement)
  linked := feeds.toList.filter fun feed => feed ≠ c.name && !catalog.hasLink feed c.name

theorem carried_creation {c : CreateSource}
    (hadmits : (CatalogCommand.create c).Admits (catalog.get? c.name)) :
    Carried catalog (.create c) statement feeds (catalog.creation c statement feeds)
      ((catalog.creation c statement feeds).linked.foldl (addLink c.name)
        (catalog.set c.name (some (c.source statement)))) := by
  have hmem : ∀ feed, feed ∈ (catalog.creation c statement feeds).linked ↔
      feeds.contains feed = true ∧ feed ≠ c.name ∧ catalog.hasLink feed c.name = false := by
    intro feed
    simp [creation, SortedSet.contains_iff_mem]
  have hown : ∀ feed, ((catalog.creation c statement feeds).linked.foldl (addLink c.name)
      (catalog.set c.name (some (c.source statement)))).hasLink feed c.name = true ↔
        (feeds.contains feed = true ∧ feed ≠ c.name) ∨ catalog.hasLink feed c.name = true := by
    intro feed
    rw [hasLink_addLinks, hasLink_set, hmem]
    grind
  refine ⟨hadmits, rfl, rfl, rfl, fun name => ?_, fun feed => ?_, fun feed reader hreader => ?_,
    fun feed => ?_, fun feed => ?_, nofun, fun h => (h.set _ _).addLinks _ _⟩
  · rw [get?_addLinks, get?_set]
    rfl
  · exact (hown feed).trans or_comm
  · rw [Bool.eq_iff_iff, hasLink_addLinks, hasLink_set]
    exact or_iff_right fun h => hreader h.1
  · rw [hmem, CatalogCommand.name, hown]
    grind
  · -- a creation takes no links away
    rw [← Bool.not_eq_true, CatalogCommand.name, hown]
    simp only [creation, List.not_mem_nil, false_iff]
    tauto

/-- The change of a removal of the entry `existing`. -/
def removal (catalog : Catalog) (name : SourceName) (existing : Source) : Change where
  name
  before := some existing
  after := none
  unlinked := catalog.feedsOf name

theorem carried_removal {c : DropSource} {existing : Source}
    (hget : catalog.get? c.name = some existing) (hkind : existing.kind = c.kind)
    (hunread : (catalog.readersOf c.name).isEmpty = true) :
    Carried catalog (.drop c) statement feeds (catalog.removal c.name existing)
      (((catalog.feedsOf c.name).foldl (removeLink c.name)
        (catalog.set c.name none)).forgetFeed c.name) := by
  have hreader : ∀ reader, catalog.hasLink c.name reader = false :=
    (SortedSet.isEmpty_iff _).1 hunread
  have hlinks : ∀ feed reader, (((catalog.feedsOf c.name).foldl (removeLink c.name)
      (catalog.set c.name none)).forgetFeed c.name).hasLink feed reader = true ↔
        reader ≠ c.name ∧ catalog.hasLink feed reader = true := by
    intro feed reader
    rw [hasLink_forgetFeed, hasLink_removeLinks, hasLink_set, mem_feedsOf]
    grind
  refine ⟨⟨existing, hget, hkind⟩, rfl, hget.symm, rfl, fun name => ?_, fun feed => ?_,
    fun feed reader hne => ?_, fun feed => ?_, fun feed => ?_, fun _ => hreader,
    fun h => ((h.set _ _).removeLinks _ _).forgetFeed _⟩
  · rw [get?_forgetFeed, get?_removeLinks, get?_set]
    rfl
  · rw [CatalogCommand.name, hlinks]
    simp [CatalogCommand.ReadsAfter]
  · rw [Bool.eq_iff_iff, hlinks]
    exact and_iff_right hne
  · rw [CatalogCommand.name, hlinks]
    simp [removal]
  · rw [← Bool.not_eq_true, CatalogCommand.name, hlinks]
    simp [removal, mem_feedsOf]

/-- The change of an alteration of the entry `existing`. -/
def alteration (c : AlterSource) (existing : Source) : Change where
  name := c.name
  before := some existing
  after := some { existing with schema := existing.schema.addValues c.newColumns }

theorem carried_alteration {c : AlterSource} {existing : Source}
    (hget : catalog.get? c.name = some existing) (hkind : existing.kind = c.kind)
    (hsink : existing.isQuerySink = false)
    (hfresh : ∀ column ∈ c.newColumns, existing.schema.find? column.1 = none) :
    Carried catalog (.alter c) statement feeds (alteration c existing)
      (catalog.set c.name (alteration c existing).after) := by
  refine ⟨⟨existing, hget, hkind, hsink, hfresh⟩, rfl, hget.symm, ?_, fun name => ?_,
    fun feed => ?_, fun feed reader _ => rfl, fun feed => ?_, fun feed => ?_, nofun,
    fun h => h.set _ _⟩
  · simp [alteration, CatalogCommand.entryAfter, CatalogCommand.name, hget]
  · rw [get?_set]
    rfl
  · rw [hasLink_set]
    exact Iff.rfl
  · simp [alteration]
  · simp [alteration]

/-! ### Accepted commands -/

theorem create_ok {c : CreateSource} (h : catalog.create c statement feeds = .ok outcome) :
    Accepted catalog (.create c) statement feeds outcome := by
  simp only [create] at h
  cases hget : catalog.get? c.name with
  | none =>
    simp only [hget, pure, Except.pure] at h
    cases h
    have hcarried : Carried catalog (.create c) statement feeds _ _ :=
      carried_creation (by simp [CatalogCommand.Admits, hget])
    simp only [creation, hget] at hcarried
    exact .carried _ (by simp [CatalogCommand.isIdle, CatalogCommand.name, hget]) hcarried
  | some existing =>
    simp only [hget, pure, bind, Except.pure, Except.bind, throw, throwThe,
      MonadExceptOf.throw] at h
    split at h
    next hskip =>
      cases h
      exact .idle _ (by simp [CatalogCommand.isIdle, CatalogCommand.name, hget, hskip])
    next hskip =>
      split at h
      · cases h
      next hreplace =>
        split at h
        · cases h
        next hkind =>
          cases h
          have hcarried : Carried catalog (.create c) statement feeds _ _ :=
            carried_creation (by simp_all [CatalogCommand.Admits])
          simp only [creation, hget] at hcarried
          exact .carried _ (by simp [CatalogCommand.isIdle, CatalogCommand.name, hskip]) hcarried

theorem drop_ok {c : DropSource} (h : catalog.drop c = .ok outcome) :
    Accepted catalog (.drop c) statement feeds outcome := by
  simp only [drop] at h
  cases hget : catalog.get? c.name with
  | none =>
    simp only [hget, pure, Except.pure, throw, throwThe,
      MonadExceptOf.throw] at h
    split at h
    · cases h
      exact .idle _ (by simp [CatalogCommand.isIdle, CatalogCommand.name, hget])
    · cases h
  | some existing =>
    simp only [hget, pure, bind, Except.pure, Except.bind, throw, throwThe,
      MonadExceptOf.throw] at h
    split at h
    · cases h
    next hkind =>
      split at h
      · cases h
      next hunread =>
        cases h
        exact .carried _ (by simp [CatalogCommand.isIdle, CatalogCommand.name, hget])
          (carried_removal hget (by simpa using hkind) (by simpa using hunread))

theorem alter_ok {c : AlterSource} (h : catalog.alter c = .ok outcome) :
    Accepted catalog (.alter c) statement feeds outcome := by
  simp only [alter, find] at h
  cases hget : catalog.get? c.name with
  | none =>
    simp only [hget, bind, Except.bind] at h
    cases h
  | some existing =>
    simp only [hget, pure, bind, Except.pure, Except.bind, throw, throwThe,
      MonadExceptOf.throw] at h
    split at h
    · cases h
    next hkind =>
      split at h
      · cases h
      next hsink =>
        split at h
        · cases h
        next hfresh =>
          cases h
          exact .carried _ rfl
            (carried_alteration hget (by simpa using hkind) (by simpa using hsink)
              (by simpa using hfresh))

/-- **What an accepted command does.** -/
theorem run_ok (h : catalog.run command statement feeds = .ok outcome) :
    Accepted catalog command statement feeds outcome := by
  cases command with
  | create c => exact create_ok h
  | drop c => exact drop_ok h
  | alter c => exact alter_ok h

theorem Accepted.carried_of_create {c : CreateSource}
    (h : Accepted catalog (.create c) statement feeds outcome)
    (hcreates : c.ifNotExists = false ∨ catalog.contains c.name = false) :
    ∃ change, Carried catalog (.create c) statement feeds change outcome.catalog := by
  cases h with
  | idle _ hidle =>
    obtain ⟨hsome, hskip⟩ := Bool.and_eq_true_iff.1 hidle
    rcases hcreates with hfull | hnew
    · cases hskip.symm.trans hfull
    · cases Eq.trans (Eq.symm hsome) hnew
  | carried _ _ hcarried => exact ⟨_, hcarried⟩

theorem Carried.get?_create {c : CreateSource}
    (h : Carried catalog (.create c) statement feeds change next) :
    next.get? c.name = some (c.source statement) :=
  (h.entries c.name).trans ((if_pos rfl).trans h.after)

/-! ### Links between entries -/

namespace Carried

theorem contains_of_read (h : Carried catalog command statement feeds change next)
    {feed reader : SourceName} (hlink : catalog.hasLink feed reader = true)
    (hfeed : catalog.contains feed = true) : next.contains feed = true := by
  rw [contains_eq, h.entries]
  split
  next hown =>
    rw [Option.isSome_iff_ne_none]
    intro hgone
    rw [hown, h.unread hgone reader] at hlink
    cases hlink
  next => exact hfeed

theorem after_isSome (h : Carried catalog command statement feeds change next) {feed : SourceName}
    (hlink : next.hasLink feed command.name = true) : change.after.isSome = true := by
  have hreads := (h.own_links feed).1 hlink
  rw [h.after]
  cases command with
  | create c => rfl
  | drop c => exact hreads.elim
  | alter c =>
    obtain ⟨source, hget, -⟩ := h.admits
    rw [hget]
    rfl

theorem linked_or_named (h : Carried catalog command statement feeds change next)
    {feed : SourceName} (hlink : next.hasLink feed command.name = true) :
    catalog.hasLink feed command.name = true ∨ feeds.contains feed = true := by
  have hreads := (h.own_links feed).1 hlink
  cases command with
  | create c => exact hreads.imp_right And.left
  | drop c => exact hreads.elim
  | alter c => exact .inl hreads

theorem closed (h : Carried catalog command statement feeds change next) (hclosed : catalog.Closed)
    (hfeeds : ∀ feed ∈ feeds.toList, catalog.contains feed = true) : next.Closed := by
  intro feed reader hlink
  by_cases hreader : reader = command.name
  · subst hreader
    have hsome := h.after_isSome hlink
    have hstays : ∀ name, catalog.contains name = true → next.contains name = true := by
      intro name hname
      rw [contains_eq, h.entries]
      split
      · exact hsome
      · exact hname
    refine ⟨hstays feed ?_, ?_⟩
    · rcases h.linked_or_named hlink with hthere | hnamed
      · exact (hclosed feed _ hthere).1
      · exact hfeeds feed ((SortedSet.contains_iff_mem _ _).1 hnamed)
    · rw [contains_eq, h.entries, if_pos rfl]
      exact hsome
  · rw [h.other_links feed reader hreader] at hlink
    obtain ⟨hfeed, hthere⟩ := hclosed feed reader hlink
    refine ⟨h.contains_of_read hlink hfeed, ?_⟩
    rw [contains_eq, h.entries, if_neg hreader]
    exact hthere

theorem hasLink_create {c : CreateSource}
    (h : Carried catalog (.create c) statement feeds change next) (feed reader : SourceName) :
    next.hasLink feed reader = true ↔ catalog.hasLink feed reader = true ∨
      (reader = c.name ∧ feeds.contains feed = true ∧ feed ≠ c.name) := by
  by_cases hown : reader = c.name
  · subst hown
    rw [and_iff_right rfl]
    exact h.own_links feed
  · rw [h.other_links feed reader hown]
    exact (or_iff_left fun hnew => hown hnew.1).symm

end Carried

/-! ### What accepted commands keep -/

namespace Accepted

variable {feed reader name : SourceName}

theorem eq_of_idle (h : Accepted catalog command statement feeds outcome)
    (hidle : command.isIdle (catalog.get? command.name) = true) : outcome.catalog = catalog := by
  cases h with
  | idle => rfl
  | carried _ hbusy => cases hidle.symm.trans hbusy

theorem hasLink_of_contains (h : Accepted catalog command statement feeds outcome)
    (hlink : catalog.hasLink feed reader = true)
    (hreader : outcome.catalog.contains reader = true) :
    outcome.catalog.hasLink feed reader = true := by
  cases h with
  | idle => exact hlink
  | @carried _ change next _ hcarried =>
    change next.contains reader = true at hreader
    change next.hasLink feed reader = true
    by_cases hown : reader = command.name
    · subst hown
      rw [hcarried.own_links]
      cases command with
      | create c => exact .inl hlink
      | alter c => exact hlink
      | drop c =>
        rw [contains_eq, hcarried.entries, if_pos rfl, hcarried.after] at hreader
        cases hreader
    · rw [hcarried.other_links feed reader hown]
      exact hlink

theorem contains_of_read (h : Accepted catalog command statement feeds outcome)
    (hlink : catalog.hasLink feed reader = true) (hfeed : catalog.contains feed = true) :
    outcome.catalog.contains feed = true := by
  cases h with
  | idle => exact hfeed
  | carried _ _ hcarried => exact hcarried.contains_of_read hlink hfeed

theorem contains_of_not_created (h : Accepted catalog command statement feeds outcome)
    (hthere : outcome.catalog.contains name = true)
    (hold : ∀ c, command = .create c → c.name = name → outcome.applied.isNoop = true) :
    catalog.contains name = true := by
  cases h with
  | idle => exact hthere
  | @carried _ change next _ hcarried =>
    change next.contains name = true at hthere
    rw [contains_eq, hcarried.entries] at hthere
    split at hthere
    next hown =>
      rw [hcarried.after] at hthere
      cases command with
      | create c => cases hold c rfl hown.symm
      | drop c => cases hthere
      | alter c =>
        obtain ⟨source, hget, -⟩ := hcarried.admits
        rw [hown, contains_eq, hget]
        rfl
    next => exact hthere

end Accepted

end Catalog

end StreamSql
