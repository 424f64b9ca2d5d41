import Mathlib.Data.List.Induction
import StreamSql.Proofs.Catalog.Rejection

/-!
# Dangling links

While calls name only feeds that are entries, no call makes a link dangle: a creation links entries,
a removal is refused while the entry has readers, and what an interceptor objects to is taken back
exactly. Taking back a creation later is different. It removes the entry if the entry is again as
the creation left it, whatever has been linked to it since, and the links that the creation did not
make itself are left behind (`Strands`). This is the only way in which links come to dangle
(`closed_throughout_iff`).
-/

namespace StreamSql.Catalog

variable {catalog : Catalog} {applied : Applied} {change : Change}

/-- Taking the command back removes an entry and leaves a link of it behind. -/
def Strands (catalog : Catalog) (applied : Applied) : Prop :=
  ∃ change, applied.change = some change ∧ change.before = none ∧
    catalog.get? change.name = change.after ∧
    ∃ feed reader, catalog.hasLink feed reader = true ∧
      (feed = change.name ∨ reader = change.name) ∧
      ¬(reader = change.name ∧ feed ∈ change.linked)

/-! ### One step -/

theorem Closed.call (h : catalog.Closed) (hpruned : catalog.Pruned) {call : Call}
    (hfeeds : ∀ feed ∈ call.feeds.toList, catalog.contains feed = true) :
    (catalog.call call).2.Closed := by
  rcases apply_cases catalog call.interceptors call.command call.statement call.feeds with
    ⟨e, -, happly⟩ | ⟨outcome, objection, -, happly⟩ | ⟨outcome, hrun, happly⟩
  · rwa [Catalog.call, happly]
  · have herror := h.apply_error hpruned (congrArg Prod.fst happly)
    rwa [Catalog.call, herror]
  · rw [Catalog.call, happly]
    exact (run_ok hrun).closed h hfeeds

theorem Closed.undo_of_isSome (h : catalog.Closed)
    (hentry : catalog.get? change.name = change.after) (hbefore : change.before.isSome = true) :
    (change.undo catalog).Closed := by
  have hname : (change.undo catalog).contains change.name = true := by
    rw [contains_eq, Change.get?_undo hentry, if_pos rfl]
    exact hbefore
  have hstays : ∀ name, catalog.contains name = true →
      (change.undo catalog).contains name = true := by
    intro name hthere
    rw [contains_eq, Change.get?_undo hentry]
    split
    · exact hbefore
    · exact hthere
  intro feed reader hlink
  rcases (Change.hasLink_undo hentry feed reader).1 hlink with ⟨rfl, -, hfeed, -⟩ | ⟨-, hlink⟩
  · exact ⟨hfeed, hname⟩
  · exact ⟨hstays feed (h feed reader hlink).1, hstays reader (h feed reader hlink).2⟩

theorem Closed.undo_of_none_iff (h : catalog.Closed)
    (hentry : catalog.get? change.name = change.after) (hbefore : change.before = none) :
    (change.undo catalog).Closed ↔ ∀ feed reader, catalog.hasLink feed reader = true →
      feed = change.name ∨ reader = change.name → reader = change.name ∧ feed ∈ change.linked := by
  have hcontains : ∀ name, (change.undo catalog).contains name = true ↔
      name ≠ change.name ∧ catalog.contains name = true := by
    intro name
    rw [contains_eq, Change.get?_undo hentry, hbefore, contains_eq]
    split <;> simp_all
  have hlinks : ∀ feed reader, (change.undo catalog).hasLink feed reader = true ↔
      ¬(reader = change.name ∧ feed ∈ change.linked) ∧ catalog.hasLink feed reader = true := by
    intro feed reader
    rw [Change.hasLink_undo hentry, hbefore]
    simp
  constructor
  · intro hundo feed reader hlink hend
    by_contra hkept
    have hends := hundo feed reader ((hlinks feed reader).2 ⟨hkept, hlink⟩)
    rw [hcontains, hcontains] at hends
    exact hend.elim hends.1.1 hends.2.1
  · intro hown feed reader hlink
    obtain ⟨hkept, hlink⟩ := (hlinks feed reader).1 hlink
    have hends : ¬(feed = change.name ∨ reader = change.name) := fun hend =>
      hkept (hown feed reader hlink hend)
    rw [not_or] at hends
    rw [hcontains, hcontains]
    exact ⟨⟨hends.1, (h feed reader hlink).1⟩, ⟨hends.2, (h feed reader hlink).2⟩⟩

/-- **Taking a command back makes a link dangle exactly if it strands one.** -/
theorem Closed.revert_iff (h : catalog.Closed) (applied : Applied) :
    (catalog.revert applied).Closed ↔ ¬catalog.Strands applied := by
  obtain ⟨message, _ | change⟩ := applied
  · exact iff_of_true h (by simp [Strands])
  by_cases hentry : catalog.get? change.name = change.after
  · cases hbefore : change.before with
    | some source =>
      exact iff_of_true (h.undo_of_isSome hentry (by simp [hbefore])) (by simp [Strands, hbefore])
    | none =>
      refine (h.undo_of_none_iff hentry hbefore).trans ?_
      simp [Strands, hbefore, hentry]
  · have hkept : catalog.revert ⟨message, some change⟩ = catalog := Change.undo_of_ne hentry
    rw [hkept]
    exact iff_of_true h (by simp [Strands, hentry])

/-! ### Whole runs -/

namespace History

variable {history : History} {event : Event} {events : List Event}

/-- A call names only feeds that are entries. -/
def NamesEntries (history : History) : Event → Prop
  | .call call => ∀ feed ∈ call.feeds.toList, history.catalog.contains feed = true
  | .revert _ => True

instance (history : History) (event : Event) : Decidable (history.NamesEntries event) :=
  match event with
  | .call call => inferInstanceAs (Decidable (∀ feed ∈ call.feeds.toList, _))
  | .revert _ => inferInstanceAs (Decidable True)

/-- The event takes a command back and strands a link. -/
def StrandsAt (history : History) : Event → Prop
  | .call _ => False
  | .revert index => ∃ applied, history.accepted[index]? = some applied ∧
      history.catalog.Strands applied

/-- Every event of a run is as asked in the history before it. -/
def Throughout (asked : History → Event → Prop) (events : List Event) : Prop :=
  ∀ earlier event, earlier ++ [event] <+: events → asked (of earlier) event

@[simp]
theorem throughout_nil (asked : History → Event → Prop) : Throughout asked [] := by
  intro earlier event h
  simp at h

theorem throughout_snoc_iff {asked : History → Event → Prop} (events : List Event)
    (event : Event) :
    Throughout asked (events ++ [event]) ↔
      Throughout asked events ∧ asked (of events) event := by
  constructor
  · intro h
    exact ⟨fun earlier other hpart => h earlier other (hpart.trans (List.prefix_append _ _)),
      h events event List.prefix_rfl⟩
  · rintro ⟨h, hlast⟩ earlier other hpart
    rcases List.prefix_concat_iff.1 hpart with heq | hpart
    · obtain ⟨rfl, hlasts⟩ := List.append_inj' heq rfl
      rw [List.singleton_inj] at hlasts
      exact hlasts ▸ hlast
    · exact h earlier other hpart

theorem closed_step_iff (hclosed : history.catalog.Closed) (hpruned : history.catalog.Pruned)
    (hnames : history.NamesEntries event) :
    (history.step event).catalog.Closed ↔ ¬history.StrandsAt event := by
  cases event with
  | call call =>
    have hcall := hclosed.call hpruned hnames
    refine iff_of_true ?_ not_false
    simp only [step]
    split
    next heq => rwa [heq] at hcall
    next heq => rwa [heq] at hcall
  | revert index =>
    simp only [step, StrandsAt]
    cases hfound : history.accepted[index]? with
    | none => simpa using hclosed
    | some applied => simpa using hclosed.revert_iff applied

/-- **Links dangle only through creations that are taken back too late.** In a run whose calls name
only feeds that are entries at that moment, all links lead between entries at all times if and only
if no command is taken back that strands a link. -/
theorem closed_throughout_iff (hnames : Throughout NamesEntries events) :
    (∀ earlier, earlier <+: events → (of earlier).catalog.Closed) ↔
      Throughout (fun history event => ¬history.StrandsAt event) events := by
  induction events using List.reverseRecOn with
  | nil =>
    refine iff_of_true (fun earlier hpart => ?_) (throughout_nil _)
    rw [List.prefix_nil.1 hpart]
    exact closed_empty
  | append_singleton events event ih =>
    rw [throughout_snoc_iff] at hnames ⊢
    rw [← ih hnames.1]
    have hlast : (of events).catalog.Closed →
        ((of (events ++ [event])).catalog.Closed ↔ ¬(of events).StrandsAt event) := by
      intro hclosed
      rw [of_snoc]
      exact closed_step_iff hclosed (History.pruned events) hnames.2
    constructor
    · intro hall
      have hearlier : ∀ earlier, earlier <+: events → (of earlier).catalog.Closed :=
        fun earlier hpart => hall earlier (hpart.trans (List.prefix_append _ _))
      exact ⟨hearlier,
        (hlast (hearlier events List.prefix_rfl)).1 (hall _ List.prefix_rfl)⟩
    · rintro ⟨hearlier, hstrands⟩ earlier hpart
      rcases List.prefix_concat_iff.1 hpart with rfl | hpart
      · exact (hlast (hearlier events List.prefix_rfl)).2 hstrands
      · exact hearlier earlier hpart

theorem namesEntries_pipeline_revert (index : Nat) :
    Throughout NamesEntries (Sample.pipeline ++ [.revert index]) := by
  have horders : Throughout NamesEntries [.call (.createStream Sample.orders [])] :=
    (throughout_snoc_iff [] _).2 ⟨throughout_nil _, by decide⟩
  have htotals : Throughout NamesEntries Sample.pipeline :=
    (throughout_snoc_iff [_] _).2 ⟨horders, by decide⟩
  exact (throughout_snoc_iff _ _).2 ⟨htotals, trivial⟩

/-- The creation of a reader is taken back: no link of it is left. -/
theorem reader_reverted_closed :
    let events := Sample.pipeline ++ [.revert 1]
    Throughout NamesEntries events ∧
      ∀ earlier, earlier <+: events → (of earlier).catalog.Closed := by
  intro events
  have hnames : Throughout NamesEntries events := namesEntries_pipeline_revert 1
  have hcalls : Throughout (fun history event => ¬history.StrandsAt event) Sample.pipeline :=
    (throughout_snoc_iff [_] _).2 ⟨(throughout_snoc_iff [] _).2 ⟨throughout_nil _, id⟩, id⟩
  refine ⟨hnames, (closed_throughout_iff hnames).2 ((throughout_snoc_iff _ _).2 ⟨hcalls, ?_⟩)⟩
  rintro ⟨applied, hfound, change, hchange, -, -, feed, reader, hlink, hend, hkept⟩
  cases hfound
  cases hchange
  rcases hend with rfl | rfl
  · -- nothing reads the reader
    cases hlink
  · rw [← mem_feedsOf] at hlink
    exact hkept ⟨rfl, hlink⟩

/-- The creation of a feed is taken back under its reader: the link to it is left. -/
theorem feed_reverted_dangles :
    let events := Sample.pipeline ++ [.revert 0]
    Throughout NamesEntries events ∧
      (of events).catalog.hasLink Sample.orders Sample.totals = true ∧
      (of events).catalog.contains Sample.orders = false :=
  ⟨namesEntries_pipeline_revert 0, rfl, rfl⟩

end History

end StreamSql.Catalog
