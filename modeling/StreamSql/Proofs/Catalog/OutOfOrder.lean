import StreamSql.Proofs.Catalog.History

/-!
# Taking back out of order

`revert_out_of_order`: taking a command back after others about other entries gives the catalog
that the others alone would have given. The proof runs the others twice, with the command and
without it. The two catalogs agree off the entry of the command throughout (`AgreeOff`), and
neither run touches that entry, what it reads from, or the existence of what it reads from
(`Keeps`): a feed of the entry has a reader, so no accepted command removes it.
-/

namespace StreamSql.Catalog

variable {a b c catalog next : Catalog} {name : SourceName} {command : CatalogCommand}
  {statement : String} {feeds : SortedSet SourceName} {applied : Applied}

/-- The catalog after some calls, if all of them are accepted. -/
def callAll? : Catalog → List Call → Option Catalog
  | catalog, [] => some catalog
  | catalog, call :: calls =>
    match catalog.call call with
    | (.ok _, next) => next.callAll? calls
    | (.error _, _) => none

theorem callAll?_cons {call : Call} {calls : List Call}
    (h : catalog.callAll? (call :: calls) = some next) :
    ∃ outcome, Accepted catalog call.command call.statement call.feeds outcome ∧
      outcome.catalog.callAll? calls = some next := by
  simp only [callAll?] at h
  split at h
  next applied middle hcall => exact ⟨⟨applied, middle⟩, run_ok (run_of_apply_ok hcall), h⟩
  next => cases h

/-! ### Two catalogs that differ in one entry -/

/-- The catalogs differ at most in an entry and in what it reads from. -/
structure AgreeOff (name : SourceName) (a b : Catalog) : Prop where
  entries : ∀ other, other ≠ name → a.get? other = b.get? other
  links : ∀ feed reader, reader ≠ name → a.hasLink feed reader = b.hasLink feed reader

theorem Carried.agreeOff {change : Change}
    (h : Carried catalog command statement feeds change next) :
    AgreeOff command.name next catalog where
  entries other hne := by rw [h.entries, if_neg hne]
  links feed reader hne := h.other_links feed reader hne

theorem AgreeOff.step (h : AgreeOff name a b) (hne : command.name ≠ name) {x y : Outcome}
    (hx : Accepted a command statement feeds x) (hy : Accepted b command statement feeds y) :
    AgreeOff name x.catalog y.catalog := by
  have hentry := h.entries _ hne
  cases hx with
  | idle _ hidle =>
    cases hy with
    | idle => exact h
    | carried _ hidle' =>
      rw [hentry, hidle'] at hidle
      cases hidle
  | carried _ hidle hcarried =>
    cases hy with
    | idle _ hidle' =>
      rw [hentry, hidle'] at hidle
      cases hidle
    | carried _ _ hcarried' =>
      refine ⟨fun other hother => ?_, fun feed reader hreader => ?_⟩
      · rw [hcarried.entries, hcarried'.entries, hcarried.after, hcarried'.after, hentry,
          h.entries other hother]
      · by_cases hown : reader = command.name
        · subst hown
          rw [Bool.eq_iff_iff, hcarried.own_links, hcarried'.own_links, h.links _ _ hne]
        · rw [hcarried.other_links _ _ hown, hcarried'.other_links _ _ hown,
            h.links _ _ hreader]

theorem AgreeOff.callAll? (h : AgreeOff name a b) {calls : List Call}
    (hcalls : ∀ call ∈ calls, call.command.name ≠ name) {a' b' : Catalog}
    (ha : a.callAll? calls = some a') (hb : b.callAll? calls = some b') : AgreeOff name a' b' := by
  induction calls generalizing a b with
  | nil =>
    cases ha
    cases hb
    exact h
  | cons call calls ih =>
    obtain ⟨x, hx, ha⟩ := callAll?_cons ha
    obtain ⟨y, hy, hb⟩ := callAll?_cons hb
    have hne := hcalls call List.mem_cons_self
    exact ih (h.step hne hx hy) (fun other hother => hcalls other (List.mem_cons_of_mem _ hother))
      ha hb

/-! ### What commands about other entries keep -/

/-- `next` has the entry, what it reads from, and the entries it reads from as `catalog` has. -/
structure Keeps (name : SourceName) (catalog next : Catalog) : Prop where
  entry : next.get? name = catalog.get? name
  links : ∀ feed, next.hasLink feed name = catalog.hasLink feed name
  feeds : ∀ feed, catalog.hasLink feed name = true → catalog.contains feed = true →
    next.contains feed = true
  pruned : catalog.Pruned → next.Pruned

theorem Keeps.refl (name : SourceName) (catalog : Catalog) : Keeps name catalog catalog :=
  ⟨rfl, fun _ => rfl, fun _ _ h => h, id⟩

theorem Keeps.trans (h : Keeps name a b) (h' : Keeps name b c) : Keeps name a c where
  entry := h'.entry.trans h.entry
  links feed := (h'.links feed).trans (h.links feed)
  feeds feed hlink hfeed := h'.feeds feed ((h.links feed).trans hlink) (h.feeds feed hlink hfeed)
  pruned := h'.pruned ∘ h.pruned

theorem Accepted.keeps {outcome : Outcome}
    (h : Accepted catalog command statement feeds outcome) (hne : command.name ≠ name) :
    Keeps name catalog outcome.catalog := by
  cases h with
  | idle => exact .refl name catalog
  | @carried _ change next _ hcarried =>
    refine ⟨?_, fun feed => hcarried.other_links feed name hne.symm,
      fun _ hlink hfeed => hcarried.contains_of_read hlink hfeed, hcarried.pruned⟩
    rw [hcarried.entries, if_neg hne.symm]

theorem keeps_callAll? {calls : List Call} (hcalls : ∀ call ∈ calls, call.command.name ≠ name)
    (h : catalog.callAll? calls = some next) : Keeps name catalog next := by
  induction calls generalizing catalog with
  | nil =>
    cases h
    exact .refl name _
  | cons call calls ih =>
    obtain ⟨outcome, haccepted, h⟩ := callAll?_cons h
    exact (haccepted.keeps (hcalls call List.mem_cons_self)).trans
      (ih (fun other hother => hcalls other (List.mem_cons_of_mem _ hother)) h)

/-! ### Taking back -/

/-- Undoing a change where the entry, its links and the existence of its feeds are kept, beside a
catalog that the change has not been made to. -/
theorem Carried.undo_of_keeps {change : Change} {both alone : Catalog}
    (h : Carried catalog command statement feeds change next)
    (hclosed : catalog.Closed) (hpruned : catalog.Pruned)
    (hagree : AgreeOff command.name both alone) (hwith : Keeps command.name next both)
    (hwithout : Keeps command.name catalog alone) : change.undo both = alone := by
  have hentry : both.get? change.name = change.after := by
    rw [h.name, hwith.entry, ← h.name, h.get?_name]
  have hentries : ∀ other, (change.undo both).get? other = alone.get? other := by
    intro other
    rw [Change.get?_undo hentry, h.name, h.before]
    split
    next heq => rw [heq, hwithout.entry]
    next hne => exact hagree.entries other hne
  refine ext_of_pruned (Change.pruned_undo _ (hwith.pruned (h.pruned hpruned)))
    (hwithout.pruned hpruned) hentries fun feed reader => ?_
  by_cases hreader : reader = change.name
  · have hfeed : feed ∈ change.unlinked → (change.undo both).contains feed = true := by
      intro hmem
      have hlink := ((h.unlinked feed).1 hmem).2
      rw [contains_eq, hentries]
      exact hwithout.feeds feed hlink (hclosed feed _ hlink).1
    have hsome : feed ∈ change.unlinked → change.before.isSome = true := h.before_isSome
    have hlinked := h.linked feed
    have hunlinked := h.unlinked feed
    rw [Bool.eq_iff_iff, Change.hasLink_undo hentry, hreader, h.name, hwith.links, hwithout.links]
    grind
  · rw [Change.hasLink_undo_of_ne _ _ _ hreader, hagree.links _ _ (h.name ▸ hreader)]

/-- **Taking a command back out of order is as if it had never been run.** -/
theorem revert_out_of_order (hclosed : catalog.Closed) (hpruned : catalog.Pruned) {call : Call}
    {calls : List Call} {both alone : Catalog} (hcall : catalog.call call = (.ok applied, next))
    (hcalls : ∀ other ∈ calls, other.command.name ≠ call.command.name)
    (hwith : next.callAll? calls = some both) (hwithout : catalog.callAll? calls = some alone) :
    both.revert applied = alone := by
  have hkeeps := keeps_callAll? hcalls hwith
  have hkeeps' := keeps_callAll? hcalls hwithout
  cases run_ok (run_of_apply_ok hcall) with
  | idle =>
    rw [hwith] at hwithout
    exact Option.some.inj hwithout
  | carried _ _ hcarried =>
    exact hcarried.undo_of_keeps hclosed hpruned
      (hcarried.agreeOff.callAll? hcalls hwith hwithout) hkeeps hkeeps'

/-- A removal is taken back after another reader of the same feed has been created. -/
theorem drop_reverted_after_create :
    let catalog := (History.of Sample.pipeline).catalog
    let audit : Call := .createStream ⟨"AUDIT"⟩ [Sample.orders]
    ∃ applied next both alone,
      catalog.call (.dropStream Sample.totals []) = (.ok applied, next) ∧
        next.callAll? [audit] = some both ∧ catalog.callAll? [audit] = some alone ∧
        both.revert applied = alone := by
  intro catalog audit
  have hcall : catalog.call (.dropStream Sample.totals []) = (.ok _, _) := rfl
  have hcalls : ∀ other ∈ [audit], other.command.name ≠ Sample.totals := by decide
  refine ⟨_, _, _, _, hcall, rfl, rfl, ?_⟩
  exact revert_out_of_order Sample.closed_pipeline (History.pruned _) hcall hcalls rfl rfl

end StreamSql.Catalog
