import Mathlib.Data.Set.Finite.List
import Mathlib.Logic.Relation
import Mathlib.Order.WellFounded
import StreamSql.Proofs.Catalog.OutOfOrder
import StreamSql.Proofs.Catalog.Readers

/-!
# Emptying a catalog

An entry can be removed once nothing reads it. As long as no entry reads from itself through a chain
of links there is always one that nothing reads (`Acyclic.exists_unread`), and removing it leaves no
new chain, so that all entries can be removed one after the other (`Acyclic.exists_drops`). Chains
are closed by replacements only: a call keeps the links acyclic unless it makes an entry read one
that it supplies itself (`ClosesLoop`, `Accepted.acyclic`). Entries whose queries read one another
in a circle are never removed again (`Locked.callAll?`, `mutual_readers_stay`).
-/

namespace StreamSql.Catalog

variable {catalog next : Catalog} {command : CatalogCommand} {statement : String}
  {feeds : SortedSet SourceName} {outcome : Outcome} {interceptors : List Interceptor}
  {call : Call} {calls : List Call} {name feed reader : SourceName}

/-! ### Chains of links -/

/-- The reader reads the feed, directly or through others. -/
def Supplies (catalog : Catalog) : SourceName → SourceName → Prop :=
  Relation.TransGen fun feed reader => catalog.hasLink feed reader = true

/-- No name reads from itself, directly or through others. -/
def Acyclic (catalog : Catalog) : Prop := ∀ name, ¬catalog.Supplies name name

theorem acyclic_empty : empty.Acyclic := by
  intro name h
  obtain ⟨reader, hlink, -⟩ := Relation.TransGen.head'_iff.1 h
  cases hlink

theorem Acyclic.mono (h : catalog.Acyclic)
    (hlinks : ∀ feed reader, next.hasLink feed reader = true → catalog.hasLink feed reader = true) :
    next.Acyclic :=
  fun name hloop => h name (Relation.TransGen.mono (fun _ _ => hlinks _ _) _ _ hloop)

theorem Acyclic.exists_unread (h : catalog.Acyclic) (hclosed : catalog.Closed)
    (hthere : catalog.contains name = true) :
    ∃ last, catalog.contains last = true ∧ ∀ reader, catalog.hasLink last reader = false := by
  have hkey : ∀ other, catalog.contains other = true → other ∈ catalog.sources.keys := by
    intro other hother
    obtain ⟨entry, hentry⟩ := Option.isSome_iff_exists.1 hother
    exact SortedMap.mem_keys_of_get? hentry
  let Entry := { other // catalog.contains other = true }
  have : Finite Entry := ((List.finite_toSet catalog.sources.keys).subset hkey).to_subtype
  have hfounded : WellFounded fun later earlier : Entry =>
      catalog.Supplies earlier.1 later.1 := by
    have : IsTrans Entry fun later earlier => catalog.Supplies earlier.1 later.1 :=
      ⟨fun _ _ _ hab hbc => hbc.trans hab⟩
    have : Std.Irrefl fun later earlier : Entry => catalog.Supplies earlier.1 later.1 :=
      ⟨fun entry => h entry.1⟩
    exact Finite.wellFounded_of_trans_of_irrefl _
  obtain ⟨⟨last, hlast⟩, -, hmin⟩ := hfounded.has_min Set.univ ⟨⟨name, hthere⟩, trivial⟩
  refine ⟨last, hlast, fun reader => ?_⟩
  rw [← Bool.not_eq_true]
  intro hlink
  exact hmin ⟨reader, (hclosed last reader hlink).2⟩ trivial (.single hlink)

/-! ### Removals -/

/-- The removal of an entry. -/
def Call.drop (interceptors : List Interceptor) (c : DropSource) : Call where
  interceptors
  command := .drop c
  statement := s!"DROP {c.kind.text} {c.name.text};"
  withQuery := false
  querySources := .empty

/-- None of the interceptors objects to a removal. -/
def PermitDrops (interceptors : List Interceptor) : Prop :=
  ∀ interceptor ∈ interceptors, ∀ c entry, interceptor (.drop c) entry = none

theorem drop_of_unread {c : DropSource} {existing : Source}
    (hget : catalog.get? c.name = some existing) (hkind : existing.kind = c.kind)
    (hunread : ∀ reader, catalog.hasLink c.name reader = false)
    (hpermit : PermitDrops interceptors) :
    ∃ applied next, catalog.call (.drop interceptors c) = (.ok applied, next) := by
  have hreaders : (catalog.readersOf c.name).isEmpty = true := (SortedSet.isEmpty_iff _).2 hunread
  obtain ⟨outcome, houtcome⟩ : ∃ outcome, catalog.drop c = .ok outcome := by
    simp [drop, hget, hkind, hreaders, pure, Except.pure]
  have hnobody : ∀ entry, interceptors.findSome? (· (.drop c) entry) = none := fun entry =>
    List.findSome?_eq_none_iff.2 fun interceptor hmem => hpermit interceptor hmem c entry
  refine ⟨outcome.applied, outcome.catalog, ?_⟩
  simp only [Catalog.call, Call.drop, apply, run, houtcome, hnobody]

theorem Accepted.removed {c : DropSource} (h : Accepted catalog (.drop c) statement feeds outcome)
    (hthere : catalog.contains c.name = true) :
    (∀ other, outcome.catalog.contains other = true ↔
        other ≠ c.name ∧ catalog.contains other = true) ∧
      (∀ feed reader, outcome.catalog.hasLink feed reader = true ↔
        reader ≠ c.name ∧ catalog.hasLink feed reader = true) ∧
      ∀ reader, catalog.hasLink c.name reader = false := by
  cases h with
  | idle _ hidle =>
    have hnone : catalog.get? c.name = none := Option.isNone_iff_eq_none.1 hidle
    rw [contains_eq, hnone] at hthere
    cases hthere
  | @carried _ change next _ hcarried =>
    have hgone : change.after = none := hcarried.after
    refine ⟨fun other => ?_, fun feed reader => ?_, hcarried.unread hgone⟩
    · change next.contains other = true ↔ _
      rw [contains_eq, hcarried.entries, hgone, contains_eq, CatalogCommand.name]
      split <;> simp_all
    · change next.hasLink feed reader = true ↔ _
      by_cases hown : reader = c.name
      · subst hown
        have hnone : ¬next.hasLink feed c.name = true := (hcarried.own_links feed).1
        exact iff_of_false hnone fun hkept => hkept.1 rfl
      · rw [hcarried.other_links feed reader hown]
        exact (and_iff_right hown).symm

/-- **A catalog without circles can be emptied** by removals that are accepted one after the
other. -/
theorem Acyclic.exists_drops (h : catalog.Acyclic) (hclosed : catalog.Closed)
    (hpruned : catalog.Pruned) (hpermit : PermitDrops interceptors) :
    ∃ drops : List DropSource,
      catalog.callAll? (drops.map (Call.drop interceptors)) = some .empty := by
  obtain ⟨names, hnames⟩ : ∃ names : Finset SourceName, ∀ other,
      catalog.contains other = true → other ∈ names := by
    refine ⟨catalog.sources.keys.toFinset, fun other hother => List.mem_toFinset.2 ?_⟩
    obtain ⟨entry, hentry⟩ := Option.isSome_iff_exists.1 hother
    exact SortedMap.mem_keys_of_get? hentry
  -- the names are those that may still be entries; every removal takes one of them
  induction names using Finset.strongInduction generalizing catalog with
  | H names ih =>
    by_cases hsome : ∃ name, catalog.contains name = true
    · obtain ⟨name, hname⟩ := hsome
      obtain ⟨last, hlast, hunread⟩ := h.exists_unread hclosed hname
      obtain ⟨existing, hexisting⟩ := Option.isSome_iff_exists.1 hlast
      let c : DropSource := ⟨last, existing.kind, false⟩
      obtain ⟨applied, next, hcall⟩ :=
        drop_of_unread (c := c) hexisting rfl hunread hpermit
      have haccepted := run_ok (run_of_apply_ok hcall)
      obtain ⟨hentries, hlinks, -⟩ := haccepted.removed hlast
      obtain ⟨drops, hdrops⟩ := ih (names.erase last) (Finset.erase_ssubset (hnames last hlast))
        (h.mono fun feed reader hlink => ((hlinks feed reader).1 hlink).2)
        (hclosed.of_call_ok hcall (List.forall_mem_nil _)) (haccepted.pruned hpruned)
        fun other hother => by
          obtain ⟨hne, hold⟩ := (hentries other).1 hother
          exact Finset.mem_erase.2 ⟨hne, hnames other hold⟩
      refine ⟨c :: drops, ?_⟩
      rw [List.map_cons, callAll?, hcall]
      exact hdrops
    · rw [not_exists] at hsome
      refine ⟨[], congrArg some (ext_of_pruned hpruned pruned_empty (fun name => ?_) ?_)⟩
      · exact Option.not_isSome_iff_eq_none.1 (hsome name)
      · intro feed reader
        rw [hasLink_empty, ← Bool.not_eq_true]
        exact fun hlink => hsome feed (hclosed feed reader hlink).1

/-! ### Circles -/

/-- Every one of some entries is read by one of them. -/
def Locked (catalog : Catalog) (names : Set SourceName) : Prop :=
  ∀ name ∈ names, catalog.contains name = true ∧
    ∃ reader ∈ names, catalog.hasLink name reader = true

theorem Locked.drop {names : Set SourceName} (h : catalog.Locked names) {c : DropSource}
    (haccepted : Accepted catalog (.drop c) statement feeds outcome) :
    outcome.catalog.Locked names := by
  by_cases hthere : catalog.contains c.name = true
  · obtain ⟨hentries, hlinks, hunread⟩ := haccepted.removed hthere
    -- what goes is read by nothing, so it is none of the names
    have hout : c.name ∉ names := by
      intro hin
      obtain ⟨-, reader, -, hlink⟩ := h c.name hin
      rw [hunread reader] at hlink
      cases hlink
    intro name hname
    obtain ⟨hentry, reader, hreader, hlink⟩ := h name hname
    refine ⟨(hentries name).2 ⟨fun heq => hout (heq ▸ hname), hentry⟩, reader, hreader, ?_⟩
    exact (hlinks name reader).2 ⟨fun heq => hout (heq ▸ hreader), hlink⟩
  · have hidle : (CatalogCommand.drop c).isIdle (catalog.get? c.name) = true :=
      Option.isNone_iff_eq_none.2 (Option.not_isSome_iff_eq_none.1 hthere)
    cases haccepted with
    | idle => exact h
    | carried _ hbusy => cases hidle.symm.trans hbusy

theorem Locked.callAll? {names : Set SourceName} (h : catalog.Locked names)
    {drops : List DropSource}
    (hdrops : catalog.callAll? (drops.map (Call.drop interceptors)) = some next) :
    next.Locked names := by
  induction drops generalizing catalog with
  | nil =>
    cases hdrops
    exact h
  | cons c drops ih =>
    obtain ⟨outcome, haccepted, hrest⟩ := callAll?_cons hdrops
    exact ih (h.drop haccepted) hrest

/-! ### What calls do to chains -/

/-- The call makes an entry read from one that it supplies by links, directly or through others. -/
def ClosesLoop (catalog : Catalog) (call : Call) : Prop :=
  call.creates catalog call.command.name = true ∧
    ∃ feed, call.feeds.contains feed = true ∧ catalog.Supplies call.command.name feed

/-- Only a replacement closes a loop: nothing reads an entry that is new. -/
theorem Closed.not_closesLoop (h : catalog.Closed)
    (hnew : catalog.contains call.command.name = false) : ¬catalog.ClosesLoop call := by
  rintro ⟨-, feed, -, hchain⟩
  obtain ⟨reader, hlink, -⟩ := Relation.TransGen.head'_iff.1 hchain
  cases (h _ reader hlink).1.symm.trans hnew

/-- With new links into one reader, a chain either is an old one or goes through the reader. -/
theorem supplies_cases {target : SourceName} {added : SourceName → Prop}
    (hlinks : ∀ feed reader, next.hasLink feed reader = true →
      catalog.hasLink feed reader = true ∨ (reader = target ∧ added feed))
    (h : next.Supplies feed reader) :
    catalog.Supplies feed reader ∨ ∃ via, added via ∧
      Relation.ReflTransGen (fun feed reader => catalog.hasLink feed reader = true) feed via ∧
      Relation.ReflTransGen (fun feed reader => catalog.hasLink feed reader = true)
        target reader := by
  induction h with
  | single hlink =>
    rcases hlinks _ _ hlink with hold | ⟨rfl, hadded⟩
    · exact .inl (.single hold)
    · exact .inr ⟨_, hadded, .refl, .refl⟩
  | tail _ hlink ih =>
    rcases hlinks _ _ hlink with hold | ⟨rfl, hadded⟩
    · rcases ih with hchain | ⟨via, hvia, hbefore, hafter⟩
      · exact .inl (hchain.tail hold)
      · exact .inr ⟨via, hvia, hbefore, hafter.tail hold⟩
    · rcases ih with hchain | ⟨via, hvia, hbefore, -⟩
      · exact .inr ⟨_, hadded, hchain.to_reflTransGen, .refl⟩
      · exact .inr ⟨via, hvia, hbefore, .refl⟩

theorem Acyclic.addReads {target : SourceName} {added : SourceName → Prop} (h : catalog.Acyclic)
    (hlinks : ∀ feed reader, next.hasLink feed reader = true →
      catalog.hasLink feed reader = true ∨ (reader = target ∧ added feed))
    (hadded : ∀ feed, added feed → feed ≠ target ∧ ¬catalog.Supplies target feed) :
    next.Acyclic := by
  intro name hloop
  rcases supplies_cases hlinks hloop with hold | ⟨via, hvia, hbefore, hafter⟩
  · exact h name hold
  · obtain ⟨hne, hfree⟩ := hadded via hvia
    rcases Relation.reflTransGen_iff_eq_or_transGen.1 (hafter.trans hbefore) with heq | hchain
    · exact hne heq
    · exact hfree hchain

/-- **An accepted call makes no circle unless it closes a loop.** -/
theorem Acyclic.of_call_ok {applied : Applied} (h : catalog.Acyclic)
    (hcall : catalog.call call = (.ok applied, next)) (hopen : ¬catalog.ClosesLoop call) :
    next.Acyclic := by
  have haccepted := run_ok (run_of_apply_ok hcall)
  cases haccepted with
  | idle => exact h
  | @carried _ change _ _ hcarried =>
    by_cases hcreate : ∃ c, call.command = .create c
    · obtain ⟨c, hc⟩ := hcreate
      have hcreates : call.creates catalog call.command.name = true :=
        (Call.creates_iff _ _ _).2 ⟨c, _, hc, by rw [hc]; rfl, congrArg Prod.fst hcall, rfl⟩
      rw [hc] at hcarried
      refine h.addReads (fun feed reader => (hcarried.hasLink_create feed reader).1) ?_
      rintro feed ⟨hnamed, hne⟩
      refine ⟨hne, fun hsupplies => hopen ⟨hcreates, feed, hnamed, ?_⟩⟩
      rw [hc]
      exact hsupplies
    · refine h.mono fun feed reader hlink => ?_
      by_cases hown : reader = call.command.name
      · subst hown
        have hreads := (hcarried.own_links feed).1 hlink
        cases hkind : call.command with
        | create c => exact absurd ⟨c, hkind⟩ hcreate
        | drop c =>
          rw [hkind] at hreads
          exact hreads.elim
        | alter c =>
          rw [hkind] at hreads
          exact hreads
      · rwa [hcarried.other_links feed reader hown] at hlink

/-! ### Whole runs -/

/-- All calls of a run from the empty catalog are accepted, and each names only feeds that are
entries at that moment. -/
def Proper (calls : List Call) : Prop :=
  ∀ earlier call, earlier ++ [call] <+: calls →
    (∃ applied, ((afterCalls .empty earlier).call call).1 = .ok applied) ∧
      ∀ feed ∈ call.feeds.toList, (afterCalls .empty earlier).contains feed = true

theorem proper_nil : Proper [] := by
  intro earlier call h
  simp at h

theorem Proper.snoc (h : Proper calls)
    (haccepted : ∃ applied, ((afterCalls .empty calls).call call).1 = .ok applied)
    (hfeeds : ∀ feed ∈ call.feeds.toList, (afterCalls .empty calls).contains feed = true) :
    Proper (calls ++ [call]) := by
  intro earlier other hpart
  rcases List.prefix_concat_iff.1 hpart with heq | hpart
  · obtain ⟨rfl, hlast⟩ := List.append_inj' heq rfl
    rw [List.singleton_inj] at hlast
    exact hlast ▸ ⟨haccepted, hfeeds⟩
  · exact h earlier other hpart

theorem Proper.init (h : Proper (calls ++ [call])) : Proper calls :=
  fun earlier other hpart => h earlier other (hpart.trans (List.prefix_append _ _))

theorem Proper.last (h : Proper (calls ++ [call])) :
    ∃ applied, (afterCalls .empty calls).call call =
        (.ok applied, afterCalls .empty (calls ++ [call])) ∧
      ∀ feed ∈ call.feeds.toList, (afterCalls .empty calls).contains feed = true := by
  obtain ⟨⟨applied, happlied⟩, hfeeds⟩ := h calls call List.prefix_rfl
  refine ⟨applied, ?_, hfeeds⟩
  rw [afterCalls_snoc, ← happlied]

theorem Proper.closed (h : Proper calls) : (afterCalls .empty calls).Closed := by
  induction calls using List.reverseRecOn with
  | nil => exact closed_empty
  | append_singleton calls call ih =>
    obtain ⟨applied, hcall, hfeeds⟩ := h.last
    exact (ih h.init).of_call_ok hcall hfeeds

theorem Proper.acyclic (h : Proper calls)
    (hopen : ∀ earlier call, earlier ++ [call] <+: calls →
      ¬(afterCalls .empty earlier).ClosesLoop call) : (afterCalls .empty calls).Acyclic := by
  induction calls using List.reverseRecOn with
  | nil => exact acyclic_empty
  | append_singleton calls call ih =>
    obtain ⟨applied, hcall, -⟩ := h.last
    have hlast := hopen calls call List.prefix_rfl
    refine (ih h.init fun earlier other hpart => ?_).of_call_ok hcall hlast
    exact hopen earlier other (hpart.trans (List.prefix_append _ _))

theorem Proper.hasLink_of_declares (h : Proper calls) (hdeclares : Declares calls feed reader) :
    (afterCalls .empty calls).hasLink feed reader = true := by
  induction calls using List.reverseRecOn with
  | nil =>
    obtain ⟨-, call, hcall, -⟩ := hdeclares
    cases hcall
  | append_singleton calls call ih =>
    obtain ⟨applied, hcall, -⟩ := h.last
    have haccepted := run_ok (run_of_apply_ok hcall)
    by_cases hcreates : call.creates (afterCalls .empty calls) reader = true
    · obtain ⟨hnamed, hne⟩ := (declares_snoc_of_creates hcreates hdeclares.1).1 hdeclares
      obtain ⟨c, report, hc, rfl, hreport, hnoop⟩ := (Call.creates_iff _ _ _).1 hcreates
      rw [hcall] at hreport
      cases hreport
      generalize afterCalls .empty (calls ++ [call]) = next at haccepted ⊢
      rw [hc] at haccepted
      cases haccepted with
      | idle => cases hnoop
      | carried _ _ hcarried =>
        exact (hcarried.hasLink_create feed c.name).2 (.inr ⟨rfl, hnamed, hne⟩)
    · rw [Bool.not_eq_true] at hcreates
      have hthere : (afterCalls .empty calls).contains reader = true := by
        refine haccepted.contains_of_not_created hdeclares.1 fun c hc hname => ?_
        by_contra hnoop
        rw [Bool.not_eq_true] at hnoop
        have hnew := (Call.creates_iff call _ reader).2
          ⟨c, applied, hc, hname, congrArg Prod.fst hcall, hnoop⟩
        cases hnew.symm.trans hcreates
      have hsame := hdeclares.1.trans hthere.symm
      have hbefore := (declares_snoc_of_contains hcreates hsame).1 hdeclares
      exact haccepted.hasLink_of_contains (ih h.init hbefore) hdeclares.1

theorem Proper.locked_of_circle (h : Proper calls)
    (hcircle : Relation.TransGen (Declares calls) name name) :
    (afterCalls .empty calls).Locked {other | Relation.TransGen (Declares calls) other name} := by
  intro other hchain
  obtain ⟨reader, hdeclares, hrest⟩ := Relation.TransGen.head'_iff.1 hchain
  have hlink := h.hasLink_of_declares hdeclares
  refine ⟨(h.closed other reader hlink).1, reader, ?_, hlink⟩
  rcases Relation.reflTransGen_iff_eq_or_transGen.1 hrest with rfl | hrest
  · exact hcircle
  · exact hrest

/-- **When a catalog can be emptied.** After a run of accepted calls that name only entries as
feeds, all entries can be removed one after the other if none reads from itself through a chain of
links, and so after every run in which no call makes an entry read from one that it supplies by
links, of which some may be left from replaced definitions. But entries whose queries read one
another in a circle stay, whatever is removed. -/
theorem emptied (hproper : Proper calls) (hpermit : PermitDrops interceptors) :
    ((afterCalls .empty calls).Acyclic → ∃ drops : List DropSource,
      (afterCalls .empty calls).callAll? (drops.map (Call.drop interceptors)) = some .empty) ∧
    ((∀ earlier call, earlier ++ [call] <+: calls →
        ¬(afterCalls .empty earlier).ClosesLoop call) → (afterCalls .empty calls).Acyclic) ∧
    ∀ name, Relation.TransGen (Declares calls) name name → ∀ (drops : List DropSource) next,
      (afterCalls .empty calls).callAll? (drops.map (Call.drop interceptors)) = some next →
        next.contains name = true := by
  refine ⟨fun h => h.exists_drops hproper.closed (pruned_afterCalls calls) hpermit,
    hproper.acyclic, fun name hcircle drops next hdrops => ?_⟩
  exact ((hproper.locked_of_circle hcircle).callAll? hdrops name hcircle).1

namespace Sample

/-- A stream, and a second one that is filled from it. -/
def chain : List Call := [.createStream orders [], .createStream totals [orders]]

/-- The chain, with the first stream replaced by one that is filled from the second. -/
def circle : List Call := chain ++ [(Call.createStream orders [totals]).replacing]

theorem proper_chain : Proper chain := by
  have hfirst : Proper ([] ++ [.createStream orders []]) := proper_nil.snoc ⟨_, rfl⟩ (by decide)
  exact hfirst.snoc ⟨_, rfl⟩ (by decide)

theorem chain_open (earlier : List Call) (call : Call) (hpart : earlier ++ [call] <+: chain) :
    ¬(afterCalls .empty earlier).ClosesLoop call := by
  have hproper : Proper earlier := fun first other h =>
    proper_chain first other (h.trans ((List.prefix_append _ _).trans hpart))
  refine hproper.closed.not_closesLoop ?_
  rcases earlier with - | ⟨first, - | ⟨second, rest⟩⟩ <;>
    simp only [chain, List.nil_append, List.cons_append, List.cons_prefix_cons] at hpart
  · obtain ⟨rfl, -⟩ := hpart
    rfl
  · obtain ⟨rfl, rfl, -⟩ := hpart
    rfl
  · simp at hpart

theorem proper_circle : Proper circle := proper_chain.snoc ⟨_, rfl⟩ (by decide)

end Sample

/-- A stream and a second one that is filled from it can both be removed. -/
theorem chain_emptied : Proper Sample.chain ∧ PermitDrops [] ∧ ∃ drops : List DropSource,
    (afterCalls .empty Sample.chain).callAll? (drops.map (Call.drop [])) = some .empty := by
  have hpermit : PermitDrops [] := fun _ h => absurd h List.not_mem_nil
  obtain ⟨hempties, hacyclic, -⟩ := emptied Sample.proper_chain hpermit
  refine ⟨Sample.proper_chain, hpermit, hempties (hacyclic Sample.chain_open)⟩

/-- Two streams that are filled from each other, one of them by a replacement, cannot both be
removed in any order. -/
theorem mutual_readers_stay : Proper Sample.circle ∧
    ∀ interceptors, ¬∃ (drops : List DropSource) (next : Catalog),
      (afterCalls .empty Sample.circle).callAll? (drops.map (Call.drop interceptors)) =
        some next ∧ ∀ name, next.contains name = false := by
  have hlocked : (afterCalls .empty Sample.circle).Locked {Sample.orders, Sample.totals} := by
    rintro name (rfl | rfl)
    · exact ⟨rfl, Sample.totals, .inr rfl, rfl⟩
    · exact ⟨rfl, Sample.orders, .inl rfl, rfl⟩
  refine ⟨Sample.proper_circle, ?_⟩
  rintro interceptors ⟨drops, next, hdrops, hempty⟩
  have hthere := (hlocked.callAll? hdrops Sample.orders (.inl rfl)).1
  cases hthere.symm.trans (hempty Sample.orders)

end StreamSql.Catalog
