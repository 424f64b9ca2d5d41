import StreamSql.Proofs.Catalog.Dangling

/-!
# Links and the creations behind them

An entry should be recorded as a reader of exactly those feeds that the query of its last creation
reads (`Declares`). A creation records the feeds of its query and a removal takes back those of its
entry, so that calls keep the links exact, with two exceptions (`Blurs`): a replacement keeps the
links of the entry it replaces, also those that the new query does not read, and a removal that an
interceptor objects to can lose links of the entry. These are the only ways in which the links come
to differ from the creations (`exact_throughout_iff`).
-/

namespace StreamSql.Catalog

variable {catalog : Catalog} {call : Call} {calls : List Call} {feed reader name : SourceName}

/-! ### What a run of calls declares -/

/-- Whether the call makes the entry anew: a creation of it, accepted and with something to do. -/
def Call.creates (call : Call) (catalog : Catalog) (name : SourceName) : Bool :=
  match call.command, (catalog.call call).1 with
  | .create c, .ok applied => c.name == name && !applied.isNoop
  | _, _ => false

/-- The catalog after some calls, accepted or not. -/
def afterCalls (catalog : Catalog) (calls : List Call) : Catalog :=
  calls.foldl (fun catalog call => (catalog.call call).2) catalog

/-- The last of some calls that made the entry anew. -/
def lastCreation? (name : SourceName) : Catalog → List Call → Option Call
  | _, [] => none
  | catalog, call :: calls =>
    (lastCreation? name (catalog.call call).2 calls).or
      (if call.creates catalog name then some call else none)

/-- By a run of calls the reader should be linked to the feed: it is an entry, and the query that
filled it when it was last created reads the feed. No entry counts as its own reader. -/
def Declares (calls : List Call) (feed reader : SourceName) : Prop :=
  (afterCalls .empty calls).contains reader = true ∧
    ∃ call, lastCreation? reader .empty calls = some call ∧ call.withQuery = true ∧
      call.querySources.contains feed = true ∧ feed ≠ reader

/-- The links after a run of calls are those that it declares. -/
def Exact (calls : List Call) : Prop :=
  ∀ feed reader, (afterCalls .empty calls).hasLink feed reader = true ↔ Declares calls feed reader

theorem afterCalls_snoc (catalog : Catalog) (calls : List Call) (call : Call) :
    catalog.afterCalls (calls ++ [call]) = ((catalog.afterCalls calls).call call).2 := by
  rw [afterCalls, List.foldl_append]
  rfl

theorem lastCreation?_snoc (name : SourceName) (catalog : Catalog) (calls : List Call)
    (call : Call) :
    lastCreation? name catalog (calls ++ [call]) =
      if call.creates (catalog.afterCalls calls) name then some call
      else lastCreation? name catalog calls := by
  induction calls generalizing catalog with
  | nil => rfl
  | cons first calls ih =>
    rw [List.cons_append, lastCreation?, lastCreation?, ih]
    have hafter : catalog.afterCalls (first :: calls) =
        (catalog.call first).2.afterCalls calls := rfl
    rw [hafter]
    split <;> rfl

theorem exact_nil : Exact [] := by
  intro feed reader
  simp [afterCalls, Declares, lastCreation?]

theorem Call.contains_feeds (call : Call) (feed : SourceName) :
    call.feeds.contains feed = true ↔
      call.withQuery = true ∧ call.querySources.contains feed = true := by
  unfold Call.feeds
  split <;> simp_all

theorem declares_snoc_of_creates (hcreates : call.creates (afterCalls .empty calls) reader = true)
    (hthere : (afterCalls .empty (calls ++ [call])).contains reader = true) :
    Declares (calls ++ [call]) feed reader ↔
      call.feeds.contains feed = true ∧ feed ≠ reader := by
  simp only [Declares, hthere, lastCreation?_snoc, hcreates, if_true, Option.some.injEq,
    Call.contains_feeds, true_and, exists_eq_left']
  tauto

theorem declares_snoc_of_contains
    (hcreates : call.creates (afterCalls .empty calls) reader = false)
    (hthere : (afterCalls .empty (calls ++ [call])).contains reader =
      (afterCalls .empty calls).contains reader) :
    Declares (calls ++ [call]) feed reader ↔ Declares calls feed reader := by
  simp only [Declares, hthere, lastCreation?_snoc, hcreates, Bool.false_eq_true, if_false]

/-! ### What a call does to the links -/

/-- The call replaces an entry whose links it leaves although its query does not read the feed. -/
def LeavesStale (catalog : Catalog) (call : Call) : Prop :=
  call.creates catalog call.command.name = true ∧
    ∃ feed, catalog.hasLink feed call.command.name = true ∧ call.feeds.contains feed = false

/-- The call is a removal that an interceptor objects to and whose links are then lost. -/
def LosesLink (catalog : Catalog) (call : Call) : Prop :=
  (∃ objection, (catalog.call call).1 = .error objection) ∧
    (∃ outcome, catalog.run call.command call.statement call.feeds = .ok outcome) ∧
    catalog.RemovesStranded call.command

/-- The call lets the links differ from what the creations say. -/
def Blurs (catalog : Catalog) (call : Call) : Prop :=
  catalog.LeavesStale call ∨ catalog.LosesLink call

theorem Call.creates_iff (call : Call) (catalog : Catalog) (name : SourceName) :
    call.creates catalog name = true ↔
      ∃ c applied, call.command = .create c ∧ c.name = name ∧
        (catalog.call call).1 = .ok applied ∧ applied.isNoop = false := by
  unfold Call.creates
  split
  next c applied hcommand hcall => simp_all
  next hother =>
    constructor
    · rintro ⟨⟩
    · rintro ⟨c, applied, hcommand, -, hcall, -⟩
      exact (hother c applied hcommand hcall).elim

theorem Call.creates_eq_false_of_ne (hne : name ≠ call.command.name) :
    call.creates catalog name = false := by
  rw [← Bool.not_eq_true, Call.creates_iff]
  rintro ⟨c, applied, hcommand, rfl, -⟩
  rw [hcommand] at hne
  exact hne rfl

theorem pruned_afterCalls (calls : List Call) : (afterCalls .empty calls).Pruned :=
  List.foldlRecOn (motive := Catalog.Pruned) calls _ pruned_empty
    fun _ h call _ => h.apply call.interceptors call.command call.statement call.feeds

theorem Exact.snoc_iff_of_sources (h : Exact calls)
    (hcreates : ∀ name, call.creates (afterCalls .empty calls) name = false)
    (hsources : (afterCalls .empty (calls ++ [call])).sources = (afterCalls .empty calls).sources) :
    Exact (calls ++ [call]) ↔
      afterCalls .empty (calls ++ [call]) = afterCalls .empty calls := by
  have hentries : ∀ name, (afterCalls .empty (calls ++ [call])).get? name =
      (afterCalls .empty calls).get? name := fun name => congrArg (·.get? name) hsources
  have hdeclares : ∀ feed reader,
      Declares (calls ++ [call]) feed reader ↔ Declares calls feed reader := fun feed reader =>
    declares_snoc_of_contains (hcreates reader) (congrArg Option.isSome (hentries reader))
  constructor
  · intro hexact
    refine ext_of_pruned (pruned_afterCalls _) (pruned_afterCalls _) hentries fun feed reader => ?_
    rw [Bool.eq_iff_iff, hexact feed reader, hdeclares, h feed reader]
  · intro heq feed reader
    rw [heq, hdeclares]
    exact h feed reader

/-! ### Calls that are carried out -/

section Carried

variable {change : Change}

theorem Exact.created_iff (h : Exact calls) {c : CreateSource} (hcommand : call.command = .create c)
    (hcarried : Carried (afterCalls .empty calls) (.create c) call.statement call.feeds change
      (afterCalls .empty (calls ++ [call])))
    (hcreates : call.creates (afterCalls .empty calls) c.name = true) :
    (∀ feed, (afterCalls .empty (calls ++ [call])).hasLink feed c.name = true ↔
        Declares (calls ++ [call]) feed c.name) ↔
      ¬(afterCalls .empty calls).LeavesStale call := by
  have hthere : (afterCalls .empty (calls ++ [call])).contains c.name = true := by
    rw [contains_eq, hcarried.entries, CatalogCommand.name, if_pos rfl, hcarried.after]
    rfl
  have hself : ∀ feed, (afterCalls .empty calls).hasLink feed c.name = true → feed ≠ c.name := by
    intro feed hlink
    obtain ⟨-, -, -, -, -, hne⟩ := (h feed c.name).1 hlink
    exact hne
  have hlinks : ∀ feed, (afterCalls .empty (calls ++ [call])).hasLink feed c.name = true ↔
      (afterCalls .empty calls).hasLink feed c.name = true ∨
        (call.feeds.contains feed = true ∧ feed ≠ c.name) := hcarried.own_links
  simp only [hlinks, declares_snoc_of_creates hcreates hthere, LeavesStale, hcommand,
    CatalogCommand.name, hcreates, true_and, not_exists, not_and, Bool.not_eq_false]
  constructor
  · intro hown feed hlink
    exact ((hown feed).1 (.inl hlink)).1
  · intro hfeeds feed
    refine ⟨?_, .inr⟩
    rintro (hlink | hnamed)
    · exact ⟨hfeeds feed hlink, hself feed hlink⟩
    · exact hnamed

theorem Exact.own_of_not_create (h : Exact calls)
    (hcarried : Carried (afterCalls .empty calls) call.command call.statement call.feeds change
      (afterCalls .empty (calls ++ [call])))
    (hcommand : ∀ c, call.command ≠ .create c) (feed : SourceName) :
    (afterCalls .empty (calls ++ [call])).hasLink feed call.command.name = true ↔
      Declares (calls ++ [call]) feed call.command.name := by
  have hcreates : call.creates (afterCalls .empty calls) call.command.name = false := by
    rw [← Bool.not_eq_true, Call.creates_iff]
    rintro ⟨c, -, hcreate, -⟩
    exact hcommand c hcreate
  have hthere := hcarried.entries call.command.name
  rw [if_pos rfl, hcarried.after] at hthere
  have hown := hcarried.own_links feed
  cases hkind : call.command with
  | create c => exact (hcommand c hkind).elim
  | drop c =>
    rw [hkind] at hthere hown
    refine iff_of_false hown.1 fun hdeclares => ?_
    have hgone : (afterCalls .empty (calls ++ [call])).contains c.name = false :=
      congrArg Option.isSome hthere
    rw [CatalogCommand.name, Declares, hgone] at hdeclares
    exact Bool.false_ne_true hdeclares.1
  | alter c =>
    obtain ⟨source, hget, -⟩ := hkind ▸ hcarried.admits
    rw [hkind] at hthere hown hcreates
    have hstays : (afterCalls .empty (calls ++ [call])).contains c.name =
        (afterCalls .empty calls).contains c.name := by
      rw [contains_eq, contains_eq]
      simp only [CatalogCommand.name] at hthere hget
      rw [hthere, hget]
      rfl
    exact hown.trans ((h feed c.name).trans (declares_snoc_of_contains hcreates hstays).symm)

/-- A call that is carried out keeps the links exact unless it leaves stale ones. -/
theorem Exact.snoc_iff_of_carried (h : Exact calls)
    (hcarried : Carried (afterCalls .empty calls) call.command call.statement call.feeds change
      (afterCalls .empty (calls ++ [call])))
    (hcreates : ∀ c, call.command = .create c →
      call.creates (afterCalls .empty calls) c.name = true) :
    Exact (calls ++ [call]) ↔ ¬(afterCalls .empty calls).LeavesStale call := by
  -- the links of other entries are exact in any case
  have hother : ∀ feed reader, reader ≠ call.command.name →
      ((afterCalls .empty (calls ++ [call])).hasLink feed reader = true ↔
        Declares (calls ++ [call]) feed reader) := by
    intro feed reader hne
    have hthere : (afterCalls .empty (calls ++ [call])).contains reader =
        (afterCalls .empty calls).contains reader := by
      rw [contains_eq, hcarried.entries, if_neg hne, contains_eq]
    rw [hcarried.other_links feed reader hne,
      declares_snoc_of_contains (Call.creates_eq_false_of_ne hne) hthere]
    exact h feed reader
  have hown : Exact (calls ++ [call]) ↔
      ∀ feed, (afterCalls .empty (calls ++ [call])).hasLink feed call.command.name = true ↔
        Declares (calls ++ [call]) feed call.command.name := by
    refine ⟨fun hexact feed => hexact feed _, fun hfeeds feed reader => ?_⟩
    by_cases hreader : reader = call.command.name
    · exact hreader ▸ hfeeds feed
    · exact hother feed reader hreader
  rw [hown]
  by_cases hcommand : ∃ c, call.command = .create c
  · obtain ⟨c, hc⟩ := hcommand
    rw [hc] at hcarried ⊢
    exact h.created_iff hc hcarried (hcreates c hc)
  · rw [not_exists] at hcommand
    refine iff_of_true (h.own_of_not_create hcarried hcommand) ?_
    rintro ⟨hnew, -⟩
    obtain ⟨c, -, hc, -⟩ := (Call.creates_iff _ _ _).1 hnew
    exact hcommand c hc

end Carried

/-! ### Whole runs -/

theorem Call.creates_eq_false_of_noop
    (h : ∀ applied, (catalog.call call).1 = .ok applied → applied.isNoop = true)
    (name : SourceName) : call.creates catalog name = false := by
  rw [← Bool.not_eq_true, Call.creates_iff]
  rintro ⟨-, applied, -, -, hcall, hnoop⟩
  rw [h applied hcall] at hnoop
  cases hnoop

theorem blurs_iff_losesLink (h : ∀ name, call.creates catalog name = false) :
    catalog.Blurs call ↔ catalog.LosesLink call := by
  simp [Blurs, LeavesStale, h]

theorem Exact.snoc_iff (h : Exact calls) (call : Call) :
    Exact (calls ++ [call]) ↔ ¬(afterCalls .empty calls).Blurs call := by
  have hafter := afterCalls_snoc .empty calls call
  rcases apply_cases (afterCalls .empty calls) call.interceptors call.command call.statement
    call.feeds with ⟨e, hrun, happly⟩ | ⟨outcome, objection, hrun, happly⟩ | ⟨outcome, hrun, happly⟩
  · have hcall : (afterCalls .empty calls).call call = (.error (diagnostic e), _) := happly
    have hnone : ∀ name, call.creates (afterCalls .empty calls) name = false :=
      Call.creates_eq_false_of_noop fun applied hok => by rw [hcall] at hok; cases hok
    rw [hcall] at hafter
    rw [h.snoc_iff_of_sources hnone (congrArg sources hafter), blurs_iff_losesLink hnone]
    exact iff_of_true hafter fun ⟨_, ⟨_, hok⟩, _⟩ => by rw [hrun] at hok; cases hok
  · have hcall : (afterCalls .empty calls).call call = (.error objection, _) := happly
    have hnone : ∀ name, call.creates (afterCalls .empty calls) name = false :=
      Call.creates_eq_false_of_noop fun applied hok => by rw [hcall] at hok; cases hok
    obtain ⟨hsources, hrestored⟩ := (run_ok hrun).revert (pruned_afterCalls calls)
    rw [hcall] at hafter
    rw [h.snoc_iff_of_sources hnone (by rw [hafter, hsources]), blurs_iff_losesLink hnone, hafter,
      hrestored]
    exact not_congr ⟨fun hstranded => ⟨⟨objection, by rw [hcall]⟩, ⟨outcome, hrun⟩, hstranded⟩,
      fun hlost => hlost.2.2⟩
  · have hcall : (afterCalls .empty calls).call call = (.ok outcome.applied, outcome.catalog) :=
      happly
    have hkept : ¬(afterCalls .empty calls).LosesLink call := fun ⟨⟨_, herror⟩, _⟩ => by
      rw [hcall] at herror
      cases herror
    rw [hcall] at hafter
    cases run_ok hrun with
    | idle message =>
      have hnone : ∀ name, call.creates (afterCalls .empty calls) name = false :=
        Call.creates_eq_false_of_noop fun applied hok => by rw [hcall] at hok; cases hok; rfl
      rw [h.snoc_iff_of_sources hnone (congrArg sources hafter), blurs_iff_losesLink hnone]
      exact iff_of_true hafter hkept
    | @carried _ change next _ hcarried =>
      rw [← show afterCalls .empty (calls ++ [call]) = next from hafter] at hcarried
      have hcreates : ∀ c, call.command = .create c →
          call.creates (afterCalls .empty calls) c.name = true := fun c hc =>
        (Call.creates_iff _ _ _).2 ⟨c, _, hc, rfl, by rw [hcall], rfl⟩
      rw [h.snoc_iff_of_carried hcarried hcreates, Blurs, or_iff_left hkept]

theorem forall_prefix_iff {α : Type} {holds : List α → Prop} {asked : List α → α → Prop}
    (hnil : holds []) (hsnoc : ∀ run a, holds run → (holds (run ++ [a]) ↔ asked run a))
    (run : List α) :
    (∀ earlier, earlier <+: run → holds earlier) ↔
      ∀ earlier a, earlier ++ [a] <+: run → asked earlier a := by
  constructor
  · intro hall earlier a hpart
    exact (hsnoc earlier a (hall earlier ((List.prefix_append _ _).trans hpart))).1 (hall _ hpart)
  · intro hasked earlier hpart
    induction earlier using List.reverseRecOn with
    | nil => exact hnil
    | append_singleton earlier a ih =>
      exact (hsnoc earlier a (ih ((List.prefix_append _ _).trans hpart))).2 (hasked earlier a hpart)

/-- **The links are those that the creations declare, except where a call blurs them.** In a run of
calls from the empty catalog the recorded readers of all feeds are at all times the entries whose
last creation was filled by a query over the feed if and only if no call of the run leaves stale
links of an entry that it replaces or loses links of an entry whose removal is refused. -/
theorem exact_throughout_iff (calls : List Call) :
    (∀ earlier, earlier <+: calls → Exact earlier) ↔
      ∀ earlier call, earlier ++ [call] <+: calls → ¬(afterCalls .empty earlier).Blurs call :=
  forall_prefix_iff exact_nil (fun _ call h => h.snoc_iff call) calls

/-- The call with its creation allowed to replace an entry. -/
def Call.replacing (call : Call) : Call :=
  match call.command with
  | .create c => { call with command := .create { c with orReplace := true } }
  | _ => call

/-- A stream that is filled by a query is replaced by one that is not, and is still recorded as a
reader of the feed of that query. -/
theorem replaced_reader_stays_linked :
    let calls : List Call := [.createStream Sample.orders [],
      .createStream Sample.totals [Sample.orders], (Call.createStream Sample.totals []).replacing]
    (afterCalls .empty calls).hasLink Sample.orders Sample.totals = true ∧
      ¬Declares calls Sample.orders Sample.totals := by
  intro calls
  have hlast : lastCreation? Sample.totals .empty calls =
      some (Call.createStream Sample.totals []).replacing := rfl
  refine ⟨rfl, ?_⟩
  rintro ⟨-, call, hcall, hquery, -⟩
  rw [hlast, Option.some.injEq] at hcall
  rw [← hcall] at hquery
  cases hquery

end StreamSql.Catalog
