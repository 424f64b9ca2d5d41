import StreamSql.Proofs.Engine.CreateAsSelect

/-!
# The key formats of created entries

The key format of a new entry is the one that its statement names. Otherwise it is the default one
for an entry with declared columns, and for a sink the one of the entry that its query names first.
Formats that are named and the default one are checked when the statement is planned. One that is
taken over from another entry is not: it is enabled only if that of the other entry happens to be
(`keyFormat_enabled_iff`).
-/

namespace StreamSql

/-- The key format that the statement takes over from the entry that its query names first. -/
def Statement.inheritedKeyFormat? (catalog : Catalog) : Statement → Option Format
  | .write (.createAsSelect s) =>
    match s.properties.keyFormatName? with
    | some _ => none
    | none => (catalog.get? s.query.relation.first).map (·.keyFormat)
  | _ => none

theorem Analysis.formatOr_ok {name : Option String} {otherwise format : Format}
    (h : Analysis.formatOr name otherwise = .ok format) :
    (name = none ∧ otherwise = format) ∨
      ∃ text, name = some text ∧ Format.ofName text = .ok format := by
  unfold Analysis.formatOr at h
  split at h
  next => exact .inl ⟨rfl, Except.ok.inj h⟩
  next text =>
    split at h
    next named hnamed =>
      cases h
      exact .inr ⟨text, rfl, hnamed⟩
    next => cases h

namespace Engine

variable {engine : Engine} {config : Settings} {statement : Statement} {text : String}
  {plan : Plan} {format : Format} {creation : CreateSource} {s : CreateAsSelect}

theorem checkKeyFormat_ok (h : checkKeyFormat config format = .ok ()) :
    config.isKeyFormatEnabled format = true := by
  unfold checkKeyFormat at h
  split at h
  next henabled => exact henabled
  next => cases h

theorem checkAskedFormat_ok {name : String} (h : checkAskedFormat config s = .ok ())
    (hname : s.properties.keyFormatName? = some name) (hformat : Format.ofName name = .ok format) :
    config.isKeyFormatEnabled format = true := by
  unfold checkAskedFormat at h
  rw [hname] at h
  obtain ⟨named, hnamed, h⟩ := bind_eq_ok_iff.1 h
  cases hformat.symm.trans (reported_eq_ok_iff.1 hnamed)
  exact checkKeyFormat_ok h

theorem planDefinition_enabled {definition : DefinitionStatement}
    (h : planDefinition config definition text = .ok plan)
    (hcommand : plan.command = some (.create creation)) :
    config.isKeyFormatEnabled creation.keyFormat = true := by
  obtain ⟨command, hok, rfl⟩ := planDefinition_ok h
  cases hcommand
  cases definition with
  | create c =>
    obtain ⟨format, hformat, h⟩ := bind_eq_ok_iff.1 h
    obtain ⟨_, hchecked, -⟩ := bind_eq_ok_iff.1 h
    obtain ⟨made, hmade, hcreates⟩ := DefinitionStatement.command_create_ok hok
    cases hcreates
    have hsame := (CreateSourceStatement.command_ok hmade).1
    cases hsame.symm.trans (reported_eq_ok_iff.1 hformat)
    exact checkKeyFormat_ok hchecked
  | drop c => cases hok
  | alter c => cases hok

theorem PlannedQuery.keyFormat {logical : LogicalPlan} {query : QueryPlan}
    (h : PlannedQuery engine config (.createAsSelect s) text logical plan query)
    (hcommand : plan.command = some (.create creation)) :
    (s.properties.keyFormatName? = none ∧ ∃ first,
        engine.catalog.get? s.query.relation.first = some first ∧
          first.keyFormat = creation.keyFormat) ∨
      (∃ name, s.properties.keyFormatName? = some name) ∧
        config.isKeyFormatEnabled creation.keyFormat = true := by
  obtain ⟨destination, -, hplanned, first, hfirst, hformats⟩ := h.command
  cases hplanned.symm.trans hcommand
  rcases Analysis.formatOr_ok (Analysis.destination_keyFormat hformats rfl) with
    ⟨hnone, hsame⟩ | ⟨name, hname, hformat⟩
  · exact .inl ⟨hnone, first, hfirst, hsame⟩
  · exact .inr ⟨⟨name, hname⟩, checkAskedFormat_ok (h.asked s rfl) hname hformat⟩

/-- **A created entry has an enabled key format unless it takes over one that is not.** -/
theorem keyFormat_enabled_iff (h : (engine.plan config statement text).1 = .ok plan)
    (hcommand : plan.command = some (.create creation))
    (hbusy : (CatalogCommand.create creation).isIdle (engine.catalog.get? creation.name) = false) :
    config.isKeyFormatEnabled creation.keyFormat = true ↔
      ∀ inherited ∈ statement.inheritedKeyFormat? engine.catalog,
        config.isKeyFormatEnabled inherited = true := by
  cases statement with
  | define definition =>
    simp only [Engine.plan] at h
    have henabled := planDefinition_enabled (annotated_eq_ok_iff.1 h) hcommand
    exact iff_of_true henabled fun inherited hnone => absurd hnone (Option.not_mem_none inherited)
  | write write =>
    rcases plan_write h with ⟨s, existing, rfl, -, hexisting, rfl⟩ | ⟨logical, query, -, hplanned⟩
    · cases hcommand
      rw [show engine.catalog.get? _ = some existing from hexisting] at hbusy
      cases hbusy
    · cases write with
      | insertInto insertion =>
        obtain ⟨destination, -, hnone, -⟩ := hplanned.command
        cases hnone.symm.trans hcommand
      | createAsSelect s =>
        rcases hplanned.keyFormat hcommand with
          ⟨hnone, first, hfirst, hsame⟩ | ⟨⟨name, hname⟩, henabled⟩
        · simp [Statement.inheritedKeyFormat?, hnone, hfirst, hsame]
        · simp [Statement.inheritedKeyFormat?, hname, henabled]
  | _ =>
    simp only [Engine.plan] at h
    cases annotated_eq_ok_iff.1 h

/-- The view on the users takes over their key format, which is enabled. -/
theorem view_keyFormat :
    ∃ plan creation, (Sample.populated.plan {} Sample.createView "CREATE ...;").1 = .ok plan ∧
      plan.command = some (.create creation) ∧
        ({} : Settings).isKeyFormatEnabled creation.keyFormat = true := by
  obtain ⟨plan, creation, hplan, hcommand, hbusy⟩ : ∃ plan creation,
      (Sample.populated.plan {} Sample.createView "CREATE ...;").1 = .ok plan ∧
        plan.command = some (.create creation) ∧ (CatalogCommand.create creation).isIdle
          (Sample.populated.catalog.get? creation.name) = false := ⟨_, _, rfl, rfl, rfl⟩
  exact ⟨plan, creation, hplan, hcommand,
    (keyFormat_enabled_iff hplan hcommand hbusy).2 (by decide +kernel)⟩

/-- In a session that disables the key format of the users, the view on them is planned with it all
the same. -/
theorem view_keyFormat_disabled :
    let config : Settings := { keyFormatsEnabled := .ofList [.json] }
    ∃ plan creation, (Sample.populated.plan config Sample.createView "CREATE ...;").1 = .ok plan ∧
      plan.command = some (.create creation) ∧ (CatalogCommand.create creation).isIdle
        (Sample.populated.catalog.get? creation.name) = false ∧
      config.isKeyFormatEnabled creation.keyFormat = false :=
  ⟨_, _, rfl, rfl, rfl, rfl⟩

end Engine

end StreamSql
