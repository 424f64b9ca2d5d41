import StreamSql.Proofs.Query.Sources

/-!
# Where the rows of a query go

A query that is planned for a sink writes it, and creates it if the sink is to be created. A sink
that is created takes its formats from the statement, or else from the source that the query names
first.
-/

namespace StreamSql

namespace Analysis

theorem destination_ok {sink : Sink} {first : Source} {catalog : Catalog} {config : Settings}
    {destination : Destination}
    (h : Analysis.destination sink first catalog config = .ok destination) :
    destination.into = sink.name ∧ destination.create = sink.create := by
  unfold Analysis.destination at h
  split at h
  next hcreate =>
    obtain ⟨_, -, h⟩ := bind_eq_ok_iff.1 h
    obtain ⟨_, -, h⟩ := bind_eq_ok_iff.1 h
    cases h
    exact ⟨rfl, hcreate.symm⟩
  next hcreate =>
    cases h
    exact ⟨rfl, (Bool.not_eq_true _ ▸ hcreate).symm⟩

theorem destination_keyFormat {sink : Sink} {first : Source} {catalog : Catalog} {config : Settings}
    {destination : Destination}
    (h : Analysis.destination sink first catalog config = .ok destination)
    (hcreate : sink.create = true) :
    Analysis.formatOr sink.properties.keyFormatName? first.keyFormat =
      .ok destination.keyFormat := by
  unfold Analysis.destination at h
  rw [if_pos hcreate] at h
  obtain ⟨keyFormat, hkeyFormat, h⟩ := bind_eq_ok_iff.1 h
  obtain ⟨_, -, h⟩ := bind_eq_ok_iff.1 h
  cases h
  exact hkeyFormat

theorem output_ok {a : Analysis} {first : Source} {input projected : ScopedPlan} {catalog : Catalog}
    {config : Settings} {output : Output} {sink : Sink}
    (h : a.output first input projected catalog config = .ok output) (hinto : a.into = some sink) :
    ∃ destination, output = .stored destination ∧
      Analysis.destination sink first catalog config = .ok destination := by
  unfold Analysis.output at h
  rw [hinto] at h
  obtain ⟨destination, hdestination, heq⟩ := bind_eq_ok_iff.1 (guarded_eq_ok_iff.1 h).2
  exact ⟨destination, (Except.ok.inj heq).symm, hdestination⟩

theorem plan_output {a : Analysis} {catalog : Catalog} {config : Settings} {logical : LogicalPlan}
    (h : a.plan catalog config = .ok logical) :
    ∃ first rest input projected, a.sources = first :: rest ∧
      a.output first.source input projected catalog config = .ok logical.output := by
  obtain ⟨-, hsources, -, -, -, -, houtput, -⟩ := plan_eq_ok_iff.1 h
  exact ⟨_, _, _, _, hsources, houtput⟩

end Analysis

theorem Query.plan_destination {query : Query} {sink : Sink} {catalog : Catalog} {config : Settings}
    {logical : LogicalPlan} (h : query.plan (some sink) catalog config = .ok logical) :
    ∃ destination first, logical.destination? = some destination ∧
      catalog.get? query.relation.first = some first ∧
      Analysis.destination sink first catalog config = .ok destination := by
  obtain ⟨a, ha, h⟩ := bind_eq_ok_iff.1 h
  obtain ⟨first, rest, input, projected, hsources, houtput⟩ := Analysis.plan_output h
  obtain ⟨destination, heq, hdestination⟩ := Analysis.output_ok houtput (Analysis.ofQuery_into ha)
  exact ⟨destination, first.source, by rw [LogicalPlan.destination?, heq],
    Analysis.first_reads ha hsources, hdestination⟩

theorem Query.plan_sinkName {query : Query} {into : Option Sink} {catalog : Catalog}
    {config : Settings} {logical : LogicalPlan}
    (h : query.plan into catalog config = .ok logical) :
    logical.sinkName? = into.map (·.name) := by
  cases into with
  | some sink =>
    obtain ⟨destination, first, hdestination, -, hformats⟩ := Query.plan_destination h
    rw [LogicalPlan.sinkName?, hdestination, Option.map_some, Option.map_some,
      (Analysis.destination_ok hformats).1]
  | none =>
    obtain ⟨a, ha, h⟩ := bind_eq_ok_iff.1 h
    obtain ⟨first, rest, input, projected, -, houtput⟩ := Analysis.plan_output h
    unfold Analysis.output at houtput
    rw [Analysis.ofQuery_into ha] at houtput
    rw [LogicalPlan.sinkName?, LogicalPlan.destination?, ← Except.ok.inj houtput]
    rfl

end StreamSql
