import StreamSql.Proofs.Catalog.Readers
import StreamSql.Proofs.Engine.Clients

/-!
# The writers of a sink

A `CREATE ... AS SELECT` is planned against the queries that run at that moment, and its query is
launched later, by its id alone. A sink gets a second such query only by a launch beside the first
(`OneWriter.step_iff`). A statement that asks for no id is planned only where no other query writes
its sink (`asked_or_alone`), so this takes an id that is asked for, or a writer that has come since.

The launch of a query terminates no other than the one with its id (`Terminates.launches`). Ids that
are not asked for keep sinks apart: a new one has a number of its own, and one that is taken over is
that of a query that writes the same sink (`Apart.planned`, `apart_after`).
-/

namespace StreamSql

namespace Clients

variable {x : Clients} {call : ClientCall} {c : Compiled} {s : CreateAsSelect} {query : QueryPlan}
  {sink : SourceName} {id : QueryId} {q : RunningQuery}

/-! ### One writer -/

/-- The query of an id writes the sink, and a `CREATE ... AS SELECT` has launched it. -/
def Fills (x : Clients) (sink : SourceName) (id : QueryId) : Prop :=
  ∃ q c s, x.engine.registry.get? id = some q ∧ q.sink = some sink ∧
    x.launched[q.launch]? = some c ∧ c.statement = .write (.createAsSelect s)

/-- No two such queries write the same sink. -/
def OneWriter (x : Clients) : Prop :=
  ∀ sink id other, x.Fills sink id → x.Fills sink other → id = other

/-- The call launches a query of a `CREATE ... AS SELECT` beside another one that fills the sink. -/
def Crowds (x : Clients) (call : ClientCall) : Prop :=
  ∃ c s query id, x.Launches call c ∧ c.statement = .write (.createAsSelect s) ∧
    c.plan.query = some query ∧ id ≠ query.id ∧ x.Fills s.name id

theorem fills_step_iff (hrecorded : x.Recorded) (h : x.Launches call c)
    (hquery : c.plan.query = some query) :
    (x.step call).Fills sink id ↔
      if id = query.id then ∃ s, c.statement = .write (.createAsSelect s) ∧ s.name = sink
      else x.Fills sink id := by
  obtain ⟨-, plan, running, hplan, hregistered, -⟩ := h.does
  obtain rfl : plan = query := Option.some.inj (hplan.symm.trans hquery)
  unfold Fills
  rw [hregistered.get?, h]
  split
  next =>
    have hlaunch : (x.launched ++ [c])[running.launch]? = some c := by
      rw [hregistered.launch_eq, ← hrecorded.length_launched, List.getElem?_concat_length]
    constructor
    · rintro ⟨q, source, s, hq, hsink, hsource, hstatement⟩
      cases hq
      obtain rfl := Option.some.inj (hlaunch.symm.trans hsource)
      refine ⟨s, hstatement, ?_⟩
      have hname := Compiled.sink_eq hquery hstatement
      rw [RunningQuery.sink, hregistered.plan_eq, hname] at hsink
      exact Option.some.inj hsink
    · rintro ⟨s, hstatement, rfl⟩
      refine ⟨running, c, s, rfl, ?_, hlaunch, hstatement⟩
      rw [RunningQuery.sink, hregistered.plan_eq]
      exact Compiled.sink_eq hquery hstatement
  next =>
    have hkept : ∀ q, x.engine.registry.get? id = some q →
        (x.launched ++ [c])[q.launch]? = x.launched[q.launch]? := by
      intro q hq
      obtain ⟨-, source, hsource, -⟩ := hrecorded.registered id q hq
      exact List.getElem?_append_left (List.getElem?_eq_some_iff.1 hsource).1
    constructor
    · rintro ⟨q, source, s, hq, hsink, hsource, hstatement⟩
      exact ⟨q, source, s, hq, hsink, hkept q hq ▸ hsource, hstatement⟩
    · rintro ⟨q, source, s, hq, hsink, hsource, hstatement⟩
      exact ⟨q, source, s, hq, hsink, (hkept q hq).trans hsource, hstatement⟩

/-- A sink stays with one writer exactly if the call does not launch another one beside it. -/
theorem OneWriter.step_iff (h : x.OneWriter) (hrecorded : x.Recorded) (call : ClientCall) :
    (x.step call).OneWriter ↔ ¬x.Crowds call := by
  rcases x.registry_of_not_launches call with ⟨c, hlaunches⟩ | ⟨hlaunched, hregistry⟩
  · obtain ⟨-, query, -, hquery, -⟩ := hlaunches.does
    have hfills : ∀ sink id, (x.step call).Fills sink id ↔
        if id = query.id then ∃ s, c.statement = .write (.createAsSelect s) ∧ s.name = sink
        else x.Fills sink id := fun _ _ => fills_step_iff hrecorded hlaunches hquery
    constructor
    · rintro hone ⟨source, s, plan, id, hsource, hstatement, hplan, hne, hother⟩
      obtain rfl : source = c := by simpa [Launches, hlaunches] using hsource.symm.trans hlaunches
      cases hquery.symm.trans hplan
      refine hne (hone s.name id query.id ?_ ?_)
      · rw [hfills, if_neg hne]
        exact hother
      · rw [hfills, if_pos rfl]
        exact ⟨s, hstatement, rfl⟩
    · intro hcrowds
      have halone : ∀ sink id, (x.step call).Fills sink query.id → (x.step call).Fills sink id →
          id = query.id := by
        intro sink id hnew hid
        by_contra hne
        rw [hfills, if_pos rfl] at hnew
        rw [hfills, if_neg hne] at hid
        obtain ⟨s, hstatement, rfl⟩ := hnew
        exact hcrowds ⟨c, s, query, id, hlaunches, hstatement, hquery, hne, hid⟩
      intro sink id other hid hother
      by_cases hnew : id = query.id
      · subst hnew
        exact (halone sink other hid hother).symm
      · by_cases hnewer : other = query.id
        · subst hnewer
          exact halone sink id hother hid
        · rw [hfills, if_neg hnew] at hid
          rw [hfills, if_neg hnewer] at hother
          exact h sink id other hid hother
  · have hsame : ∀ sink id, (x.step call).Fills sink id ↔ x.Fills sink id := by
      intro sink id
      rw [Fills, Fills, hlaunched, hregistry]
    refine iff_of_true ?_ ?_
    · intro sink id other hid hother
      exact h sink id other ((hsame _ _).1 hid) ((hsame _ _).1 hother)
    · rintro ⟨c, -, -, -, hlaunches, -⟩
      simp [Launches, hlaunched] at hlaunches

theorem oneWriter_start (config : Settings) (home : Endpoint) (placement : Option Placement)
    (interceptors : List Interceptor) : (start config home placement interceptors).OneWriter := by
  rintro sink id other ⟨q, -, -, hq, -⟩
  have hnone : none = some q := hq
  cases hnone

theorem asked_or_alone (hstatement : c.statement = .write (.createAsSelect s))
    (hquery : c.plan.query = some query) : QueryId.AskedBy (.createAsSelect s) query.id ∨
      ∀ writer ∈ c.engine.registry.writers s.name, writer.id = query.id := by
  obtain ⟨write, logical, hwrite, hplanned⟩ := Engine.plannedQuery c.planned hquery
  cases hstatement.symm.trans hwrite
  exact hplanned.allocated.asked_or_alone

/-! ### The ids of different sinks -/

/-- One of the planned statements asks for the id. -/
def Asked (plans : List Compiled) (id : QueryId) : Prop :=
  ∃ c ∈ plans, ∃ statement, c.statement = .write statement ∧ QueryId.AskedBy statement id

/-- Plans with the same id write the same sink unless the id is asked for. All other ids are
generated with numbers below `next`. -/
structure Apart (plans : List Compiled) (next : Nat) : Prop where
  origin : ∀ c ∈ plans, ∀ query, c.plan.query = some query → Asked plans query.id ∨
    query.id.Reserved ∧ ∃ number < next, query.id.Numbered number
  sink : ∀ c ∈ plans, ∀ other ∈ plans, ∀ query same, c.plan.query = some query →
    other.plan.query = some same → query.id = same.id → Asked plans query.id ∨
      query.sink = same.sink

variable {plans : List Compiled} {next : Nat}

theorem Asked.not_reserved (h : Asked plans id) : ¬id.Reserved := by
  obtain ⟨-, -, -, -, text, -, hexplicit⟩ := h
  exact QueryId.not_reserved_explicit hexplicit

theorem Asked.snoc (h : Asked plans id) (c : Compiled) : Asked (plans ++ [c]) id := by
  obtain ⟨source, hsource, hasked⟩ := h
  exact ⟨source, List.mem_append_left _ hsource, hasked⟩

theorem Apart.mono (h : Apart plans next) {later : Nat} (hle : next ≤ later) :
    Apart plans later where
  origin c hc query hquery := by
    refine (h.origin c hc query hquery).imp_right ?_
    rintro ⟨hreserved, number, hlt, hnumber⟩
    exact ⟨hreserved, number, Nat.lt_of_lt_of_le hlt hle, hnumber⟩
  sink := h.sink

theorem Apart.snoc (h : Apart plans next) (c : Compiled)
    (hc : ∀ query, c.plan.query = some query → Asked (plans ++ [c]) query.id ∨
      (query.id.Reserved ∧ ∃ number < next, query.id.Numbered number) ∧
        ∀ other ∈ plans, ∀ same, other.plan.query = some same → same.id = query.id →
          Asked plans same.id ∨ same.sink = query.sink) : Apart (plans ++ [c]) next where
  origin other hother query hquery := by
    rcases List.mem_append.1 hother with hold | hnew
    · exact (h.origin other hold query hquery).imp_left (·.snoc c)
    · obtain rfl := List.mem_singleton.1 hnew
      exact (hc query hquery).imp_right And.left
  sink first hfirst second hsecond query same hquery hsame heq := by
    have hnewer : ∀ other ∈ plans, ∀ old new, other.plan.query = some old →
        c.plan.query = some new → old.id = new.id →
          Asked (plans ++ [c]) old.id ∨ old.sink = new.sink := by
      intro other hother old new hold hnew hid
      rcases hc new hnew with hasked | ⟨-, hall⟩
      · exact .inl (hid ▸ hasked)
      · exact (hall other hother old hold hid).imp_left (·.snoc c)
    rcases List.mem_append.1 hfirst with hold | hnew <;>
      rcases List.mem_append.1 hsecond with holder | hlatest
    · exact (h.sink first hold second holder query same hquery hsame heq).imp_left (·.snoc c)
    · obtain rfl := List.mem_singleton.1 hlatest
      exact hnewer first hold query same hquery hsame heq
    · obtain rfl := List.mem_singleton.1 hnew
      exact (hnewer second holder same query hsame hquery heq.symm).imp (heq ▸ ·) Eq.symm
    · obtain rfl := List.mem_singleton.1 hnew
      obtain rfl := List.mem_singleton.1 hlatest
      cases hquery.symm.trans hsame
      exact .inr rfl

theorem toNat_succ {number : UInt64} (h : number.toNat + 1 < UInt64.size) :
    (number + 1).toNat = number.toNat + 1 := by
  rw [UInt64.toNat_add]
  exact Nat.mod_eq_of_lt h

theorem toNat_plan_nextNumber (engine : Engine) (config : Settings) (statement : Statement)
    (text : String) (hbound : engine.nextNumber.toNat + 1 < UInt64.size) :
    engine.nextNumber.toNat ≤ (engine.plan config statement text).2.nextNumber.toNat ∧
      (engine.plan config statement text).2.nextNumber.toNat ≤ engine.nextNumber.toNat + 1 := by
  rcases engine.plan_nextNumber config statement text with heq | heq
  · rw [heq]
    omega
  · rw [heq, toNat_succ hbound]
    omega

theorem Apart.planned (h : Apart plans c.engine.nextNumber.toNat)
    (hbound : c.engine.nextNumber.toNat + 1 < UInt64.size)
    (hregistered : ∀ id writer, c.engine.registry.get? id = some writer →
      ∃ source ∈ plans, source.plan.query = some writer.plan) :
    Apart (plans ++ [c]) (c.engine.plan c.config c.statement c.text).2.nextNumber.toNat := by
  refine (h.mono (toNat_plan_nextNumber _ _ _ _ hbound).1).snoc c fun query hquery => ?_
  obtain ⟨write, logical, hstatement, hplanned⟩ := Engine.plannedQuery c.planned hquery
  have hallocated := hplanned.allocated
  have hsink := hplanned.sink
  rw [hstatement]
  generalize (c.engine.plan c.config (.write write) c.text).2.nextNumber = after at hallocated ⊢
  generalize query.id = id at hallocated ⊢
  cases hallocated with
  | asked hasked =>
    exact .inl ⟨c, List.mem_append_right _ List.mem_cons_self, write, hstatement, hasked⟩
  | fresh _ hreserved hnumber =>
    have hlt : c.engine.nextNumber.toNat < (c.engine.nextNumber + 1).toNat := by
      rw [toNat_succ hbound]
      exact Nat.lt_succ_self _
    refine .inr ⟨⟨hreserved, _, hlt, hnumber⟩, ?_⟩
    rintro other hother same hsame rfl
    rcases h.origin other hother same hsame with hasked | ⟨-, number, hless, hold⟩
    · exact absurd hreserved hasked.not_reserved
    · rw [hold.unique hnumber] at hless
      exact absurd hless (Nat.lt_irrefl _)
  | @takenOver s writer _ hwrite _ hwriters =>
    obtain ⟨⟨id, hget⟩, hwriter⟩ := Registry.mem_writers_iff.1 (hwriters ▸ List.mem_cons_self)
    obtain ⟨source, hsource, hplan⟩ := hregistered id writer hget
    rcases h.origin source hsource writer.plan hplan with hasked | hnumbered
    · exact .inl (hasked.snoc c)
    · refine .inr ⟨hnumbered, fun other hother same hsame heq => ?_⟩
      refine (h.sink other hother source hsource same writer.plan hsame hplan heq).imp_right ?_
      intro hsame
      rw [hsink, hwrite]
      exact hsame.trans hwriter

theorem apart_step (h : Apart x.compiled x.engine.nextNumber.toNat) (hrecorded : x.Recorded)
    (hbound : x.engine.nextNumber.toNat + 1 < UInt64.size) (call : ClientCall) :
    Apart (x.step call).compiled (x.step call).engine.nextNumber.toNat ∧
      (x.step call).engine.nextNumber.toNat ≤ x.engine.nextNumber.toNat + 1 := by
  have hstepped := x.stepped call
  generalize x.step call = next at hstepped
  cases hstepped with
  | planned c hengine =>
    have hregistered : ∀ id writer, c.engine.registry.get? id = some writer →
        ∃ source ∈ x.compiled, source.plan.query = some writer.plan := by
      intro id writer hget
      obtain ⟨-, source, hsource, hplan⟩ := hrecorded.registered id writer (hengine ▸ hget)
      exact ⟨source, hrecorded.compiled source (List.mem_of_getElem? hsource), hplan⟩
    rw [← hengine] at h hbound ⊢
    exact ⟨h.planned hbound hregistered, (toNat_plan_nextNumber _ _ _ _ hbound).2⟩
  | refused config statement text =>
    have hnumber := toNat_plan_nextNumber x.engine config statement text hbound
    exact ⟨h.mono hnumber.1, hnumber.2⟩
  | missing => exact ⟨h, Nat.le_succ _⟩
  | @unlaunched _ _ _ _ _ next _ hexecuted _ =>
    have hnumber : next.nextNumber = x.engine.nextNumber := hexecuted.nextNumber_eq
    rw [hnumber]
    exact ⟨h, Nat.le_succ _⟩
  | launched => exact ⟨h, Nat.le_succ _⟩

theorem apart_after (config : Settings) (home : Endpoint) (placement : Option Placement)
    (interceptors : List Interceptor) {calls : List ClientCall}
    (hcount : calls.length < UInt64.size) :
    let x := (start config home placement interceptors).after calls
    Apart x.compiled x.engine.nextNumber.toNat ∧ x.engine.nextNumber.toNat ≤ calls.length := by
  induction calls using List.reverseRecOn with
  | nil =>
    exact ⟨⟨fun _ hc => absurd hc List.not_mem_nil, fun _ hc => absurd hc List.not_mem_nil⟩,
      Nat.le_refl 0⟩
  | append_singleton calls call ih =>
    rw [List.length_append, List.length_singleton] at hcount ⊢
    obtain ⟨hapart, hnumber⟩ := ih (Nat.lt_of_succ_lt hcount)
    have hbound := Nat.lt_of_le_of_lt (Nat.succ_le_succ hnumber) hcount
    have hrecorded := recorded config home placement interceptors calls
    obtain ⟨hnext, hless⟩ := apart_step hapart hrecorded hbound call
    rw [after_snoc]
    exact ⟨hnext, Nat.le_trans hless (Nat.succ_le_succ hnumber)⟩

/-! ### Terminated queries -/

/-- The query is registered before the call and not afterwards. -/
def Terminates (x : Clients) (call : ClientCall) (q : RunningQuery) : Prop :=
  x.engine.registry.get? q.id = some q ∧ (x.step call).engine.registry.get? q.id ≠ some q

theorem Terminates.launches (h : x.Terminates call q) :
    ∃ c query, x.Launches call c ∧ c.plan.query = some query ∧ query.orReplace = true ∧
      q.id = query.id ∧
      (x.step call).engine.registry.retired = q.terminate :: x.engine.registry.retired := by
  obtain ⟨hbefore, hafter⟩ := h
  rcases x.registry_of_not_launches call with ⟨c, hlaunches⟩ | ⟨-, hregistry⟩
  · obtain ⟨-, query, running, hquery, hregistered, -⟩ := hlaunches.does
    have hid : q.id = query.id := by
      by_contra hne
      rw [hregistered.get?, if_neg hne] at hafter
      exact hafter hbefore
    rw [hid] at hbefore
    refine ⟨c, query, hlaunches, hquery, hregistered.replaces (by rw [hbefore]; rfl), hid, ?_⟩
    rw [hregistered.retired, hbefore]
    rfl
  · rw [hregistry] at hafter
    exact absurd hbefore hafter

theorem terminates_of_launch (hrecorded : Recorded x) (hq : x.engine.registry.get? id = some q)
    {launch : Nat} (hnext : ((x.step call).engine.registry.get? id).map (·.launch) = some launch)
    (hne : q.launch ≠ launch) : x.Terminates call q := by
  obtain rfl := (hrecorded.registered id q hq).1
  refine ⟨hq, fun h => hne ?_⟩
  rw [h] at hnext
  exact Option.some.inj hnext

/-- A terminated query writes the sink of the query that takes its place, unless the id of the two
is asked for. -/
theorem Terminates.sink_eq (h : x.Terminates call q) (hrecorded : x.Recorded)
    (hapart : Apart x.compiled next) (hlaunches : x.Launches call c)
    (hquery : c.plan.query = some query) : q.sink = query.sink ∨ Asked x.compiled q.id := by
  obtain ⟨source, plan, hsource, hplan, -, hid, -⟩ := h.launches
  obtain rfl : source = c := by simpa [Launches, hlaunches] using hsource.symm.trans hlaunches
  cases hquery.symm.trans hplan
  obtain ⟨hmem, -⟩ := hlaunches.does
  obtain ⟨-, old, hold, horigin⟩ := hrecorded.registered q.id q h.1
  exact (hapart.sink old (hrecorded.compiled old (List.mem_of_getElem? hold)) source hmem q.plan
    query horigin hquery hid).symm

/-! ### All together -/

/-- What is certain about the queries of `CREATE ... AS SELECT` statements. -/
structure WriterRules (start : Clients) (calls : List ClientCall) : Prop where
  /-- Every sink has at most one of them at all times exactly if none is launched beside another. -/
  single_iff : (∀ earlier, earlier <+: calls → (start.after earlier).OneWriter) ↔
    ∀ earlier call, earlier ++ [call] <+: calls → ¬(start.after earlier).Crowds call
  /-- When a statement that asks for no id is planned, no query writes the sink but the one whose id
  it gets. -/
  alone : ∀ c ∈ (start.after calls).compiled, ∀ s query, c.statement = .write (.createAsSelect s) →
    c.plan.query = some query → QueryId.AskedBy (.createAsSelect s) query.id ∨
      ∀ writer ∈ c.engine.registry.writers s.name, writer.id = query.id
  /-- So every sink has at most one at all times if no statement asks for an id and no sink gets a
  further writer between the planning of a statement and its launch. -/
  single : (∀ earlier call c s, earlier ++ [call] <+: calls →
      (start.after earlier).Launches call c → c.statement = .write (.createAsSelect s) →
        s.properties.queryId = none ∧ ∀ id, (start.after earlier).Fills s.name id →
          ∃ writer ∈ c.engine.registry.writers s.name, writer.id = id) →
    ∀ earlier, earlier <+: calls → (start.after earlier).OneWriter
  /-- A query is terminated only by the launch of one with its id that may replace it. As long as
  the numbers for ids last, that one writes the same sink, unless a statement has asked for the
  id. -/
  terminated : ∀ call q, (start.after calls).Terminates call q →
    ∃ c query, (start.after calls).Launches call c ∧ c.plan.query = some query ∧
      query.orReplace = true ∧ q.id = query.id ∧
      ((start.after calls).step call).engine.registry.retired =
        q.terminate :: (start.after calls).engine.registry.retired ∧
      (calls.length < UInt64.size → q.sink = query.sink ∨ Asked (start.after calls).compiled q.id)

theorem not_asked (hstatement : s.properties.queryId = none) (id : QueryId) :
    ¬QueryId.AskedBy (.createAsSelect s) id := by
  rintro ⟨text, htext, -⟩
  cases hstatement.symm.trans htext

/-- **A sink has one `CREATE ... AS SELECT` query, unless ids are asked for or plans are outdated.**
-/
theorem writer_rules (config : Settings) (home : Endpoint) (placement : Option Placement)
    (interceptors : List Interceptor) (calls : List ClientCall) :
    WriterRules (start config home placement interceptors) calls := by
  have hrecorded := recorded config home placement interceptors
  have hsingle : (∀ earlier, earlier <+: calls →
      ((start config home placement interceptors).after earlier).OneWriter) ↔
        ∀ earlier call, earlier ++ [call] <+: calls →
          ¬((start config home placement interceptors).after earlier).Crowds call := by
    refine Catalog.forall_prefix_iff
      (oneWriter_start config home placement interceptors) (fun earlier call h => ?_) calls
    rw [after_snoc]
    exact h.step_iff (hrecorded earlier) call
  refine ⟨hsingle, ?_, ?_, ?_⟩
  · exact fun c _ s query hstatement hquery => asked_or_alone hstatement hquery
  · intro hall
    refine hsingle.2 fun earlier call hpart => ?_
    rintro ⟨c, s, query, id, hlaunches, hstatement, hquery, hne, hfills⟩
    obtain ⟨hquiet, hwriters⟩ := hall earlier call c s hpart hlaunches hstatement
    obtain ⟨writer, hwriter, rfl⟩ := hwriters id hfills
    rcases asked_or_alone hstatement hquery with hasked | halone
    · exact not_asked hquiet query.id hasked
    · exact hne (halone writer hwriter)
  · intro call q hterminates
    obtain ⟨c, query, hlaunches, hquery, hreplaces, hid, hretired⟩ := hterminates.launches
    refine ⟨c, query, hlaunches, hquery, hreplaces, hid, hretired, fun hcount => ?_⟩
    have hapart := (apart_after config home placement interceptors hcount).1
    exact hterminates.sink_eq (hrecorded calls) hapart hlaunches hquery

end Clients

/-- `CREATE [OR REPLACE] TABLE name [WITH (QUERY_ID = 'id')] AS SELECT * FROM USERS`. -/
def Sample.copyUsers (name : String) (id : Option String) (orReplace : Bool) : Statement :=
  .write (.createAsSelect {
    CreateAsSelect.plain name .table (.selectAll (.source ⟨"USERS"⟩ none)) with
    properties := { queryId := id }
    orReplace })

namespace Clients

/-- A view on the users that is replaced: its query makes way for another that writes the view. -/
theorem replaced_view_writers :
    let x := (start {} Sample.localhost none []).after
      (Sample.inTurn Sample.createUsers 0 ++ Sample.inTurn Sample.createView 1 ++
        [.plan {} (Sample.copyUsers "USERS_VIEW" none true) "CREATE OR REPLACE ...;"])
    ∃ q, x.Terminates (.execute .memory {} 2) q ∧ q.sink = some Sample.view ∧
      ∃ c query, x.Launches (.execute .memory {} 2) c ∧ c.plan.query = some query ∧
        (q.sink = query.sink ∨ Asked x.compiled q.id) := by
  intro x
  obtain ⟨q, hq, hlaunch, hsink⟩ : ∃ q, x.engine.registry.get? ⟨"CTAS_USERS_VIEW_0"⟩ = some q ∧
      q.launch = 0 ∧ q.sink = some Sample.view := ⟨_, rfl, rfl, rfl⟩
  have hnext : ((x.step (.execute .memory {} 2)).engine.registry.get? ⟨"CTAS_USERS_VIEW_0"⟩).map
      (·.launch) = some 1 := rfl
  have hterminates : x.Terminates (.execute .memory {} 2) q :=
    terminates_of_launch (recorded {} Sample.localhost none [] _) hq hnext (by omega)
  obtain ⟨c, query, hlaunches, hquery, -, -, -, hsame⟩ :=
    (writer_rules {} Sample.localhost none [] _).terminated _ q hterminates
  exact ⟨q, hterminates, hsink, c, query, hlaunches, hquery, hsame (by decide)⟩

/-- Three runs. Where statements ask for ids, a sink gets a second writer, and a query is terminated
by the launch of one that writes another sink. Where two statements for the same sink are planned
before either is executed, both queries are launched. -/
theorem crowded_sinks :
    let run (calls : List ClientCall) := (start {} Sample.localhost none []).after
      (Sample.inTurn Sample.createUsers 0 ++ calls)
    let asked := run (Sample.inTurn (Sample.copyUsers "V" (some "A") false) 1 ++
      Sample.inTurn (Sample.copyUsers "V" (some "B") true) 2)
    let moved := run (Sample.inTurn (Sample.copyUsers "V" (some "A") false) 1 ++
      [.plan {} (Sample.copyUsers "W" (some "A") true) "CREATE ...;"])
    let outdated := run [.plan {} (Sample.copyUsers "V" none false) "CREATE ...;",
      .plan {} (Sample.copyUsers "V" none true) "CREATE ...;", .execute .memory {} 1,
      .execute .memory {} 2]
    ¬asked.OneWriter ∧
      (∃ q c query, moved.Terminates (.execute .memory {} 2) q ∧
        moved.Launches (.execute .memory {} 2) c ∧ c.plan.query = some query ∧
          q.sink ≠ query.sink) ∧
      ¬outdated.OneWriter := by
  intro run asked moved outdated
  refine ⟨fun hone => ?_, ?_, fun hone => ?_⟩
  · have hfirst : asked.Fills ⟨"V"⟩ ⟨"A"⟩ := ⟨_, _, _, rfl, rfl, rfl, rfl⟩
    have hsecond : asked.Fills ⟨"V"⟩ ⟨"B"⟩ := ⟨_, _, _, rfl, rfl, rfl, rfl⟩
    exact absurd (hone _ _ _ hfirst hsecond) (by decide)
  · obtain ⟨q, hq, hlaunch, hsink⟩ : ∃ q, moved.engine.registry.get? ⟨"A"⟩ = some q ∧
      q.launch = 0 ∧ q.sink = some ⟨"V"⟩ := ⟨_, rfl, rfl, rfl⟩
    have hnext : ((moved.step (.execute .memory {} 2)).engine.registry.get? ⟨"A"⟩).map
        (·.launch) = some 1 := rfl
    have hrecorded : moved.Recorded := recorded {} Sample.localhost none [] _
    refine ⟨q, _, _, terminates_of_launch hrecorded hq hnext (by omega), rfl, rfl, ?_⟩
    rw [hsink]
    exact fun h => absurd (Option.some.inj h) (by decide)
  · have hfirst : outdated.Fills ⟨"V"⟩ ⟨"CTAS_V_0"⟩ := ⟨_, _, _, rfl, rfl, rfl, rfl⟩
    have hsecond : outdated.Fills ⟨"V"⟩ ⟨"CTAS_V_1"⟩ := ⟨_, _, _, rfl, rfl, rfl, rfl⟩
    exact absurd (hone _ _ _ hfirst hsecond) (by decide)

end Clients

end StreamSql
