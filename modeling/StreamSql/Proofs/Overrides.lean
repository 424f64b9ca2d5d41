import Mathlib.Data.List.Induction
import Mathlib.Data.List.Nodup
import StreamSql.Config
import StreamSql.Proofs.Results
import StreamSql.Proofs.Sorted
import StreamSql.Proofs.Text

/-!
# Overrides

What a session makes of the properties that it overrides. An override is admitted or refused without
a look at the settings so far (`Session.admitted`), so checking all overrides comes ahead of putting
any of them in (`Session.effective_eq`), and different properties do not get in each other's way
(`Settings.get_set`). Of a sequence of overrides only the last text for each property counts
(`Session.effective_overridden`).
-/

namespace StreamSql

/-! ### Settings by property -/

namespace Property

theorem ofName?_eq_some_iff {name : String} {property : Property} :
    ofName? name = some property ↔ property.name = name := by
  constructor
  · intro h
    have hname := List.find?_some h
    exact beq_iff_eq.1 hname
  · rintro rfl
    cases property <;> rfl

theorem name_injective {a b : Property} (h : a.name = b.name) : a = b :=
  Option.some.inj ((ofName?_eq_some_iff.2 h).symm.trans (ofName?_eq_some_iff.2 rfl))

theorem ofName?_eq_none_iff {name : String} :
    ofName? name = none ↔ ∀ property : Property, property.name ≠ name := by
  simp only [Option.eq_none_iff_forall_ne_some, ne_eq, ofName?_eq_some_iff]

end Property

namespace Setting

/-- The property that the setting is for. -/
def property : Setting → Property
  | serviceId _ => .serviceId
  | createOrReplaceEnabled _ => .createOrReplaceEnabled
  | keyFormatsEnabled _ => .keyFormatsEnabled
  | defaultKeyFormat _ => .defaultKeyFormat
  | defaultValueFormat _ => .defaultValueFormat
  | pullTableScanEnabled _ => .pullTableScanEnabled
  | pullForwardTimeout _ => .pullForwardTimeout
  | materializationPartitions _ => .materializationPartitions

variable {property : Property} {value : String} {setting : Setting}

theorem property_of_ofText? (h : ofText? property value = some setting) :
    setting.property = property := by
  cases property <;> simp only [ofText?, Option.map_eq_some_iff, Option.some.injEq] at h
  case serviceId => exact h ▸ rfl
  all_goals
    obtain ⟨_, -, rfl⟩ := h
    rfl

theorem ne_of_ofText? (h : ofText? property value = some setting) :
    setting ≠ materializationPartitions 0 := by
  rintro rfl
  obtain rfl : Property.materializationPartitions = property := property_of_ofText? h
  simp only [ofText?, Option.map_eq_some_iff, Option.filter_eq_some_iff] at h
  obtain ⟨_, ⟨-, hpos⟩, ⟨⟩⟩ := h
  cases hpos

theorem read_eq_ok_iff {name : String} :
    read name value = .ok setting ↔
      ∃ property : Property, property.name = name ∧ ofText? property value = some setting := by
  simp only [← Property.ofName?_eq_some_iff, read]
  cases Property.ofName? name with
  | none => simp
  | some property => cases h : ofText? property value <;> simp [h]

theorem read_eq_error_iff {name : String} {e : ConfigError} : read name value = .error e ↔
    (∀ property : Property, property.name ≠ name) ∧ e = .unknown name ∨
      ∃ property : Property, property.name = name ∧ ofText? property value = none ∧
        e = .invalidValue name value (expected property) := by
  simp only [← Property.ofName?_eq_some_iff, ← Property.ofName?_eq_none_iff, read]
  cases Property.ofName? name with
  | none => simp [eq_comm]
  | some property => cases h : ofText? property value <;> simp [h, eq_comm]

end Setting

namespace Settings

/-- The setting that is in force for a property. -/
def get (config : Settings) : Property → Setting
  | .serviceId => .serviceId config.serviceId
  | .createOrReplaceEnabled => .createOrReplaceEnabled config.createOrReplaceEnabled
  | .keyFormatsEnabled => .keyFormatsEnabled config.keyFormatsEnabled
  | .defaultKeyFormat => .defaultKeyFormat config.defaultKeyFormat
  | .defaultValueFormat => .defaultValueFormat config.defaultValueFormat
  | .pullTableScanEnabled => .pullTableScanEnabled config.pullTableScanEnabled
  | .pullForwardTimeout => .pullForwardTimeout config.pullForwardTimeout
  | .materializationPartitions => .materializationPartitions config.materializationPartitions

theorem get_set {setting : Setting} (h : setting ≠ .materializationPartitions 0)
    (config : Settings) (property : Property) :
    (config.set setting).get property =
      if property = setting.property then setting else config.get property := by
  cases setting with
  | materializationPartitions count =>
    have hcount : max count 1 = count := Nat.max_eq_left (by grind)
    cases property <;> simp [set, get, Setting.property, hcount]
  | _ => cases property <;> simp [set, get, Setting.property]

theorem immutableProperties_set (config : Settings) (setting : Setting) :
    (config.set setting).immutableProperties = config.immutableProperties := by
  cases setting <;> rfl

/-! ### Several settings -/

theorem immutableProperties_foldl_set (settings : List Setting) (config : Settings) :
    (settings.foldl set config).immutableProperties = config.immutableProperties := by
  induction settings generalizing config with
  | nil => rfl
  | cons setting rest ih => rw [List.foldl_cons, ih, immutableProperties_set]

theorem get_foldl_set_of_ne {property : Property} {settings : List Setting}
    (hreadable : ∀ setting ∈ settings, setting ≠ .materializationPartitions 0)
    (h : ∀ setting ∈ settings, setting.property ≠ property) (config : Settings) :
    (settings.foldl set config).get property = config.get property := by
  induction settings generalizing config with
  | nil => rfl
  | cons setting rest ih =>
    obtain ⟨hsetting, hrest⟩ := List.forall_mem_cons.1 h
    obtain ⟨hpos, hreadable⟩ := List.forall_mem_cons.1 hreadable
    rw [List.foldl_cons, ih hreadable hrest, get_set hpos, if_neg (Ne.symm hsetting)]

theorem get_foldl_set_of_mem {setting : Setting} {settings : List Setting}
    (hreadable : ∀ setting ∈ settings, setting ≠ .materializationPartitions 0)
    (hnodup : (settings.map Setting.property).Nodup) (h : setting ∈ settings)
    (config : Settings) : (settings.foldl set config).get setting.property = setting := by
  induction settings generalizing config with
  | nil => cases h
  | cons first rest ih =>
    obtain ⟨hpos, hothers⟩ := List.forall_mem_cons.1 hreadable
    obtain ⟨hfirst, hrest⟩ := List.nodup_cons.1 hnodup
    rw [List.foldl_cons]
    rcases List.mem_cons.1 h with rfl | hmem
    · rw [get_foldl_set_of_ne hothers, get_set hpos, if_pos rfl]
      intro other hother hsame
      exact hfirst (List.mem_map.2 ⟨other, hother, hsame⟩)
    · exact ih hothers hrest hmem _

end Settings

/-! ### Sessions -/

namespace Session

variable {base config : Settings} {name value : String} {e : ConfigError}

/-- Why an override is refused. That a property is immutable comes first. -/
inductive Refused (base : Settings) (name value : String) : ConfigError → Prop
  | immutable (h : base.isImmutable name = true) : Refused base name value (.immutable name)
  | unknown (hmutable : base.isImmutable name = false)
      (h : ∀ property : Property, property.name ≠ name) : Refused base name value (.unknown name)
  | invalidValue {property : Property} (hmutable : base.isImmutable name = false)
      (hname : property.name = name) (h : Setting.ofText? property value = none) :
      Refused base name value (.invalidValue name value (Setting.expected property))

/-- The setting that an override puts in. The settings so far have no part in it. -/
def admitted (base : Settings) (override : String × String) : Except ConfigError Setting :=
  if base.isImmutable override.1 then .error (.immutable override.1)
  else Setting.read override.1 override.2

theorem admitted_eq_ok_iff {setting : Setting} : admitted base (name, value) = .ok setting ↔
    base.isImmutable name = false ∧ ∃ property : Property, property.name = name ∧
      Setting.ofText? property value = some setting := by
  rw [admitted, ← Setting.read_eq_ok_iff]
  cases base.isImmutable name <;> simp

theorem admitted_eq_error_iff :
    admitted base (name, value) = .error e ↔ Refused base name value e := by
  cases himmutable : base.isImmutable name with
  | true =>
    simp only [admitted, himmutable, if_true, Except.error.injEq]
    constructor
    · rintro rfl
      exact .immutable himmutable
    · rintro (_ | ⟨hmutable, _⟩ | ⟨hmutable, _, _⟩)
      · rfl
      all_goals cases himmutable.symm.trans hmutable
  | false =>
    simp only [admitted, himmutable, Bool.false_eq_true, if_false, Setting.read_eq_error_iff]
    constructor
    · rintro (⟨hunknown, rfl⟩ | ⟨property, hname, hvalue, rfl⟩)
      · exact .unknown himmutable hunknown
      · exact .invalidValue himmutable hname hvalue
    · rintro (himmutable' | ⟨_, hunknown⟩ | ⟨_, hname, hvalue⟩)
      · cases himmutable.symm.trans himmutable'
      · exact .inl ⟨hunknown, rfl⟩
      · exact .inr ⟨_, hname, hvalue, rfl⟩

theorem effective_eq (session : Session) : session.effective =
    (fun settings => settings.foldl Settings.set session.base) <$>
      session.overrides.entries.mapM (admitted session.base) := by
  rw [effective, ← foldlM_map_eq]
  congr 1
  funext config override
  simp only [apply, admitted]
  cases session.base.isImmutable override.1 <;> rfl

variable {session : Session}

theorem mem_overrides_iff : (name, value) ∈ session.overrides.entries ↔
    session.overrides.get? name = some value :=
  SortedMap.mem_entries_iff _ name value

theorem effective_eq_ok_iff : session.effective = .ok config ↔ ∃ settings,
    List.Forall₂ (fun override setting => admitted session.base override = .ok setting)
      session.overrides.entries settings ∧ settings.foldl Settings.set session.base = config := by
  rw [effective_eq]
  simp only [← mapM_eq_ok_iff]
  cases session.overrides.entries.mapM (admitted session.base) <;> simp

theorem effective_eq_error_iff : session.effective = .error e ↔
    session.overrides.entries.mapM (admitted session.base) = .error e := by
  rw [effective_eq]
  cases session.overrides.entries.mapM (admitted session.base) <;> simp

theorem exists_effective_iff : (∃ config, session.effective = .ok config) ↔
    ∀ name value, session.overrides.get? name = some value →
      session.base.isImmutable name = false ∧ ∃ property : Property, property.name = name ∧
        ∃ setting, Setting.ofText? property value = some setting := by
  have hall : (∃ config, session.effective = .ok config) ↔
      ∀ override ∈ session.overrides.entries,
        ∃ setting, admitted session.base override = .ok setting := by
    rw [← exists_mapM_eq_ok_iff]
    simp only [effective_eq_ok_iff, mapM_eq_ok_iff]
    exact ⟨fun ⟨_, settings, h, _⟩ => ⟨settings, h⟩, fun ⟨settings, h⟩ => ⟨_, settings, h, rfl⟩⟩
  rw [hall, Prod.forall]
  simp only [mem_overrides_iff, admitted_eq_ok_iff]
  exact forall_congr' fun name => forall_congr' fun value => forall_congr' fun _ => by grind

theorem get_effective (h : session.effective = .ok config) :
    config.immutableProperties = session.base.immutableProperties ∧ ∀ property : Property,
      match session.overrides.get? property.name with
      | some value => Setting.ofText? property value = some (config.get property)
      | none => config.get property = session.base.get property := by
  obtain ⟨settings, hsettings, rfl⟩ := effective_eq_ok_iff.1 h
  -- each override has its setting, and each setting is that of an override
  have hread : ∀ {name value setting}, admitted session.base (name, value) = .ok setting →
      setting.property.name = name ∧ Setting.ofText? setting.property value = some setting := by
    intro name value setting hadmitted
    obtain ⟨-, property, rfl, htext⟩ := admitted_eq_ok_iff.1 hadmitted
    obtain rfl := Setting.property_of_ofText? htext
    exact ⟨rfl, htext⟩
  have hreadable : ∀ setting ∈ settings, setting ≠ .materializationPartitions 0 := by
    intro setting hmem
    obtain ⟨⟨name, value⟩, -, hadmitted⟩ := exists_of_mem_right hsettings hmem
    exact Setting.ne_of_ofText? (hread hadmitted).2
  have hnodup : (settings.map Setting.property).Nodup := by
    have hnames : session.overrides.keys = settings.map (·.property.name) :=
      map_eq_map_iff_forall₂.2 (hsettings.imp fun _ _ hadmitted => (hread hadmitted).1.symm)
    refine List.Nodup.of_map Property.name ?_
    rw [List.map_map]
    exact hnames ▸ session.overrides.nodup_keys
  refine ⟨Settings.immutableProperties_foldl_set _ _, fun property => ?_⟩
  split
  next value hvalue =>
    obtain ⟨setting, hmem, hadmitted⟩ := exists_of_mem_left hsettings (mem_overrides_iff.2 hvalue)
    obtain ⟨hname, htext⟩ := hread hadmitted
    obtain rfl := Property.name_injective hname
    rw [Settings.get_foldl_set_of_mem hreadable hnodup hmem, htext]
  next hnone =>
    refine Settings.get_foldl_set_of_ne hreadable (fun setting hmem hsame => ?_) _
    obtain ⟨⟨name, value⟩, hentry, hadmitted⟩ := exists_of_mem_right hsettings hmem
    obtain ⟨rfl, -⟩ := hread hadmitted
    rw [hsame, mem_overrides_iff, hnone] at hentry
    cases hentry

/-- The first override that is refused, in the order of the properties, is the one reported. -/
theorem refused_of_effective (h : session.effective = .error e) : ∃ name value,
    session.overrides.get? name = some value ∧ Refused session.base name value e ∧
      ∀ other text cause, session.overrides.get? other = some text →
        Refused session.base other text cause → name ≤ other := by
  obtain ⟨before, ⟨name, value⟩, after, hentries, hbefore, hrefused⟩ :=
    mapM_eq_error_iff.1 (effective_eq_error_iff.1 h)
  have hascending := session.overrides.ascending
  have hmem : (name, value) ∈ session.overrides.entries := by simp [hentries]
  refine ⟨name, value, mem_overrides_iff.1 hmem, admitted_eq_error_iff.1 hrefused, ?_⟩
  intro other text cause hother hrefused'
  rw [← mem_overrides_iff, hentries, List.mem_append, List.mem_cons] at hother
  rw [hentries] at hascending
  rcases hother with hmem | heq | hmem
  · obtain ⟨setting, hadmitted⟩ := hbefore _ hmem
    cases hadmitted.symm.trans (admitted_eq_error_iff.2 hrefused')
  · cases heq
    exact String.le_refl _
  · have hlt := (List.pairwise_cons.1 (List.pairwise_append.1 hascending).2.1).1 _ hmem
    exact Std.le_of_lt (compareOfLessAndEq_eq_lt.1 hlt)

/-! ### Overriding one property after the other -/

/-- The session after some overrides, one after the other. -/
def overridden (base : Settings) (calls : List (String × String)) : Session :=
  calls.foldl (fun session call => session.override call.1 call.2) { base }

/-- The text that a property was overridden with last. -/
def finalValue? (calls : List (String × String)) (name : String) : Option String :=
  ((calls.filter (·.1 = name)).getLast?).map (·.2)

theorem eq_of_overrides {a b : Session} (hbase : a.base = b.base)
    (hoverrides : a.overrides = b.overrides) : a = b := by
  cases a
  cases b
  cases hbase
  cases hoverrides
  rfl

theorem base_overridden (base : Settings) (calls : List (String × String)) :
    (overridden base calls).base = base := by
  induction calls using List.reverseRecOn with
  | nil => rfl
  | append_singleton earlier call ih => simpa [overridden, override] using ih

theorem overrides_overridden (base : Settings) (calls : List (String × String)) (name : String) :
    (overridden base calls).overrides.get? name = finalValue? calls name := by
  induction calls using List.reverseRecOn with
  | nil => rfl
  | append_singleton earlier call ih =>
    rw [overridden, List.foldl_concat, override, SortedMap.lookup_insert, finalValue?,
      List.filter_append]
    by_cases h : call.1 = name
    · simp [h]
    · simpa [h, Ne.symm h, overridden, finalValue?] using ih

/-- **Overrides have one effect in every order.** -/
theorem effective_overridden (base : Settings) (calls : List (String × String)) :
    let session := overridden base calls
    ((∃ config, session.effective = .ok config) ↔
      ∀ name value, finalValue? calls name = some value →
        base.isImmutable name = false ∧ ∃ property : Property, property.name = name ∧
          ∃ setting, Setting.ofText? property value = some setting) ∧
    (∀ config, session.effective = .ok config →
      config.immutableProperties = base.immutableProperties ∧ ∀ property : Property,
        match finalValue? calls property.name with
        | some value => Setting.ofText? property value = some (config.get property)
        | none => config.get property = base.get property) ∧
    (∀ e, session.effective = .error e → ∃ name value,
      finalValue? calls name = some value ∧ Refused base name value e ∧
        ∀ other text cause, finalValue? calls other = some text →
          Refused base other text cause → Text.bytes name ≤ Text.bytes other) ∧
    ∀ others, (∀ name, finalValue? others name = finalValue? calls name) →
      (overridden base others).effective = session.effective := by
  intro session
  have hbase : session.base = base := base_overridden base calls
  have hfinal : ∀ name, session.overrides.get? name = finalValue? calls name :=
    overrides_overridden base calls
  refine ⟨?_, fun config h => ?_, fun e h => ?_, fun others h => ?_⟩
  · have hadmitted : (∃ config, session.effective = .ok config) ↔ _ := exists_effective_iff
    simpa only [hbase, hfinal] using hadmitted
  · simpa only [hbase, hfinal] using get_effective h
  · simpa only [hbase, hfinal, Text.bytes_le_bytes_iff] using refused_of_effective h
  · have hoverrides : (overridden base others).overrides = session.overrides :=
      SortedMap.ext_get? fun name => by rw [overrides_overridden, hfinal, h]
    have hsame : overridden base others = session :=
      eq_of_overrides ((base_overridden base others).trans hbase.symm) hoverrides
    rw [hsame]

end Session

end StreamSql
