import Mathlib.Data.List.Forall2
import StreamSql.Engine

/-!
# Results that may be errors

When the forms in which results are put together succeed: steps in sequence, checks, one step for
every member of a list, errors turned into diagnostics, and diagnostics annotated with a statement.
-/

namespace StreamSql

variable {α β ε : Type}

/-! ### Lists side by side -/

theorem exists_of_mem_left {R : α → β → Prop} {as : List α} {bs : List β}
    (h : List.Forall₂ R as bs) {a : α} (ha : a ∈ as) : ∃ b ∈ bs, R a b := by
  induction h with
  | nil => cases ha
  | cons hhead _ ih =>
    rcases List.mem_cons.1 ha with rfl | ha
    · exact ⟨_, List.mem_cons_self, hhead⟩
    · obtain ⟨b, hb, hab⟩ := ih ha
      exact ⟨b, List.mem_cons_of_mem _ hb, hab⟩

theorem exists_of_mem_right {R : α → β → Prop} {as : List α} {bs : List β}
    (h : List.Forall₂ R as bs) {b : β} (hb : b ∈ bs) : ∃ a ∈ as, R a b :=
  exists_of_mem_left h.flip hb

theorem map_eq_map_iff_forall₂ {γ : Type} {f : α → γ} {g : β → γ} {as : List α} {bs : List β} :
    as.map f = bs.map g ↔ List.Forall₂ (fun a b => f a = g b) as bs := by
  rw [← List.forall₂_eq_eq_eq, List.forall₂_map_left_iff, List.forall₂_map_right_iff]

theorem forall₂_trans {γ : Type} {R : α → β → Prop} {S : β → γ → Prop} {T : α → γ → Prop}
    (h : ∀ a b c, R a b → S b c → T a c) {as : List α} {bs : List β} {cs : List γ}
    (hR : List.Forall₂ R as bs) (hS : List.Forall₂ S bs cs) : List.Forall₂ T as cs := by
  induction hR generalizing cs with
  | nil =>
    cases hS
    exact .nil
  | cons hab _ ih =>
    cases hS with
    | cons hbc hrest => exact .cons (h _ _ _ hab hbc) (ih hrest)

/-! ### Steps -/

theorem bind_eq_ok_iff {result : Except ε α} {next : α → Except ε β} {b : β} :
    result >>= next = .ok b ↔ ∃ a, result = .ok a ∧ next a = .ok b := by
  cases result with
  | ok a => simp [bind, Except.bind]
  | error e => simp [bind, Except.bind]

theorem bind_eq_error_iff {result : Except ε α} {next : α → Except ε β} {e : ε} :
    result >>= next = .error e ↔ result = .error e ∨ ∃ a, result = .ok a ∧ next a = .error e := by
  cases result with
  | ok a => simp [bind, Except.bind]
  | error e => simp [bind, Except.bind]

theorem map_eq_ok_iff {f : α → β} {result : Except ε α} {b : β} :
    f <$> result = .ok b ↔ ∃ a, result = .ok a ∧ f a = b := by
  cases result <;> simp [Functor.map, Except.map]

theorem map_eq_error_iff {f : α → β} {result : Except ε α} {e : ε} :
    f <$> result = .error e ↔ result = .error e := by
  cases result <;> simp [Functor.map, Except.map]

theorem exists_eq_error_iff {result : Except ε α} :
    (∃ e, result = .error e) ↔ ¬∃ a, result = .ok a := by
  cases result <;> simp

theorem toOption_bind_congr {result other : Except ε α} {next following : α → Except ε β}
    (hresult : result.toOption = other.toOption)
    (hnext : ∀ a, (next a).toOption = (following a).toOption) :
    (result >>= next).toOption = (other >>= following).toOption := by
  cases result with
  | ok a =>
    cases other with
    | ok b =>
      cases hresult
      exact hnext a
    | error e => cases hresult
  | error e =>
    cases other with
    | ok b => cases hresult
    | error e' => rfl

theorem checked_eq_ok_iff {c : Bool} {check : Except ε Unit} {next : Unit → Except ε β} {b : β} :
    (if c then check >>= next else next ()) = .ok b ↔
      (c = true → check = .ok ()) ∧ next () = .ok b := by
  cases c with
  | false => simp
  | true =>
    rw [if_pos rfl, bind_eq_ok_iff]
    exact ⟨fun ⟨⟨⟩, hcheck, h⟩ => ⟨fun _ => hcheck, h⟩, fun ⟨hcheck, h⟩ => ⟨(), hcheck rfl, h⟩⟩

theorem guarded_eq_ok_iff {c : Bool} {e : ε} {next : Unit → Except ε β} {b : β} :
    (if c then throw e >>= next else next ()) = .ok b ↔ c = false ∧ next () = .ok b := by
  cases c with
  | false => simp
  | true => exact iff_of_false nofun nofun

theorem discard_eq_ok_iff {result : Except ε α} :
    discard result = .ok () ↔ ∃ a, result = .ok a := by
  cases result <;> simp [discard, Functor.mapConst, Except.map]

theorem forM_eq_ok_iff {f : α → Except ε Unit} {list : List α} :
    list.forM f = .ok () ↔ ∀ a ∈ list, f a = .ok () := by
  induction list with
  | nil => exact iff_of_true rfl nofun
  | cons a rest ih =>
    rw [List.forall_mem_cons, ← ih]
    exact bind_eq_ok_iff.trans
      ⟨fun ⟨⟨⟩, ha, hrest⟩ => ⟨ha, hrest⟩, fun ⟨ha, hrest⟩ => ⟨(), ha, hrest⟩⟩

theorem mapM_eq_ok_iff {f : α → Except ε β} {list : List α} {results : List β} :
    list.mapM f = .ok results ↔ List.Forall₂ (fun a b => f a = .ok b) list results := by
  induction list generalizing results with
  | nil => simp [pure, Except.pure, eq_comm]
  | cons a rest ih =>
    rw [List.mapM_cons, List.forall₂_cons_left_iff]
    simp only [bind_eq_ok_iff, ih]
    constructor
    · rintro ⟨b, hb, others, hothers, hresults⟩
      exact ⟨b, others, hb, hothers, (Except.ok.inj hresults).symm⟩
    · rintro ⟨b, others, hb, hothers, rfl⟩
      exact ⟨b, hb, others, hothers, rfl⟩

theorem optionMapM_eq_some_iff {f : α → Option β} {list : List α} {results : List β} :
    list.mapM f = some results ↔ List.Forall₂ (fun a b => f a = some b) list results := by
  induction list generalizing results with
  | nil => simp [eq_comm]
  | cons a rest ih =>
    rw [List.mapM_cons, List.forall₂_cons_left_iff]
    simp only [Option.bind_eq_bind, Option.bind_eq_some_iff, ih]
    constructor
    · rintro ⟨b, hb, others, hothers, hresults⟩
      exact ⟨b, others, hb, hothers, (Option.some.inj hresults).symm⟩
    · rintro ⟨b, others, hb, hothers, rfl⟩
      exact ⟨b, hb, others, hothers, rfl⟩

theorem mapM_eq_ok_map {f : α → Except ε β} {g : α → β} {list : List α}
    (h : ∀ a ∈ list, f a = .ok (g a)) : list.mapM f = .ok (list.map g) := by
  rw [mapM_eq_ok_iff, List.forall₂_map_right_iff, List.forall₂_same]
  exact h

theorem exists_mapM_eq_ok_iff {f : α → Except ε β} {list : List α} :
    (∃ results, list.mapM f = .ok results) ↔ ∀ a ∈ list, ∃ b, f a = .ok b := by
  simp only [mapM_eq_ok_iff]
  induction list with
  | nil => exact iff_of_true ⟨[], .nil⟩ nofun
  | cons a rest ih =>
    rw [List.forall_mem_cons, ← ih]
    simp only [List.forall₂_cons_left_iff]
    constructor
    · rintro ⟨_, b, others, hb, hothers, rfl⟩
      exact ⟨⟨b, hb⟩, others, hothers⟩
    · rintro ⟨⟨b, hb⟩, others, hothers⟩
      exact ⟨_, b, others, hb, hothers, rfl⟩

theorem exists_of_mem_mapM {f : α → Except ε β} {list : List α} {results : List β} {b : β}
    (h : list.mapM f = .ok results) (hb : b ∈ results) : ∃ a ∈ list, f a = .ok b :=
  exists_of_mem_right (mapM_eq_ok_iff.1 h) hb

theorem mapM_eq_error_iff {f : α → Except ε β} {list : List α} {e : ε} :
    list.mapM f = .error e ↔ ∃ before a after, list = before ++ a :: after ∧
      (∀ b ∈ before, ∃ c, f b = .ok c) ∧ f a = .error e := by
  induction list with
  | nil => simp [pure, Except.pure]
  | cons first rest ih =>
    rw [List.mapM_cons, bind_eq_error_iff]
    simp only [bind_eq_error_iff, ih]
    constructor
    · rintro (hfirst | ⟨b, hfirst, ⟨before, a, after, rfl, hbefore, ha⟩ | ⟨_, -, ⟨⟩⟩⟩)
      · exact ⟨[], first, rest, rfl, nofun, hfirst⟩
      · exact ⟨first :: before, a, after, rfl, List.forall_mem_cons.2 ⟨⟨b, hfirst⟩, hbefore⟩, ha⟩
    · rintro ⟨before, a, after, heq, hbefore, ha⟩
      cases before with
      | nil =>
        obtain ⟨rfl, rfl⟩ := List.cons.inj heq
        exact .inl ha
      | cons b before =>
        obtain ⟨rfl, rfl⟩ := List.cons.inj heq
        obtain ⟨⟨c, hc⟩, hbefore⟩ := List.forall_mem_cons.1 hbefore
        exact .inr ⟨c, hc, .inl ⟨before, a, after, rfl, hbefore, ha⟩⟩

/-- Checks that do not look at the state can all be made ahead of the changes. -/
theorem foldlM_map_eq {check : α → Except ε γ} {put : β → γ → β} (list : List α) (start : β) :
    list.foldlM (fun state a => put state <$> check a) start =
      (fun checked => checked.foldl put start) <$> list.mapM check := by
  induction list generalizing start with
  | nil => rfl
  | cons a rest ih =>
    rw [List.foldlM_cons, List.mapM_cons]
    cases check a with
    | error e => rfl
    | ok c =>
      refine (ih (put start c)).trans ?_
      cases rest.mapM check <;> rfl

theorem invariant_of_foldlM {P : β → Prop} {step : β → α → Except ε β} {list : List α}
    {start result : β} (hstep : ∀ a ∈ list, ∀ b next, P b → step b a = .ok next → P next)
    (hstart : P start) (h : list.foldlM step start = .ok result) : P result := by
  induction list generalizing start with
  | nil =>
    cases h
    exact hstart
  | cons a rest ih =>
    rw [List.foldlM_cons] at h
    obtain ⟨next, hnext, h⟩ := bind_eq_ok_iff.1 h
    obtain ⟨ha, hrest⟩ := List.forall_mem_cons.1 hstep
    exact ih hrest (ha _ _ hstart hnext) h

theorem reported_eq_ok_iff [Reportable ε] {result : Except ε α} {a : α} :
    reported result = .ok a ↔ result = .ok a := by
  cases result <;> simp [reported]

theorem annotated_eq_ok_iff {text : String} {result : Except Diagnostic α} {a : α} :
    annotated text result = .ok a ↔ result = .ok a := by
  cases result <;> simp [annotated]

theorem error_of_annotated {text : String} {result : Except Diagnostic α} {d : Diagnostic}
    (h : annotated text result = .error d) : ∃ cause, result = .error cause := by
  cases result with
  | ok a => cases h
  | error cause => exact ⟨cause, rfl⟩

end StreamSql
