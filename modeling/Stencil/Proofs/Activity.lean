/-
Activities.

Loaders, bundles and writers of modules all work with a state that outlives an error.  A run of
such an activity from a state gives an outcome and the state that is left; these are the rules by
which a run is taken apart.
-/
import Mathlib

namespace Stencil.Activity

variable {ε σ α β : Type}

/-- A sequence runs its second part only if the first one succeeds. -/
theorem run_bind (x : ExceptT ε (StateM σ) α) (f : α → ExceptT ε (StateM σ) β) (s : σ) :
    (x >>= f).run.run s =
      match x.run.run s with
      | (.ok a, t) => (f a).run.run t
      | (.error e, t) => (.error e, t) := by
  rw [ExceptT.run_bind, StateT.run_bind]
  rcases h : x.run.run s with ⟨a | a, t⟩ <;> rfl

theorem run_bind_of_ok {x : ExceptT ε (StateM σ) α} {s t : σ} {a : α}
    (h : x.run.run s = (.ok a, t)) (f : α → ExceptT ε (StateM σ) β) :
    (x >>= f).run.run s = (f a).run.run t := by
  rw [run_bind, h]

theorem run_bind_of_error {x : ExceptT ε (StateM σ) α} {s t : σ} {e : ε}
    (h : x.run.run s = (.error e, t)) (f : α → ExceptT ε (StateM σ) β) :
    (x >>= f).run.run s = (.error e, t) := by
  rw [run_bind, h]

theorem run_bind_eq_ok {x : ExceptT ε (StateM σ) α} {f : α → ExceptT ε (StateM σ) β} {s u : σ}
    {b : β} (h : (x >>= f).run.run s = (.ok b, u)) :
    ∃ a t, x.run.run s = (.ok a, t) ∧ (f a).run.run t = (.ok b, u) := by
  rw [run_bind] at h
  rcases hx : x.run.run s with ⟨e | a, t⟩
  · rw [hx] at h
    cases h
  · rw [hx] at h
    exact ⟨a, t, rfl, h⟩

@[simp] theorem run_pure (a : α) (s : σ) :
    (pure a : ExceptT ε (StateM σ) α).run.run s = (.ok a, s) := rfl

@[simp] theorem run_throw (e : ε) (s : σ) :
    (throw e : ExceptT ε (StateM σ) α).run.run s = (.error e, s) := rfl

@[simp] theorem run_get (s : σ) : (get : ExceptT ε (StateM σ) σ).run.run s = (.ok s, s) := rfl

@[simp] theorem run_set (s t : σ) :
    (set t : ExceptT ε (StateM σ) PUnit).run.run s = (.ok ⟨⟩, t) := rfl

@[simp] theorem run_modifyGet (f : σ → α × σ) (s : σ) :
    (modifyGet f : ExceptT ε (StateM σ) α).run.run s = (.ok (f s).1, (f s).2) := rfl

@[simp] theorem run_modify (f : σ → σ) (s : σ) :
    (modify f : ExceptT ε (StateM σ) PUnit).run.run s = (.ok ⟨⟩, f s) := rfl

/-- What every activity of a sequence keeps, whatever becomes of it, the sequence keeps. -/
theorem run_mapM_induction {f : α → ExceptT ε (StateM σ) β} {P : σ → Prop}
    {l : List α} (h : ∀ a ∈ l, ∀ s, P s → P ((f a).run.run s).2) {s : σ} (hs : P s) :
    P ((l.mapM f).run.run s).2 := by
  induction l generalizing s with
  | nil => exact hs
  | cons a l ih =>
      have ha := h a List.mem_cons_self s hs
      rw [List.mapM_cons, run_bind]
      rcases hout : (f a).run.run s with ⟨e | b, t⟩
      · rw [hout] at ha
        exact ha
      · rw [hout] at ha
        have hl := ih (fun a' ha' => h a' (List.mem_cons_of_mem _ ha')) ha
        dsimp only
        rw [run_bind]
        rcases hrest : (l.mapM f).run.run t with ⟨e | bs, u⟩
        · rw [hrest] at hl
          exact hl
        · rw [hrest] at hl
          exact hl

/-! ## Activities without end

The rule for a sequence of activities that may go on without end, which then have no outcome. -/

theorem run_bind? (x : ExceptT ε (StateT σ Option) α) (f : α → ExceptT ε (StateT σ Option) β)
    (s : σ) :
    (x >>= f).run.run s =
      match x.run.run s with
      | none => none
      | some (.ok a, t) => (f a).run.run t
      | some (.error e, t) => some (.error e, t) := by
  rw [ExceptT.run_bind, StateT.run_bind]
  rcases h : x.run.run s with _ | ⟨a | a, t⟩ <;> rfl

theorem run_bind?_eq_ok {x : ExceptT ε (StateT σ Option) α}
    {f : α → ExceptT ε (StateT σ Option) β} {s u : σ} {b : β}
    (h : (x >>= f).run.run s = some (.ok b, u)) :
    ∃ a t, x.run.run s = some (.ok a, t) ∧ (f a).run.run t = some (.ok b, u) := by
  rw [run_bind?] at h
  rcases hx : x.run.run s with _ | ⟨e | a, t⟩
  · rw [hx] at h
    cases h
  · rw [hx] at h
    cases h
  · rw [hx] at h
    exact ⟨a, t, rfl, h⟩

section Members

variable {f : α → ExceptT ε (StateT σ Option) β} {a : α} {l : List α} {s t u : σ}

theorem run_mapM?_cons_eq_ok {bs : List β} (h : ((a :: l).mapM f).run.run s = some (.ok bs, u)) :
    ∃ b bs' t, (f a).run.run s = some (.ok b, t) ∧ (l.mapM f).run.run t = some (.ok bs', u) ∧
      bs = b :: bs' := by
  rw [List.mapM_cons] at h
  obtain ⟨b, t, hb, h⟩ := run_bind?_eq_ok h
  obtain ⟨bs', v, hbs', h⟩ := run_bind?_eq_ok h
  cases h
  exact ⟨b, bs', t, hb, hbs', rfl⟩

theorem length_of_run_mapM? {bs : List β} (h : (l.mapM f).run.run s = some (.ok bs, t)) :
    bs.length = l.length := by
  induction l generalizing s bs with
  | nil =>
      cases h
      rfl
  | cons a l ih =>
      obtain ⟨b, bs', u, -, hbs', rfl⟩ := run_mapM?_cons_eq_ok h
      rw [List.length_cons, List.length_cons, ih hbs']

/-- What each activity for a member keeps, is kept by those for all of them, and what holds of a
result when it is found holds of it in the end. -/
theorem forall₂_of_run_mapM? {P : σ → Prop} {R : σ → σ → Prop} {Q : σ → α → β → Prop}
    (hrefl : ∀ s, R s s) (htrans : ∀ {s t u}, R s t → R t u → R s u)
    (hmono : ∀ {s t a b}, R s t → Q s a b → Q t a b)
    (hf : ∀ {a b s t}, P s → (f a).run.run s = some (.ok b, t) → P t ∧ R s t ∧ Q t a b)
    {bs : List β} (hs : P s) (h : (l.mapM f).run.run s = some (.ok bs, t)) :
    P t ∧ R s t ∧ List.Forall₂ (Q t) l bs := by
  induction l generalizing s bs with
  | nil =>
      cases h
      exact ⟨hs, hrefl _, .nil⟩
  | cons a l ih =>
      obtain ⟨b, bs', u, hb, hbs', rfl⟩ := run_mapM?_cons_eq_ok h
      obtain ⟨hu, hfirst, hresult⟩ := hf hs hb
      obtain ⟨ht, hrest, hresults⟩ := ih hu hbs'
      exact ⟨ht, htrans hfirst hrest, .cons (hmono hrest hresult) hresults⟩

/-- The outcome of an activity that does not succeed: an error, or none where it goes on without
end. -/
def stopped (β : Type) (stop : Option (ε × σ)) : Option (Except ε β × σ) :=
  stop.map fun p => (.error p.1, p.2)

/-- If activities for all members of a list do not succeed, all members in front of some member
have a result, and that member stops as they all do. -/
theorem exists_of_run_mapM?_stopped (stop : Option (ε × σ))
    (h : (l.mapM f).run.run s = stopped (List β) stop) :
    ∃ before a after bs u, l = before ++ a :: after ∧
      (before.mapM f).run.run s = some (.ok bs, u) ∧ (f a).run.run u = stopped β stop := by
  induction l generalizing s with
  | nil => cases stop <;> cases h
  | cons a l ih =>
      rw [List.mapM_cons, run_bind?] at h
      rcases ha : (f a).run.run s with _ | ⟨e | b, u⟩
      · rw [ha] at h
        refine ⟨[], a, l, [], s, rfl, rfl, ha.trans ?_⟩
        cases stop with
        | none => rfl
        | some => cases h
      · rw [ha] at h
        refine ⟨[], a, l, [], s, rfl, rfl, ha.trans ?_⟩
        cases stop with
        | none => cases h
        | some =>
            cases h
            rfl
      · rw [ha] at h
        dsimp only at h
        rw [run_bind?] at h
        have hrest : (l.mapM f).run.run u = stopped (List β) stop := by
          rcases hl : (l.mapM f).run.run u with _ | ⟨e | bs, v⟩ <;> rw [hl] at h <;>
            cases stop <;> cases h <;> rfl
        obtain ⟨before, a', after, bs, v, rfl, hbefore, ha'⟩ := ih hrest
        refine ⟨a :: before, a', after, b :: bs, v, rfl, ?_, ha'⟩
        rw [List.mapM_cons, run_bind?, ha]
        dsimp only
        rw [run_bind?, hbefore]
        rfl

/-- If activities for all members of a list fail, all members in front of some member have a
result, and that member fails. -/
theorem exists_of_run_mapM?_error {e : ε} (h : (l.mapM f).run.run s = some (.error e, t)) :
    ∃ before a after bs u, l = before ++ a :: after ∧
      (before.mapM f).run.run s = some (.ok bs, u) ∧ (f a).run.run u = some (.error e, t) :=
  exists_of_run_mapM?_stopped (some (e, t)) h

/-- If activities for all members of a list go on without end, all members in front of some
member have a result, and that member goes on without end. -/
theorem exists_of_run_mapM?_none (h : (l.mapM f).run.run s = none) :
    ∃ before a after bs u, l = before ++ a :: after ∧
      (before.mapM f).run.run s = some (.ok bs, u) ∧ (f a).run.run u = none :=
  exists_of_run_mapM?_stopped none h

end Members

/-! ## Steps that may fail

The same rules where there is no state. -/

theorem bind_eq_ok {x : Except ε α} {f : α → Except ε β} {b : β} :
    x >>= f = .ok b ↔ ∃ a, x = .ok a ∧ f a = .ok b := by
  cases x with
  | error e =>
      constructor
      · intro h
        cases h
      · rintro ⟨a, h, -⟩
        cases h
  | ok a =>
      constructor
      · exact fun h => ⟨a, rfl, h⟩
      · rintro ⟨a', h, hf⟩
        cases h
        exact hf

theorem bind_eq_error {x : Except ε α} {f : α → Except ε β} {e : ε} :
    x >>= f = .error e ↔ x = .error e ∨ ∃ a, x = .ok a ∧ f a = .error e := by
  cases x with
  | error e' =>
      constructor
      · intro h
        cases h
        exact .inl rfl
      · rintro (h | ⟨a, h, -⟩)
        · cases h
          rfl
        · cases h
  | ok a =>
      constructor
      · exact fun h => .inr ⟨a, rfl, h⟩
      · rintro (h | ⟨a', h, hf⟩)
        · cases h
        · cases h
          exact hf

theorem map_eq_ok {f : α → β} {x : Except ε α} {b : β} :
    f <$> x = .ok b ↔ ∃ a, x = .ok a ∧ f a = b := by
  cases x with
  | error e => exact ⟨nofun, fun ⟨_, h, _⟩ => nomatch h⟩
  | ok a =>
      constructor
      · intro h
        cases h
        exact ⟨a, rfl, rfl⟩
      · rintro ⟨a', h, rfl⟩
        cases h
        rfl

/-- Steps for all members of a list succeed exactly if each of them does. -/
theorem mapM_eq_ok {f : α → Except ε β} {l : List α} {bs : List β} :
    l.mapM f = .ok bs ↔ List.Forall₂ (fun a b => f a = .ok b) l bs := by
  induction l generalizing bs with
  | nil =>
      constructor
      · intro h
        cases h
        exact .nil
      · intro h
        cases h
        rfl
  | cons a l ih =>
      rw [List.mapM_cons, bind_eq_ok]
      constructor
      · rintro ⟨b, hb, h⟩
        obtain ⟨bs', hbs', h⟩ := bind_eq_ok.mp h
        cases h
        exact .cons hb (ih.mp hbs')
      · intro h
        cases h with
        | cons hb hbs => exact ⟨_, hb, bind_eq_ok.mpr ⟨_, ih.mpr hbs, rfl⟩⟩

/-- Steps for all members of a list fail with what the first of them that fails fails with. -/
theorem exists_of_mapM_eq_error {f : α → Except ε β} {l : List α} {e : ε}
    (h : l.mapM f = .error e) :
    ∃ before a after, l = before ++ a :: after ∧ (∀ a' ∈ before, ∃ b, f a' = .ok b) ∧
      f a = .error e := by
  induction l with
  | nil => cases h
  | cons a l ih =>
      rw [List.mapM_cons] at h
      rcases bind_eq_error.mp h with ha | ⟨b, hb, h⟩
      · exact ⟨[], a, l, rfl, List.forall_mem_nil _, ha⟩
      · rcases bind_eq_error.mp h with hl | ⟨bs, -, h⟩
        · obtain ⟨before, a', after, rfl, hbefore, hf⟩ := ih hl
          refine ⟨a :: before, a', after, rfl, fun c hc => ?_, hf⟩
          rcases List.mem_cons.mp hc with rfl | hc
          · exact ⟨b, hb⟩
          · exact hbefore c hc
        · cases h

theorem exists_forall₂ {R : α → β → Prop} {l : List α} (h : ∀ a ∈ l, ∃ b, R a b) :
    ∃ bs, List.Forall₂ R l bs := by
  induction l with
  | nil => exact ⟨[], .nil⟩
  | cons a l ih =>
      obtain ⟨b, hb⟩ := h a List.mem_cons_self
      obtain ⟨bs, hbs⟩ := ih fun a ha => h a (List.mem_cons_of_mem _ ha)
      exact ⟨b :: bs, .cons hb hbs⟩

theorem exists_of_forall₂ {R : α → β → Prop} {l : List α} {bs : List β}
    (h : List.Forall₂ R l bs) {a : α} (ha : a ∈ l) : ∃ b ∈ bs, R a b := by
  induction h with
  | nil => cases ha
  | @cons a' b l bs hab _ ih =>
      rcases List.mem_cons.mp ha with rfl | ha
      · exact ⟨b, List.mem_cons_self, hab⟩
      · obtain ⟨b', hb', hr⟩ := ih ha
        exact ⟨b', List.mem_cons_of_mem _ hb', hr⟩

end Stencil.Activity
