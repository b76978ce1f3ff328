import Mathlib.Data.List.Forall2

/-! Lists mapped by a function that can fail. -/

set_option autoImplicit false

namespace ExceptList
variable {ε α β : Type} {f : α → Except ε β}

theorem mapM_cons_ok {a : α} {l : List α} {rs : List β} :
    (a :: l).mapM f = .ok rs ↔ ∃ b bs, f a = .ok b ∧ l.mapM f = .ok bs ∧ rs = b :: bs := by
  rw [List.mapM_cons]
  cases ha : f a with
  | error e => exact ⟨fun h => (by cases h), fun ⟨_, _, h, _⟩ => (by cases h)⟩
  | ok b =>
    cases hl : l.mapM f with
    | error e => exact ⟨fun h => (by cases h), fun ⟨_, _, _, h, _⟩ => (by cases h)⟩
    | ok bs =>
      constructor
      · intro h
        exact ⟨b, bs, rfl, rfl, (Except.ok.inj h).symm⟩
      · rintro ⟨_, _, hb, hbs, rfl⟩
        cases hb
        cases hbs
        rfl

theorem mapM_perm {l l' : List α} (h : l.Perm l') {rs : List β} (hrs : l.mapM f = .ok rs) :
    ∃ rs', l'.mapM f = .ok rs' ∧ rs.Perm rs' := by
  induction h generalizing rs with
  | nil => exact ⟨rs, hrs, .refl rs⟩
  | cons a _ ih =>
    obtain ⟨b, bs, hb, hbs, rfl⟩ := mapM_cons_ok.1 hrs
    obtain ⟨bs', hbs', hperm⟩ := ih hbs
    exact ⟨b :: bs', mapM_cons_ok.2 ⟨b, bs', hb, hbs', rfl⟩, hperm.cons b⟩
  | swap a a' l =>
    obtain ⟨b', bs, hb', hbs, rfl⟩ := mapM_cons_ok.1 hrs
    obtain ⟨b, cs, hb, hcs, rfl⟩ := mapM_cons_ok.1 hbs
    exact ⟨b :: b' :: cs, mapM_cons_ok.2 ⟨b, b' :: cs, hb, mapM_cons_ok.2 ⟨b', cs, hb', hcs, rfl⟩, rfl⟩,
      .swap b b' cs⟩
  | trans _ _ ih ih' =>
    obtain ⟨rs₁, h₁, hp₁⟩ := ih hrs
    obtain ⟨rs₂, h₂, hp₂⟩ := ih' h₁
    exact ⟨rs₂, h₂, hp₁.trans hp₂⟩

/-- The results in order. -/
theorem mapM_ok_iff {l : List α} {rs : List β} :
    l.mapM f = .ok rs ↔ List.Forall₂ (fun a b => f a = .ok b) l rs := by
  induction l generalizing rs with
  | nil =>
    rw [List.mapM_nil, List.forall₂_nil_left_iff]
    exact ⟨fun h => (Except.ok.inj h).symm, fun h => congrArg Except.ok h.symm⟩
  | cons a l ih =>
    rw [mapM_cons_ok, List.forall₂_cons_left_iff]
    constructor
    · rintro ⟨b, bs, hb, hbs, rfl⟩
      exact ⟨b, bs, hb, ih.1 hbs, rfl⟩
    · rintro ⟨b, bs, hb, hbs, rfl⟩
      exact ⟨b, bs, hb, ih.2 hbs, rfl⟩

theorem mem_of_mapM_ok {l : List α} {rs : List β} (h : l.mapM f = .ok rs) {b : β} :
    b ∈ rs ↔ ∃ a ∈ l, f a = .ok b := by
  induction l generalizing rs with
  | nil =>
    cases h
    simp
  | cons a l ih =>
    obtain ⟨b', bs, hb', hbs, rfl⟩ := mapM_cons_ok.1 h
    rw [List.mem_cons, ih hbs]
    constructor
    · rintro (rfl | ⟨a', ha', hb⟩)
      · exact ⟨a, by simp, hb'⟩
      · exact ⟨a', by simp [ha'], hb⟩
    · rintro ⟨a', ha', hb⟩
      rcases List.mem_cons.1 ha' with rfl | ha'
      · exact .inl (Except.ok.inj (hb.symm.trans hb'))
      · exact .inr ⟨a', ha', hb⟩

theorem ok_of_mapM_ok {l : List α} {rs : List β} (h : l.mapM f = .ok rs) {a : α} (ha : a ∈ l) :
    ∃ b ∈ rs, f a = .ok b := by
  induction l generalizing rs with
  | nil => cases ha
  | cons a' l ih =>
    obtain ⟨b', bs, hb', hbs, rfl⟩ := mapM_cons_ok.1 h
    rcases List.mem_cons.1 ha with rfl | ha
    · exact ⟨b', by simp, hb'⟩
    · obtain ⟨b, hb, hf⟩ := ih hbs ha
      exact ⟨b, by simp [hb], hf⟩

theorem exists_mapM_ok {l : List α} (h : ∀ a ∈ l, ∃ b, f a = .ok b) : ∃ rs, l.mapM f = .ok rs := by
  induction l with
  | nil => exact ⟨[], rfl⟩
  | cons a l ih =>
    obtain ⟨b, hb⟩ := h a (by simp)
    obtain ⟨bs, hbs⟩ := ih fun a ha => h a (by simp [ha])
    exact ⟨b :: bs, mapM_cons_ok.2 ⟨b, bs, hb, hbs, rfl⟩⟩

theorem bind_ok_iff {α' : Type} {x : Except ε α} {g : α → Except ε α'} {b : α'} :
    x >>= g = .ok b ↔ ∃ a, x = .ok a ∧ g a = .ok b := by
  cases x with
  | error e => exact ⟨fun h => (by cases h), fun ⟨_, h, _⟩ => (by cases h)⟩
  | ok a => exact ⟨fun h => ⟨a, rfl, h⟩, fun ⟨_, ha, hb⟩ => by cases ha; exact hb⟩

theorem map_ok_iff {x : Except ε α} {g : α → β} {b : β} :
    g <$> x = .ok b ↔ ∃ a, x = .ok a ∧ g a = b := by
  cases x with
  | error e => exact ⟨fun h => (by cases h), fun ⟨_, h, _⟩ => (by cases h)⟩
  | ok a => exact ⟨fun h => ⟨a, rfl, Except.ok.inj h⟩, fun ⟨_, ha, hb⟩ => by cases ha; rw [← hb]; rfl⟩

theorem bind_error_iff {α' : Type} {x : Except ε α} {g : α → Except ε α'} {e : ε} :
    x >>= g = .error e ↔ x = .error e ∨ ∃ a, x = .ok a ∧ g a = .error e := by
  cases x with
  | error e' =>
    constructor
    · intro h
      cases h
      exact .inl rfl
    · rintro (h | ⟨_, h, _⟩) <;> cases h
      rfl
  | ok a =>
    constructor
    · intro h
      exact .inr ⟨a, rfl, h⟩
    · rintro (h | ⟨_, ha, h⟩)
      · cases h
      · cases ha
        exact h

theorem map_error_iff {x : Except ε α} {g : α → β} {e : ε} : g <$> x = .error e ↔ x = .error e := by
  cases x with
  | error e' =>
    constructor <;> intro h <;> cases h <;> rfl
  | ok a => constructor <;> intro h <;> cases h

/-- A step of a fold that fails. -/
theorem error_of_foldlM {g : β → α → Except ε β} {l : List α} {b : β} {e : ε}
    (h : l.foldlM g b = .error e) : ∃ a ∈ l, ∃ b, g b a = .error e := by
  induction l generalizing b with
  | nil => cases h
  | cons a l ih =>
    rw [List.foldlM_cons] at h
    rcases bind_error_iff.1 h with h | ⟨b', -, h⟩
    · exact ⟨a, List.mem_cons_self, b, h⟩
    · obtain ⟨a', ha', hstep⟩ := ih h
      exact ⟨a', List.mem_cons_of_mem a ha', hstep⟩

theorem error_of_mapM {l : List α} {e : ε} (h : l.mapM f = .error e) : ∃ a ∈ l, f a = .error e := by
  induction l with
  | nil => cases h
  | cons a l ih =>
    rw [List.mapM_cons] at h
    rcases bind_error_iff.1 h with h | ⟨b, -, h⟩
    · exact ⟨a, List.mem_cons_self, h⟩
    · rcases bind_error_iff.1 h with h | ⟨bs, -, h⟩
      · obtain ⟨a', ha', herror⟩ := ih h
        exact ⟨a', List.mem_cons_of_mem a ha', herror⟩
      · cases h

theorem map_of_mapM_ok {γ : Type} {g : β → γ} {g' : α → γ} (hg : ∀ a b, f a = .ok b → g b = g' a)
    {l : List α} {rs : List β} (h : l.mapM f = .ok rs) : rs.map g = l.map g' := by
  induction l generalizing rs with
  | nil =>
    cases h
    rfl
  | cons a l ih =>
    obtain ⟨b, bs, hb, hbs, rfl⟩ := mapM_cons_ok.1 h
    rw [List.map_cons, List.map_cons, hg a b hb, ih hbs]

theorem mapM_concat_ok {a : α} {l : List α} {rs : List β} (h : (l ++ [a]).mapM f = .ok rs) :
    ∃ bs b, l.mapM f = .ok bs ∧ f a = .ok b ∧ rs = bs ++ [b] := by
  rw [List.mapM_append] at h
  obtain ⟨bs, hbs, h⟩ := bind_ok_iff.1 h
  obtain ⟨cs, hcs, h⟩ := bind_ok_iff.1 h
  obtain ⟨b, cs', hb, hcs', rfl⟩ := mapM_cons_ok.1 hcs
  cases hcs'
  cases h
  exact ⟨bs, b, hbs, hb, rfl⟩

/-- A decidable property of the result, if there is one. -/
theorem of_all_ok {x : Except ε α} {P : α → Prop} [DecidablePred P]
    (h : x.toOption.all (fun a => decide (P a)) = true) {a : α} (ha : x = .ok a) : P a := by
  subst ha
  exact of_decide_eq_true h

/-- A property of what may be there and may succeed, evaluated. -/
theorem all_ok_iff {γ : Type} {o : Option γ} {g : γ → Except ε α} {P : γ → α → Prop}
    [∀ c, DecidablePred (P c)] : (o.all fun c => (g c).toOption.all fun a => decide (P c a)) = true ↔
      ∀ c a, o = some c → g c = .ok a → P c a := by
  constructor
  · rintro h c a rfl ha
    exact of_all_ok h ha
  · intro h
    cases o with
    | none => rfl
    | some c =>
      rw [Option.all_some]
      cases ha : g c with
      | error e => rfl
      | ok a => exact decide_eq_true (h c a rfl ha)

theorem eq_ok_getD {x : Except ε α} (h : x.isOk = true) (d : α) : x = .ok (x.toOption.getD d) := by
  cases x with
  | error e => cases h
  | ok a => rfl

end ExceptList
