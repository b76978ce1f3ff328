import Mathlib.Logic.Basic
import Mathlib.Data.List.Basic

/-!
# Programs over a state that survives an exception

`Prog σ ε α` is a run on a state `σ` that ends with a value or with an exception; both ends
carry the state reached. `wp` is the weakest precondition for a pair of postconditions, one
for each end. The rules below take a program apart along its text.
-/

set_option autoImplicit false

/-- A program on the state `σ`: an exception keeps the state it was thrown in. -/
structure Prog (σ ε α : Type) : Type where
  run : σ → Except ε α × σ

namespace Prog
variable {σ τ ε ε' α β : Type}

protected def pure (a : α) : Prog σ ε α := ⟨fun s => (.ok a, s)⟩

protected def bind (p : Prog σ ε α) (f : α → Prog σ ε β) : Prog σ ε β := ⟨fun s =>
  match p.run s with
  | (.ok a, s') => (f a).run s'
  | (.error e, s') => (.error e, s')⟩

instance : Monad (Prog σ ε) where
  pure := Prog.pure
  bind := Prog.bind

def get : Prog σ ε σ := ⟨fun s => (.ok s, s)⟩

def set (s : σ) : Prog σ ε Unit := ⟨fun _ => (.ok (), s)⟩

def modify (f : σ → σ) : Prog σ ε Unit := ⟨fun s => (.ok (), f s)⟩

def throw (e : ε) : Prog σ ε α := ⟨fun s => (.error e, s)⟩

def tryCatch (p : Prog σ ε α) (handler : ε → Prog σ ε α) : Prog σ ε α := ⟨fun s =>
  match p.run s with
  | (.ok a, s') => (.ok a, s')
  | (.error e, s') => (handler e).run s'⟩

/-- A computation without state, seen as a program. -/
def ofExcept (r : Except ε α) : Prog σ ε α := ⟨fun s => (r, s)⟩

/-- A program on a component of the state. -/
def zoom (read : σ → τ) (write : τ → σ → σ) (p : Prog τ ε α) : Prog σ ε α := ⟨fun s =>
  match p.run (read s) with
  | (r, t) => (r, write t s)⟩

/-- The same program with its exceptions renamed. -/
def mapError (f : ε → ε') (p : Prog σ ε α) : Prog σ ε' α := ⟨fun s =>
  match p.run s with
  | (.ok a, s') => (.ok a, s')
  | (.error e, s') => (.error (f e), s')⟩

/-- Throws `e` unless `c` holds. -/
def require (c : Prop) [Decidable c] (e : ε) : Prog σ ε Unit := if c then pure () else throw e

/-- Runs `f` on each element in turn. -/
def forEach (f : α → Prog σ ε Unit) : List α → Prog σ ε Unit
  | [] => pure ()
  | a :: as => do f a; forEach f as

/-- Runs `f` on each element in turn and adds up the results. -/
def sumEach (f : α → Prog σ ε Nat) : List α → Prog σ ε Nat
  | [] => pure 0
  | a :: as => do
    let n ← f a
    let m ← sumEach f as
    pure (n + m)

@[ext] theorem ext {p q : Prog σ ε α} (h : ∀ s, p.run s = q.run s) : p = q := by
  cases p
  cases q
  exact congrArg Prog.mk (funext h)

@[simp] theorem run_pure (a : α) (s : σ) : (pure a : Prog σ ε α).run s = (.ok a, s) := rfl

@[simp] theorem run_get (s : σ) : (get : Prog σ ε σ).run s = (.ok s, s) := rfl

@[simp] theorem run_set (s s' : σ) : (set s' : Prog σ ε Unit).run s = (.ok (), s') := rfl

@[simp] theorem run_modify (f : σ → σ) (s : σ) :
    (modify f : Prog σ ε Unit).run s = (.ok (), f s) := rfl

@[simp] theorem run_throw (e : ε) (s : σ) : (throw e : Prog σ ε α).run s = (.error e, s) := rfl

theorem run_bind (p : Prog σ ε α) (f : α → Prog σ ε β) (s : σ) :
    (p >>= f).run s = match p.run s with
      | (.ok a, s') => (f a).run s'
      | (.error e, s') => (.error e, s') := rfl

theorem bind_ok {p : Prog σ ε α} {f : α → Prog σ ε β} {s s' : σ} {a : α}
    (h : p.run s = (.ok a, s')) : (p >>= f).run s = (f a).run s' := by
  rw [run_bind, h]

theorem bind_error {p : Prog σ ε α} {f : α → Prog σ ε β} {s s' : σ} {e : ε}
    (h : p.run s = (.error e, s')) : (p >>= f).run s = (.error e, s') := by
  rw [run_bind, h]

theorem exists_of_bind_ok {p : Prog σ ε α} {f : α → Prog σ ε β} {s s' : σ} {b : β}
    (h : (p >>= f).run s = (.ok b, s')) :
    ∃ a s₁, p.run s = (.ok a, s₁) ∧ (f a).run s₁ = (.ok b, s') := by
  rw [run_bind] at h
  rcases hp : p.run s with ⟨e | a, s₁⟩
  · rw [hp] at h
    cases h
  · rw [hp] at h
    exact ⟨a, s₁, rfl, h⟩

theorem run_of_toOption {p : Prog σ ε α} {s : σ} {a : α} (h : (p.run s).1.toOption = some a) :
    p.run s = (.ok a, (p.run s).2) := by
  rcases hp : p.run s with ⟨e | b, s'⟩
  · rw [hp] at h
    cases h
  · rw [hp] at h
    cases h
    rfl

theorem run_ofExcept (r : Except ε α) (s : σ) : (ofExcept r).run s = (r, s) := rfl

theorem eq_of_ofExcept_ok {r : Except ε α} {s s' : σ} {a : α}
    (h : (ofExcept r : Prog σ ε α).run s = (.ok a, s')) : r = .ok a ∧ s' = s :=
  ⟨congrArg Prod.fst h, (congrArg Prod.snd h).symm⟩

theorem run_forEach_cons {f : α → Prog σ ε Unit} {a : α} {s s' : σ} (h : (f a).run s = (.ok (), s'))
    (as : List α) : (forEach f (a :: as)).run s = (forEach f as).run s' :=
  bind_ok h

theorem run_forEach_append {f : α → Prog σ ε Unit} {as bs : List α} {s s' : σ}
    (h : (forEach f as).run s = (.ok (), s')) :
    (forEach f (as ++ bs)).run s = (forEach f bs).run s' := by
  induction as generalizing s with
  | nil =>
    cases h
    rfl
  | cons a as ih =>
    rw [forEach, run_bind] at h
    rcases ha : (f a).run s with ⟨_ | ⟨⟩, s''⟩ <;> rw [ha] at h
    · cases h
    · rw [List.cons_append, run_forEach_cons ha]
      exact ih h

theorem run_mapError_ok {f : ε → ε'} {p : Prog σ ε α} {s s' : σ} {a : α}
    (h : p.run s = (.ok a, s')) : (mapError f p).run s = (.ok a, s') := by
  simp only [mapError, h]

theorem run_require_true {c : Prop} [Decidable c] {e : ε} (h : c) (s : σ) :
    (require c e : Prog σ ε Unit).run s = (.ok (), s) := by
  rw [require, if_pos h]
  rfl

theorem run_require_false {c : Prop} [Decidable c] {e : ε} (h : ¬ c) (s : σ) :
    (require c e : Prog σ ε Unit).run s = (.error e, s) := by
  rw [require, if_neg h]
  rfl

instance : LawfulMonad (Prog σ ε) := LawfulMonad.mk' _
  (fun p => by
    ext1 s
    change (p >>= fun a => Prog.pure a).run s = p.run s
    rw [run_bind]
    rcases p.run s with ⟨_ | _, _⟩ <;> rfl)
  (fun _ _ => rfl)
  (fun p f g => by
    ext1 s
    simp only [run_bind]
    rcases p.run s with ⟨_ | _, _⟩ <;> rfl)

/-- The weakest precondition: `Q` on a normal end, `E` on an exception. -/
def wp (p : Prog σ ε α) (Q : α → σ → Prop) (E : ε → σ → Prop) (s : σ) : Prop :=
  match p.run s with
  | (.ok a, s') => Q a s'
  | (.error e, s') => E e s'

section Rules
variable {Q : α → σ → Prop} {R : β → σ → Prop} {E : ε → σ → Prop} {s : σ}

@[simp] theorem wp_pure {a : α} : (pure a : Prog σ ε α).wp Q E s ↔ Q a s := Iff.rfl

@[simp] theorem wp_bind {p : Prog σ ε α} {f : α → Prog σ ε β} :
    (p >>= f).wp R E s ↔ p.wp (fun a => (f a).wp R E) E s := by
  simp only [wp, run_bind]
  rcases p.run s with ⟨_ | _, _⟩ <;> rfl

@[simp] theorem wp_map {p : Prog σ ε α} {f : α → β} :
    (f <$> p).wp R E s ↔ p.wp (fun a => R (f a)) E s := by
  rw [map_eq_pure_bind]
  exact wp_bind

@[simp] theorem wp_get {Q : σ → σ → Prop} : (get : Prog σ ε σ).wp Q E s ↔ Q s s := Iff.rfl

@[simp] theorem wp_set {Q : Unit → σ → Prop} {s' : σ} :
    (set s' : Prog σ ε Unit).wp Q E s ↔ Q () s' := Iff.rfl

@[simp] theorem wp_modify {Q : Unit → σ → Prop} {f : σ → σ} :
    (modify f : Prog σ ε Unit).wp Q E s ↔ Q () (f s) := Iff.rfl

@[simp] theorem wp_throw {e : ε} : (throw e : Prog σ ε α).wp Q E s ↔ E e s := Iff.rfl

@[simp] theorem wp_ofExcept_ok {a : α} :
    (ofExcept (.ok a) : Prog σ ε α).wp Q E s ↔ Q a s := Iff.rfl

@[simp] theorem wp_ofExcept_error {e : ε} :
    (ofExcept (.error e) : Prog σ ε α).wp Q E s ↔ E e s := Iff.rfl

theorem wp_ofExcept {r : Except ε α} : (ofExcept r : Prog σ ε α).wp Q E s ↔
    (∀ a, r = .ok a → Q a s) ∧ (∀ e, r = .error e → E e s) := by
  cases r <;> simp

@[simp] theorem wp_zoom {read : σ → τ} {write : τ → σ → σ} {p : Prog τ ε α} :
    (zoom read write p).wp Q E s ↔
      p.wp (fun a t => Q a (write t s)) (fun e t => E e (write t s)) (read s) := by
  unfold wp zoom
  rcases h : p.run (read s) with ⟨_ | _, _⟩ <;> simp only [h]

@[simp] theorem wp_ite {c : Prop} [Decidable c] {p q : Prog σ ε α} :
    (if c then p else q).wp Q E s ↔ if c then p.wp Q E s else q.wp Q E s := by
  split <;> rfl

@[simp] theorem wp_require {c : Prop} [Decidable c] {e : ε} {Q : Unit → σ → Prop} :
    (require c e : Prog σ ε Unit).wp Q E s ↔ (c → Q () s) ∧ (¬ c → E e s) := by
  rw [require]
  split <;> simp [*]

@[simp] theorem wp_tryCatch {p : Prog σ ε α} {handler : ε → Prog σ ε α} :
    (tryCatch p handler).wp Q E s ↔ p.wp Q (fun e => (handler e).wp Q E) s := by
  simp only [wp, tryCatch]
  rcases p.run s with ⟨_ | _, _⟩ <;> rfl

/-- The rule of consequence. -/
theorem wp_mono {Q' : α → σ → Prop} {E' : ε → σ → Prop} {p : Prog σ ε α} (h : p.wp Q E s)
    (hQ : ∀ a s', Q a s' → Q' a s') (hE : ∀ e s', E e s' → E' e s') : p.wp Q' E' s := by
  simp only [wp] at h ⊢
  rcases hp : p.run s with ⟨_ | _, _⟩ <;> rw [hp] at h
  · exact hE _ _ h
  · exact hQ _ _ h

theorem wp_and {Q' : α → σ → Prop} {E' : ε → σ → Prop} {p : Prog σ ε α} (h : p.wp Q E s)
    (h' : p.wp Q' E' s) :
    p.wp (fun a t => Q a t ∧ Q' a t) (fun e t => E e t ∧ E' e t) s := by
  simp only [wp] at h h' ⊢
  rcases hp : p.run s with ⟨_ | _, _⟩ <;> rw [hp] at h h' <;> exact ⟨h, h'⟩

theorem wp_true (p : Prog σ ε α) : p.wp (fun _ _ => True) (fun _ _ => True) s := by
  simp only [wp]
  rcases p.run s with ⟨_ | _, _⟩ <;> trivial

theorem wp_ok {p : Prog σ ε α} {s' : σ} {a : α} (h : p.wp Q E s) (hp : p.run s = (.ok a, s')) :
    Q a s' := by
  simpa only [wp, hp] using h

theorem wp_error {p : Prog σ ε α} {s' : σ} {e : ε} (h : p.wp Q E s)
    (hp : p.run s = (.error e, s')) : E e s' := by
  simpa only [wp, hp] using h

theorem wp_of_ok {p : Prog σ ε α} {s' : σ} {a : α} (hp : p.run s = (.ok a, s')) (h : Q a s') :
    p.wp Q E s := by
  simpa only [wp, hp] using h

theorem wp_of_error {p : Prog σ ε α} {s' : σ} {e : ε} (hp : p.run s = (.error e, s'))
    (h : E e s') : p.wp Q E s := by
  simpa only [wp, hp] using h

/-- The loop rule: `I done` holds when the elements of `done` have been run. -/
theorem wp_forEach {f : α → Prog σ ε Unit} (I : List α → σ → Prop) {xs : List α}
    (step : ∀ done x rest, xs = done ++ x :: rest → ∀ s, I done s →
      (f x).wp (fun _ => I (done ++ [x])) E s)
    (h : I [] s) : (forEach f xs).wp (fun _ => I xs) E s := by
  suffices H : ∀ rest done s, xs = done ++ rest → I done s →
      (forEach f rest).wp (fun _ => I xs) E s from H xs [] s rfl h
  intro rest
  induction rest with
  | nil =>
    intro done s hxs hI
    rw [List.append_nil] at hxs
    exact hxs ▸ hI
  | cons x rest ih =>
    intro done s hxs hI
    rw [forEach, wp_bind]
    refine wp_mono (step done x rest hxs s hI) (fun _ s' hs' => ?_) (fun _ _ he => he)
    exact ih (done ++ [x]) s' (by simp [hxs]) hs'

/-- The loop rule for an invariant that does not look at the position. -/
theorem wp_forEach_keep {f : α → Prog σ ε Unit} (I : σ → Prop) {xs : List α}
    (step : ∀ x ∈ xs, ∀ s, I s → (f x).wp (fun _ => I) E s) (h : I s) :
    (forEach f xs).wp (fun _ => I) E s :=
  wp_forEach (fun _ => I)
    (fun _ x _ hxs s hI => step x (by simp [hxs]) s hI) h

/-- The loop rule for `sumEach`: `I done n` holds when the elements of `done` gave `n` in all. -/
theorem wp_sumEach {f : α → Prog σ ε Nat} (I : List α → Nat → σ → Prop) {xs : List α}
    (step : ∀ done x rest, xs = done ++ x :: rest → ∀ n s, I done n s →
      (f x).wp (fun k => I (done ++ [x]) (n + k)) E s)
    (h : I [] 0 s) : (sumEach f xs).wp (fun n => I xs n) E s := by
  suffices H : ∀ rest done n s, xs = done ++ rest → I done n s →
      (sumEach f rest).wp (fun k => I xs (n + k)) E s by
    have := H xs [] 0 s rfl h
    simpa only [Nat.zero_add] using this
  intro rest
  induction rest with
  | nil =>
    intro done n s hxs hI
    rw [List.append_nil] at hxs
    exact hxs ▸ hI
  | cons x rest ih =>
    intro done n s hxs hI
    rw [sumEach, wp_bind]
    refine wp_mono (step done x rest hxs n s hI) (fun k s' hs' => ?_) (fun _ _ he => he)
    rw [wp_bind]
    refine wp_mono (ih (done ++ [x]) (n + k) s' (by simp [hxs]) hs') (fun m s'' hs'' => ?_)
      (fun _ _ he => he)
    rw [wp_pure, ← Nat.add_assoc]
    exact hs''

end Rules

/-- `p` keeps `I`, however it ends. -/
def Keeps (I : σ → Prop) (p : Prog σ ε α) : Prop :=
  ∀ s, I s → p.wp (fun _ => I) (fun _ => I) s

namespace Keeps
variable {I : σ → Prop}

theorem pure (a : α) : Keeps (ε := ε) I (Pure.pure a) := fun _ h => h

theorem throw (e : ε) : Keeps (α := α) I (Prog.throw e) := fun _ h => h

theorem get : Keeps (ε := ε) I Prog.get := fun _ h => h

theorem ofExcept (r : Except ε α) : Keeps I (Prog.ofExcept r) := fun _ h => by
  cases r <;> exact h

theorem modify {f : σ → σ} (hf : ∀ s, I s → I (f s)) : Keeps (ε := ε) I (Prog.modify f) :=
  fun s h => hf s h

theorem bind {p : Prog σ ε α} {f : α → Prog σ ε β} (hp : Keeps I p) (hf : ∀ a, Keeps I (f a)) :
    Keeps I (p >>= f) := fun s h => by
  rw [wp_bind]
  exact wp_mono (hp s h) (fun a s' hs' => hf a s' hs') (fun _ _ he => he)

/-- A program that reads the state and may write it back changed. -/
theorem get_bind {f : σ → Prog σ ε α} (h : ∀ s, I s → (f s).wp (fun _ => I) (fun _ => I) s) :
    Keeps I (Prog.get >>= f) := fun s hs => h s hs

theorem ite {c : Prop} [Decidable c] {p q : Prog σ ε α} (hp : c → Keeps I p)
    (hq : ¬ c → Keeps I q) : Keeps I (if c then p else q) := by
  split
  · exact hp ‹_›
  · exact hq ‹_›

theorem require (c : Prop) [Decidable c] (e : ε) : Keeps I (Prog.require c e) := fun _ h =>
  wp_require.2 ⟨fun _ => h, fun _ => h⟩

theorem tryCatch {p : Prog σ ε α} {handler : ε → Prog σ ε α} (hp : Keeps I p)
    (hh : ∀ e, Keeps I (handler e)) : Keeps I (Prog.tryCatch p handler) := fun s h => by
  rw [wp_tryCatch]
  exact wp_mono (hp s h) (fun _ _ hs' => hs') (fun e s' hs' => hh e s' hs')

theorem forEach {f : α → Prog σ ε Unit} {xs : List α} (hf : ∀ x ∈ xs, Keeps I (f x)) :
    Keeps I (Prog.forEach f xs) := fun _ h =>
  wp_forEach_keep I (fun x hx s hs => hf x hx s hs) h

theorem sumEach {f : α → Prog σ ε Nat} {xs : List α} (hf : ∀ x ∈ xs, Keeps I (f x)) :
    Keeps I (Prog.sumEach f xs) := fun _ h =>
  wp_sumEach (fun _ _ => I) (fun _ x _ hxs _ s hs => hf x (by simp [hxs]) s hs) h

/-- What a program that keeps `I` leaves behind satisfies `I`. -/
theorem final {p : Prog σ ε α} (hp : Keeps I p) {s : σ} (h : I s) : I (p.run s).2 := by
  have := hp s h
  simp only [wp] at this
  rcases hq : p.run s with ⟨_ | _, _⟩ <;> rw [hq] at this <;> exact this

theorem of_final {p : Prog σ ε α} (h : ∀ s, I s → I (p.run s).2) : Keeps I p := by
  intro s hs
  have hfinal := h s hs
  simp only [wp]
  rcases hp : p.run s with ⟨_ | _, _⟩ <;> rw [hp] at hfinal <;> exact hfinal

end Keeps

/-- Every error that `p` ends with satisfies `E`. -/
def Raises (E : ε → Prop) (p : Prog σ ε α) : Prop :=
  ∀ s, p.wp (fun _ _ => True) (fun e _ => E e) s

namespace Raises
variable {E : ε → Prop}

theorem pure (a : α) : Raises (σ := σ) E (Pure.pure a) := fun _ => trivial

theorem throw {e : ε} (h : E e) : Raises (σ := σ) (α := α) E (Prog.throw e) := fun _ => h

theorem get : Raises (σ := σ) E Prog.get := fun _ => trivial

theorem set (s : σ) : Raises E (Prog.set s) := fun _ => trivial

theorem modify (f : σ → σ) : Raises E (Prog.modify f) := fun _ => trivial

theorem ofExcept {r : Except ε α} (h : ∀ e, r = .error e → E e) :
    Raises (σ := σ) E (Prog.ofExcept r) := fun _ => wp_ofExcept.2 ⟨fun _ _ => trivial, h⟩

theorem bind {p : Prog σ ε α} {f : α → Prog σ ε β} (hp : Raises E p) (hf : ∀ a, Raises E (f a)) :
    Raises E (p >>= f) := fun s => by
  rw [wp_bind]
  exact wp_mono (hp s) (fun a s' _ => hf a s') (fun _ _ he => he)

theorem map {p : Prog σ ε α} {f : α → β} (hp : Raises E p) : Raises E (f <$> p) := fun s => by
  rw [wp_map]
  exact hp s

theorem ite {c : Prop} [Decidable c] {p q : Prog σ ε α} (hp : c → Raises E p)
    (hq : ¬ c → Raises E q) : Raises E (if c then p else q) := by
  split
  · exact hp ‹_›
  · exact hq ‹_›

theorem require (c : Prop) [Decidable c] {e : ε} (h : E e) : Raises (σ := σ) E (Prog.require c e) :=
  fun _ => wp_require.2 ⟨fun _ => trivial, fun _ => h⟩

theorem zoom {read : σ → τ} {write : τ → σ → σ} {p : Prog τ ε α} (hp : Raises E p) :
    Raises E (Prog.zoom read write p) := fun s => by
  rw [wp_zoom]
  exact hp (read s)

theorem forEach {f : α → Prog σ ε Unit} {xs : List α} (hf : ∀ x ∈ xs, Raises E (f x)) :
    Raises E (Prog.forEach f xs) := by
  induction xs with
  | nil => exact pure ()
  | cons x xs ih =>
    rw [List.forall_mem_cons] at hf
    exact hf.1.bind fun _ => ih hf.2

theorem error {p : Prog σ ε α} (hp : Raises E p) {s s' : σ} {e : ε} (h : p.run s = (.error e, s')) :
    E e := wp_error (hp s) h

end Raises

/-- `p` neither looks at what `f` changes nor changes it itself. -/
def Commutes (f : σ → σ) (p : Prog σ ε α) : Prop :=
  ∀ s, p.run (f s) = ((p.run s).1, f (p.run s).2)

namespace Commutes
variable {f : σ → σ}

theorem pure (a : α) : Commutes (ε := ε) f (Pure.pure a) := fun _ => rfl

theorem throw (e : ε) : Commutes (α := α) f (Prog.throw e) := fun _ => rfl

theorem ofExcept (r : Except ε α) : Commutes f (Prog.ofExcept r) := fun _ => rfl

theorem modify {g : σ → σ} (hg : ∀ s, g (f s) = f (g s)) : Commutes (ε := ε) f (Prog.modify g) :=
  fun s => congrArg (Prod.mk _) (hg s)

theorem bind {p : Prog σ ε α} {g : α → Prog σ ε β} (hp : Commutes f p) (hg : ∀ a, Commutes f (g a)) :
    Commutes f (p >>= g) := by
  intro s
  rw [run_bind, run_bind, hp s]
  rcases p.run s with ⟨e | a, s'⟩
  · rfl
  · exact hg a s'

/-- A program that reads the state and may write it back changed. -/
theorem get_bind {g : σ → Prog σ ε α}
    (h : ∀ s, (g (f s)).run (f s) = (((g s).run s).1, f ((g s).run s).2)) :
    Commutes f (Prog.get >>= g) := h

theorem ite {c : Prop} [Decidable c] {p q : Prog σ ε α} (hp : Commutes f p) (hq : Commutes f q) :
    Commutes f (if c then p else q) := by
  split
  · exact hp
  · exact hq

theorem zoom {read : σ → τ} {write : τ → σ → σ} (hread : ∀ s, read (f s) = read s)
    (hwrite : ∀ t s, write t (f s) = f (write t s)) (p : Prog τ ε α) :
    Commutes f (Prog.zoom read write p) := by
  intro s
  simp only [Prog.zoom, hread]
  exact congrArg (Prod.mk _) (hwrite _ s)

theorem forEach {g : α → Prog σ ε Unit} (hg : ∀ a, Commutes f (g a)) (as : List α) :
    Commutes f (Prog.forEach g as) := by
  induction as with
  | nil => exact pure ()
  | cons a as ih => exact (hg a).bind fun _ => ih

end Commutes
end Prog
