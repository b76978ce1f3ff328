import JiaMiaoDB.Lib.ByteFormat
import Mathlib.Data.Set.Basic

/-!
# Room that readers reserve

A tracked reader notes every call that reserves room, with the number of bytes not read yet.
`Reserves p r F` says that `p` reads like `r` and that its calls are those for the counts that stand
behind a text of `F`. The rules compose these statements along a format.
-/

set_option autoImplicit false

namespace ByteFormat

/-- Room for `count` elements is reserved while `left` bytes are not read yet. -/
structure Reservation (κ : Type) where
  target : κ
  count : Nat
  left : Nat
deriving DecidableEq

abbrev Tracked (κ ε α : Type) := Prog (List (Reservation κ) × Bytes) ε α

section
variable {κ ε α β : Type}

namespace Tracked

def read (r : Reader ε α) : Tracked κ ε α := Prog.zoom (·.2) (fun bs s => (s.1, bs)) r

def reserve (target : κ) (count : Nat) : Tracked κ ε Unit :=
  Prog.modify fun s => (s.1 ++ [⟨target, count, s.2.length⟩], s.2)

/-- A count of four bytes, and room for so many elements. -/
def readReserve (target : κ) (short : ε) : Tracked κ ε Nat := do
  let count ← read (readLE 4 short)
  reserve target count
  pure count

def many (p : Tracked κ ε α) : Nat → Tracked κ ε (List α)
  | 0 => pure []
  | n + 1 => do
    let a ← p
    let as ← many p n
    pure (a :: as)

theorem run_read (r : Reader ε α) (l : List (Reservation κ)) (bs : Bytes) :
    (read r : Tracked κ ε α).run (l, bs) = ((r.run bs).1, (l, (r.run bs).2)) := rfl

end Tracked

/-- What `r` reads, and behind it a text of its value's set. -/
def After (r : Reader ε α) (F : α → Set Bytes) : Set Bytes :=
  {bs | ∃ front a back, Reads r front a ∧ back ∈ F a ∧ bs = front ++ back}

/-- Some of `n` items, and behind them a text of `F`. -/
def Within (r : Reader ε α) (F : Set Bytes) : Nat → Set Bytes
  | 0 => ∅
  | n + 1 => F ∪ After r fun _ => Within r F n

/-- The count stands behind a text of `F`, and the bytes left are those behind the count. -/
def Reservation.StandsBehind (F : κ → Set Bytes) (bs : Bytes) (x : Reservation κ) : Prop :=
  ∃ front ∈ F x.target, ∃ rest, bs = front ++ (putLE 4 x.count ++ rest) ∧ x.count < 256 ^ 4 ∧
    x.left = rest.length

section Standing
variable {r : Reader ε α} {F G : κ → Set Bytes} {H : α → κ → Set Bytes} {bs mid : Bytes} {a : α}
  {x : Reservation κ}

@[simp] theorem after_empty (r : Reader ε α) : (After r fun _ => ∅) = ∅ := by
  ext bs
  simp [After]

@[simp] theorem not_standsBehind_empty : ¬ x.StandsBehind (fun _ => ∅) bs := by
  rintro ⟨front, hfront, -⟩
  exact hfront

theorem standsBehind_union :
    x.StandsBehind (fun k => F k ∪ G k) bs ↔ x.StandsBehind F bs ∨ x.StandsBehind G bs := by
  constructor
  · rintro ⟨front, hfront | hfront, h⟩
    · exact .inl ⟨front, hfront, h⟩
    · exact .inr ⟨front, hfront, h⟩
  · rintro (⟨front, hfront, h⟩ | ⟨front, hfront, h⟩)
    · exact ⟨front, .inl hfront, h⟩
    · exact ⟨front, .inr hfront, h⟩

theorem standsBehind_after_ok (hr : Tight r) (h : r.run bs = (.ok a, mid)) :
    x.StandsBehind (fun k => After r fun a => H a k) bs ↔ x.StandsBehind (H a) mid := by
  constructor
  · rintro ⟨-, ⟨front, b, back, hread, hback, rfl⟩, rest, rfl, hcount, hleft⟩
    rw [List.append_assoc, hread] at h
    cases h
    exact ⟨back, hback, rest, rfl, hcount, hleft⟩
  · obtain ⟨front, rfl, hread⟩ := hr.consumes h
    rintro ⟨back, hback, rest, rfl, hcount, hleft⟩
    exact ⟨front ++ back, ⟨front, a, back, hread, hback, rfl⟩, rest,
      (List.append_assoc _ _ _).symm, hcount, hleft⟩

theorem not_standsBehind_after_error {e : ε} (h : r.run bs = (.error e, mid)) :
    ¬ x.StandsBehind (fun k => After r fun a => H a k) bs := by
  rintro ⟨-, ⟨front, b, back, hread, -, rfl⟩, rest, rfl, -⟩
  rw [List.append_assoc, hread] at h
  cases h

end Standing

/-- `p` reads like `r` and reserves room for the counts behind the texts of `F`. -/
structure Reserves (p : Tracked κ ε α) (r : Reader ε α) (F : κ → Set Bytes) : Prop where
  tight : Tight r
  calls : ∀ l bs, ∃ made : List (Reservation κ),
    p.run (l, bs) = ((r.run bs).1, (l ++ made, (r.run bs).2)) ∧
      ∀ x, x ∈ made ↔ x.StandsBehind F bs

namespace Reserves
variable {p : Tracked κ ε α} {r : Reader ε α} {F : κ → Set Bytes}

theorem read (hr : Tight r) : Reserves (κ := κ) (Tracked.read r) r fun _ => ∅ where
  tight := hr
  calls l bs := ⟨[], by rw [Tracked.run_read, List.append_nil], by simp⟩

theorem bind {q : α → Tracked κ ε β} {f : α → Reader ε β} {G : α → κ → Set Bytes}
    (hp : Reserves p r F) (hq : ∀ a, Reserves (q a) (f a) (G a)) :
    Reserves (p >>= q) (r >>= f) fun k => F k ∪ After r fun a => G a k where
  tight := hp.tight.bind fun a => (hq a).tight
  calls l bs := by
    obtain ⟨made, hrun, hmade⟩ := hp.calls l bs
    rcases hr : r.run bs with ⟨e | a, mid⟩
    · rw [hr] at hrun
      refine ⟨made, by rw [Prog.bind_error hrun, Prog.bind_error hr], fun x => ?_⟩
      rw [standsBehind_union, hmade]
      exact ⟨.inl, fun h => h.resolve_right (not_standsBehind_after_error hr)⟩
    · rw [hr] at hrun
      obtain ⟨made', hrun', hmade'⟩ := (hq a).calls (l ++ made) mid
      refine ⟨made ++ made', ?_, fun x => ?_⟩
      · rw [Prog.bind_ok hrun, Prog.bind_ok hr, hrun', List.append_assoc]
      · rw [List.mem_append, standsBehind_union, hmade, hmade', standsBehind_after_ok hp.tight hr]

theorem readThen {q : α → Tracked κ ε β} {f : α → Reader ε β} {G : α → κ → Set Bytes}
    (hr : Tight r) (hq : ∀ a, Reserves (q a) (f a) (G a)) :
    Reserves (Tracked.read r >>= q) (r >>= f) fun k => After r fun a => G a k := by
  simpa only [Set.empty_union] using (read hr).bind hq

theorem thenRead {f : α → Reader ε β} (hp : Reserves p r F) (hf : ∀ a, Tight (f a)) :
    Reserves (p >>= fun a => Tracked.read (f a)) (r >>= f) F := by
  simpa only [after_empty, Set.union_empty] using hp.bind fun a => read (hf a)

theorem thenPure {f : α → β} (hp : Reserves p r F) :
    Reserves (do let a ← p; pure (f a)) (do let a ← r; pure (f a)) F :=
  hp.thenRead fun a => Tight.pure (f a)

theorem readReserve (target : κ) (short : ε) : Reserves (Tracked.readReserve target short)
    (readLE 4 short) fun k => {bs | k = target ∧ bs = []} where
  tight := Tight.le 4 short
  calls l bs := by
    have hread := Tracked.run_read (κ := κ) (readLE 4 short) l bs
    rcases hr : (readLE 4 short).run bs with ⟨e | count, rest⟩
    · rw [hr] at hread
      refine ⟨[], by rw [Tracked.readReserve, Prog.bind_error hread, List.append_nil], fun x => ?_⟩
      refine ⟨fun h => absurd h List.not_mem_nil, ?_⟩
      rintro ⟨-, ⟨-, rfl⟩, rest', rfl, hcount, -⟩
      rw [List.nil_append, Reads.le short hcount] at hr
      cases hr
    · rw [hr] at hread
      refine ⟨[⟨target, count, rest.length⟩], by rw [Tracked.readReserve, Prog.bind_ok hread]; rfl,
        fun x => ?_⟩
      obtain ⟨rfl, hcount⟩ := eq_putLE_of_run_readLE hr
      rw [List.mem_singleton]
      constructor
      · rintro rfl
        exact ⟨[], ⟨rfl, rfl⟩, rest, rfl, hcount, rfl⟩
      · rintro ⟨-, ⟨htarget, rfl⟩, rest', hbs, hcount', hleft⟩
        rw [hbs, List.nil_append, Reads.le short hcount'] at hr
        rcases x with ⟨target', count', left⟩
        cases hr
        cases htarget
        cases hleft
        rfl

theorem many (hp : Reserves p r F) (n : Nat) :
    Reserves (Tracked.many p n) (readMany r n) fun k => Within r (F k) n := by
  induction n with
  | zero => exact read (Tight.pure [])
  | succ n ih => exact hp.bind fun a => ih.thenPure

end Reserves
end
end ByteFormat
