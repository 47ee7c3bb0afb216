import Mathlib.Algebra.Group.Nat.Defs
import Mathlib.Data.List.Forall2
import QuantNet.Failure

/-!
# Reasoning about outcomes

What it means that a sequence of computations delivers a value, and what it delivers.

Every reader, encoder and builder of the library is a sequence of computations that stops at the
first refusal. The lemmas here take such a sequence apart: a step that delivered its value is
continued with that value, and a list of computations delivers a list exactly if every one of them
delivers its entry (`mapM_eq_ok_iff`). The first one that refuses decides the outcome
(`mapM_eq_error`).

Which errors a sequence can end with is said by `FailsOnly`, and by `RefusesOnly` where only the causes
of refusals matter: a sequence fails only as its steps do, each taken after the ones before it
succeeded.
-/

namespace QuantNet

/-- The powers of two that machine words are measured by. -/
theorem twoPow_eq (k : Nat) : twoPow k = 2 ^ k := rfl

namespace Outcome

variable {ε δ α β γ : Type}

/-! ### Steps -/

@[simp] theorem ok_bind (a : α) (f : α → Except ε β) : ((Except.ok a : Except ε α) >>= f) = f a := rfl

@[simp] theorem error_bind (e : ε) (f : α → Except ε β) :
    ((Except.error e : Except ε α) >>= f) = .error e := rfl

@[simp] theorem pure_eq_ok (a : α) : (pure a : Except ε α) = .ok a := rfl

@[simp] theorem map_ok_eq (f : α → β) (a : α) : (Except.ok a : Except ε α).map f = .ok (f a) := rfl

@[simp] theorem map_error_eq (f : α → β) (e : ε) : (Except.error e : Except ε α).map f = .error e := rfl

@[simp] theorem mapError_ok_eq (f : ε → δ) (a : α) : (Except.ok a : Except ε α).mapError f = .ok a := rfl

@[simp] theorem mapError_error_eq (f : ε → δ) (e : ε) :
    (Except.error e : Except ε α).mapError f = .error (f e) := rfl

@[simp] theorem lift_ok (f : ε → δ) (a : α) : Checked.lift f (.ok a) = .ok a := rfl

@[simp] theorem lift_error (f : ε → δ) (e : ε) :
    (Checked.lift f (.error e : Except ε α)) = .error (.refused (f e)) := rfl

@[simp] theorem within_ok (f : ε → δ) (a : α) : Checked.within f (.ok a) = .ok a := rfl

/-- A sequence of two steps delivers a value if both steps do. -/
theorem bind_eq_ok_iff {x : Except ε α} {f : α → Except ε β} {b : β} :
    (x >>= f) = .ok b ↔ ∃ a, x = .ok a ∧ f a = .ok b := by
  constructor
  · intro h
    cases x with
    | error e => cases h
    | ok a => exact ⟨a, rfl, h⟩
  · rintro ⟨a, rfl, h⟩
    exact h

theorem map_eq_ok_iff {x : Except ε α} {f : α → β} {b : β} :
    x.map f = .ok b ↔ ∃ a, x = .ok a ∧ f a = b := by
  cases x <;> simp

theorem mapError_eq_ok_iff {x : Except ε α} {f : ε → δ} {a : α} : x.mapError f = .ok a ↔ x = .ok a := by
  cases x <;> simp

theorem lift_eq_ok_iff {x : Except ε α} {f : ε → δ} {a : α} :
    Checked.lift f x = .ok a ↔ x = .ok a := by
  cases x <;> simp

theorem within_eq_ok_iff {x : Checked ε α} {f : ε → δ} {a : α} :
    Checked.within f x = .ok a ↔ x = .ok a := by
  cases x <;> simp [Checked.within]

/-- A sequence that starts with an error under a condition delivers a value if the condition is
false and the rest delivers it. -/
theorem guard_eq_ok_iff {p : Prop} [Decidable p] {e : ε} {f : β → Except ε α} {x : Except ε α} {a : α} :
    (if p then .error e >>= f else x) = .ok a ↔ ¬ p ∧ x = .ok a := by
  by_cases hp : p <;> simp [hp]

theorem refuse_guard_eq_ok_iff {p : Prop} [Decidable p] {e : ε} {f : β → Checked ε α} {x : Checked ε α}
    {a : α} : (if p then Checked.refuse e >>= f else x) = .ok a ↔ ¬ p ∧ x = .ok a :=
  guard_eq_ok_iff

theorem ite_eq_ok_iff {p : Prop} [Decidable p] {e : ε} {a c : α} :
    (if p then (Except.ok a : Except ε α) else .error e) = .ok c ↔ p ∧ a = c := by
  by_cases h : p
  · rw [if_pos h, Except.ok.injEq, and_iff_right h]
  · rw [if_neg h]
    constructor
    · intro herror
      cases herror
    · exact fun hp => absurd hp.1 h

theorem exists_eq_ok_of_isOk {x : Except ε α} (h : x.isOk = true) : ∃ a, x = .ok a := by
  cases x with
  | ok a => exact ⟨a, rfl⟩
  | error e => cases h

theorem sizeMul_eq_ok_iff {a b c : Nat} :
    (Checked.sizeMul a b : Checked ε Nat) = .ok c ↔ a * b < 2 ^ 64 ∧ a * b = c := by
  rw [Checked.sizeMul, twoPow_eq, ite_eq_ok_iff]

theorem sizeAdd_eq_ok_iff {a b c : Nat} :
    (Checked.sizeAdd a b : Checked ε Nat) = .ok c ↔ a + b < 2 ^ 64 ∧ a + b = c := by
  rw [Checked.sizeAdd, twoPow_eq, ite_eq_ok_iff]

theorem reserve_eq_ok_iff {count : Nat} {u : Unit} :
    (Checked.reserve count : Checked ε Unit) = .ok u ↔ 8 * count < 2 ^ 63 := by
  rw [Checked.reserve, twoPow_eq, ite_eq_ok_iff, and_iff_left rfl]

/-! ### Lists of steps -/

/-- A list of computations delivers a list exactly if each computation delivers its entry. -/
theorem mapM_eq_ok_iff {f : α → Except ε β} {xs : List α} {ys : List β} :
    xs.mapM f = .ok ys ↔ List.Forall₂ (fun x y => f x = .ok y) xs ys := by
  induction xs generalizing ys with
  | nil => simp [eq_comm]
  | cons x xs ih =>
    rw [List.mapM_cons, bind_eq_ok_iff]
    constructor
    · rintro ⟨y, hy, h⟩
      obtain ⟨rest, hrest, h⟩ := bind_eq_ok_iff.mp h
      cases h
      exact .cons hy (ih.mp hrest)
    · intro h
      cases h with
      | cons hy hrest => exact ⟨_, hy, bind_eq_ok_iff.mpr ⟨_, ih.mpr hrest, rfl⟩⟩

/-- Computations that all deliver a value deliver the list of the values. -/
theorem mapM_eq_ok_map {f : α → Except ε β} {g : α → β} {xs : List α}
    (h : ∀ x ∈ xs, f x = .ok (g x)) : xs.mapM f = .ok (xs.map g) := by
  rw [mapM_eq_ok_iff, List.forall₂_map_right_iff, List.forall₂_same]
  exact h

/-- A list with one computation. -/
theorem mapM_singleton (f : α → Except ε β) (x : α) : [x].mapM f = (f x).map fun y => [y] := by
  rw [List.mapM_cons, List.mapM_nil]
  cases f x with
  | ok y => rfl
  | error e => rfl

/-- Lists of one entry each, laid out one after the other. -/
theorem mapM_map_singleton (f : α → Except ε β) (xs : List α) :
    (xs.mapM fun x => (f x).map fun y => [y]).map List.flatten = xs.mapM f := by
  induction xs with
  | nil => rfl
  | cons x xs ih =>
    rw [List.mapM_cons, List.mapM_cons, ← ih]
    cases f x with
    | error e => rfl
    | ok y => cases xs.mapM (fun x => (f x).map fun y => [y]) <;> rfl

/-- The first computation that is refused decides the outcome. -/
theorem mapM_eq_error {f : α → Except ε β} {before after : List α} {x : α} {e : ε}
    (hbefore : ∀ y ∈ before, ∃ b, f y = .ok b) (hx : f x = .error e) :
    (before ++ x :: after).mapM f = .error e := by
  induction before with
  | nil => simp [List.mapM_cons, hx]
  | cons y ys ih =>
    obtain ⟨b, hb⟩ := hbefore y List.mem_cons_self
    have hrest := ih fun z hz => hbefore z (List.mem_cons_of_mem _ hz)
    simp [List.mapM_cons, hb, hrest]

/-- A list of computations is refused exactly as the first of them that is refused. -/
theorem mapM_eq_error_iff {f : α → Except ε β} {xs : List α} {e : ε} :
    xs.mapM f = .error e ↔
      ∃ before x after, xs = before ++ x :: after ∧ (∀ y ∈ before, ∃ b, f y = .ok b) ∧ f x = .error e := by
  constructor
  · induction xs with
    | nil => exact fun h => by cases h
    | cons x xs ih =>
      intro h
      rw [List.mapM_cons] at h
      cases hx : f x with
      | error cause =>
        rw [hx, error_bind, Except.error.injEq] at h
        exact ⟨[], x, xs, rfl, fun _ hy => absurd hy List.not_mem_nil, h ▸ hx⟩
      | ok b =>
        cases hrest : xs.mapM f with
        | ok bs =>
          rw [hx, hrest] at h
          cases h
        | error cause =>
          rw [hx, hrest, ok_bind, error_bind, Except.error.injEq] at h
          obtain ⟨before, y, after, rfl, hbefore, hy⟩ := ih (h ▸ hrest)
          exact ⟨x :: before, y, after, rfl, List.forall_mem_cons.mpr ⟨⟨b, hx⟩, hbefore⟩, hy⟩
  · rintro ⟨before, x, after, rfl, hbefore, hx⟩
    exact mapM_eq_error hbefore hx

/-! ### Failures -/

/-- Every error that a computation can end with satisfies a predicate. -/
def FailsOnly (p : ε → Prop) (x : Except ε α) : Prop := ∀ e, x = .error e → p e

namespace FailsOnly

variable {p : ε → Prop} {q : δ → Prop}

theorem ok (a : α) : FailsOnly p (.ok a : Except ε α) := fun _ h => by cases h

theorem of_eq_ok {x : Except ε α} {a : α} (h : x = .ok a) : FailsOnly p x := h ▸ ok a

theorem error {e : ε} (h : p e) : FailsOnly p (.error e : Except ε α) := fun _ he => by
  cases he
  exact h

theorem mono {r : ε → Prop} {x : Except ε α} (h : FailsOnly p x) (hr : ∀ e, p e → r e) : FailsOnly r x :=
  fun e he => hr e (h e he)

/-- A step that delivered its value is continued with that value. -/
theorem bind {x : Except ε α} {f : α → Except ε β} (hx : FailsOnly p x)
    (hf : ∀ a, x = .ok a → FailsOnly p (f a)) : FailsOnly p (x >>= f) := by
  cases x with
  | error e => exact error (hx e rfl)
  | ok a => exact hf a rfl

theorem map {x : Except ε α} (hx : FailsOnly p x) (f : α → β) : FailsOnly p (x.map f) := by
  cases x with
  | error e => exact error (hx e rfl)
  | ok a => exact ok (f a)

theorem mapError {x : Except ε α} {f : ε → δ} (hx : FailsOnly (fun e => q (f e)) x) : FailsOnly q (x.mapError f) := by
  cases x with
  | error e => exact error (hx e rfl)
  | ok a => exact ok a

theorem mapM {f : α → Except ε β} {xs : List α} (h : ∀ x ∈ xs, FailsOnly p (f x)) : FailsOnly p (xs.mapM f) := by
  induction xs with
  | nil => exact ok []
  | cons x xs ih =>
    rw [List.mapM_cons]
    refine (h x List.mem_cons_self).bind fun y _ => ?_
    exact (ih fun z hz => h z (List.mem_cons_of_mem _ hz)).bind fun ys _ => ok (y :: ys)

end FailsOnly

/-- Every cause that a checked computation is refused for satisfies a predicate. -/
abbrev RefusesOnly (p : ε → Prop) (x : Checked ε α) : Prop :=
  FailsOnly (fun failure => ∀ e, failure = .refused e → p e) x

namespace RefusesOnly

variable {p : ε → Prop} {q : δ → Prop}

theorem refused {x : Checked ε α} {e : ε} (h : RefusesOnly p x) (hx : x = .error (.refused e)) : p e := h _ hx e rfl

theorem mono {r : ε → Prop} {x : Checked ε α} (h : RefusesOnly p x) (hr : ∀ e, p e → r e) : RefusesOnly r x :=
  FailsOnly.mono h fun _ hfailure e he => hr e (hfailure e he)

theorem refuse {e : ε} (h : p e) : RefusesOnly p (Checked.refuse e : Checked ε α) :=
  FailsOnly.error fun _ he => by
    cases he
    exact h

theorem overflow (operation : Arithmetic) : RefusesOnly p (.error (.overflow operation) : Checked ε α) :=
  FailsOnly.error fun _ he => by cases he

theorem lift {x : Except ε α} {f : ε → δ} (h : FailsOnly (fun e => q (f e)) x) : RefusesOnly q (Checked.lift f x) := by
  cases x with
  | error e => exact refuse (h e rfl)
  | ok a => exact FailsOnly.ok a

theorem within {x : Checked ε α} {f : ε → δ} (h : RefusesOnly (fun e => q (f e)) x) :
    RefusesOnly q (Checked.within f x) := by
  rcases x with (e | operation) | a
  · exact refuse (h.refused rfl)
  · exact overflow operation
  · exact FailsOnly.ok a

/-- An operation whose result is only checked for its size refuses nothing. -/
theorem checked {c : Prop} [Decidable c] (a : α) (operation : Arithmetic) :
    RefusesOnly p (if c then (.ok a : Checked ε α) else .error (.overflow operation)) := by
  split
  · exact FailsOnly.ok a
  · exact overflow operation

theorem sizeMul (a b : Nat) : RefusesOnly p (Checked.sizeMul a b : Checked ε Nat) := checked _ _

theorem sizeAdd (a b : Nat) : RefusesOnly p (Checked.sizeAdd a b : Checked ε Nat) := checked _ _

theorem reserve (count : Nat) : RefusesOnly p (Checked.reserve count : Checked ε Unit) := checked _ _

end RefusesOnly

/-! ### Lists, entry by entry -/

/-- An entry of the first list has a partner in the second one. -/
theorem exists_right_of_mem {r : α → β → Prop} {xs : List α} {ys : List β} (h : List.Forall₂ r xs ys) {x : α}
    (hx : x ∈ xs) : ∃ y ∈ ys, r x y := by
  induction h with
  | nil => cases hx
  | cons hfirst _ ih =>
    rcases List.mem_cons.mp hx with rfl | hx
    · exact ⟨_, List.mem_cons_self, hfirst⟩
    · obtain ⟨y, hy, hxy⟩ := ih hx
      exact ⟨y, List.mem_cons_of_mem _ hy, hxy⟩

/-- An entry of the second list has a partner in the first one. -/
theorem exists_left_of_mem {r : α → β → Prop} {xs : List α} {ys : List β} (h : List.Forall₂ r xs ys) {y : β}
    (hy : y ∈ ys) : ∃ x ∈ xs, r x y := exists_right_of_mem h.flip hy

/-- The partners of partners. -/
theorem forall₂_trans {r : α → β → Prop} {r' : β → γ → Prop} {r'' : α → γ → Prop} {xs : List α} {ys : List β}
    {zs : List γ} (h : List.Forall₂ r xs ys) (h' : List.Forall₂ r' ys zs) (hr : ∀ a b c, r a b → r' b c → r'' a c) :
    List.Forall₂ r'' xs zs := by
  induction h generalizing zs with
  | nil =>
    cases h'
    exact .nil
  | cons hfirst _ ih =>
    cases h' with
    | cons hfirst' hrest' => exact .cons (hr _ _ _ hfirst hfirst') (ih hrest')

/-- Partners of the items of all entries are collected entry by entry. -/
theorem forall₂_flatMap_left_iff {r : β → γ → Prop} {items : α → List β} {xs : List α} {ys : List γ} :
    List.Forall₂ r (xs.flatMap items) ys ↔
      ∃ parts, List.Forall₂ (fun x part => List.Forall₂ r (items x) part) xs parts ∧ parts.flatten = ys := by
  induction xs generalizing ys with
  | nil => simp [eq_comm]
  | cons x xs ih =>
    rw [List.flatMap_cons]
    constructor
    · intro h
      have hfirst := List.forall₂_take_append _ _ _ h.flip
      obtain ⟨parts, hparts, hrest⟩ := ih.mp (List.forall₂_drop_append _ _ _ h.flip).flip
      exact ⟨_ :: parts, .cons hfirst.flip hparts, by rw [List.flatten_cons, hrest, List.take_append_drop]⟩
    · rintro ⟨parts, hparts, rfl⟩
      cases hparts with
      | cons hpart hrest => exact List.rel_append hpart (ih.mpr ⟨_, hrest, rfl⟩)

/-- Partners for every entry make a list of partners. -/
theorem exists_forall₂ {r : α → β → Prop} {xs : List α} (h : ∀ x ∈ xs, ∃ y, r x y) : ∃ ys, List.Forall₂ r xs ys := by
  induction xs with
  | nil => exact ⟨[], .nil⟩
  | cons x xs ih =>
    obtain ⟨y, hy⟩ := h x List.mem_cons_self
    obtain ⟨ys, hys⟩ := ih fun z hz => h z (List.mem_cons_of_mem _ hz)
    exact ⟨y :: ys, .cons hy hys⟩

theorem exists_mapM_eq_ok {f : α → Except ε β} {xs : List α} (h : ∀ x ∈ xs, ∃ y, f x = .ok y) :
    ∃ ys, xs.mapM f = .ok ys := by
  obtain ⟨ys, hys⟩ := exists_forall₂ h
  exact ⟨ys, mapM_eq_ok_iff.mpr hys⟩

/-- What is looked up in a list of entries: the first one, or else what the rest holds. -/
theorem lookup_cons_eq {κ : Type} [BEq κ] [LawfulBEq κ] [DecidableEq κ] (n key : κ) (x : α) (rest : List (κ × α)) :
    ((key, x) :: rest).lookup n = if n = key then some x else rest.lookup n := by
  by_cases h : n = key
  · simp [h]
  · rw [List.lookup_cons, beq_false_of_ne h, if_neg h]

end Outcome

end QuantNet
