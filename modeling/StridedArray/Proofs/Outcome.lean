import Mathlib.Data.List.Forall2
import StridedArray.Word

/-!
# Reasons for a refusal

What is proved of an operation is often that it is refused for certain
reasons only, or not at all. `RefusedOnly P` says that every error with
which the operation is refused satisfies `P`; traps do not count. It goes
through sequencing (`Outcome.RefusedOnly.bind`), so that it is proved of a
composite operation part by part. An operation that is never refused has a
result unless it traps (`Outcome.RefusedOnly.isOk_or_trap`).
-/

namespace StridedArray.Outcome

variable {α β : Type}

/-- **The operation is refused for the given reasons only.** -/
def RefusedOnly (P : ArrayError → Prop) (x : Outcome α) : Prop :=
  ∀ e, x = refuse e → P e

/-- The operation is never refused. -/
abbrev Accepted (x : Outcome α) : Prop :=
  RefusedOnly (fun _ => False) x

theorem RefusedOnly.mono {P Q : ArrayError → Prop} {x : Outcome α} (h : RefusedOnly P x)
    (hPQ : ∀ e, P e → Q e) : RefusedOnly Q x :=
  fun e he => hPQ e (h e he)

@[simp] theorem refusedOnly_ok {P : ArrayError → Prop} (a : α) :
    RefusedOnly P (.ok a : Outcome α) :=
  nofun

@[simp] theorem refusedOnly_pure {P : ArrayError → Prop} (a : α) :
    RefusedOnly P (pure a : Outcome α) :=
  nofun

@[simp] theorem refusedOnly_trap {P : ArrayError → Prop} (t : Trap) :
    RefusedOnly P (trap t : Outcome α) :=
  nofun

/-- What is refused does not trap. -/
@[simp] theorem refuse_ne_trap (e : ArrayError) (t : Trap) : (refuse e : Outcome α) ≠ trap t :=
  nofun

/-- Refusals are equal if their reasons are. -/
@[simp] theorem refuse_inj {e e' : ArrayError} : (refuse e : Outcome α) = refuse e' ↔ e = e' :=
  ⟨fun h => Fault.refused.inj (Except.error.inj h), fun h => congrArg refuse h⟩

@[simp] theorem refusedOnly_refuse {P : ArrayError → Prop} {e : ArrayError} :
    RefusedOnly P (refuse e : Outcome α) ↔ P e :=
  ⟨fun h => h e rfl, fun h _ he => refuse_inj.mp he ▸ h⟩

/-- **Two operations in a row are refused for the reasons of either.** -/
theorem RefusedOnly.bind {P : ArrayError → Prop} {x : Outcome α} {f : α → Outcome β}
    (hx : RefusedOnly P x) (hf : ∀ a, x = .ok a → RefusedOnly P (f a)) :
    RefusedOnly P (x >>= f) := by
  cases x with
  | ok a => exact hf a rfl
  | error fault =>
    intro e he
    refine hx e ?_
    cases he
    rfl

theorem RefusedOnly.ite {P : ArrayError → Prop} {c : Prop} [Decidable c] {x y : Outcome α}
    (hx : c → RefusedOnly P x) (hy : ¬c → RefusedOnly P y) :
    RefusedOnly P (if c then x else y) := by
  split
  · next h => exact hx h
  · next h => exact hy h

theorem refusedOnly_unsigned {P : ArrayError → Prop} (n : Nat) :
    RefusedOnly P (Word.unsigned n) :=
  .ite (fun _ => refusedOnly_ok n) (fun _ => refusedOnly_trap _)

theorem refusedOnly_signed {P : ArrayError → Prop} (i : Int) : RefusedOnly P (Word.signed i) :=
  .ite (fun _ => refusedOnly_ok i) (fun _ => refusedOnly_trap _)

theorem refusedOnly_subscript {P : ArrayError → Prop} (x : Option α) :
    RefusedOnly P (subscript x) := by
  cases x with
  | none => exact refusedOnly_trap _
  | some a => exact refusedOnly_ok a

/-- An operation is fine exactly if it has a result. -/
theorem isOk_iff {x : Outcome α} : x.isOk ↔ ∃ a, x = .ok a := by
  cases x with
  | error e => exact ⟨nofun, nofun⟩
  | ok a => exact ⟨fun _ => ⟨a, rfl⟩, fun _ => rfl⟩

/-- An operation yields a value exactly if that is its result. -/
theorem yields_iff [DecidableEq α] {x : Outcome α} {a : α} : x.yields a ↔ x = .ok a := by
  cases x with
  | error e => exact ⟨nofun, nofun⟩
  | ok b => exact ⟨fun h => congrArg Except.ok (of_decide_eq_true h),
      fun h => decide_eq_true (Except.ok.inj h)⟩

/-- Reading an entry gives that entry. -/
theorem subscript_eq_ok {x : Option α} {a : α} : subscript x = .ok a ↔ x = some a := by
  cases x with
  | none => exact ⟨nofun, nofun⟩
  | some b => exact ⟨fun h => congrArg some (Except.ok.inj h),
      fun h => congrArg Except.ok (Option.some.inj h)⟩

/-- **What is never refused has a result or traps.** -/
theorem RefusedOnly.isOk_or_trap {x : Outcome α} (h : Accepted x) :
    (∃ a, x = .ok a) ∨ ∃ t, x = trap t := by
  match x, h with
  | .ok a, _ => exact .inl ⟨a, rfl⟩
  | .error (.trapped t), _ => exact .inr ⟨t, rfl⟩
  | .error (.refused e), h => exact (h e rfl).elim

/-- What is never refused and does not trap has a result. -/
theorem RefusedOnly.exists_ok {x : Outcome α} (h : Accepted x) (ht : ∀ t, x ≠ trap t) :
    ∃ a, x = .ok a :=
  h.isOk_or_trap.resolve_right fun ⟨t, hx⟩ => ht t hx

/-- **An operation on every entry of a list** has a result if it has one on each of them. -/
theorem mapM_eq_ok {f : α → Outcome β} {xs : List α} {ys : List β} :
    xs.mapM f = .ok ys ↔ List.Forall₂ (fun x y => f x = .ok y) xs ys := by
  induction xs generalizing ys with
  | nil =>
    rw [List.mapM_nil, List.forall₂_nil_left_iff]
    exact ⟨fun h => (Except.ok.inj h).symm, fun h => h ▸ rfl⟩
  | cons x xs ih =>
    rw [List.mapM_cons, Outcome.bind_eq_ok, List.forall₂_cons_left_iff]
    constructor
    · rintro ⟨y, hy, hrest⟩
      obtain ⟨rest, hrest, hys⟩ := Outcome.bind_eq_ok.mp hrest
      exact ⟨y, rest, hy, ih.mp hrest, (Except.ok.inj hys).symm⟩
    · rintro ⟨y, rest, hy, hrest, rfl⟩
      exact ⟨y, hy, Outcome.bind_eq_ok.mpr ⟨rest, ih.mpr hrest, rfl⟩⟩

/-- An operation on every number below a bound has a result if it has one on each of them. -/
theorem mapM_range_eq_ok {f : Nat → Outcome β} {n : Nat} {ys : List β} :
    (List.range n).mapM f = .ok ys ↔
      ys.length = n ∧ ∀ (i : Nat) (h : i < ys.length), f i = .ok ys[i] := by
  rw [mapM_eq_ok, List.forall₂_iff_get]
  simp only [List.length_range, List.get_eq_getElem, List.getElem_range]
  constructor
  · rintro ⟨hlength, h⟩
    exact ⟨hlength.symm, fun i hi => h i (hlength ▸ hi) hi⟩
  · rintro ⟨hlength, h⟩
    exact ⟨hlength.symm, fun i _ hi => h i hi⟩

/-- Two operations in a row fail by the first, or by the second after a result of the first. -/
theorem bind_eq_error {x : Outcome α} {f : α → Outcome β} {fault : Fault} :
    (x >>= f) = .error fault ↔ x = .error fault ∨ ∃ a, x = .ok a ∧ f a = .error fault := by
  cases x with
  | ok a =>
    constructor
    · exact fun h => .inr ⟨a, rfl, h⟩
    · rintro (h | ⟨b, hb, h⟩)
      · exact nomatch h
      · obtain rfl := Except.ok.inj hb
        exact h
  | error fault' =>
    constructor
    · exact fun h => .inl (congrArg Except.error (Except.error.inj h))
    · rintro (h | ⟨_, h, -⟩)
      · exact congrArg Except.error (Except.error.inj h)
      · exact nomatch h

/-- Two operations in a row are refused by the first, or by the second after a result of the
first. -/
theorem bind_eq_refuse {x : Outcome α} {f : α → Outcome β} {e : ArrayError} :
    (x >>= f) = refuse e ↔ x = refuse e ∨ ∃ a, x = .ok a ∧ f a = refuse e :=
  bind_eq_error

/-- **An operation on every entry of a list fails** as it does on the first entry on which it
fails. -/
theorem mapM_eq_error {f : α → Outcome β} {xs : List α} {fault : Fault} :
    xs.mapM f = .error fault ↔ ∃ (i : Nat) (h : i < xs.length),
      f xs[i] = .error fault ∧ ∀ (j : Nat) (hj : j < i), ∃ y, f xs[j] = .ok y := by
  induction xs with
  | nil =>
    rw [List.mapM_nil]
    exact ⟨nofun, fun ⟨_, h, _⟩ => absurd h (Nat.not_lt_zero _)⟩
  | cons x xs ih =>
    have hrest : ∀ y, (xs.mapM f >>= fun ys => pure (y :: ys) : Outcome (List β)) = .error fault ↔
        xs.mapM f = .error fault := fun y => by
      rw [bind_eq_error]
      exact or_iff_left fun ⟨_, _, h⟩ => nomatch h
    rw [List.mapM_cons, bind_eq_error]
    constructor
    · rintro (h | ⟨y, hy, h⟩)
      · exact ⟨0, Nat.succ_pos _, h, fun j hj => absurd hj (Nat.not_lt_zero j)⟩
      · obtain ⟨i, hi, hfail, hbefore⟩ := ih.mp ((hrest y).mp h)
        refine ⟨i + 1, Nat.succ_lt_succ hi, hfail, fun j hj => ?_⟩
        cases j with
        | zero => exact ⟨y, hy⟩
        | succ j => exact hbefore j (Nat.lt_of_succ_lt_succ hj)
    · rintro ⟨i, hi, hfail, hbefore⟩
      cases i with
      | zero => exact .inl hfail
      | succ i =>
        obtain ⟨y, hy⟩ := hbefore 0 (Nat.succ_pos i)
        refine .inr ⟨y, hy, (hrest y).mpr (ih.mpr ?_)⟩
        exact ⟨i, Nat.lt_of_succ_lt_succ hi, hfail,
          fun j hj => hbefore (j + 1) (Nat.succ_lt_succ hj)⟩

/-- An operation on every number below a bound fails as it does on the least one on which it
fails. -/
theorem mapM_range_eq_error {f : Nat → Outcome β} {n : Nat} {fault : Fault} :
    (List.range n).mapM f = .error fault ↔
      ∃ i < n, f i = .error fault ∧ ∀ j < i, ∃ y, f j = .ok y := by
  rw [mapM_eq_error]
  simp only [List.length_range, List.getElem_range, exists_prop]

/-- An operation on every entry of a list is refused for the reasons of one of them. -/
theorem RefusedOnly.mapM {P : ArrayError → Prop} {f : α → Outcome β} {xs : List α}
    (h : ∀ x ∈ xs, RefusedOnly P (f x)) : RefusedOnly P (xs.mapM f) := by
  induction xs with
  | nil => exact refusedOnly_pure []
  | cons x xs ih =>
    rw [List.mapM_cons]
    refine (h x List.mem_cons_self).bind fun y _ => ?_
    exact (ih fun x hx => h x (List.mem_cons_of_mem _ hx)).bind fun ys _ => refusedOnly_pure _

/-- Operations that agree on every entry of a list agree on the list. -/
theorem mapM_congr {f g : α → Outcome β} {xs : List α} (h : ∀ x ∈ xs, f x = g x) :
    xs.mapM f = xs.mapM g := by
  induction xs with
  | nil => rfl
  | cons x xs ih =>
    rw [List.mapM_cons, List.mapM_cons, h x List.mem_cons_self,
      ih fun y hy => h y (List.mem_cons_of_mem x hy)]

/-- An operation that has a result on every entry of a list has one on the list. -/
theorem exists_mapM_ok {f : α → Outcome β} {xs : List α} (h : ∀ x ∈ xs, ∃ y, f x = .ok y) :
    ∃ ys, xs.mapM f = .ok ys := by
  induction xs with
  | nil => exact ⟨[], rfl⟩
  | cons x xs ih =>
    obtain ⟨y, hy⟩ := h x List.mem_cons_self
    obtain ⟨ys, hys⟩ := ih fun z hz => h z (List.mem_cons_of_mem x hz)
    refine ⟨y :: ys, ?_⟩
    rw [List.mapM_cons, hy, hys]
    rfl

/-! ## Operations that agree unless one traps -/

/-- **The operation ends as the other one does**, unless it traps. -/
def EndsAs (x y : Outcome α) : Prop :=
  (∃ t, x = trap t) ∨ x = y

/-- An operation that does not trap ends as it should. -/
theorem EndsAs.eq {x y : Outcome α} (h : x.EndsAs y) (ht : ∀ t, x ≠ trap t) : x = y :=
  h.resolve_left fun ⟨t, hx⟩ => ht t hx

/-- An operation is refused for the reasons of the one that it ends as. -/
theorem EndsAs.refusedOnly {P : ArrayError → Prop} {x y : Outcome α} (h : x.EndsAs y)
    (hy : RefusedOnly P y) : RefusedOnly P x := by
  rcases h with ⟨t, rfl⟩ | rfl
  · exact refusedOnly_trap t
  · exact hy

/-- **What cannot be refused makes no difference** to how a sequence ends. -/
theorem RefusedOnly.bind_endsAs {x : Outcome α} {f : α → Outcome β} {y : Outcome β}
    (hx : Accepted x) (hf : ∀ a, x = .ok a → (f a).EndsAs y) : (x >>= f).EndsAs y := by
  rcases hx.isOk_or_trap with ⟨a, rfl⟩ | ⟨t, rfl⟩
  · exact hf a rfl
  · exact .inl ⟨t, rfl⟩

end StridedArray.Outcome
