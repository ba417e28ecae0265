import Mathlib.Algebra.Group.Nat.Defs
import Mathlib.Tactic.Basic

/-!
# Programs that may panic

A computation that returns an optional value or panics, under one of two builds. Word arithmetic
is the only thing a build changes: past the word it panics in the debug build and wraps in the
release build. Everything else that can go wrong (a slice out of range) panics in both.

`PanicFree m P` says that `m` is free of panics in every build exactly when `P` holds: `P` rules
panics out in each build, and the debug build panics without it. Its rules follow the shape of a
program, one per construct, so that the condition of a program is read off its text. No rule
speaks of the value a computation returns.
-/

namespace Lib

/-- Overflow checks are on in the debug build only. -/
inductive Build where
  | debug | release
  deriving DecidableEq

/-- Why a computation panicked. -/
inductive Panic where
  | overflow | slice
  deriving DecidableEq

/-- A computation that panics, returns nothing, or returns a value. -/
def Checked (α : Type) : Type := Build → Except Panic (Option α)

namespace Checked

variable {α β : Type}

protected def pure (a : α) : Checked α := fun _ => .ok (some a)

protected def bind (m : Checked α) (f : α → Checked β) : Checked β := fun build =>
  match m build with
  | .error e => .error e
  | .ok none => .ok none
  | .ok (some a) => f a build

instance : Monad Checked where
  pure := Checked.pure
  bind := Checked.bind

/-- Give up with no value. -/
def none : Checked α := fun _ => .ok Option.none

/-- Give up with no value when the condition holds. -/
def noneIf (c : Prop) [Decidable c] : Checked Unit := if c then none else pure ()

def panic (p : Panic) : Checked α := fun _ => .error p

def ofOption : Option α → Checked α
  | Option.none => none
  | some a => pure a

/-- Run a computation that may give up, and go on with what it returned. -/
def attempt (m : Checked α) : Checked (Option α) := fun build => (m build).map some

/-- The sum of two 64-bit words. -/
def add (x y : Nat) : Checked Nat := fun build =>
  if x + y < 2 ^ 64 then .ok (some (x + y))
  else match build with
    | .debug => .error .overflow
    | .release => .ok (some ((x + y) % 2 ^ 64))

/-- The product of two 64-bit words. -/
def mul (x y : Nat) : Checked Nat := fun build =>
  if x * y < 2 ^ 64 then .ok (some (x * y))
  else match build with
    | .debug => .error .overflow
    | .release => .ok (some (x * y % 2 ^ 64))

/-! ## Equations -/

theorem value_inj {a b : α} : (pure a : Checked α) = pure b ↔ a = b :=
  ⟨fun h => Option.some.inj (Except.ok.inj (congrFun h .debug)), congrArg pure⟩

@[simp] theorem value_bind (a : α) (f : α → Checked β) : (pure a >>= f) = f a := rfl

@[simp] theorem none_bind (f : α → Checked β) : (none >>= f) = none := rfl

theorem assoc_bind {γ : Type} (m : Checked α) (f : α → Checked β) (g : β → Checked γ) :
    (m >>= f >>= g) = (m >>= fun a => f a >>= g) := by
  funext build
  change Checked.bind (Checked.bind m f) g build = Checked.bind m (fun a => f a >>= g) build
  unfold Checked.bind
  cases m build with
  | error e => rfl
  | ok o => cases o <;> rfl

theorem congr_bind {m : Checked α} {f g : α → Checked β} (h : ∀ a, f a = g a) :
    (m >>= f) = (m >>= g) := congrArg (m >>= ·) (funext h)

theorem ite_bind {c : Prop} [Decidable c] (m m' : Checked α) (f : α → Checked β) :
    ((if c then m else m') >>= f) = if c then m >>= f else m' >>= f := by
  split <;> rfl

theorem add_eq_pure {x y : Nat} (h : x + y < 2 ^ 64) : add x y = pure (x + y) := by
  funext build
  exact if_pos h

theorem mul_eq_pure {x y : Nat} (h : x * y < 2 ^ 64) : mul x y = pure (x * y) := by
  funext build
  exact if_pos h

theorem noneIf_pos {c : Prop} [Decidable c] (h : c) : noneIf c = none := if_pos h

theorem noneIf_neg {c : Prop} [Decidable c] (h : ¬ c) : noneIf c = pure () := if_neg h

/-! ## Freedom from panics -/

/-- The computation ends without a panic under one build. -/
def Ends (m : Checked α) (build : Build) : Prop := ∃ o, m build = .ok o

/-- The computation is free of panics exactly when `P` holds. -/
structure PanicFree (m : Checked α) (P : Prop) : Prop where
  ends : P → ∀ build, m.Ends build
  needs : m.Ends .debug → P

theorem PanicFree.iff {m : Checked α} {P : Prop} (h : PanicFree m P) :
    (∀ build, m.Ends build) ↔ P :=
  ⟨fun hm => h.needs (hm .debug), h.ends⟩

theorem PanicFree.congr {m : Checked α} {P Q : Prop} (h : PanicFree m P) (hPQ : P ↔ Q) :
    PanicFree m Q :=
  ⟨fun hq => h.ends (hPQ.mpr hq), fun hm => hPQ.mp (h.needs hm)⟩

theorem panicFree_pure (a : α) : PanicFree (pure a) True :=
  ⟨fun _ _ => ⟨_, rfl⟩, fun _ => trivial⟩

theorem panicFree_none : PanicFree (none : Checked α) True :=
  ⟨fun _ _ => ⟨_, rfl⟩, fun _ => trivial⟩

/-- Giving up early needs nothing of what would follow. -/
theorem panicFree_noneIf {c : Prop} [Decidable c] {f : Unit → Checked β} {P : Prop}
    (h : ¬ c → PanicFree (f ()) P) : PanicFree (noneIf c >>= f) (c ∨ P) := by
  by_cases hc : c
  · rw [noneIf_pos hc]
    exact panicFree_none.congr (by simp [hc])
  · rw [noneIf_neg hc]
    exact (h hc).congr (by simp [hc])

/-- A program that never panics may give up early. -/
theorem panicFree_noneIf_true {c : Prop} [Decidable c] {f : Unit → Checked β}
    (h : ¬ c → PanicFree (f ()) True) : PanicFree (noneIf c >>= f) True :=
  (panicFree_noneIf h).congr (by simp)

theorem panicFree_ite {c : Prop} [Decidable c] {m m' : Checked α} {P Q : Prop}
    (h : c → PanicFree m P) (h' : ¬ c → PanicFree m' Q) :
    PanicFree (if c then m else m') ((c → P) ∧ (¬ c → Q)) := by
  by_cases hc : c
  · rw [if_pos hc]
    exact (h hc).congr (by simp [hc])
  · rw [if_neg hc]
    exact (h' hc).congr (by simp [hc])

theorem panicFree_ite_true {c : Prop} [Decidable c] {m m' : Checked α}
    (h : c → PanicFree m True) (h' : ¬ c → PanicFree m' True) :
    PanicFree (if c then m else m') True :=
  (panicFree_ite h h').congr (by simp)

/-- Stopping early needs nothing of what would follow. -/
theorem panicFree_stop {c : Prop} [Decidable c] {a : α} {m : Checked α} {P : Prop}
    (h : ¬ c → PanicFree m P) : PanicFree (if c then pure a else m) (c ∨ P) := by
  by_cases hc : c
  · rw [if_pos hc]
    exact (panicFree_pure a).congr (by simp [hc])
  · rw [if_neg hc]
    exact (h hc).congr (by simp [hc])

/-- What is skipped under `c` is needed only without it; what follows is needed either way. -/
theorem panicFree_skip {c : Prop} [Decidable c] {m m' : Checked α} {P Q : Prop}
    (h : PanicFree m Q) (h' : ¬ c → PanicFree m' (P ∧ Q)) :
    PanicFree (if c then m else m') ((¬ c → P) ∧ Q) := by
  by_cases hc : c
  · rw [if_pos hc]
    exact h.congr (by simp [hc])
  · rw [if_neg hc]
    exact (h' hc).congr (by simp [hc])

/-- A sum needs to fit the word, and hands the exact sum on. -/
theorem panicFree_add {x y : Nat} {f : Nat → Checked β} {P : Prop}
    (h : x + y < 2 ^ 64 → PanicFree (f (x + y)) P) :
    PanicFree (add x y >>= f) (x + y < 2 ^ 64 ∧ P) := by
  by_cases hxy : x + y < 2 ^ 64
  · rw [add_eq_pure hxy, value_bind]
    exact (h hxy).congr (and_iff_right hxy).symm
  · refine ⟨fun hP => absurd hP.1 hxy, fun ⟨o, ho⟩ => ?_⟩
    have hdebug : add x y .debug = .error .overflow := if_neg hxy
    change Checked.bind (add x y) f .debug = .ok o at ho
    simp only [Checked.bind, hdebug] at ho
    cases ho

/-- An attempt always hands a value on, so it needs what both parts need. -/
theorem panicFree_attempt {m : Checked α} {f : Option α → Checked β} {P Q : Prop}
    (hm : PanicFree m P) (hf : ∀ o, PanicFree (f o) Q) :
    PanicFree (attempt m >>= f) (P ∧ Q) := by
  have hrun : ∀ build, (attempt m >>= f) build =
      match m build with
      | .error e => .error e
      | .ok o => f o build := by
    intro build
    change Checked.bind (attempt m) f build = _
    unfold Checked.bind attempt
    cases m build <;> rfl
  refine ⟨fun ⟨hP, hQ⟩ build => ?_, fun ⟨r, hr⟩ => ?_⟩
  · obtain ⟨o, ho⟩ := hm.ends hP build
    obtain ⟨r, hr⟩ := (hf o).ends hQ build
    exact ⟨r, by rw [hrun, ho]; exact hr⟩
  · rw [hrun] at hr
    cases ho : m .debug with
    | error e => rw [ho] at hr; cases hr
    | ok o =>
      rw [ho] at hr
      exact ⟨hm.needs ⟨o, ho⟩, (hf o).needs ⟨r, hr⟩⟩

/-- What follows a computation does not add to its need when it never panics. -/
theorem panicFree_bind {m : Checked α} {f : α → Checked β} {P : Prop} (hm : PanicFree m P)
    (hf : ∀ a, PanicFree (f a) True) : PanicFree (m >>= f) P := by
  have hrun : ∀ build, (m >>= f) build = Checked.bind m f build := fun _ => rfl
  refine ⟨fun hP build => ?_, fun ⟨r, hr⟩ => ?_⟩
  · obtain ⟨o, ho⟩ := hm.ends hP build
    cases o with
    | none => exact ⟨.none, by rw [hrun, Checked.bind, ho]⟩
    | some a =>
      obtain ⟨r, hr⟩ := (hf a).ends trivial build
      exact ⟨r, by rw [hrun, Checked.bind, ho]; exact hr⟩
  · rw [hrun, Checked.bind] at hr
    cases ho : m .debug with
    | error e => rw [ho] at hr; cases hr
    | ok o => exact hm.needs ⟨o, ho⟩

/-! ## Returned values -/

/-- What the computation returns, if it returns a value, satisfies `P`. -/
def Yields (m : Checked α) (P : α → Prop) : Prop := ∀ build a, m build = .ok (some a) → P a

variable {P : α → Prop} {Q : β → Prop}

theorem yields_pure {a : α} (h : P a) : Yields (pure a) P := by
  intro build b hb
  obtain rfl : a = b := Option.some.inj (Except.ok.inj hb)
  exact h

theorem yields_none : Yields (none : Checked α) P := fun _ _ h => by cases h

/-- What follows may rely on what the first part returns. -/
theorem yields_bind {m : Checked α} {f : α → Checked β} (hm : Yields m P)
    (hf : ∀ a, P a → Yields (f a) Q) : Yields (m >>= f) Q := by
  intro build b hb
  change Checked.bind m f build = .ok (some b) at hb
  unfold Checked.bind at hb
  cases hmb : m build with
  | error e =>
    rw [hmb] at hb
    cases hb
  | ok o =>
    rw [hmb] at hb
    cases o with
    | none => cases hb
    | some a => exact hf a (hm build a hmb) build b hb

theorem yields_trivial (m : Checked α) : Yields m fun _ => True := fun _ _ _ => trivial

/-- What follows does not rely on what the first part returns. -/
theorem yields_of_rest {m : Checked α} {f : α → Checked β} (hf : ∀ a, Yields (f a) Q) :
    Yields (m >>= f) Q := yields_bind (yields_trivial m) fun a _ => hf a

theorem yields_noneIf {c : Prop} [Decidable c] {f : Unit → Checked β}
    (h : ¬ c → Yields (f ()) Q) : Yields (noneIf c >>= f) Q := by
  by_cases hc : c
  · rw [noneIf_pos hc]
    exact yields_none
  · rw [noneIf_neg hc]
    exact h hc

theorem yields_ite {c : Prop} [Decidable c] {m m' : Checked α} (h : c → Yields m P)
    (h' : ¬ c → Yields m' P) : Yields (if c then m else m') P := by
  by_cases hc : c
  · rw [if_pos hc]
    exact h hc
  · rw [if_neg hc]
    exact h' hc

theorem yields_attempt {m : Checked α} (hm : Yields m P) :
    Yields (attempt m) fun o => ∀ a ∈ o, P a := by
  intro build o ho a ha
  unfold attempt at ho
  cases hmb : m build with
  | error e =>
    rw [hmb] at ho
    cases ho
  | ok o' =>
    rw [hmb] at ho
    obtain rfl : o' = o := Option.some.inj (Except.ok.inj ho)
    exact hm build a (hmb.trans (congrArg Except.ok ha))

end Checked

end Lib
