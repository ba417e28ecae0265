import Mathlib.Tactic.Basic

/-!
# Programs that call out

A program over a store of type `S` that asks questions of type `Q` of its surroundings and may
revert. What the surroundings answer, and what they do to the store and to the world before they
answer, is a relation, so one program runs against friendly and hostile surroundings alike.

`Exec` relates a program and the state it starts in to the values it may return and the states it
may end in. A program that reverts is related to nothing: its caller sees no effect of it.

`Keeps` says that every execution stays within a relation between the state before and the state
after. For a relation that is a preorder and that the surroundings stay within, its rules follow
the shape of a program, and only the changes of the store are left to be looked at.

`Asks` says which questions a program asks. Where these concern a part of the world only, it runs
among larger surroundings as among the ones that answer them.
-/

namespace Lib

/-- A program: it returns, reverts, reads or changes its store, or asks. -/
inductive Prog (S Q : Type) (A : Q → Type) (α : Type) : Type
  | pure (a : α)
  | revert
  | load (k : S → Prog S Q A α)
  | modify (f : S → S) (k : Prog S Q A α)
  | ask (q : Q) (k : A q → Prog S Q A α)

namespace Prog

variable {S Q W α β : Type} {A : Q → Type}

protected def bind : Prog S Q A α → (α → Prog S Q A β) → Prog S Q A β
  | .pure a, f => f a
  | .revert, _ => .revert
  | .load k, f => .load fun s => (k s).bind f
  | .modify g k, f => .modify g (k.bind f)
  | .ask q k, f => .ask q fun a => (k a).bind f

instance : Monad (Prog S Q A) where
  pure := Prog.pure
  bind := Prog.bind

/-- The store. -/
def get : Prog S Q A S := .load .pure

/-- Change the store. -/
def update (f : S → S) : Prog S Q A Unit := .modify f (.pure ())

/-- The answer to a question. -/
def call (q : Q) : Prog S Q A (A q) := .ask q .pure

/-- Go on only when the condition holds. -/
def require (c : Prop) [Decidable c] : Prog S Q A Unit := if c then .pure () else .revert

/-- Go on only with a value. -/
def ofOption : Option α → Prog S Q A α
  | none => .revert
  | some a => .pure a

/-! ## Executions -/

/-- What the surroundings may answer, and the state they leave. -/
abbrev Answers (S W Q : Type) (A : Q → Type) : Type := S × W → (q : Q) → A q → S × W → Prop

/-- The program may return `a` and end in the last state. -/
def Exec (answers : Answers S W Q A) : Prog S Q A α → S × W → α → S × W → Prop
  | .pure b, s, a, t => a = b ∧ t = s
  | .revert, _, _, _ => False
  | .load k, s, a, t => Exec answers (k s.1) s a t
  | .modify f k, s, a, t => Exec answers k (f s.1, s.2) a t
  | .ask q k, s, a, t => ∃ b u, answers s q b u ∧ Exec answers (k b) u a t

variable {answers : Answers S W Q A} {s t : S × W} {a : α} {b : β}

@[simp] theorem exec_pure {b : α} :
    Exec answers (pure b : Prog S Q A α) s a t ↔ a = b ∧ t = s := Iff.rfl

@[simp] theorem exec_revert : ¬ Exec answers (.revert : Prog S Q A α) s a t := id

/-- The first program runs to some value and state, and the second goes on from there. -/
@[simp] theorem exec_bind {p : Prog S Q A α} {f : α → Prog S Q A β} :
    Exec answers (p >>= f) s b t ↔ ∃ a u, Exec answers p s a u ∧ Exec answers (f a) u b t := by
  change Exec answers (p.bind f) s b t ↔ _
  induction p generalizing s with
  | pure a =>
    constructor
    · intro h
      exact ⟨a, s, ⟨rfl, rfl⟩, h⟩
    · rintro ⟨_, _, ⟨rfl, rfl⟩, h⟩
      exact h
  | revert =>
    constructor
    · exact False.elim
    · rintro ⟨_, _, h, _⟩
      exact h
  | load k ih => exact ih s.1
  | modify g k ih => exact ih
  | ask q k ih =>
    constructor
    · rintro ⟨c, u, hans, h⟩
      obtain ⟨a, v, hp, hf⟩ := (ih c).mp h
      exact ⟨a, v, ⟨c, u, hans, hp⟩, hf⟩
    · rintro ⟨a, v, ⟨c, u, hans, hp⟩, hf⟩
      exact ⟨c, u, hans, (ih c).mpr ⟨a, v, hp, hf⟩⟩

@[simp] theorem exec_get {x : S} : Exec answers (get : Prog S Q A S) s x t ↔ x = s.1 ∧ t = s :=
  Iff.rfl

@[simp] theorem exec_update {f : S → S} {x : Unit} :
    Exec answers (update f : Prog S Q A Unit) s x t ↔ t = (f s.1, s.2) :=
  ⟨fun h => h.2, fun h => ⟨rfl, h⟩⟩

@[simp] theorem exec_call {q : Q} {x : A q} :
    Exec answers (call q : Prog S Q A (A q)) s x t ↔ answers s q x t := by
  constructor
  · rintro ⟨_, _, h, rfl, rfl⟩
    exact h
  · intro h
    exact ⟨x, t, h, rfl, rfl⟩

@[simp] theorem exec_require {c : Prop} [Decidable c] {x : Unit} :
    Exec answers (require c : Prog S Q A Unit) s x t ↔ c ∧ t = s := by
  by_cases h : c
  · simp [require, h]
  · simp [require, h]

@[simp] theorem exec_ofOption {o : Option α} :
    Exec answers (ofOption o : Prog S Q A α) s a t ↔ o = some a ∧ t = s := by
  cases o with
  | none => simp [ofOption]
  | some b => simp [ofOption, eq_comm]

/-- A program that begins by reading the store. -/
theorem exec_get_bind {f : S → Prog S Q A β} :
    Exec answers (get >>= f) s b t ↔ Exec answers (f s.1) s b t := Iff.rfl

/-- A condition that fails stops the program. -/
theorem not_exec_require_bind {c : Prop} [Decidable c] {p : Prog S Q A β} (h : ¬ c) :
    ¬ Exec answers (require c >>= fun _ => p) s b t := by
  rintro hp
  obtain ⟨_, _, hc, _⟩ := exec_bind.mp hp
  exact h (exec_require.mp hc).1

/-- What happens among some answers happens among more. -/
theorem Exec.mono {answers' : Answers S W Q A} {p : Prog S Q A α}
    (hsub : ∀ s q a t, answers s q a t → answers' s q a t) (h : Exec answers p s a t) :
    Exec answers' p s a t := by
  induction p generalizing s with
  | pure b => exact h
  | revert => exact h.elim
  | load k ih => exact ih s.1 h
  | modify f k ih => exact ih h
  | ask q k ih =>
    obtain ⟨b, u, hanswer, hrest⟩ := h
    exact ⟨b, u, hsub s q b u hanswer, ih b hrest⟩

/-! ## Relations kept -/

/-- Every execution leads from a state to a related one. -/
def Keeps (answers : Answers S W Q A) (rel : S × W → S × W → Prop) (p : Prog S Q A α) : Prop :=
  ∀ s a t, Exec answers p s a t → rel s t

/-- A preorder that the surroundings stay within. -/
structure Frame (answers : Answers S W Q A) (rel : S × W → S × W → Prop) : Prop where
  refl : ∀ s, rel s s
  trans : ∀ {s t u}, rel s t → rel t u → rel s u
  answer : ∀ s q a t, answers s q a t → rel s t

namespace Frame

variable {rel : S × W → S × W → Prop} (F : Frame answers rel)

include F

protected theorem pure (a : α) : Keeps answers rel (pure a : Prog S Q A α) := by
  rintro s b t ⟨rfl, rfl⟩
  exact F.refl _

protected theorem bind {p : Prog S Q A α} {f : α → Prog S Q A β} (hp : Keeps answers rel p)
    (hf : ∀ a, Keeps answers rel (f a)) : Keeps answers rel (p >>= f) := by
  intro s b t h
  obtain ⟨a, u, hfirst, hrest⟩ := exec_bind.mp h
  exact F.trans (hp _ _ _ hfirst) (hf a _ _ _ hrest)

protected theorem get : Keeps answers rel (get : Prog S Q A S) := by
  rintro s a t ⟨-, rfl⟩
  exact F.refl _

protected theorem call (q : Q) : Keeps answers rel (call q : Prog S Q A (A q)) :=
  fun s a t h => F.answer s q a t (exec_call.mp h)

protected theorem require (c : Prop) [Decidable c] :
    Keeps answers rel (require c : Prog S Q A Unit) := by
  intro s a t h
  obtain ⟨-, rfl⟩ := exec_require.mp h
  exact F.refl _

protected theorem ofOption (o : Option α) : Keeps answers rel (ofOption o : Prog S Q A α) := by
  intro s a t h
  obtain ⟨-, rfl⟩ := exec_ofOption.mp h
  exact F.refl _

end Frame

section Keeps

variable {rel : S × W → S × W → Prop}

theorem keeps_revert : Keeps answers rel (.revert : Prog S Q A α) := fun _ _ _ h => h.elim

theorem keeps_ite {c : Prop} [Decidable c] {p p' : Prog S Q A α} (hp : Keeps answers rel p)
    (hp' : Keeps answers rel p') : Keeps answers rel (if c then p else p') := by
  split
  · exact hp
  · exact hp'

/-- A change of the store has to be looked at. -/
theorem keeps_update {f : S → S} (h : ∀ s w, rel (s, w) (f s, w)) :
    Keeps answers rel (update f : Prog S Q A Unit) := by
  intro s a t hexec
  rw [exec_update.mp hexec]
  exact h s.1 s.2

end Keeps

/-! ## Surroundings within others -/

/-- The program only asks questions of a kind, whatever it is answered. -/
def Asks (own : Q → Prop) : Prog S Q A α → Prop
  | .pure _ | .revert => True
  | .load k => ∀ s, (k s).Asks own
  | .modify _ k => k.Asks own
  | .ask q k => own q ∧ ∀ a, (k a).Asks own

section Asks

variable {own : Q → Prop}

theorem asks_bind {p : Prog S Q A α} {f : α → Prog S Q A β} (hp : p.Asks own)
    (hf : ∀ a, (f a).Asks own) : (p >>= f).Asks own := by
  show (p.bind f).Asks own
  induction p with
  | pure a => exact hf a
  | revert => trivial
  | load k ih => exact fun s => ih s (hp s)
  | modify g k ih => exact ih hp
  | ask q k ih => exact ⟨hp.1, fun a => ih a (hp.2 a)⟩

theorem asks_call {q : Q} (h : own q) : (call q : Prog S Q A (A q)).Asks own :=
  ⟨h, fun _ => trivial⟩

theorem asks_ofOption (o : Option α) : (ofOption o : Prog S Q A α).Asks own := by
  cases o <;> trivial

/-- What follows a value need only be looked at for that value. -/
theorem asks_ofOption_bind {o : Option α} {f : α → Prog S Q A β}
    (hf : ∀ a, o = some a → (f a).Asks own) : (ofOption o >>= f).Asks own := by
  cases o with
  | none => trivial
  | some a => exact hf a rfl

/-- A part of the world, and the world with another one. -/
structure Part (W V : Type) where
  get : W → V
  put : W → V → W
  put_get : ∀ w, put w (get w) = w
  get_put : ∀ w v, get (put w v) = v
  put_put : ∀ w v v', put (put w v) v' = put w v'

/-- Where the questions of a kind are answered by a part of the world alone, as in other
surroundings, a program that asks no others runs as it does there. -/
theorem exec_part_iff {V : Type} {answers' : Answers S V Q A} (part : Part W V)
    (hown : ∀ s q a t, own q → (answers s q a t ↔
      ∃ v, answers' (s.1, part.get s.2) q a (t.1, v) ∧ t.2 = part.put s.2 v))
    {p : Prog S Q A α} (hp : p.Asks own) :
    Exec answers p s a t ↔
      ∃ v, Exec answers' p (s.1, part.get s.2) a (t.1, v) ∧ t.2 = part.put s.2 v := by
  induction p generalizing s with
  | pure b =>
    constructor
    · rintro ⟨rfl, rfl⟩
      exact ⟨_, ⟨rfl, rfl⟩, (part.put_get _).symm⟩
    · rintro ⟨v, ⟨rfl, hstate⟩, hput⟩
      obtain ⟨hstore, rfl⟩ := Prod.mk.inj hstate
      rw [part.put_get] at hput
      exact ⟨rfl, Prod.ext hstore hput⟩
  | revert => exact ⟨False.elim, fun ⟨_, h, _⟩ => h⟩
  | load k ih => exact ih s.1 (hp s.1)
  | modify f k ih => exact ih (s := (f s.1, s.2)) hp
  | ask q k ih =>
    constructor
    · rintro ⟨b, u, hanswer, hrest⟩
      obtain ⟨v, hanswer', hput⟩ := (hown s q b u hp.1).mp hanswer
      obtain ⟨v', hrest', hput'⟩ := (ih b (hp.2 b)).mp hrest
      rw [hput, part.get_put] at hrest'
      exact ⟨v', ⟨b, (u.1, v), hanswer', hrest'⟩, by rw [hput', hput, part.put_put]⟩
    · rintro ⟨v, ⟨b, u, hanswer, hrest⟩, hput⟩
      have hfirst := (hown s q b (u.1, part.put s.2 u.2) hp.1).mpr ⟨u.2, hanswer, rfl⟩
      refine ⟨b, _, hfirst, (ih b (hp.2 b)).mpr ⟨v, ?_, ?_⟩⟩
      · rw [part.get_put]
        exact hrest
      · rw [part.put_put]
        exact hput

end Asks

end Prog

end Lib
