import ArbBot.Laws.Contracts.Bodies

/-!
# The swap slots between transactions

A swap sets the slot of its pool and clears it again, whatever the pool does in between, and
nothing else touches the slots. So a completed call leaves each slot as it was or clear, and in
every history, the owner's calls included, the slots are clear between the transactions.
-/

namespace ArbBot.V2ArbBot

open Lib Lib.Prog

/-- Each slot is left as it was or clear. -/
structure SlotsKept (s t : World) : Prop where
  v3 : t.1.pendingV3Pool = s.1.pendingV3Pool ∨ t.1.pendingV3Pool = 0
  algebra : t.1.pendingAlgebraPool = s.1.pendingAlgebraPool ∨ t.1.pendingAlgebraPool = 0

/-- Both slots are clear. -/
structure SlotsClear (st : Storage) : Prop where
  v3 : st.pendingV3Pool = 0
  algebra : st.pendingAlgebraPool = 0

theorem slot_trans {a b d : Address} (h : b = a ∨ b = 0) (h' : d = b ∨ d = 0) :
    d = a ∨ d = 0 := by
  rcases h' with rfl | hclear
  · exact h
  · exact .inr hclear

namespace SlotsKept

theorem refl (s : World) : SlotsKept s s := ⟨.inl rfl, .inl rfl⟩

theorem trans {s t u : World} (h : SlotsKept s t) (h' : SlotsKept t u) : SlotsKept s u :=
  ⟨slot_trans h.v3 h'.v3, slot_trans h.algebra h'.algebra⟩

/-- Whatever keeps the slots out of its sight keeps them. -/
theorem of_eq {s t : World} (hv3 : t.1.pendingV3Pool = s.1.pendingV3Pool)
    (halgebra : t.1.pendingAlgebraPool = s.1.pendingAlgebraPool) : SlotsKept s t :=
  ⟨.inl hv3, .inl halgebra⟩

theorem clear {s t : World} (h : SlotsKept s t) (hs : SlotsClear s.1) : SlotsClear t.1 :=
  ⟨h.v3.elim (fun heq => heq.trans hs.v3) id, h.algebra.elim (fun heq => heq.trans hs.algebra) id⟩

end SlotsKept

/-! ## Bodies -/

section Bodies

variable {c : Chain} {deep : World → World → Prop} {dep : Deployment} {msg : Msg}

theorem slots_frame (h : ∀ s t, deep s t → SlotsKept s t) : Frame (c.answers deep) SlotsKept where
  refl := SlotsKept.refl
  trans := SlotsKept.trans
  answer := by
    rintro s q a t ⟨-, l, -, ht⟩
    by_cases hview : q.isView
    · rw [if_pos hview] at ht
      rw [ht]
      exact ⟨.inl rfl, .inl rfl⟩
    · rw [if_neg hview] at ht
      exact ⟨(h _ _ ht).v3, (h _ _ ht).algebra⟩

/-- A change of the storage that leaves the slots alone. -/
theorem slots_update {f : Storage → Storage}
    (hv3 : ∀ st, (f st).pendingV3Pool = st.pendingV3Pool)
    (halgebra : ∀ st, (f st).pendingAlgebraPool = st.pendingAlgebraPool) :
    Keeps (c.answers deep) SlotsKept (update f : Bot Unit) :=
  keeps_update fun st _ => .of_eq (hv3 st) (halgebra st)

section Swaps

variable (F : Frame (c.answers deep) SlotsKept)

include F

/-- A swap that sets a slot and clears it: whatever happens between the two is forgotten. -/
theorem slots_swapPool {arm : Address → Storage → Storage} {pool : Address}
    (harm : ∀ s u v : World, SlotsKept s u → SlotsKept (arm pool u.1, u.2) v →
      SlotsKept s (arm 0 v.1, v.2)) (tokenIn tokenOut : Address) (amountIn : U256) :
    Keeps (c.answers deep) SlotsKept (swapPool dep arm pool tokenIn tokenOut amountIn) := by
  intro s out t h
  simp only [swapPool, exec_bind, exec_call, exec_update] at h
  obtain ⟨_, u, hbefore, _, _, rfl, _, v, htoken, _, w, hswap, _, _, rfl, hrest⟩ := h
  refine (harm s u w (F.answer _ _ _ _ hbefore) ?_).trans ?_
  · exact (F.answer _ _ _ _ htoken).trans (F.answer _ _ _ _ hswap)
  · obtain ⟨_, x, hbalance, hsub⟩ := hrest
    exact (F.answer _ _ _ _ hbalance).trans (F.ofOption _ _ _ _ hsub)

theorem slots_swapUniswapV3Pool (pool tokenIn tokenOut : Address) (amountIn : U256) :
    Keeps (c.answers deep) SlotsKept (swapUniswapV3Pool dep pool tokenIn tokenOut amountIn) :=
  slots_swapPool F (fun _ _ _ h h' => ⟨.inr rfl, slot_trans h.algebra h'.algebra⟩) _ _ _

theorem slots_swapAlgebraPool (pool tokenIn tokenOut : Address) (amountIn : U256) :
    Keeps (c.answers deep) SlotsKept (swapAlgebraPool dep pool tokenIn tokenOut amountIn) :=
  slots_swapPool F (fun _ _ _ h h' => ⟨slot_trans h.v3 h'.v3, .inr rfl⟩) _ _ _

end Swaps

/-- Arming and clearing a slot keeps both, and so does everything else that a call may change. -/
theorem slots_callFrame (h : ∀ s t, deep s t → SlotsKept s t) :
    CallFrame dep (c.answers deep) SlotsKept where
  toFrame := slots_frame h
  v3Swap := slots_swapUniswapV3Pool (slots_frame h)
  algebraSwap := slots_swapAlgebraPool (slots_frame h)
  configure _ _ _ _ _ := .of_eq rfl rfl
  clearLiquidation _ := .of_eq rfl rfl
  clearMorphoBlue _ := .of_eq rfl rfl
  clearMorpho _ := .of_eq rfl rfl
  clearAave _ := .of_eq rfl rfl

/-- Every call keeps the slots, when what happens inside it does. -/
theorem slots_run (h : ∀ s t, deep s t → SlotsKept s t) (entry : Entry) :
    Keeps (c.answers deep) SlotsKept (entry.run dep msg) := by
  have F : CallFrame dep (c.answers deep) SlotsKept := slots_callFrame h
  cases entry with
  | triggerLiquidation | triggerLiquidationWithMorpho | triggerMorphoBlueLiquidation =>
    exact F.bind F.onlyOwner fun _ =>
      F.bind (slots_update (fun _ => rfl) fun _ => rfl) fun _ => F.call _
  | triggerLiquidationWithAave =>
    exact F.bind F.onlyOwner fun _ => F.bind F.get fun _ => F.bind (F.require _) fun _ =>
      F.bind (slots_update (fun _ => rfl) fun _ => rfl) fun _ => F.call _
  | _ => exact F.run rfl

end Bodies

/-! ## Histories -/

section Histories

variable {c : Chain} {callers : Callers} {s t : World}

theorem slots_silent (h : c.Silent s t) : SlotsKept s t :=
  .of_eq (congrArg Storage.pendingV3Pool h.1) (congrArg Storage.pendingAlgebraPool h.1)

theorem slots_called {deep : World → World → Prop} (hdeep : ∀ s t, deep s t → SlotsKept s t)
    {call : Call} (h : c.Called callers deep call s t) : SlotsKept s t :=
  slots_run hdeep call.entry s () t h.2

/-- Calls nested to any depth keep the slots. -/
theorem slots_deep : ∀ n (s t : World), c.Deep callers n s t → SlotsKept s t := by
  intro n
  induction n with
  | zero =>
    intro s t h
    induction h with
    | refl => exact .refl _
    | tail _ hstep ih => exact ih.trans (slots_silent hstep)
  | succ n ihn =>
    intro s t h
    induction h with
    | refl => exact .refl _
    | tail _ hstep ih =>
      refine ih.trans ?_
      rcases hstep with hsilent | ⟨call, hcalled⟩
      · exact slots_silent hsilent
      · exact slots_called ihn hcalled

theorem slots_step {event : Chain.Event} (h : c.step callers s event t) : SlotsKept s t := by
  cases event with
  | foreign => exact slots_silent h
  | call call =>
    obtain ⟨n, hcalled⟩ := h
    exact slots_called (slots_deep n) hcalled

/-- **The slots are clear between the transactions of every history.** -/
theorem slotsClear_of_run {events : List Chain.Event} (h : Run (c.step callers) s events t)
    (hs : SlotsClear s.1) : SlotsClear t.1 := by
  have hkeep : ∀ t event u, SlotsKept s t → c.step callers t event u → SlotsKept s u :=
    fun _ _ _ hkept hstep => hkept.trans (slots_step hstep)
  exact (h.invariant hkeep (.refl s)).clear hs

theorem slotsClear_initial : SlotsClear Storage.initial := ⟨rfl, rfl⟩

end Histories

end ArbBot.V2ArbBot
