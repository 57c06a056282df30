/-!
# What work on a state comes to

**`Ensures`** is said of work that may change a state: begun in a state of one kind, it ends with a
value and a state of another kind. Work is put together from parts, and so is what is said of it.
-/

namespace Linkage

variable {σ α β : Type}

/-- Work goes on with what the first part of it has come to. -/
theorem run_bind_of_run {s t : σ} {x : α} {work : StateM σ α} {f : α → StateM σ β}
    (h : work.run s = (x, t)) : (work >>= f).run s = (f x).run t := by
  show (f (work.run s).1).run (work.run s).2 = _
  rw [h]

/-- Work that begins in a state with `P` ends with a value and a state with `Q`. -/
def Ensures (P : σ → Prop) (work : StateM σ α) (Q : α → σ → Prop) : Prop :=
  ∀ s, P s → Q (work.run s).1 (work.run s).2

namespace Ensures

variable {P P' : σ → Prop} {work : StateM σ α}

theorem pure {x : α} {Q : α → σ → Prop} (h : ∀ s, P s → Q x s) :
    Ensures P (Pure.pure x : StateM σ α) Q := h

theorem bind {R : α → σ → Prop} {f : α → StateM σ β} {Q : β → σ → Prop} (hwork : Ensures P work R)
    (hf : ∀ x, Ensures (R x) (f x) Q) : Ensures P (work >>= f) Q :=
  fun s hs => hf _ _ (hwork s hs)

/-- Less may be asked of the beginning, and more be said of the end. -/
theorem weaken {Q Q' : α → σ → Prop} (h : Ensures P work Q) (hbefore : ∀ s, P' s → P s)
    (hafter : ∀ x s, Q x s → Q' x s) : Ensures P' work Q' :=
  fun s hs => hafter _ _ (h s (hbefore s hs))

/-- A value that is changed afterwards. -/
theorem map {f : α → β} {Q : β → σ → Prop} (h : Ensures P work fun x => Q (f x)) :
    Ensures P (do return f (← work)) Q :=
  h.bind fun _ => .pure fun _ hs => hs

end Ensures

end Linkage
