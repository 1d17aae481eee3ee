import TypedResources.Yaml.Fault

/-! Readers that carry a state and may find a fault. What holds along the course of a reader is said
once for all of them: how its states follow one another, and which faults a state can lead to. -/
namespace TypedResources

namespace Yaml

/-- Only the form can be wrong. -/
def OnlyMalformed {α : Type} (x : Except Fault α) : Prop :=
  ∀ fault, x = .error fault → fault = .malformed

theorem onlyMalformed_ok {α : Type} (a : α) : OnlyMalformed (.ok a) := fun _ h => by cases h

theorem onlyMalformed_error {α : Type} : OnlyMalformed (.error .malformed : Except Fault α) :=
  fun _ h => (Except.error.inj h).symm

theorem onlyMalformed_bind {α β : Type} {x : Except Fault α} {next : α → Except Fault β}
    (hx : OnlyMalformed x) (hnext : ∀ a, OnlyMalformed (next a)) : OnlyMalformed (x >>= next) := by
  cases x with
  | ok a => exact hnext a
  | error fault =>
    intro f h
    obtain rfl := Except.error.inj h
    exact hx fault rfl

/-- How states follow one another, and the faults besides a wrong form that a state can lead to. -/
structure Course (σ : Type) where
  leads : σ → σ → Prop
  wrong : σ → Fault → Prop
  refl : ∀ s, leads s s
  trans : ∀ {s t u}, leads s t → leads t u → leads s u
  stable : ∀ {s t fault}, leads s t → wrong t fault → wrong s fault

namespace Course

variable {σ α β : Type} {C : Course σ}

/-- From this state the reader follows the course. The faults that it finds are a wrong form, or have
the property. -/
structure GoesOn (C : Course σ) (m : StateT σ (Except Fault) α) (s : σ) (Q : Fault → Prop) : Prop where
  leads : ∀ a t, m s = .ok (a,t) → C.leads s t
  wrong : ∀ fault, m s = .error fault → fault = .malformed ∨ Q fault

def Holds (C : Course σ) (m : StateT σ (Except Fault) α) : Prop := ∀ s, C.GoesOn m s (C.wrong s)

theorem GoesOn.mono {m : StateT σ (Except Fault) α} {s : σ} {P Q : Fault → Prop}
    (h : C.GoesOn m s P) (hPQ : ∀ fault, P fault → Q fault) : C.GoesOn m s Q :=
  ⟨h.leads,fun fault hfault => (h.wrong fault hfault).imp_right (hPQ fault)⟩

section Steps

variable {s : σ} {Q : Fault → Prop}

theorem goesOn_bind {m : StateT σ (Except Fault) α} {next : α → StateT σ (Except Fault) β}
    (hm : C.GoesOn m s Q) (hnext : ∀ a t, m s = .ok (a,t) → C.GoesOn (next a) t Q) :
    C.GoesOn (m >>= next) s Q := by
  have hrun : (m >>= next) s = (m s).bind fun r => next r.1 r.2 := rfl
  cases hs : m s with
  | error fault =>
    rw [hs] at hrun
    refine ⟨fun b t h => ?_,fun f h => ?_⟩
    · cases hrun.symm.trans h
    · obtain rfl := Except.error.inj (hrun.symm.trans h)
      exact hm.wrong fault hs
  | ok r =>
    obtain ⟨a,t⟩ := r
    rw [hs] at hrun
    have hrest := hnext a t hs
    refine ⟨fun b u h => ?_,fun f h => hrest.wrong f (hrun.symm.trans h)⟩
    exact C.trans (hm.leads a t hs) (hrest.leads b u (hrun.symm.trans h))

theorem goesOn_pure (a : α) : C.GoesOn (pure a) s Q := by
  refine ⟨fun b t h => ?_,fun fault h => by cases h⟩
  obtain ⟨rfl,rfl⟩ := Prod.mk.inj (Except.ok.inj h)
  exact C.refl _

theorem goesOn_get : C.GoesOn get s Q := by
  refine ⟨fun b t h => ?_,fun fault h => by cases h⟩
  obtain ⟨rfl,rfl⟩ := Prod.mk.inj (Except.ok.inj h)
  exact C.refl _

theorem goesOn_modify {f : σ → σ} (hf : C.leads s (f s)) : C.GoesOn (modify f) s Q := by
  refine ⟨fun b t h => ?_,fun fault h => by cases h⟩
  obtain ⟨rfl,rfl⟩ := Prod.mk.inj (Except.ok.inj h)
  exact hf

theorem goesOn_lift {x : Except Fault α}
    (hx : ∀ fault, x = .error fault → fault = .malformed ∨ Q fault) : C.GoesOn (liftM x) s Q := by
  cases x with
  | ok a => exact goesOn_pure a
  | error fault =>
    have hrun : (liftM (.error fault : Except Fault α) : StateT σ (Except Fault) α) s =
      .error fault := rfl
    refine ⟨fun b t h => ?_,fun f h => ?_⟩
    · cases hrun.symm.trans h
    · obtain rfl := Except.error.inj (hrun.symm.trans h)
      exact hx fault rfl

theorem goesOn_throw {fault : Fault} (h : fault = .malformed ∨ Q fault) :
    C.GoesOn (throw fault : StateT σ (Except Fault) α) s Q := by
  refine goesOn_lift (x := .error fault) fun f hf => ?_
  obtain rfl := Except.error.inj hf
  exact h

end Steps

/-- Where a reader goes on, others that hold everywhere go on after it. -/
theorem GoesOn.bind {m : StateT σ (Except Fault) α} {next : α → StateT σ (Except Fault) β} {s : σ}
    (hm : C.GoesOn m s (C.wrong s)) (hnext : ∀ a, C.Holds (next a)) :
    C.GoesOn (m >>= next) s (C.wrong s) :=
  goesOn_bind hm fun a t h => (hnext a t).mono fun _ hfault => C.stable (hm.leads a t h) hfault

theorem holds_bind {m : StateT σ (Except Fault) α} {next : α → StateT σ (Except Fault) β}
    (hm : C.Holds m) (hnext : ∀ a, C.Holds (next a)) : C.Holds (m >>= next) :=
  fun s => (hm s).bind hnext

theorem holds_pure (a : α) : C.Holds (pure a) := fun _ => goesOn_pure a

theorem holds_get : C.Holds get := fun _ => goesOn_get

theorem holds_modify {f : σ → σ} (hf : ∀ s, C.leads s (f s)) : C.Holds (modify f) :=
  fun s => goesOn_modify (hf s)

theorem holds_lift {x : Except Fault α} (hx : OnlyMalformed x) : C.Holds (liftM x) :=
  fun _ => goesOn_lift fun fault h => .inl (hx fault h)

theorem holds_ite {p : Prop} [Decidable p] {m n : StateT σ (Except Fault) α} (hm : C.Holds m)
    (hn : C.Holds n) : C.Holds (if p then m else n) := by
  split
  · exact hm
  · exact hn

end Course
end Yaml
end TypedResources
