import Mathlib.Data.List.Forall2

/-! What is used of readings that may fail beyond the library. -/
namespace Except

variable {ε α β : Type}

theorem map_eq_ok_iff (f : α → β) (x : Except ε α) (b : β) :
    x.map f = .ok b ↔ ∃ a, x = .ok a ∧ f a = b := by
  cases x <;> simp [Except.map]

theorem map_eq_error_iff (f : α → β) (x : Except ε α) (e : ε) :
    x.map f = .error e ↔ x = .error e := by
  cases x <;> simp [Except.map]

theorem bind_eq_ok_iff {x : Except ε α} {f : α → Except ε β} {b : β} :
    (x >>= f) = .ok b ↔ ∃ a, x = .ok a ∧ f a = .ok b := by
  cases x <;> simp [bind,Except.bind]

theorem exists_mapM_error {f : α → Except ε β} {xs : List α} {e : ε}
    (h : xs.mapM f = .error e) : ∃ x ∈ xs, f x = .error e := by
  induction xs with
  | nil => cases h
  | cons x rest ih =>
    rw [List.mapM_cons] at h
    cases hx : f x with
    | error e' =>
      rw [hx] at h
      cases h
      exact ⟨x,by simp,hx⟩
    | ok y =>
      cases hrest : rest.mapM f with
      | error e' =>
        rw [hx,hrest] at h
        cases h
        obtain ⟨z,hz,he⟩ := ih hrest
        exact ⟨z,by simp [hz],he⟩
      | ok ys =>
        rw [hx,hrest] at h
        cases h

theorem mapM_error_of_mem (f : α → Except ε β) {xs : List α} {x : α}
    (hx : x ∈ xs) {e : ε} (he : f x = .error e) : ∃ e', xs.mapM f = .error e' := by
  induction xs with
  | nil => simp at hx
  | cons y rest ih =>
    rw [List.mapM_cons]
    cases hy : f y with
    | error e' => exact ⟨e',rfl⟩
    | ok b =>
      rcases List.mem_cons.mp hx with rfl | hx
      · simp [hy] at he
      · obtain ⟨e',hrest⟩ := ih hx
        exact ⟨e',by rw [hrest]; rfl⟩

theorem forall₂_of_mapM {f : α → Except ε β} {xs : List α} {ys : List β}
    (h : xs.mapM f = .ok ys) : List.Forall₂ (fun x y => f x = .ok y) xs ys := by
  induction xs generalizing ys with
  | nil =>
    obtain rfl := Except.ok.inj h
    exact .nil
  | cons x rest ih =>
    rw [List.mapM_cons] at h
    obtain ⟨y,hy,h⟩ := bind_eq_ok_iff.mp h
    obtain ⟨more,hmore,h⟩ := bind_eq_ok_iff.mp h
    obtain rfl := Except.ok.inj h
    exact .cons hy (ih hmore)

/-- Errors can be compared where values cannot. -/
instance decidableEqError [DecidableEq ε] (x : Except ε α) (e : ε) : Decidable (x = .error e) :=
  match x with
  | .ok _ => .isFalse nofun
  | .error e' => decidable_of_iff (e' = e) ⟨fun h => h ▸ rfl,Except.error.inj⟩

end Except
