import TypedResources.Failure
import TypedResources.Report.Log
import TypedResources.Resource.File

/-!
What a part of a run did: its result, the state of the cancellation token afterwards, the files
whose host was asked, and the log.
-/

namespace TypedResources

structure Trace (α : Type) where
  result : Except Failure α
  cancelled : Bool
  asked : List ResourceFile
  log : List LogRecord

namespace Trace

/-- Nothing was done but computing a result. -/
def still {α : Type} (cancelled : Bool) (result : Except Failure α) : Trace α :=
  ⟨result, cancelled, [], []⟩

/-- Go on after a success; a failure ends it all. -/
def andThen {α β : Type} (t : Trace α) (next : α → Bool → Trace β) : Trace β :=
  match t.result with
  | .error e => ⟨.error e, t.cancelled, t.asked, t.log⟩
  | .ok a =>
    let u := next a t.cancelled
    ⟨u.result, u.cancelled, t.asked ++ u.asked, t.log ++ u.log⟩

def map {α β : Type} (f : α → β) (t : Trace α) : Trace β :=
  ⟨t.result.map f, t.cancelled, t.asked, t.log⟩

/-- The same with records in front of the log. -/
def logged {α : Type} (records : List LogRecord) (t : Trace α) : Trace α := { t with
  log := records ++ t.log }

variable {α β : Type}

@[simp] theorem still_result (cancelled : Bool) (r : Except Failure α) :
    (still cancelled r).result = r := rfl

@[simp] theorem still_cancelled (cancelled : Bool) (r : Except Failure α) :
    (still cancelled r).cancelled = cancelled := rfl

@[simp] theorem still_asked (cancelled : Bool) (r : Except Failure α) :
    (still cancelled r).asked = [] := rfl

@[simp] theorem map_result (f : α → β) (t : Trace α) : (t.map f).result = t.result.map f := rfl

@[simp] theorem map_cancelled (f : α → β) (t : Trace α) : (t.map f).cancelled = t.cancelled := rfl

@[simp] theorem map_asked (f : α → β) (t : Trace α) : (t.map f).asked = t.asked := rfl

@[simp] theorem logged_result (records : List LogRecord) (t : Trace α) :
    (t.logged records).result = t.result := rfl

@[simp] theorem logged_asked (records : List LogRecord) (t : Trace α) :
    (t.logged records).asked = t.asked := rfl

@[simp] theorem logged_log (records : List LogRecord) (t : Trace α) :
    (t.logged records).log = records ++ t.log := rfl

theorem andThen_of_ok {t : Trace α} {a : α} (h : t.result = .ok a) (next : α → Bool → Trace β) :
    (t.andThen next).result = (next a t.cancelled).result ∧
      (t.andThen next).cancelled = (next a t.cancelled).cancelled := by
  simp [andThen, h]

theorem asked_andThen_of_ok {t : Trace α} {a : α} (h : t.result = .ok a)
    (next : α → Bool → Trace β) :
    (t.andThen next).asked = t.asked ++ (next a t.cancelled).asked := by
  simp [andThen, h]

theorem log_andThen_of_ok {t : Trace α} {a : α} (h : t.result = .ok a)
    (next : α → Bool → Trace β) :
    (t.andThen next).log = t.log ++ (next a t.cancelled).log := by
  simp [andThen, h]

theorem andThen_of_error {t : Trace α} {e : Failure} (h : t.result = .error e)
    (next : α → Bool → Trace β) :
    (t.andThen next).result = .error e ∧ (t.andThen next).cancelled = t.cancelled := by
  simp [andThen, h]

theorem andThen_result_eq_ok (t : Trace α) (next : α → Bool → Trace β) (b : β) :
    (t.andThen next).result = .ok b ↔
      ∃ a, t.result = .ok a ∧ (next a t.cancelled).result = .ok b := by
  cases h : t.result <;> simp [andThen, h]

end Trace

end TypedResources
