/-!
# Edits

An `Edit` changes a state step by step and may fail on the way. It leaves a state behind in either
case: what was changed before a failure stays changed, unless the edit looks before it changes
anything.
-/

namespace ScenePrune

abbrev Edit (σ ε : Type) := ExceptT ε (StateM σ)

namespace Edit

variable {σ ε α β : Type}

def perform (e : Edit σ ε α) (s : σ) : Except ε α × σ := e.run.run s

def after (e : Edit σ ε α) (s : σ) : σ := (e.perform s).2

def result (e : Edit σ ε α) (s : σ) : Except ε (α × σ) :=
  match e.perform s with
  | (.ok a, s') => .ok (a, s')
  | (.error error, _) => .error error

/-- When the edit fails, it leaves the state as it was. -/
def Keeps (e : Edit σ ε α) : Prop := ∀ s s' error, e.perform s = (.error error, s') → s' = s

theorem perform_bind (e : Edit σ ε α) (f : α → Edit σ ε β) (s : σ) : (e >>= f).perform s =
    match e.perform s with
    | (.ok a, s') => (f a).perform s'
    | (.error error, s') => (.error error, s') := by
  simp only [perform, ExceptT.run_bind, StateT.run_bind]
  cases e.run.run s with
  | mk answer s' => cases answer <;> rfl

theorem perform_get (s : σ) : (get : Edit σ ε σ).perform s = (.ok s, s) := rfl

theorem perform_throw (error : ε) (s : σ) : (throw error : Edit σ ε α).perform s = (.error error, s) := rfl

theorem perform_ite (c : Prop) [Decidable c] (e e' : Edit σ ε α) (s : σ) :
    (if c then e else e').perform s = if c then e.perform s else e'.perform s := by
  split <;> rfl

end Edit

end ScenePrune
