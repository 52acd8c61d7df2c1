/-! What a run reports while it works: records in order, each with how severe it is. A
computation returns its records beside its result. -/

set_option autoImplicit false

namespace VulkanBindings

inductive Level where
  | error
  | warn
  | info
  | debug
  | trace
  deriving DecidableEq, Repr

def Level.rank : Level → Nat
  | .error => 0
  | .warn => 1
  | .info => 2
  | .debug => 3
  | .trace => 4

def Level.name : Level → String
  | .error => "ERROR"
  | .warn => "WARN"
  | .info => "INFO"
  | .debug => "DEBUG"
  | .trace => "TRACE"

structure Record where
  level : Level
  text : String
  deriving DecidableEq, Repr

def Record.upTo (level : Level) (records : List Record) : List Record :=
  records.filter (·.level.rank ≤ level.rank)

/-- A result with the records of the work on it. -/
structure Logged (α : Type) where
  value : α
  records : List Record

namespace Logged

variable {α β : Type}

instance : Monad Logged where
  pure a := ⟨a, []⟩
  bind x f := ⟨(f x.value).value, x.records ++ (f x.value).records⟩

@[simp] theorem value_pure (a : α) : (pure a : Logged α).value = a := rfl

@[simp] theorem records_pure (a : α) : (pure a : Logged α).records = [] := rfl

@[simp] theorem value_bind (x : Logged α) (f : α → Logged β) :
    (x >>= f).value = (f x.value).value := rfl

@[simp] theorem records_bind (x : Logged α) (f : α → Logged β) :
    (x >>= f).records = x.records ++ (f x.value).records := rfl

instance : LawfulMonad Logged := .mk' Logged
  (fun ⟨_, _⟩ => by simp [Functor.map])
  (fun _ _ => by simp [bind, pure])
  (fun _ _ _ => by simp [bind, List.append_assoc])

@[simp] theorem value_map (f : α → β) (x : Logged α) : (f <$> x).value = f x.value := rfl

@[simp] theorem value_mapM (f : α → Logged β) (xs : List α) :
    (xs.mapM f).value = xs.map fun x => (f x).value := by
  induction xs with
  | nil => rfl
  | cons x xs ih => simp only [List.mapM_cons, value_bind, value_pure, ih, List.map_cons]

@[simp] theorem value_foldlM (f : β → α → Logged β) (b : β) (xs : List α) :
    (xs.foldlM f b).value = xs.foldl (fun b x => (f b x).value) b := by
  induction xs generalizing b with
  | nil => rfl
  | cons x xs ih => simp only [List.foldlM_cons, value_bind, ih, List.foldl_cons]

section Failure

variable {ε : Type}

theorem value_run_bind (x : ExceptT ε Logged α) (f : α → ExceptT ε Logged β) :
    (x >>= f).run.value = x.run.value >>= fun a => (f a).run.value := by
  change (ExceptT.bindCont f x.run.value).value = _
  cases x.run.value <;> rfl

/-- What every step of a run without failure keeps holds at its end. -/
theorem of_foldlM_eq_ok {P : β → Prop} {f : β → α → ExceptT ε Logged β} {xs : List α}
    (step : ∀ b, ∀ x ∈ xs, ∀ b', P b → (f b x).run.value = .ok b' → P b') {b b' : β} (first : P b)
    (ok : (xs.foldlM f b).run.value = .ok b') : P b' := by
  induction xs generalizing b with
  | nil =>
    cases ok
    exact first
  | cons x xs ih =>
    rw [List.foldlM_cons, value_run_bind] at ok
    cases one : (f b x).run.value with
    | error e => rw [one] at ok; cases ok
    | ok next =>
      rw [one] at ok
      exact ih (fun b y mem => step b y (List.mem_cons_of_mem x mem))
        (step b x List.mem_cons_self next first one) ok

end Failure

end Logged

def log (level : Level) (text : String) : Logged Unit :=
  ⟨(), [⟨level, text⟩]⟩

end VulkanBindings
