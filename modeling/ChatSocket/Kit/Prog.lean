/-
# `Kit.Prog` — programs over a signature of operations

A program is a tree: it returns, or it performs one operation of a signature
and continues with the answer.  What an operation does is not part of the
program.  It is supplied by a semantics `Sem`, a function that answers the
operation in a state or refuses (`none`: the operation cannot complete there,
as a `lock` cannot while the lock is held).

`run` performs a whole program without interruption, and the `run_*` equations
push it through the program's structure.
-/

namespace Kit

/-- A program over the operations `Op`, answered in `Ret`, that returns an `α`. -/
inductive Prog (Op : Type) (Ret : Op → Type) (α : Type) where
  | ret (a : α)
  | op (o : Op) (k : Ret o → Prog Op Ret α)

/-- A semantics: the answer and the next state, or a refusal. -/
abbrev Sem (Op : Type) (Ret : Op → Type) (σ : Type) := (o : Op) → σ → Option (Ret o × σ)

namespace Prog

variable {Op : Type} {Ret : Op → Type} {α β σ τ : Type}

def bind : Prog Op Ret α → (α → Prog Op Ret β) → Prog Op Ret β
  | .ret a, f => f a
  | .op o k, f => .op o fun r => (k r).bind f

instance : Monad (Prog Op Ret) where
  pure := .ret
  bind := .bind

/-- Run a program under a semantics; `none` if some operation is refused. -/
def run (sem : Sem Op Ret σ) : Prog Op Ret α → σ → Option (α × σ)
  | .ret a, s => some (a, s)
  | .op o k, s => (sem o s).bind fun p => (k p.1).run sem p.2

@[simp] theorem run_pure (sem : Sem Op Ret σ) (a : α) (s : σ) :
    (pure a : Prog Op Ret α).run sem s = some (a, s) := rfl

theorem run_bind (sem : Sem Op Ret σ) (p : Prog Op Ret α) (f : α → Prog Op Ret β)
    (s : σ) :
    (p >>= f).run sem s = (p.run sem s).bind fun q => (f q.1).run sem q.2 := by
  show (p.bind f).run sem s = _
  induction p generalizing s with
  | ret a => rfl
  | op o k ih =>
      simp only [bind, run, Option.bind_assoc]
      congr 1
      funext q
      exact ih q.1 q.2

@[simp] theorem run_ite (sem : Sem Op Ret σ) (c : Prop) [Decidable c] (p q : Prog Op Ret α)
    (s : σ) :
    (if c then p else q).run sem s = if c then p.run sem s else q.run sem s := by
  split <;> rfl

end Prog

end Kit
