/-
# `Kit.Sections` — programs interrupted between their critical sections

Threads that run programs over one state share a lock, and touch what the lock
guards only while they hold it.  Others can then be noticed only between two
operations of which neither is inside a section: a thread's smallest step is one
operation outside the lock, or a whole section, from taking the lock to giving it
back.  A program that ends inside a section ends with the lock taken.

`Prog.step` performs one such step and returns what is left of the program.
`run_eq_step` says that a thread nobody interrupts does, step after step, what `run`
does at once.
-/
import ChatSocket.Kit.Prog

namespace Kit

/-- What an operation does to the lock. -/
inductive Locking where
  | takes
  | gives
  | neither
  deriving DecidableEq

namespace Prog

variable {Op : Type} {Ret : Op → Type} {α β σ : Type}
variable (locking : Op → Locking) (sem : Sem Op Ret σ)

/-- The rest of a section, up to the operation that gives the lock back. -/
def toGive : Prog Op Ret α → σ → Option (Prog Op Ret α × σ)
  | .ret a, s => some (.ret a, s)
  | .op o k, s =>
      (sem o s).bind fun q =>
        if locking o = .gives then some (k q.1, q.2) else (k q.1).toGive q.2

/-- One step: a section, or one operation outside of any. -/
def step : Prog Op Ret α → σ → Option (Prog Op Ret α × σ)
  | .ret _, _ => none
  | .op o k, s =>
      (sem o s).bind fun q =>
        if locking o = .takes then (k q.1).toGive locking sem q.2 else some (k q.1, q.2)

theorem toGive_ite (c : Prop) [Decidable c] (p q : Prog Op Ret α) (s : σ) :
    toGive locking sem (if c then p else q) s =
      if c then toGive locking sem p s else toGive locking sem q s := by
  split <;> rfl

theorem run_toGive (p : Prog Op Ret α) (s : σ) :
    p.run sem s = (p.toGive locking sem s).bind fun q => q.1.run sem q.2 := by
  induction p generalizing s with
  | ret a => rfl
  | op o k ih =>
      simp only [run, toGive, Option.bind_assoc]
      congr 1
      funext q
      split
      · rfl
      · exact ih q.1 q.2

/-- A program that is not interrupted after its first step. -/
theorem run_eq_step {p : Prog Op Ret α} (hp : ∀ a, p ≠ .ret a) (s : σ) :
    p.run sem s = (p.step locking sem s).bind fun q => q.1.run sem q.2 := by
  cases p with
  | ret a => exact absurd rfl (hp a)
  | op o k =>
      simp only [run, step, Option.bind_assoc]
      congr 1
      funext q
      split
      · exact run_toGive locking sem (k q.1) q.2
      · rfl

end Prog

end Kit
