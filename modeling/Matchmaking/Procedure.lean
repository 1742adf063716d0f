import Matchmaking.TextMap
import Matchmaking.Transaction

/-!
# Procedures against a store

A call such as joining a queue is not one step.  It reads, decides, and commits,
and between its requests other clients may act.  A `Procedure` is such a call:
either over, with a result or an error, or one request and what to do with each
possible answer.

Everything that happens to a store is in how requests are answered, so one
procedure can be run alone, against a store with faults, or step by step among
others.
-/

namespace Matchmaking

/-- What a procedure asks for. -/
inductive Request where
  /-- Opens a transaction. -/
  | begin
  /-- Reads the text at a key. -/
  | readString (key : Key)
  /-- Reads the fields of a hash. -/
  | readFields (key : Key)
  /-- Reads the members of a sorted set in order. -/
  | readMembers (key : Key)
  /-- Asks whether a key is there. -/
  | contains (key : Key)
  /-- Executes a batch. -/
  | execute (batch : Batch)

/-- The type of the answers to a request. -/
def Request.Answer : Request → Type
  | begin => Transaction
  | readString _ => Except StoreError (Option String)
  | readFields _ => Except StoreError TextMap
  | readMembers _ => Except StoreError (List ScoredMember)
  | contains _ => Bool
  | execute _ => Except StoreError Outcome

/-- A call that makes requests one at a time and can fail. -/
inductive Procedure (ε α : Type) where
  /-- The call is over. -/
  | done (result : Except ε α)
  /-- The call makes a request and goes on with its answer. -/
  | ask (request : Request) (next : request.Answer → Procedure ε α)

namespace Procedure

variable {ε δ α β γ : Type}

/-- Goes on with the result of a procedure, unless it fails. -/
def bind : Procedure ε α → (α → Procedure ε β) → Procedure ε β
  | done (.ok a), f => f a
  | done (.error e), _ => done (.error e)
  | ask request next, f => ask request fun answer => (next answer).bind f

/-- Goes on with the error of a procedure, if it fails. -/
def handle : Procedure ε α → (ε → Procedure ε α) → Procedure ε α
  | done (.ok a), _ => done (.ok a)
  | done (.error e), f => f e
  | ask request next, f => ask request fun answer => (next answer).handle f

/-- The procedure with its errors put into other words. -/
def mapError (f : ε → δ) : Procedure ε α → Procedure δ α
  | done result => done (result.mapError f)
  | ask request next => ask request fun answer => (next answer).mapError f

/-- The procedure with its error as a result. -/
def attempt : Procedure ε α → Procedure δ (Except ε α)
  | done result => done (.ok result)
  | ask request next => ask request fun answer => (next answer).attempt

instance : Monad (Procedure ε) where
  pure a := done (.ok a)
  bind := bind

instance : MonadExcept ε (Procedure ε) where
  throw e := done (.error e)
  tryCatch := handle

/-- The procedure that makes one request. -/
def request (r : Request) : Procedure ε r.Answer := ask r fun answer => done (.ok answer)

/-! ## Running -/

/-- Runs a procedure where `serve` answers its requests. -/
def run {σ : Type} (serve : (r : Request) → σ → r.Answer × σ) :
    Procedure ε α → σ → Except ε α × σ
  | done result, s => (result, s)
  | ask r next, s =>
    let (answer, s) := serve r s
    (next answer).run serve s

section

variable {σ : Type} (serve : (r : Request) → σ → r.Answer × σ)

@[simp] theorem run_pure (a : α) (s : σ) : (pure a : Procedure ε α).run serve s = (.ok a, s) := rfl

@[simp] theorem run_throw (e : ε) (s : σ) :
    (throw e : Procedure ε α).run serve s = (.error e, s) := rfl

/-- A sequence runs its first part, and its second part where the first one ended,
unless the first one failed. -/
theorem run_bind (p : Procedure ε α) (f : α → Procedure ε β) (s : σ) :
    (p >>= f).run serve s =
      match p.run serve s with
      | (.ok a, s) => (f a).run serve s
      | (.error e, s) => (.error e, s) := by
  change (p.bind f).run serve s = _
  induction p generalizing s with
  | done result => cases result <;> rfl
  | ask r next ih => simp only [bind, run, ih]

/-- Other words for errors change nothing else. -/
theorem run_mapError (f : ε → δ) (p : Procedure ε α) (s : σ) :
    (p.mapError f).run serve s = ((p.run serve s).1.mapError f, (p.run serve s).2) := by
  induction p generalizing s with
  | done result => rfl
  | ask r next ih => simp only [mapError, run, ih]

/-- An attempt never fails and changes nothing else. -/
theorem run_attempt (p : Procedure ε α) (s : σ) :
    (p.attempt : Procedure δ (Except ε α)).run serve s =
      (.ok (p.run serve s).1, (p.run serve s).2) := by
  induction p generalizing s with
  | done result => rfl
  | ask r next ih => simp only [attempt, run, ih]

/-- A handler runs where the procedure failed. -/
theorem run_handle (p : Procedure ε α) (f : ε → Procedure ε α) (s : σ) :
    (p.handle f).run serve s =
      match p.run serve s with
      | (.ok a, s) => (.ok a, s)
      | (.error e, s) => (f e).run serve s := by
  induction p generalizing s with
  | done result => cases result <;> rfl
  | ask r next ih => simp only [handle, run, ih]

end

/-! ## The monad laws -/

theorem bind_done_ok (p : Procedure ε α) : p.bind (fun a => done (.ok a)) = p := by
  induction p with
  | done result => cases result <;> rfl
  | ask r next ih => simp only [bind, ih]

theorem bind_bind (p : Procedure ε α) (f : α → Procedure ε β) (g : β → Procedure ε γ) :
    (p.bind f).bind g = p.bind fun a => (f a).bind g := by
  induction p with
  | done result => cases result <;> rfl
  | ask r next ih => simp only [bind, ih]

instance : LawfulMonad (Procedure ε) :=
  LawfulMonad.mk' (Procedure ε) bind_done_ok (fun _ _ => rfl) bind_bind

end Procedure

end Matchmaking
