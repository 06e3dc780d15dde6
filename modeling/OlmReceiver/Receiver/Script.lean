import OlmReceiver.Receiver.Call

/-!
# Scripts

A script is what a receiver goes through: it calls on parts of the receiver, one after the other,
and goes on with what they reply. It sees of a receiver nothing but the replies, and changes it
through calls alone. Executing a script keeps a trail of the calls, so that what is said of their
order is said of the very execution that gives the answer and the receiver afterwards.
-/

namespace OlmReceiver

/-- A script that comes to an answer. -/
inductive Script (α : Type) where
  | answer (result : Except DecryptError α)
  | report (notices : List Notice) (rest : Script α)
  | call (c : Call) (next : c.Reply → Script α)

namespace Script

/-- Executes a script. The calls come with the receivers that they were made on, in order. -/
def exec {α : Type} : Script α → Receiver → Outcome α × List (Receiver × Call)
  | .answer result, r => (⟨result, r, []⟩, [])
  | .report notices rest, r =>
    let (o, trail) := rest.exec r
    ({ o with notices := notices ++ o.notices }, trail)
  | .call c next, r =>
    match r.call c with
    | ⟨.error err, r', notices⟩ => (⟨.error err, r', notices⟩, [(r, c)])
    | ⟨.ok reply, r', notices⟩ =>
      let (o, trail) := (next reply).exec r'
      ({ o with notices := notices ++ o.notices }, (r, c) :: trail)

/-- What a script comes to. -/
def run {α : Type} (s : Script α) (r : Receiver) : Outcome α :=
  (s.exec r).1

/-- The calls that a script makes, with the receivers that it makes them on. -/
def trail {α : Type} (s : Script α) (r : Receiver) : List (Receiver × Call) :=
  (s.exec r).2

/-- The calls that a script makes, in order. -/
def calls {α : Type} (s : Script α) (r : Receiver) : List Call :=
  (s.trail r).map Prod.snd

/-- Goes on with another script, unless the first one fails. -/
def bind {α β : Type} : Script α → (α → Script β) → Script β
  | .answer (.error err), _ => .answer (.error err)
  | .answer (.ok a), next => next a
  | .report notices rest, next => .report notices (rest.bind next)
  | .call c rest, next => .call c fun reply => (rest reply).bind next

instance : Monad Script where
  pure a := .answer (.ok a)
  bind := bind

/-- Makes a call for its reply. -/
def ask (c : Call) : Script c.Reply :=
  .call c fun reply => pure reply

/-- Reports a notice. -/
def tell (notice : Notice) : Script Unit :=
  .report [notice] (pure ())

variable {α β : Type}

/-! ## What scripts come to -/

@[simp] theorem run_answer (result : Except DecryptError α) (r : Receiver) :
    (Script.answer result).run r = ⟨result, r, []⟩ := rfl

@[simp] theorem run_pure (a : α) (r : Receiver) : (pure a : Script α).run r = ⟨.ok a, r, []⟩ := rfl

theorem run_report (notices : List Notice) (s : Script α) (r : Receiver) :
    (Script.report notices s).run r =
      { s.run r with notices := notices ++ (s.run r).notices } := rfl

/-- Behind a call, a script goes on with the reply, on the receiver that the call left. -/
theorem run_call (c : Call) (next : c.Reply → Script α) (r : Receiver) :
    (Script.call c next).run r = (r.call c).andThen fun reply r' => (next reply).run r' := by
  unfold run
  rw [exec]
  rcases r.call c with ⟨_ | reply, r', notices⟩ <;> rfl

/-- One script behind the other comes to the outcome of the second on what the first one left. -/
@[simp] theorem run_bind (s : Script α) (next : α → Script β) (r : Receiver) :
    (s >>= next).run r = (s.run r).andThen fun a r' => (next a).run r' := by
  change (s.bind next).run r = _
  induction s generalizing r with
  | answer result => cases result <;> rfl
  | report notices s ih =>
    rw [bind, run_report, run_report, ih]
    rcases s.run r with ⟨_ | a, r', notices'⟩ <;> simp
  | call c rest ih =>
    rw [bind, run_call, run_call]
    rcases r.call c with ⟨_ | reply, r', notices⟩
    · rfl
    · simp only [Outcome.andThen_ok, ih]
      rcases (rest reply).run r' with ⟨_ | a, r'', notices'⟩ <;> simp

@[simp] theorem run_ask (c : Call) (r : Receiver) : (ask c).run r = r.call c := by
  rw [ask, run_call]
  rcases r.call c with ⟨_ | reply, r', notices⟩ <;> simp

@[simp] theorem run_tell (notice : Notice) (r : Receiver) :
    (tell notice).run r = ⟨.ok (), r, [notice]⟩ := rfl

/-! ## The calls of scripts -/

@[simp] theorem calls_answer (result : Except DecryptError α) (r : Receiver) :
    (Script.answer result).calls r = [] := rfl

@[simp] theorem calls_pure (a : α) (r : Receiver) : (pure a : Script α).calls r = [] := rfl

@[simp] theorem calls_report (notices : List Notice) (s : Script α) (r : Receiver) :
    (Script.report notices s).calls r = s.calls r := rfl

/-- Behind a call come those that its reply gives rise to, on the receiver that it left. -/
theorem trail_call (c : Call) (next : c.Reply → Script α) (r : Receiver) :
    (Script.call c next).trail r = (r, c) ::
      match (r.call c).answer with
      | .error _ => []
      | .ok reply => (next reply).trail (r.call c).receiver := by
  unfold trail
  rw [exec]
  rcases r.call c with ⟨_ | reply, r', notices⟩ <;> rfl

theorem calls_call (c : Call) (next : c.Reply → Script α) (r : Receiver) :
    (Script.call c next).calls r = c ::
      match (r.call c).answer with
      | .error _ => []
      | .ok reply => (next reply).calls (r.call c).receiver := by
  rw [calls, trail_call]
  cases (r.call c).answer <;> rfl

/-- One script behind the other makes the calls of both, the second on what the first one left. -/
@[simp] theorem calls_bind (s : Script α) (next : α → Script β) (r : Receiver) :
    (s >>= next).calls r = s.calls r ++
      match (s.run r).answer with
      | .error _ => []
      | .ok a => (next a).calls (s.run r).receiver := by
  change (s.bind next).calls r = _
  induction s generalizing r with
  | answer result => cases result <;> rfl
  | report notices s ih => exact ih r
  | call c rest ih =>
    rw [bind, calls_call, calls_call, run_call]
    rcases r.call c with ⟨_ | reply, r', notices⟩
    · rfl
    · simp only [Outcome.andThen_ok, ih, List.cons_append]

@[simp] theorem calls_ask (c : Call) (r : Receiver) : (ask c).calls r = [c] := by
  rw [ask, calls_call]
  rcases r.call c with ⟨_ | reply, r', notices⟩ <;> rfl

@[simp] theorem calls_tell (notice : Notice) (r : Receiver) : (tell notice).calls r = [] := rfl

end Script

end OlmReceiver
