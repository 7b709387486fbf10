import Svp.Lib.System

/-!
# Calls that a crash may cut off

A call over a durable state `σ` writes it in single steps and ends with a result or an
error. The process may die between any two of its writes, so what matters besides the last
state is every state on the way. `Durable σ ε α` computes both.

`Durable.Meets p s cut post` is the judgement: from `s`, every state on the way satisfies
`cut`, and the result and the last state satisfy `post`. There is one rule for each way to
build a call; `Durable.Left` is what is found after a call that ended or was cut off.
-/

namespace Svp.Lib

/-- What a call went through and how it ended. -/
structure Ended (σ ε α : Type) where
  /-- The state after each write, in order. -/
  trail : List σ
  state : σ
  result : Except ε α

/-- A call over the durable state `σ`. -/
def Durable (σ ε α : Type) : Type := σ → Ended σ ε α

namespace Durable

variable {σ ε α β : Type}

def ret (a : α) : Durable σ ε α := fun s => ⟨[], s, .ok a⟩

/-- The second call is made only where the first one ended without an error. -/
def andThen (p : Durable σ ε α) (next : α → Durable σ ε β) : Durable σ ε β := fun s =>
  match (p s).result with
  | .ok a =>
    let rest := next a (p s).state
    ⟨(p s).trail ++ rest.trail, rest.state, rest.result⟩
  | .error e => ⟨(p s).trail, (p s).state, .error e⟩

instance : Monad (Durable σ ε) where
  pure := ret
  bind := andThen

/-- Ends the call with an error. -/
def fail (e : ε) : Durable σ ε α := fun s => ⟨[], s, .error e⟩

/-- What the durable state is now. -/
def look : Durable σ ε σ := fun s => ⟨[], s, .ok s⟩

/-- One write: it is made as a whole or not at all. -/
def write (f : σ → σ) : Durable σ ε Unit := fun s => ⟨[f s], f s, .ok ()⟩

/-- A computation that writes nothing. -/
def check (x : Except ε α) : Durable σ ε α := fun s => ⟨[], s, x⟩

/-- From `s`, `cut` holds on the way and `post` at the end. -/
structure Meets (p : Durable σ ε α) (s : σ) (cut : σ → Prop) (post : Except ε α → σ → Prop) :
    Prop where
  onTheWay : ∀ t ∈ (p s).trail, cut t
  atTheEnd : post (p s).result (p s).state

/-- What a call from `s` leaves where it ended or was cut off: the state it started from,
one it passed through, or the last. -/
def Left (p : Durable σ ε α) (s t : σ) : Prop := t = s ∨ t ∈ (p s).trail ∨ t = (p s).state

variable {s t : σ} {cut : σ → Prop} {post : Except ε α → σ → Prop}

theorem Meets.ret {a : α} (holds : post (.ok a) s) :
    Meets (pure a : Durable σ ε α) s cut post :=
  ⟨List.forall_mem_nil _, holds⟩

theorem Meets.fail {e : ε} (holds : post (.error e) s) : Meets (Durable.fail e) s cut post :=
  ⟨List.forall_mem_nil _, holds⟩

theorem Meets.look {post : Except ε σ → σ → Prop} (holds : post (.ok s) s) :
    Meets Durable.look s cut post :=
  ⟨List.forall_mem_nil _, holds⟩

theorem Meets.write {f : σ → σ} {post : Except ε Unit → σ → Prop} (onTheWay : cut (f s))
    (holds : post (.ok ()) (f s)) : Meets (Durable.write f) s cut post :=
  ⟨fun _ mem => List.mem_singleton.mp mem ▸ onTheWay, holds⟩

theorem Meets.check {x : Except ε α} (holds : post x s) : Meets (Durable.check x) s cut post :=
  ⟨List.forall_mem_nil _, holds⟩

theorem Meets.mono {p : Durable σ ε α} {cut' : σ → Prop} {post' : Except ε α → σ → Prop}
    (meets : Meets p s cut post) (weaker : ∀ t, cut t → cut' t)
    (weakerEnd : ∀ r t, post r t → post' r t) : Meets p s cut' post' :=
  ⟨fun t mem => weaker t (meets.onTheWay t mem), weakerEnd _ _ meets.atTheEnd⟩

/-- More may hold on the way. -/
theorem Meets.widen {p : Durable σ ε α} {cut' : σ → Prop} (meets : Meets p s cut post)
    (weaker : ∀ t, cut t → cut' t) : Meets p s cut' post :=
  meets.mono weaker fun _ _ holds => holds

/-- Two calls in a row: `mid` holds between them. -/
theorem Meets.andThen {p : Durable σ ε α} {next : α → Durable σ ε β} {mid : Except ε α → σ → Prop}
    {post : Except ε β → σ → Prop} (first : Meets p s cut mid)
    (second : ∀ a t, mid (.ok a) t → Meets (next a) t cut post)
    (stopped : ∀ e t, mid (.error e) t → post (.error e) t) :
    Meets (p >>= next) s cut post := by
  have between := first.atTheEnd
  have before := first.onTheWay
  show Meets (Durable.andThen p next) s cut post
  cases result : (p s).result with
  | error e =>
    rw [result] at between
    constructor
    · simpa only [Durable.andThen, result] using before
    · simpa only [Durable.andThen, result] using stopped e _ between
  | ok a =>
    rw [result] at between
    have after := second a _ between
    constructor
    · simp only [Durable.andThen, result]
      intro t mem
      exact (List.mem_append.mp mem).elim (before t) (after.onTheWay t)
    · simpa only [Durable.andThen, result] using after.atTheEnd

theorem Meets.lookThen {next : σ → Durable σ ε β} {post : Except ε β → σ → Prop}
    (rest : Meets (next s) s cut post) : Meets (Durable.look >>= next) s cut post :=
  have first : Meets Durable.look s cut fun r t => r = .ok s ∧ t = s := .look ⟨rfl, rfl⟩
  .andThen first
    (by rintro a t ⟨same, rfl⟩; cases same; exact rest) (by rintro e t ⟨other, -⟩; cases other)

theorem Meets.checkThen {x : Except ε α} {next : α → Durable σ ε β} {post : Except ε β → σ → Prop}
    (rest : ∀ a, x = .ok a → Meets (next a) s cut post)
    (stopped : ∀ e, x = .error e → post (.error e) s) :
    Meets (Durable.check x >>= next) s cut post :=
  have first : Meets (Durable.check x) s cut fun r t => r = x ∧ t = s := .check ⟨rfl, rfl⟩
  .andThen first
    (by rintro a t ⟨same, rfl⟩; exact rest a same.symm)
    (by rintro e t ⟨same, rfl⟩; exact stopped e same.symm)

theorem Meets.writeThen {f : σ → σ} {next : Unit → Durable σ ε β} {post : Except ε β → σ → Prop}
    (onTheWay : cut (f s)) (rest : Meets (next ()) (f s) cut post) :
    Meets (Durable.write f >>= next) s cut post :=
  have first : Meets (Durable.write f) s cut fun r t => r = .ok () ∧ t = f s :=
    .write onTheWay ⟨rfl, rfl⟩
  .andThen first
    (by rintro a t ⟨-, rfl⟩; exact rest) (by rintro e t ⟨other, -⟩; cases other)

/-- A loop: `inv` holds of the entries done before each round, `post` where a round fails. -/
theorem Meets.forM {l : List α} {p : α → Durable σ ε Unit} (inv : List α → σ → Prop)
    (failed : ε → σ → Prop) (start : inv [] s)
    (round : ∀ done a rest t, l = done ++ a :: rest → inv done t →
      Meets (p a) t cut fun
        | .ok _ => inv (done ++ [a])
        | .error e => failed e) :
    Meets (l.forM p) s cut fun
      | .ok _ => inv l
      | .error e => failed e := by
  suffices general : ∀ done rest t, l = done ++ rest → inv done t →
      Meets (rest.forM p) t cut fun
        | .ok _ => inv l
        | .error e => failed e from general [] l s rfl start
  intro done rest
  induction rest generalizing done with
  | nil =>
    intro t whole holds
    rw [List.append_nil] at whole
    exact .ret (whole ▸ holds)
  | cons a rest ih =>
    intro t whole holds
    refine .andThen (round done a rest t whole holds) (fun _ u next => ?_) fun e u failed => failed
    exact ih (done ++ [a]) u (by rw [whole, List.append_cons]) next

/-- What holds at the start, on the way and at the end holds of whatever a call leaves. -/
theorem Meets.left {p : Durable σ ε α} (meets : Meets p s cut post) (start : cut s)
    (ended : ∀ r t, post r t → cut t) (left : p.Left s t) : cut t := by
  rcases left with rfl | mem | rfl
  · exact start
  · exact meets.onTheWay t mem
  · exact ended _ _ meets.atTheEnd

end Durable

end Svp.Lib
