import Mathlib.Logic.Relation

/-! # Systems and what they come to

A system takes a step at each event that is possible. Its runs are told in two ways: by the list of the events, and by
what it comes to, whatever the events are.

* **`playAll`** — the state after a list of events; **`playAll_induction`** — what each step keeps holds of it.
* **`InDueCourse`** — a system that comes to something when it does not idle for ever;
  **`inDueCourse_of_rank`** shows it by a rank that falls. -/

namespace PayloadGate

/-! ## Lists of events -/

section Events

variable {σ ε : Type} {step : σ → ε → Option σ} {s t : σ}

/-- **The state after a list of events.** There is none, `none`, when one of them is not possible. -/
def playAll (step : σ → ε → Option σ) : List ε → σ → Option σ
  | [], s => some s
  | e :: rest, s => (step s e).bind (playAll step rest)

/-- The events of `xs ++ ys`: those of `xs` and, from where they lead, those of `ys`. -/
theorem playAll_append (xs ys : List ε) (s : σ) :
    playAll step (xs ++ ys) s = (playAll step xs s).bind (playAll step ys) := by
  induction xs generalizing s with
  | nil => rfl
  | cons e xs ih =>
    rw [List.cons_append, playAll, playAll, Option.bind_assoc]
    exact congrArg _ (funext ih)

/-- **What each step keeps holds of the events so far and of the state behind them**, when it `holds` of `[]` and the
start. -/
theorem playAll_induction (holds : List ε → σ → Prop) (hstart : holds [] s)
    (hstep : ∀ xs t e t', playAll step xs s = some t → holds xs t → step t e = some t' → holds (xs ++ [e]) t')
    {events : List ε} (h : playAll step events s = some t) : holds events t := by
  -- the events that have happened go from the end of one list to the beginning of the other
  suffices hmore : ∀ (ys xs : List ε) (u : σ), playAll step xs s = some u → holds xs u →
      playAll step ys u = some t → holds (xs ++ ys) t from hmore events [] s rfl hstart h
  intro ys
  induction ys with
  | nil =>
    intro xs u hxs hu h
    obtain rfl := Option.some.inj h
    rwa [List.append_nil]
  | cons e ys ih =>
    intro xs u hxs hu h
    obtain ⟨v, hv, h⟩ := Option.bind_eq_some_iff.1 h
    have hconcat : playAll step (xs ++ [e]) s = some v := by
      rw [playAll_append, hxs, Option.bind_some, playAll, hv]
      rfl
    have := ih (xs ++ [e]) v hconcat (hstep xs u e v hxs hu hv) h
    rwa [List.append_assoc, List.singleton_append] at this

end Events

/-! ## Systems that idle -/

section Idle

variable {α β : Type} {idle step : α → α → Prop} {goal : α → Prop}

/-- **A system comes to `goal` in due course**, whatever it does, unless it idles for ever: it is there, or behind any
idling it can take a step, and each step leads to where it comes to it. -/
inductive InDueCourse (idle step : α → α → Prop) (goal : α → Prop) : α → Prop where
  /-- It is there. -/
  | now {a : α} (h : goal a) : InDueCourse idle step goal a
  /-- It comes there behind the next step. -/
  | later {a : α} (next : ∀ b, Relation.ReflTransGen idle a b → ∃ c, step b c)
      (h : ∀ b c, Relation.ReflTransGen idle a b → step b c → InDueCourse idle step goal c) :
      InDueCourse idle step goal a

/-- **A rank that falls with each step**, and that idling keeps, brings a system to where it has to come, when something
`held` lets it go on and is kept by all steps. By well-founded induction on the rank. -/
theorem inDueCourse_of_rank {below : β → β → Prop} (hwf : WellFounded below) (held : α → Prop) (rank : α → β)
    (hidle : ∀ a b, held a → idle a b → held b ∧ rank b = rank a) (hnext : ∀ a, held a → ∃ b, step a b)
    (hfall : ∀ a b, held a → step a b → goal b ∨ held b ∧ below (rank b) (rank a)) {a : α} (h : held a) :
    InDueCourse idle step goal a := by
  -- idling keeps what holds
  have hidles : ∀ {a b}, held a → Relation.ReflTransGen idle a b → held b ∧ rank b = rank a := by
    intro a b ha hab
    induction hab with
    | refl => exact ⟨ha, rfl⟩
    | tail _ hbc ih =>
      obtain ⟨hc, hrank⟩ := hidle _ _ ih.1 hbc
      exact ⟨hc, hrank.trans ih.2⟩
  induction hk : rank a using hwf.induction generalizing a with
  | _ k ih =>
    refine .later (fun b hab => hnext b (hidles h hab).1) fun b c hab hbc => ?_
    obtain ⟨hb, hrank⟩ := hidles h hab
    rcases hfall b c hb hbc with hgoal | ⟨hc, hlt⟩
    · exact .now hgoal
    · rw [hrank, hk] at hlt
      exact ih _ hlt hc rfl

end Idle

end PayloadGate
