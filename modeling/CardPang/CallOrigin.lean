import CardPang.CallbackProgram

/-!
# The state in which calls are made

A program may look at its client before it calls, so what a call is for depends on the
state its program began in: the client as an input finds it, or as an answer has left it.
-/
namespace CardPang.CallbackProgram

variable {Req : Type} {Reply : Req → Type} {A σ S O U ι : Type}

section Program

variable (P : Platform Reply A σ S O U) (ok : σ → List (Σ r, Reply r) → Req → Prop)

/-- The program has begun in `s₀` and is now in `s`. Each call it makes is one that
`s₀` allows, and each callback keeps to this wherever its answer finds the client. -/
def CallsAllowed : Prog Reply A σ → List (Σ r, Reply r) → σ → σ → Prop
  | .done, _, _, _ => True
  | .trap, _, _, _ => True
  | .act a p, t, s₀, s => CallsAllowed p t s₀ (P.act a s)
  | .read k, t, s₀, s => CallsAllowed (k s) t s₀ s
  | .call r k p, t, s₀, s =>
    ok s₀ t r ∧
    (∀ reply s', CallsAllowed (k reply) (t ++ [⟨r, reply⟩]) (P.receive r reply s')
      (P.receive r reply s')) ∧
    CallsAllowed p t s₀ s

def Call.CallbackAllowed (c : Call Reply A σ) : Prop :=
  ∀ reply s, CallsAllowed P ok (c.callback reply) (c.trail ++ [⟨c.request, reply⟩])
    (P.receive c.request reply s) (P.receive c.request reply s)

def World.CallbacksAllowed (w : World Reply A σ S ι) : Prop :=
  ∀ i c, (w.client i).InFlight c → c.CallbackAllowed P ok

variable {P ok}

theorem CallsAllowed.andThen {p q : Prog Reply A σ} {t : List (Σ r, Reply r)} {s₀ s : σ}
    (hp : CallsAllowed P ok p t s₀ s) (hq : ∀ s', CallsAllowed P ok q t s₀ s') :
    CallsAllowed P ok (p.andThen q) t s₀ s := by
  induction p generalizing s with
  | done => exact hq s
  | trap => trivial
  | act a p ih => exact ih hp
  | read k ih => exact ih s hp
  | call r k p _ ih => exact ⟨hp.1, hp.2.1, ih hp.2.2⟩

theorem CallsAllowed.exec {p : Prog Reply A σ} {t : List (Σ r, Reply r)} {s₀ s s' : σ}
    {cs : List (Call Reply A σ)} (h : CallsAllowed P ok p t s₀ s)
    (he : p.exec P.act t s = some (s', cs)) :
    ∀ c ∈ cs, c.trail = t ∧ ok s₀ t c.request ∧ c.CallbackAllowed P ok := by
  induction p generalizing s s' cs with
  | done =>
    cases he
    simp
  | trap => cases he
  | act a p ih => exact ih h he
  | read k ih => exact ih s h he
  | call r k p _ ih =>
    obtain ⟨⟨s₁, cs₁⟩, hx, hcs⟩ := Option.map_eq_some_iff.mp he
    cases hcs
    exact List.forall_mem_cons.mpr ⟨⟨rfl, h.1, h.2.1⟩, ih h.2.2 hx⟩

end Program

section Step

variable [DecidableEq ι] {P : Platform Reply A σ S O U}
  {ok : σ → List (Σ r, Reply r) → Req → Prop} {w w' : World Reply A σ S ι} {e : Event O U ι}
  {i : ι} {c : Call Reply A σ}

/-- The event starts a program on the client, with these answers behind it and in this
state. -/
inductive Starts (P : Platform Reply A σ S O U) (w : World Reply A σ S ι) (i : ι) :
    Event O U ι → List (Σ r, Reply r) → σ → Prop
  | input (u : U) : Starts P w i (.input i u) [] (w.client i).state
  | deliver {n : ℕ} {a : Arrival Reply A σ} (at_n : (w.client i).arrived[n]? = some a) :
    Starts P w i (.deliver i n) a.trail (P.receive a.call.request a.reply (w.client i).state)

theorem World.resume_inFlight {t : List (Σ r, Reply r)} {p : Prog Reply A σ} {j : ι} {s : σ}
    (hp : CallsAllowed P ok p t s (w.client j).state) (h : w.resume P j t p = some w')
    (hc : (w'.client i).InFlight c) :
    (w.client i).InFlight c ∨
    (i = j ∧ c.trail = t ∧ ok s t c.request ∧ c.CallbackAllowed P ok) := by
  obtain ⟨⟨s', cs⟩, hexec, rfl⟩ := Option.map_eq_some_iff.mp h
  by_cases hi : i = j
  · subst hi
    rw [World.set_client_self] at hc
    rcases hc with hc | hc
    · rcases List.mem_append.mp hc with hc | hc
      · exact Or.inl (Or.inl hc)
      · exact Or.inr ⟨rfl, hp.exec hexec c hc⟩
    · exact Or.inl (Or.inr hc)
  · rw [w.set_client_of_ne hi] at hc
    exact Or.inl hc

/-- A call in flight after a step was in flight before, or the program that the step
has started has made it, allowed by the state this program began in. -/
theorem World.CallbacksAllowed.inFlight (hw : w.CallbacksAllowed P ok)
    (hinput : ∀ u s, CallsAllowed P ok (P.handler u) [] s s) (hs : Step P w e w')
    (hc : (w'.client i).InFlight c) :
    (w.client i).InFlight c ∨
    ∃ s, Starts P w i e c.trail s ∧ ok s c.trail c.request ∧ c.CallbackAllowed P ok := by
  unfold Step at hs
  generalize hr : some w' = r at hs
  cases hs with
  | input j u =>
    rcases World.resume_inFlight (hinput u _) hr.symm hc with hold | ⟨rfl, ht, hok, hcall⟩
    · exact Or.inl hold
    · rw [ht]
      exact Or.inr ⟨_, .input u, hok, hcall⟩
  | @serve j n o c' answer hn _ =>
    obtain rfl := Option.some.inj hr
    exact Or.inl (World.inFlight_of_served hn hc)
  | @deliver j n a ha =>
    have hcall := hw j a.call (Or.inr ⟨a, List.mem_of_getElem? ha, rfl⟩) a.reply (w.client j).state
    have hstate : ((w.received P j n a).client j).state =
        P.receive a.call.request a.reply (w.client j).state := World.received_state
    rw [← hstate] at hcall
    rcases World.resume_inFlight hcall hr.symm hc with hold | ⟨rfl, ht, hok, hcall⟩
    · exact Or.inl (World.inFlight_of_received hold)
    · rw [hstate] at hok
      rw [ht]
      exact Or.inr ⟨_, .deliver ha, hok, hcall⟩

theorem World.CallbacksAllowed.step (hw : w.CallbacksAllowed P ok)
    (hinput : ∀ u s, CallsAllowed P ok (P.handler u) [] s s) (hs : Step P w e w') :
    w'.CallbacksAllowed P ok := by
  intro i c hc
  rcases hw.inFlight hinput hs hc with hold | ⟨_, -, -, hcall⟩
  · exact hw i c hold
  · exact hcall

end Step

end CardPang.CallbackProgram
