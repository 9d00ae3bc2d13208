import CardPang.CallbackProgram

/-! A single client that no user touches while its calls are answered. Such a run is
the list of the server's outcomes: each call is served, then its callback runs. -/
namespace CardPang.CallbackProgram
open LabelledRun

variable {Req : Type} {Reply : Req → Type} {A σ S O U : Type}

def sole (server : S) (k : Client Reply A σ) : World Reply A σ S Unit := ⟨server, fun _ => k⟩

/-- The outcomes of the calls that the events serve. -/
def outcomes : List (Event O U Unit) → List O :=
  List.filterMap fun
    | .serve _ _ o => some o
    | _ => none

def NoInput (es : List (Event O U Unit)) : Prop := ∀ e ∈ es, ∀ u, e ≠ .input () u

variable {P : Platform Reply A σ S O U} {b : S} {k : Client Reply A σ} {s : σ}
  {w : World Reply A σ S Unit} {e : Event O U Unit} {es : List (Event O U Unit)}
  {c : Call Reply A σ}

theorem sole_set (b : S) (k k' : Client Reply A σ) : (sole b k).set () k' = sole b k' := by
  simp [sole, World.set]
  rfl

/-- A single client with nothing in flight is its state. -/
theorem eq_sole_start (h : (w.client ()).Quiet) :
    w = sole w.server (Client.start (w.client ()).state) := by
  obtain ⟨server, client⟩ := w
  have hclient : client = fun _ => Client.start (client ()).state := by
    funext i
    obtain ⟨hwaiting, harrived⟩ := h
    change client () = ⟨(client ()).state, [], []⟩
    rw [← hwaiting, ← harrived]
  rw [hclient]
  rfl

theorem sole_served {n : ℕ} {answer : S × Option (Reply c.request)} :
    (sole b k).served () n c answer = sole answer.1 (k.answered n c answer.2) := by
  rw [World.served, sole_set]
  rfl

theorem NoInput.tail (h : NoInput (e :: es)) : NoInput es :=
  fun e' he' => h e' (List.mem_cons_of_mem e he')

/-- What a resumed program has done on a single client. -/
theorem sole_resume {t : List (Σ r, Reply r)} {p : Prog Reply A σ}
    (h : (sole b k).resume P () t p = some w) :
    ∃ s' cs, p.exec P.act t k.state = some (s', cs) ∧
      w = sole b { k with state := s', waiting := k.waiting ++ cs } := by
  obtain ⟨x, hx, rfl⟩ := Option.map_eq_some_iff.mp h
  exact ⟨x.1, x.2, hx, sole_set b k _⟩

theorem sole_input {u : U} (h : Step P (sole b k) (.input () u) w) :
    ∃ s' cs, (P.handler u).exec P.act [] k.state = some (s', cs) ∧
      w = sole b { k with state := s', waiting := k.waiting ++ cs } := by
  unfold Step at h
  generalize hr : some w = r at h
  cases h with
  | input _ _ => exact sole_resume hr.symm

/-- With nothing in flight nothing happens. -/
theorem sole_idle (hrun : Run (Step P) (sole b (Client.start s)) es w) (hes : NoInput es) :
    es = [] ∧ w = sole b (Client.start s) := by
  cases es with
  | nil => exact ⟨rfl, hrun.nil_eq⟩
  | cons e es =>
    obtain ⟨w₁, hs, -⟩ := hrun.uncons
    unfold Step at hs
    generalize some w₁ = r at hs
    cases hs with
    | input _ u => exact absurd rfl (hes _ List.mem_cons_self u)
    | serve hc _ => cases hc
    | deliver ha => cases ha

theorem sole_deliver {reply : Reply c.request}
    (hrun : Run (Step P) (sole b ⟨s, [], [⟨c, reply⟩]⟩) es w) (hes : NoInput es)
    (hq : (w.client ()).Quiet) :
    ∃ s' cs es', (c.callback reply).exec P.act (c.trail ++ [⟨c.request, reply⟩])
        (P.receive c.request reply s) = some (s', cs) ∧ es = .deliver () 0 :: es' ∧
      Run (Step P) (sole b ⟨s', cs, []⟩) es' w := by
  cases es with
  | nil =>
    obtain rfl := hrun.nil_eq
    cases hq.2
  | cons e es =>
    obtain ⟨w₁, hs, hrest⟩ := hrun.uncons
    unfold Step at hs
    generalize hr : some w₁ = r at hs
    cases hs with
    | input _ u => exact absurd rfl (hes _ List.mem_cons_self u)
    | serve hc _ => cases hc
    | @deliver i n a ha =>
      obtain ⟨rfl, rfl⟩ : n = 0 ∧ a = ⟨c, reply⟩ := by
        cases n with
        | zero => exact ⟨rfl, (Option.some.inj ha).symm⟩
        | succ n => cases ha
      rw [World.received, sole_set] at hr
      obtain ⟨s', cs, hexec, rfl⟩ := sole_resume hr.symm
      exact ⟨s', cs, es, hexec, rfl, hrest⟩

/-- The only call in flight is served; without an answer the run is over, with one
its callback runs next. -/
theorem sole_call (hrun : Run (Step P) (sole b ⟨s, [c], []⟩) es w) (hes : NoInput es)
    (hq : (w.client ()).Quiet) :
    ∃ o b', (P.serve o c.request [c.request] b = some (b', none) ∧ outcomes es = [o] ∧
        w = sole b' (Client.start s)) ∨
      ∃ reply s' cs es', P.serve o c.request [c.request] b = some (b', some reply) ∧
        (c.callback reply).exec P.act (c.trail ++ [⟨c.request, reply⟩])
          (P.receive c.request reply s) = some (s', cs) ∧
        outcomes es = o :: outcomes es' ∧ NoInput es' ∧
        Run (Step P) (sole b' ⟨s', cs, []⟩) es' w := by
  cases es with
  | nil =>
    obtain rfl := hrun.nil_eq
    cases hq.1
  | cons e es =>
    obtain ⟨w₁, hs, hrest⟩ := hrun.uncons
    unfold Step at hs
    generalize hr : some w₁ = r at hs
    cases hs with
    | input _ u => exact absurd rfl (hes _ List.mem_cons_self u)
    | deliver ha => cases ha
    | @serve i n o c' answer hc hserve =>
      obtain ⟨rfl, rfl⟩ : n = 0 ∧ c' = c := by
        cases n with
        | zero => exact ⟨rfl, (Option.some.inj hc).symm⟩
        | succ n => cases hc
      obtain rfl := Option.some.inj hr
      rw [sole_served] at hrest
      obtain ⟨b', answer⟩ := answer
      refine ⟨o, b', ?_⟩
      cases answer with
      | none =>
        obtain ⟨rfl, rfl⟩ := sole_idle hrest hes.tail
        exact Or.inl ⟨hserve, rfl, rfl⟩
      | some reply =>
        obtain ⟨s', cs, es', hexec, rfl, hlater⟩ := sole_deliver hrest hes.tail hq
        exact Or.inr ⟨reply, s', cs, es', hserve, hexec, rfl, hes.tail.tail, hlater⟩

end CardPang.CallbackProgram
