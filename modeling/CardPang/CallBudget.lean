import CardPang.CallbackProgram

/-!
# How many calls a program can make

A program has a budget if, whatever is answered, it and all callbacks it leaves
behind make at most that many calls. A client whose calls have budgets owes two
steps for each call still to come, one to serve it and one to deliver its answer,
and every such step pays one of them back. So a client that no user touches comes
to rest.
-/
namespace CardPang.CallbackProgram
open LabelledRun

variable {Req : Type} {Reply : Req → Type} {A σ S O U ι : Type}

/-- At most `n` calls, those of the callbacks included. -/
def Within : Prog Reply A σ → ℕ → Prop
  | .done, _ => True
  | .trap, _ => True
  | .act _ p, n => Within p n
  | .read k, n => ∀ s, Within (k s) n
  | .call _ k p, n => ∃ b m, b + 1 + m ≤ n ∧ (∀ reply, Within (k reply) b) ∧ Within p m

theorem Within.mono {p : Prog Reply A σ} {n m : ℕ} (h : Within p n) (hle : n ≤ m) :
    Within p m := by
  induction p generalizing n m with
  | done => trivial
  | trap => trivial
  | act a p ih => exact ih h hle
  | read k ih => exact fun s => ih s (h s) hle
  | call r k p _ _ =>
    obtain ⟨b, l, hbl, hk, hp⟩ := h
    exact ⟨b, l, hbl.trans hle, hk, hp⟩

theorem Within.andThen {p q : Prog Reply A σ} {n m : ℕ} (hp : Within p n) (hq : Within q m) :
    Within (p.andThen q) (n + m) := by
  induction p generalizing n with
  | done => exact hq.mono (Nat.le_add_left m n)
  | trap => trivial
  | act a p ih => exact ih hp
  | read k ih => exact fun s => ih s (hp s)
  | call r k p _ ih =>
    obtain ⟨b, l, hbl, hk, hl⟩ := hp
    exact ⟨b, l + m, by omega, hk, ih hl⟩

def Call.Bounded (c : Call Reply A σ) : Prop := ∃ b, ∀ reply, Within (c.callback reply) b

open Classical in
/-- The least budget of the call's callback. -/
noncomputable def Call.budget (c : Call Reply A σ) : ℕ :=
  if h : c.Bounded then Nat.find h else 0

theorem Call.Bounded.within {c : Call Reply A σ} (h : c.Bounded) (reply : Reply c.request) :
    Within (c.callback reply) c.budget := by
  classical
  rw [Call.budget, dif_pos h]
  exact Nat.find_spec h reply

theorem Call.budget_le {c : Call Reply A σ} {b : ℕ}
    (h : ∀ reply, Within (c.callback reply) b) : c.budget ≤ b := by
  classical
  rw [Call.budget, dif_pos ⟨b, h⟩]
  exact Nat.find_min' _ h

/-- The calls that are still to come out of the calls made. -/
noncomputable def upcoming (cs : List (Call Reply A σ)) : ℕ :=
  (cs.map fun c => c.budget + 1).sum

/-- What a program with a budget has made when it has run. -/
theorem Within.exec {p : Prog Reply A σ} {n : ℕ} {act : A → σ → σ} {t : List (Σ r, Reply r)}
    {s s' : σ} {cs : List (Call Reply A σ)} (h : Within p n)
    (he : p.exec act t s = some (s', cs)) : (∀ c ∈ cs, c.Bounded) ∧ upcoming cs ≤ n := by
  induction p generalizing n s cs with
  | done =>
    cases he
    exact ⟨by simp, Nat.zero_le n⟩
  | trap => cases he
  | act a p ih => exact ih h he
  | read k ih => exact ih s (h s) he
  | call r k p _ ih =>
    obtain ⟨b, m, hbm, hk, hp⟩ := h
    obtain ⟨x, hx, hcs⟩ := Option.map_eq_some_iff.mp he
    obtain ⟨rfl, rfl⟩ := Prod.mk.inj hcs
    obtain ⟨hbounded, hle⟩ := ih hp hx
    refine ⟨List.forall_mem_cons.mpr ⟨⟨b, hk⟩, hbounded⟩, ?_⟩
    have hhead : Call.budget (⟨r, k, t⟩ : Call Reply A σ) ≤ b := Call.budget_le hk
    simp only [upcoming, List.map_cons, List.sum_cons] at hle ⊢
    omega

/-- The steps that a client still owes: two for a call that waits, one for an answer. -/
noncomputable def Client.owed (k : Client Reply A σ) : ℕ :=
  (k.waiting.map fun c => 2 * c.budget + 2).sum +
    (k.arrived.map fun a => 2 * a.call.budget + 1).sum

theorem length_mul_le_sum {α : Type*} {f : α → ℕ} {n : ℕ} (h : ∀ a, n ≤ f a) (l : List α) :
    n * l.length ≤ (l.map f).sum := by
  induction l with
  | nil => simp
  | cons a l ih =>
    have ha := h a
    rw [List.length_cons, List.map_cons, List.sum_cons, Nat.mul_succ]
    omega

theorem Client.length_le_owed (k : Client Reply A σ) :
    2 * k.waiting.length + k.arrived.length ≤ k.owed := by
  have hwaiting := length_mul_le_sum (n := 2) (f := fun c : Call Reply A σ => 2 * c.budget + 2)
    (fun c => by omega) k.waiting
  have harrived := length_mul_le_sum (n := 1)
    (f := fun a : Arrival Reply A σ => 2 * a.call.budget + 1) (fun a => by omega) k.arrived
  rw [Client.owed]
  omega

def Client.Bounded (k : Client Reply A σ) : Prop := ∀ c, k.InFlight c → c.Bounded

theorem sum_map_eraseIdx {α : Type*} (f : α → ℕ) {l : List α} {n : ℕ} {a : α}
    (h : l[n]? = some a) : ((l.eraseIdx n).map f).sum + f a = (l.map f).sum := by
  obtain ⟨hn, rfl⟩ := List.getElem?_eq_some_iff.mp h
  have hperm := (List.getElem_cons_eraseIdx_perm hn).map f
  rw [← hperm.sum_eq, List.map_cons, List.sum_cons, Nat.add_comm]

theorem sum_map_double (cs : List (Call Reply A σ)) :
    (cs.map fun c => 2 * c.budget + 2).sum = 2 * upcoming cs := by
  induction cs with
  | nil => rfl
  | cons c cs ih =>
    simp only [upcoming, List.map_cons, List.sum_cons] at ih ⊢
    omega

section Step

variable {P : Platform Reply A σ S O U} {w w' : World Reply A σ S ι} {e : Event O U ι}

/-- The client on which an event happens. -/
def Event.client : Event O U ι → ι
  | .input i _ => i
  | .serve i _ _ => i
  | .deliver i _ => i

variable [DecidableEq ι]

/-- The event serves a call of the client or delivers an answer to it. -/
def Event.answersAt (i : ι) : Event O U ι → Bool
  | .input _ _ => false
  | .serve j _ _ => j = i
  | .deliver j _ => j = i

theorem World.resume_client_of_ne {i j : ι} {t : List (Σ r, Reply r)} {p : Prog Reply A σ}
    (h : w.resume P i t p = some w') (hj : j ≠ i) : w'.client j = w.client j := by
  obtain ⟨x, -, rfl⟩ := Option.map_eq_some_iff.mp h
  exact w.set_client_of_ne hj _

theorem Step.client_of_ne {i : ι} (h : Step P w e w') (hi : i ≠ e.client) :
    w'.client i = w.client i := by
  unfold Step at h
  generalize hr : some w' = r at h
  cases h with
  | input j u => exact World.resume_client_of_ne hr.symm hi
  | serve hc hs =>
    obtain rfl := Option.some.inj hr
    exact World.served_client_of_ne hi
  | @deliver j n a ha =>
    rw [World.resume_client_of_ne hr.symm hi]
    exact World.received_client_of_ne hi

/-- What a delivery leaves on its client. -/
theorem Step.deliver_full {i : ι} {n : ℕ} (h : Step P w (.deliver i n) w') :
    ∃ a s' cs, (w.client i).arrived[n]? = some a ∧
      (a.call.callback a.reply).exec P.act a.trail
        (P.receive a.call.request a.reply (w.client i).state) = some (s', cs) ∧
      w'.client i = ⟨s', (w.client i).waiting ++ cs, (w.client i).arrived.eraseIdx n⟩ := by
  unfold Step at h
  generalize hr : some w' = r at h
  cases h with
  | @deliver _ _ a ha =>
    obtain ⟨s', cs, hexec, hclient⟩ := World.resume_client hr.symm
    rw [World.received_state] at hexec
    refine ⟨a, s', cs, ha, hexec, ?_⟩
    rw [hclient]
    simp [World.received]

/-- An input adds at most the calls of its handler. -/
theorem Step.owed_input {i : ι} {u : U} {n : ℕ} (hn : Within (P.handler u) n)
    (hb : (w.client i).Bounded) (h : Step P w (.input i u) w') :
    (w'.client i).Bounded ∧ (w'.client i).owed ≤ (w.client i).owed + 2 * n := by
  obtain ⟨s', cs, hexec, hclient⟩ := h.input_client
  obtain ⟨hbounded, hle⟩ := hn.exec hexec
  rw [hclient]
  constructor
  · rintro c (hc | hc)
    · rcases List.mem_append.mp hc with hc | hc
      · exact hb c (Or.inl hc)
      · exact hbounded c hc
    · exact hb c (Or.inr hc)
  · have hsum := sum_map_double cs
    simp only [Client.owed, List.map_append, List.sum_append]
    omega

/-- To serve a call pays one step back. -/
theorem Step.owed_serve {i : ι} {n : ℕ} {o : O} (hb : (w.client i).Bounded)
    (h : Step P w (.serve i n o) w') :
    (w'.client i).Bounded ∧ (w'.client i).owed + 1 ≤ (w.client i).owed := by
  obtain ⟨c, answer, hc, -, hclient⟩ := h.serve_client
  have hmem : c ∈ (w.client i).waiting := List.mem_of_getElem? hc
  have herase := sum_map_eraseIdx (fun c : Call Reply A σ => 2 * c.budget + 2) hc
  rw [hclient]
  cases hanswer : answer.2 with
  | none =>
    refine ⟨?_, ?_⟩
    · rintro d (hd | hd)
      · exact hb d (Or.inl (List.mem_of_mem_eraseIdx hd))
      · exact hb d (Or.inr hd)
    · simp only [Client.owed, Client.answered]
      omega
  | some reply =>
    refine ⟨?_, ?_⟩
    · rintro d (hd | ⟨a, ha, rfl⟩)
      · exact hb d (Or.inl (List.mem_of_mem_eraseIdx hd))
      · rcases List.mem_append.mp ha with ha | ha
        · exact hb a.call (Or.inr ⟨a, ha, rfl⟩)
        · obtain rfl := List.mem_singleton.mp ha
          exact hb c (Or.inl hmem)
    · simp only [Client.owed, Client.answered, List.map_append, List.sum_append, List.map_cons,
        List.map_nil, List.sum_cons, List.sum_nil]
      omega

/-- To deliver an answer pays one step back, whatever its callback calls. -/
theorem Step.owed_deliver {i : ι} {n : ℕ} (hb : (w.client i).Bounded)
    (h : Step P w (.deliver i n) w') :
    (w'.client i).Bounded ∧ (w'.client i).owed + 1 ≤ (w.client i).owed := by
  obtain ⟨a, s', cs, ha, hexec, hclient⟩ := h.deliver_full
  have hcall : a.call.Bounded := hb a.call (Or.inr ⟨a, List.mem_of_getElem? ha, rfl⟩)
  obtain ⟨hbounded, hle⟩ := (hcall.within a.reply).exec hexec
  have herase := sum_map_eraseIdx (fun a : Arrival Reply A σ => 2 * a.call.budget + 1) ha
  rw [hclient]
  constructor
  · rintro c (hc | ⟨b, hmem, rfl⟩)
    · rcases List.mem_append.mp hc with hc | hc
      · exact hb c (Or.inl hc)
      · exact hbounded c hc
    · exact hb b.call (Or.inr ⟨b, List.mem_of_mem_eraseIdx hmem, rfl⟩)
  · have hsum := sum_map_double cs
    simp only [Client.owed, List.map_append, List.sum_append]
    omega

end Step

section Run

variable [DecidableEq ι] {P : Platform Reply A σ S O U} {w w₀ : World Reply A σ S ι}
  {es : List (Event O U ι)} {cost : U → ℕ} {i : ι}

/-- What the inputs of a client may cost. -/
def inputCost (cost : U → ℕ) (i : ι) : Event O U ι → ℕ
  | .input j u => if j = i then cost u else 0
  | .serve _ _ _ => 0
  | .deliver _ _ => 0

/-- Every step of a client is paid for by an input before it. -/
theorem owed_run (hcost : ∀ u, Within (P.handler u) (cost u)) (hb : (w₀.client i).Bounded)
    (hrun : Run (Step P) w₀ es w) :
    (w.client i).Bounded ∧
      (w.client i).owed + es.countP (Event.answersAt i) ≤
        (w₀.client i).owed + 2 * (es.map (inputCost cost i)).sum := by
  refine Run.induction (I := fun es w => (w.client i).Bounded ∧
    (w.client i).owed + es.countP (Event.answersAt i) ≤
      (w₀.client i).owed + 2 * (es.map (inputCost cost i)).sum) ⟨hb, by simp⟩ ?_ hrun
  rintro es t e u - ⟨hbounded, hle⟩ hs
  rw [List.countP_append, List.map_append, List.sum_append]
  by_cases hi : i = e.client
  · cases e with
    | input j v =>
      obtain rfl : i = j := hi
      obtain ⟨hnew, howed⟩ := hs.owed_input (hcost v) hbounded
      refine ⟨hnew, ?_⟩
      simp only [List.countP_singleton, Event.answersAt, List.map_cons, List.map_nil,
        List.sum_singleton, inputCost, if_true, Bool.false_eq_true, if_false]
      omega
    | serve j n o =>
      obtain rfl : i = j := hi
      obtain ⟨hnew, howed⟩ := hs.owed_serve hbounded
      refine ⟨hnew, ?_⟩
      simp only [List.countP_singleton, Event.answersAt, List.map_cons, List.map_nil,
        List.sum_singleton, inputCost, decide_true, if_true]
      omega
    | deliver j n =>
      obtain rfl : i = j := hi
      obtain ⟨hnew, howed⟩ := hs.owed_deliver hbounded
      refine ⟨hnew, ?_⟩
      simp only [List.countP_singleton, Event.answersAt, List.map_cons, List.map_nil,
        List.sum_singleton, inputCost, decide_true, if_true]
      omega
  · have hanswers : Event.answersAt i e = false := by
      cases e <;> simp [Event.answersAt, Event.client] at hi ⊢ <;> exact Ne.symm hi
    rw [hs.client_of_ne hi, List.countP_singleton, hanswers]
    refine ⟨hbounded, ?_⟩
    simp only [Bool.false_eq_true, if_false]
    omega

/-- An answer that has come or a call that waits can always be worked off. -/
theorem exists_answering_step {actOk : List (Σ r, Reply r) → A → Prop}
    {callOk : List (Σ r, Reply r) → Req → Prop} (hw : w.Conforming actOk callOk)
    (hserve : ∀ r rs b, ∃ o answer, P.serve o r rs b = some answer) (hbusy : ¬ (w.client i).Quiet) :
    ∃ e w', Event.answersAt i e = true ∧ Step P w e w' ∧ w'.Conforming actOk callOk := by
  cases harrived : (w.client i).arrived with
  | cons a rest =>
    have ha : (w.client i).arrived[0]? = some a := by rw [harrived]; rfl
    obtain ⟨w', hsome, heffect⟩ := hw.outcome (P := P) (e := .deliver i 0) (by simp) (Outcome.deliver ha)
    refine ⟨.deliver i 0, w', by simp [Event.answersAt], ?_, heffect.conforming hw⟩
    rw [Step, ← hsome]
    exact Outcome.deliver ha
  | nil =>
    cases hwaiting : (w.client i).waiting with
    | nil => exact absurd ⟨hwaiting, harrived⟩ hbusy
    | cons c rest =>
      have hc : (w.client i).waiting[0]? = some c := by rw [hwaiting]; rfl
      obtain ⟨o, answer, hanswer⟩ := hserve c.request (w.client i).requests w.server
      have hs : Step P w (.serve i 0 o) (w.served i 0 c answer) := Outcome.serve hc hanswer
      obtain ⟨w', hsome, heffect⟩ := hw.outcome (e := .serve i 0 o) (by simp) hs
      obtain rfl := Option.some.inj hsome
      exact ⟨.serve i 0 o, _, by simp [Event.answersAt], hs, heffect.conforming hw⟩

/-- A client that no user touches can come to rest, by steps of its own alone. -/
theorem exists_settling_run {actOk : List (Σ r, Reply r) → A → Prop}
    {callOk : List (Σ r, Reply r) → Req → Prop} (hw : w.Conforming actOk callOk)
    (hserve : ∀ r rs b, ∃ o answer, P.serve o r rs b = some answer) (hb : (w.client i).Bounded) :
    ∃ es w', Run (Step P) w es w' ∧ (∀ e ∈ es, Event.answersAt i e = true) ∧
      (w'.client i).Quiet := by
  generalize hn : (w.client i).owed = n
  induction n using Nat.strong_induction_on generalizing w with
  | _ n ih =>
    by_cases hquiet : (w.client i).Quiet
    · exact ⟨[], w, Run.nil w, by simp, hquiet⟩
    · obtain ⟨e, w₁, he, hs, hw₁⟩ := exists_answering_step hw hserve hquiet
      have hpaid : (w₁.client i).Bounded ∧ (w₁.client i).owed + 1 ≤ (w.client i).owed := by
        cases e with
        | input j u => cases he
        | serve j m o =>
          obtain rfl : j = i := of_decide_eq_true he
          exact hs.owed_serve hb
        | deliver j m =>
          obtain rfl : j = i := of_decide_eq_true he
          exact hs.owed_deliver hb
      obtain ⟨es, w', hrun, hes, hrest⟩ := ih _ (by omega) hw₁ hpaid.1 rfl
      exact ⟨e :: es, w', Run.cons hs hrun, List.forall_mem_cons.mpr ⟨he, hes⟩, hrest⟩

end Run

end CardPang.CallbackProgram
