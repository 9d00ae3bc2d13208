import CardPang.CallbackProgram

/-!
# What the programs leave of a view

A view of a client's state that every action and every answer changes in its own way. What
a client has been through decides it, if each program leaves what its input or its answer
says.
-/
namespace CardPang.CallbackProgram
open LabelledRun

variable {Req : Type} {Reply : Req → Type} {A σ S O U V ι : Type}

/-- What starts a program on a client. -/
inductive Moment (Reply : Req → Type) (U : Type)
  | input (u : U)
  | answer (x : Σ r, Reply r)

/-- `view` is what is looked at; `input` and `callback` say what the program leaves of it that
an input or an answer starts. -/
structure View (P : Platform Reply A σ S O U) (V : Type) where
  view : σ → V
  act : A → V → V
  receive : (Σ r, Reply r) → V → V
  input : U → V → V
  callback : (Σ r, Reply r) → V → V
  view_act : ∀ a s, view (P.act a s) = act a (view s)
  view_receive : ∀ r reply s, view (P.receive r reply s) = receive ⟨r, reply⟩ (view s)

variable {P : Platform Reply A σ S O U} (F : View P V)

def View.after (v : V) : Moment Reply U → V
  | .input u => F.input u v
  | .answer x => F.callback x (F.receive x v)

/-- From the first view the program leads to the second, and so do the callbacks of its calls
from any view, as their answers say. -/
def Leaves : Prog Reply A σ → V → V → Prop
  | .done, v, v' => v' = v
  | .trap, _, _ => True
  | .act a p, v, v' => Leaves p (F.act a v) v'
  | .read k, v, v' => ∀ s, F.view s = v → Leaves (k s) v v'
  | .call r k p, v, v' =>
    (∀ reply v₁, Leaves (k reply) v₁ (F.callback ⟨r, reply⟩ v₁)) ∧ Leaves p v v'

def Call.LeavesView (c : Call Reply A σ) : Prop :=
  ∀ reply v, Leaves F (c.callback reply) v (F.callback ⟨c.request, reply⟩ v)

def World.LeavesView (w : World Reply A σ S ι) : Prop :=
  ∀ i c, (w.client i).InFlight c → c.LeavesView F

variable {F} {p q : Prog Reply A σ} {v v' v₁ : V}

theorem Leaves.andThen (hp : Leaves F p v v₁) (hq : Leaves F q v₁ v') :
    Leaves F (p.andThen q) v v' := by
  induction p generalizing v with
  | done =>
    obtain rfl : v₁ = v := hp
    exact hq
  | trap => trivial
  | act a p ih => exact ih hp
  | read k ih => exact fun s hs => ih s (hp s hs)
  | call r k p _ ih => exact ⟨hp.1, ih hp.2⟩

theorem Leaves.exec {t : List (Σ r, Reply r)} {s s' : σ} {cs : List (Call Reply A σ)}
    (h : Leaves F p (F.view s) v') (he : p.exec P.act t s = some (s', cs)) :
    F.view s' = v' ∧ ∀ c ∈ cs, c.LeavesView F := by
  induction p generalizing s s' cs with
  | done =>
    cases he
    exact ⟨h.symm, by simp⟩
  | trap => cases he
  | act a p ih =>
    rw [Leaves, ← F.view_act] at h
    exact ih h he
  | read k ih => exact ih s (h s rfl) he
  | call r k p _ ih =>
    obtain ⟨⟨s₁, cs₁⟩, hx, hcs⟩ := Option.map_eq_some_iff.mp he
    cases hcs
    obtain ⟨hview, hcalls⟩ := ih h.2 hx
    exact ⟨hview, List.forall_mem_cons.mpr ⟨h.1, hcalls⟩⟩

section Run

variable [DecidableEq ι] {w w' w₀ : World Reply A σ S ι} {e : Event O U ι}
  {es : List (Event O U ι)} {i j : ι} {t : List (Σ r, Reply r)} {ms : List (Moment Reply U)}

/-- What a step starts on a client. -/
def moments (i : ι) (w : World Reply A σ S ι) (e : Event O U ι) (_ : World Reply A σ S ι) :
    List (Moment Reply U) :=
  match e with
  | .input j u => if j = i then [.input u] else []
  | .serve _ _ _ => []
  | .deliver j n =>
    if j = i then ((w.client i).arrived[n]?.map fun a => .answer a.answer).toList else []

theorem World.LeavesView.resume {v : World Reply A σ S ι} (hv : v.LeavesView F)
    (hp : Leaves F p (F.view (v.client j).state) v') (h : v.resume P j t p = some w') :
    w'.LeavesView F ∧ F.view (w'.client j).state = v' ∧
      ∀ i, i ≠ j → (w'.client i).state = (v.client i).state := by
  obtain ⟨⟨s', cs⟩, hexec, rfl⟩ := Option.map_eq_some_iff.mp h
  obtain ⟨hview, hcalls⟩ := hp.exec hexec
  refine ⟨?_, ?_, ?_⟩
  · intro i c hc
    by_cases hi : i = j
    · subst hi
      rw [World.set_client_self] at hc
      rcases hc with hc | hc
      · rcases List.mem_append.mp hc with hc | hc
        · exact hv i c (Or.inl hc)
        · exact hcalls c hc
      · exact hv i c (Or.inr hc)
    · rw [v.set_client_of_ne hi] at hc
      exact hv i c hc
  · rw [World.set_client_self]
    exact hview
  · intro i hi
    rw [v.set_client_of_ne hi]

/-- A step changes the view of a client as what it starts there says. -/
theorem World.LeavesView.step (hw : w.LeavesView F)
    (hinput : ∀ u v, Leaves F (P.handler u) v (F.input u v)) (hs : Step P w e w') :
    w'.LeavesView F ∧ F.view (w'.client i).state =
      (moments i w e w').foldl F.after (F.view (w.client i).state) := by
  unfold Step at hs
  generalize hr : some w' = r at hs
  cases hs with
  | input j u =>
    obtain ⟨hleaves, hview, hothers⟩ := hw.resume (hinput u _) hr.symm
    refine ⟨hleaves, ?_⟩
    by_cases hj : j = i
    · subst hj
      simp only [moments, if_true, List.foldl_cons, List.foldl_nil]
      exact hview
    · simp only [moments, hj, if_false, List.foldl_nil]
      rw [hothers i (Ne.symm hj)]
  | @serve j n o c answer hn _ =>
    obtain rfl := Option.some.inj hr
    refine ⟨?_, by rw [World.served_state]; rfl⟩
    exact fun i c' hc => hw i c' (World.inFlight_of_served hn hc)
  | @deliver j n a ha =>
    have hreceived : (w.received P j n a).LeavesView F :=
      fun i c hc => hw i c (World.inFlight_of_received hc)
    have hcall := hw j a.call (Or.inr ⟨a, List.mem_of_getElem? ha, rfl⟩) a.reply
      (F.view ((w.received P j n a).client j).state)
    obtain ⟨hleaves, hview, hothers⟩ := hreceived.resume hcall hr.symm
    refine ⟨hleaves, ?_⟩
    by_cases hj : j = i
    · subst hj
      simp only [moments, if_true, ha, Option.map_some, Option.toList_some, List.foldl_cons,
        List.foldl_nil]
      rw [hview, World.received_state, F.view_receive]
      rfl
    · simp only [moments, hj, if_false, List.foldl_nil]
      rw [hothers i (Ne.symm hj), World.received_client_of_ne (Ne.symm hj)]

/-- What a client has been through decides its view. -/
theorem view_of_past (hw : w₀.LeavesView F)
    (hinput : ∀ u v, Leaves F (P.handler u) v (F.input u v))
    (h : Observed (Step P) (moments i) w₀ es w ms) :
    F.view (w.client i).state = ms.foldl F.after (F.view (w₀.client i).state) :=
  h.fold (I := fun w => w.LeavesView F) (g := fun w => F.view (w.client i).state) hw
    (fun _ _ _ ht hs => (ht.step (i := i) hinput hs).1) fun _ _ _ ht hs => (ht.step hinput hs).2

end Run

end CardPang.CallbackProgram
